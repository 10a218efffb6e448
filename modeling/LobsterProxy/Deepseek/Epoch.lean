import LobsterProxy.Base.Members
import Mathlib.Data.Option.Basic

/-! The reasoning epoch of a chat body: it starts at the newest user message, and what
lies before it loses its reasoning. -/

namespace Lobster.Deepseek

section Rposition
variable {α : Type} {p : α → Bool}

/-- `Iterator::rposition`: the index of the last element that satisfies `p`. -/
def rposition (p : α → Bool) : List α → Option Nat
  | [] => none
  | a :: as => ((rposition p as).map (· + 1)).or (if p a then some 0 else none)

theorem rposition_eq_none {as : List α} : rposition p as = none ↔ ∀ a ∈ as, p a = false := by
  induction as with
  | nil => simp [rposition]
  | cons a as ih => simp [rposition, ih, and_comm]

theorem rposition_append (as bs : List α) :
    rposition p (as ++ bs) = ((rposition p bs).map (· + as.length)).or (rposition p as) := by
  induction as with
  | nil => simp [rposition]
  | cons a as ih =>
    rw [List.cons_append, rposition, ih, rposition]
    cases rposition p bs with
    | none => simp
    | some i => simp [Nat.add_assoc]

theorem rposition_lt {as : List α} {i : Nat} (h : rposition p as = some i) : i < as.length := by
  induction as generalizing i with
  | nil => cases h
  | cons a as ih =>
    rw [rposition] at h
    cases hlast : rposition p as with
    | some j =>
      rw [hlast] at h
      cases h
      exact Nat.succ_lt_succ (ih hlast)
    | none =>
      rw [hlast, Option.map_none, Option.none_or] at h
      split_ifs at h
      cases h
      exact Nat.succ_pos _

theorem rposition_congr {as bs : List α} (h : as.map p = bs.map p) :
    rposition p as = rposition p bs := by
  induction as generalizing bs with
  | nil =>
    rw [List.map_nil, eq_comm, List.map_eq_nil_iff] at h
    rw [h]
  | cons a as ih =>
    obtain ⟨b, bs, rfl, hb, hbs⟩ := List.map_eq_cons_iff.mp h.symm
    rw [rposition, rposition, ih hbs.symm, hb]

/-- An element that `p` does not hold of lies before the boundary: the last element that it
holds of, or the end when it holds of none. -/
theorem lt_rposition_iff {before after : List α} {a : α} (ha : p a = false) :
    before.length < (rposition p (before ++ a :: after)).getD (before ++ a :: after).length ↔
      (∃ b ∈ after, p b = true) ∨ ∀ b ∈ before ++ a :: after, p b = false := by
  rw [rposition_append, rposition, ha, if_neg Bool.false_ne_true, Option.or_none]
  cases hafter : rposition p after with
  | some i =>
    have hsome : ∃ b ∈ after, p b = true := by
      by_contra hnot
      push Not at hnot
      rw [rposition_eq_none.mpr fun b hb => Bool.eq_false_iff.mpr (hnot b hb)] at hafter
      cases hafter
    simp only [hsome, true_or, iff_true, Option.map_some, Option.some_or, Option.getD_some]
    omega
  | none =>
    have hnone := rposition_eq_none.mp hafter
    have hnot : ¬ ∃ b ∈ after, p b = true := by
      rintro ⟨b, hb, htrue⟩
      rw [hnone b hb] at htrue
      cases htrue
    rw [Option.map_none, Option.map_none, Option.none_or, or_iff_right hnot]
    cases hbefore : rposition p before with
    | some i =>
      have hlt := rposition_lt hbefore
      have hfound : ¬ ∀ b ∈ before ++ a :: after, p b = false := by
        intro hall
        rw [rposition_eq_none.mpr fun b hb => hall b (List.mem_append_left _ hb)] at hbefore
        cases hbefore
      simp only [hfound, iff_false, Option.getD_some]
      omega
    | none =>
      have hall : ∀ b ∈ before ++ a :: after, p b = false := by
        intro b hb
        rcases List.mem_append.mp hb with hb | hb
        · exact rposition_eq_none.mp hbefore b hb
        · rcases List.mem_cons.mp hb with rfl | hb
          · exact ha
          · exact hnone b hb
      have hlt : before.length < (before ++ a :: after).length := by simp
      exact ⟨fun _ => hall, fun _ => hlt⟩

end Rposition

def isUserMessage (message : Json) : Bool := message.getStr? "role" = some "user"

def isAssistantMessage (message : Json) : Bool := message.getStr? "role" = some "assistant"

def reasoningEpochBoundary (messages : List Json) : Nat :=
  (rposition isUserMessage messages).getD messages.length

def stripReasoning (serde : Serde) (message : Json) : Json × Nat :=
  match message, message.get? "reasoning_content" with
  | .obj fields, some reasoning =>
    if isAssistantMessage message then
      (.obj (Fields.swapRemove "reasoning_content" fields), (serde.toString reasoning).utf8ByteSize)
    else (message, 0)
  | _, _ => (message, 0)

def stripHistoricalReasoning (serde : Serde) (body : Fields) : Fields × Nat :=
  match (body.get? "messages").bind Json.asArray with
  | none => (body, 0)
  | some messages =>
    let boundary := reasoningEpochBoundary messages
    let stripped := (messages.take boundary).map (stripReasoning serde)
    (body.insert "messages" (.arr (stripped.map Prod.fst ++ messages.drop boundary)),
      (stripped.map Prod.snd).sum)

/-- A user message with any content beyond tool results. -/
def isHumanRequest (message : Json) : Bool :=
  if message.getStr? "role" ≠ some "user" then false
  else match message.get? "content" with
    | some (.str text) => text ≠ ""
    | some (.arr blocks) => blocks.any fun block => block.getStr? "type" ≠ some "tool_result"
    | _ => false

/-- An assistant message without its thinking blocks, and how many these are. -/
def dropThinking (message : Json) : Json × Nat :=
  if isAssistantMessage message then
    match message.get? "content" with
    | some (.arr blocks) =>
      let kept := blocks.filter fun block => block.getStr? "type" ≠ some "thinking"
      (message.set "content" (.arr kept), blocks.length - kept.length)
    | _ => (message, 0)
  else (message, 0)

def humanBoundary (messages : List Json) : Nat :=
  (rposition isHumanRequest messages).getD messages.length

/-- The request as the estimate counts it, and the thinking blocks taken out of it. -/
def stripAnthropicThinking (request : Json) : Json × Nat :=
  match (request.get? "messages").bind Json.asArray with
  | none => (request, 0)
  | some messages =>
    let boundary := humanBoundary messages
    let stripped := (messages.take boundary).map dropThinking
    (request.set "messages" (.arr (stripped.map Prod.fst ++ messages.drop boundary)),
      (stripped.map Prod.snd).sum)

theorem reasoningEpochBoundary_congr {messages messages' : List Json}
    (h : messages.map isUserMessage = messages'.map isUserMessage) :
    reasoningEpochBoundary messages = reasoningEpochBoundary messages' := by
  have hlength : messages.length = messages'.length := by simpa using congrArg List.length h
  unfold reasoningEpochBoundary
  rw [rposition_congr h, hlength]

theorem reasoningEpochBoundary_lt {before after : List Json}
    (huser : ∃ m ∈ before, isUserMessage m = true) (htail : ∀ m ∈ after, isUserMessage m = false) :
    reasoningEpochBoundary (before ++ after) < before.length := by
  unfold reasoningEpochBoundary
  rw [rposition_append, rposition_eq_none.mpr htail, Option.map_none, Option.none_or]
  cases hfound : rposition isUserMessage before with
  | none =>
    obtain ⟨m, hm, hrole⟩ := huser
    exact absurd hrole (by simp [rposition_eq_none.mp hfound m hm])
  | some i => exact rposition_lt hfound

theorem get?_stripReasoning (serde : Serde) {message : Json}
    (hdistinct : ∀ fields, message = .obj fields → Fields.Distinct fields) (key : String) :
    (stripReasoning serde message).1.get? key =
      if isAssistantMessage message = true ∧ "reasoning_content" = key then
        none else message.get? key := by
  cases hreasoning : message.get? "reasoning_content" with
  | none =>
    have hsame : stripReasoning serde message = (message, 0) := by
      unfold stripReasoning
      rw [hreasoning]
      split
      · next hsome => cases hsome
      · rfl
    rw [hsame]
    split_ifs with hkey
    · rw [← hkey.2]
      exact hreasoning
    · rfl
  | some reasoning =>
    obtain ⟨fields, rfl⟩ := Json.obj_of_get? hreasoning
    unfold stripReasoning
    rw [hreasoning]
    dsimp only
    by_cases hrole : isAssistantMessage (.obj fields) = true
    · rw [if_pos hrole, Json.get?_obj, Fields.get?_swapRemove (hdistinct fields rfl)]
      simp [hrole]
    · rw [if_neg hrole, if_neg fun h => hrole h.1]

theorem stripHistoricalReasoning_epoch (serde : Serde) {body : Fields} {before after : List Json}
    (hmessages : body.get? "messages" = some (.arr (before ++ after)))
    (hboundary : reasoningEpochBoundary (before ++ after) ≤ before.length) :
    ∃ stripped, stripped.length = before.length ∧
      (stripHistoricalReasoning serde body).1.get? "messages" =
        some (.arr (stripped ++ after)) := by
  generalize hb : reasoningEpochBoundary (before ++ after) = boundary at hboundary
  refine ⟨((before.take boundary).map (stripReasoning serde)).map Prod.fst ++
    before.drop boundary, ?_, ?_⟩
  · simp
    omega
  · unfold stripHistoricalReasoning
    rw [hmessages, Option.bind_some, Json.asArray_arr]
    dsimp only
    rw [Fields.get?_insert_self, hb, List.take_append_of_le_length hboundary,
      List.drop_append_of_le_length hboundary, List.append_assoc]

end Lobster.Deepseek
