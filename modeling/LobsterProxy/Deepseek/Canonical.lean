import LobsterProxy.Base.Leading
import LobsterProxy.Deepseek.Epoch
import LobsterProxy.Deepseek.Policy

/-! Canonical arguments in the history of a chat body, and what the passes over the history
leave as it was when the history grows. -/

namespace Lobster.Deepseek
open Leading

def isUserOrTool (message : Json) : Bool :=
  message.getStr? "role" = some "user" || message.getStr? "role" = some "tool"

/-- A call with canonical arguments, and how many of these were rewritten. -/
def canonicalizeCall (serde : Serde) (call : Json) : Json × Nat :=
  match call.get? "function" with
  | some (.obj function) =>
    match (Fields.get? function "arguments").bind Json.asStr with
    | some arguments =>
      match serde.fromStr arguments with
      | some parsed =>
        let canonical := canonicalJsonString serde parsed
        if canonical ≠ arguments then
          (call.set "function" (.obj (Fields.insert "arguments" (.str canonical) function)), 1)
        else (call, 0)
      -- malformed arguments are forwarded as they are
      | none => (call, 0)
    | none => (call, 0)
  | _ => (call, 0)

def canonicalizeMessage (serde : Serde) (message : Json) : Json × Nat :=
  if isAssistantMessage message then
    match message.get? "tool_calls" with
    | some (.arr calls) =>
      let rewritten := calls.map (canonicalizeCall serde)
      (message.set "tool_calls" (.arr (rewritten.map Prod.fst)), (rewritten.map Prod.snd).sum)
    | _ => (message, 0)
  else (message, 0)

/-- The body with canonical arguments before its last user or tool message, and how many were
rewritten. -/
def canonicalizeToolArguments (serde : Serde) (body : Fields) : Fields × Nat :=
  match (body.get? "messages").bind Json.asArray with
  | none => (body, 0)
  | some messages =>
    match rposition isUserOrTool messages with
    | none => (body, 0)
    | some lastAction =>
      let rewritten := (messages.take lastAction).map (canonicalizeMessage serde)
      (body.insert "messages" (.arr (rewritten.map Prod.fst ++ messages.drop lastAction)),
        (rewritten.map Prod.snd).sum)

/-- Both passes over the history, in the order of the request path. -/
def optimizeBody (serde : Serde) (body : Fields) : Fields :=
  (canonicalizeToolArguments serde (stripHistoricalReasoning serde body).1).1

section Passes
variable {serde : Serde} {body : Fields} {messages : List Json}

def strippedMessages (serde : Serde) (messages : List Json) : List Json :=
  mapFirst (fun m => (stripReasoning serde m).1) (reasoningEpochBoundary messages) messages

def canonicalMessages (serde : Serde) (messages : List Json) : List Json :=
  mapFirst (fun m => (canonicalizeMessage serde m).1) ((rposition isUserOrTool messages).getD 0)
    messages

theorem get?_stripHistoricalReasoning (serde : Serde)
    (h : body.get? "messages" = some (.arr messages)) :
    (stripHistoricalReasoning serde body).1.get? "messages" =
      some (.arr (strippedMessages serde messages)) := by
  unfold stripHistoricalReasoning strippedMessages mapFirst
  rw [h, Option.bind_some, Json.asArray_arr]
  dsimp only
  rw [Fields.get?_insert_self, List.map_map]
  rfl

theorem get?_canonicalizeToolArguments (serde : Serde)
    (h : body.get? "messages" = some (.arr messages)) :
    (canonicalizeToolArguments serde body).1.get? "messages" =
      some (.arr (canonicalMessages serde messages)) := by
  unfold canonicalizeToolArguments canonicalMessages
  rw [h, Option.bind_some, Json.asArray_arr]
  dsimp only
  cases rposition isUserOrTool messages with
  | none => exact h
  | some lastAction =>
    unfold mapFirst
    dsimp only
    rw [Fields.get?_insert_self, List.map_map]
    rfl

theorem get?_optimizeBody (serde : Serde) (h : body.get? "messages" = some (.arr messages)) :
    (optimizeBody serde body).get? "messages" =
      some (.arr (canonicalMessages serde (strippedMessages serde messages))) :=
  get?_canonicalizeToolArguments serde (get?_stripHistoricalReasoning serde h)

end Passes

section Growth
variable {serde : Serde} {messages later : List Json}

theorem not_assistant_of_userOrTool {message : Json} (h : isUserOrTool message = true) :
    isAssistantMessage message = false := by
  unfold isUserOrTool at h
  unfold isAssistantMessage
  rcases Bool.or_eq_true_iff.mp h with hrole | hrole
  all_goals
    rw [of_decide_eq_true hrole]
    decide

theorem stripReasoning_userOrTool (serde : Serde) {message : Json}
    (h : isUserOrTool message = true) :
    (stripReasoning serde message).1 = message := by
  unfold stripReasoning
  split
  · rw [not_assistant_of_userOrTool h]
    rfl
  · rfl

theorem canonicalizeMessage_userOrTool (serde : Serde) {message : Json}
    (h : isUserOrTool message = true) :
    (canonicalizeMessage serde message).1 = message := by
  unfold canonicalizeMessage
  rw [not_assistant_of_userOrTool h]
  rfl

theorem reasoningEpochBoundary_le (messages : List Json) :
    reasoningEpochBoundary messages ≤ messages.length := by
  unfold reasoningEpochBoundary
  cases h : rposition isUserMessage messages with
  | none => exact le_refl _
  | some i => exact (rposition_lt h).le

theorem reasoningEpochBoundary_append (messages later : List Json) :
    reasoningEpochBoundary messages ≤ reasoningEpochBoundary (messages ++ later) := by
  have hle := reasoningEpochBoundary_le messages
  unfold reasoningEpochBoundary at hle ⊢
  rw [rposition_append]
  cases rposition isUserMessage later with
  | some i =>
    rw [Option.map_some, Option.some_or, Option.getD_some]
    omega
  | none =>
    rw [Option.map_none, Option.none_or]
    cases rposition isUserMessage messages with
    | some i => exact le_refl _
    | none => simp

theorem strippedMessages_append (serde : Serde) (h : ∀ m ∈ later, isUserMessage m = false) :
    (strippedMessages serde (messages ++ later)).take messages.length =
      strippedMessages serde messages := by
  unfold strippedMessages reasoningEpochBoundary
  rw [rposition_append, rposition_eq_none.mpr h, Option.map_none, Option.none_or]
  cases hfound : rposition isUserMessage messages with
  | some i =>
    rw [Option.getD_some, Option.getD_some, mapFirst_append (rposition_lt hfound).le,
      List.take_left' (by simp)]
  | none =>
    have hall :
        (mapFirst (fun m => (stripReasoning serde m).1) (messages ++ later).length
        (messages ++ later)).take
        messages.length =
        (mapFirst (fun m => (stripReasoning serde m).1) messages.length messages).take
          messages.length := take_mapFirst_congr (by simp) (le_refl _) (by simp)
    rw [Option.getD_none, Option.getD_none, hall]
    exact List.take_of_length_le (by simp)

theorem exists_of_last {p : Json → Bool} (h : messages.getLast?.any p = true) :
    ∃ before last, messages = before ++ [last] ∧ p last = true := by
  rcases List.eq_nil_or_concat messages with rfl | ⟨before, last, rfl⟩
  · cases h
  · rw [List.concat_eq_append, List.getLast?_concat] at h
    exact ⟨before, last, List.concat_eq_append, h⟩

/-- The canonical form of a list that an action ends is that of its messages one by one,
whatever follows. -/
theorem take_canonicalMessages (serde : Serde) (hlast : messages.getLast?.any isUserOrTool = true)
    (later : List Json) :
    (canonicalMessages serde (messages ++ later)).take messages.length =
      messages.map fun m => (canonicalizeMessage serde m).1 := by
  obtain ⟨before, last, rfl, haction⟩ := exists_of_last hlast
  have hbound : (before ++ [last]).length ≤
      (rposition isUserOrTool (before ++ [last] ++ later)).getD 0 + 1 := by
    rw [rposition_append, rposition_append]
    have hsingle : rposition isUserOrTool [last] = some 0 := by simp [rposition, haction]
    rw [hsingle]
    cases rposition isUserOrTool later with
    | some i =>
      simp only [List.length_append, List.length_singleton, Option.map_some, Option.some_or,
        Option.getD_some]
      omega
    | none => simp
  unfold canonicalMessages
  rw [take_mapFirst_of_last hbound]
  · rw [List.take_left]
  · intro a ha
    have hread : a = last := by simpa using ha.symm
    rw [hread]
    exact canonicalizeMessage_userOrTool serde haction

theorem last_strippedMessages (serde : Serde) (hlast : messages.getLast?.any isUserOrTool = true)
    (later : List Json) :
    ((strippedMessages serde (messages ++ later)).take messages.length).getLast?.any
      isUserOrTool = true := by
  obtain ⟨before, last, rfl, haction⟩ := exists_of_last hlast
  have hread : (before ++ [last] ++ later)[before.length]? = some last := by simp
  have hkept : (strippedMessages serde (before ++ [last] ++ later))[before.length]? =
      some last := by
    unfold strippedMessages
    rw [getElem?_mapFirst, hread]
    split_ifs
    · rw [Option.map_some, stripReasoning_userOrTool serde haction]
    · rfl
  have hlength : (strippedMessages serde (before ++ [last] ++ later)).length =
      before.length + 1 + later.length := by
    unfold strippedMessages
    rw [length_mapFirst, List.length_append, List.length_append, List.length_singleton]
  rw [List.getLast?_eq_getElem?, List.length_take, hlength, List.length_append,
    List.length_singleton, Nat.min_eq_left (by omega), Nat.add_sub_cancel, List.getElem?_take,
    if_pos (Nat.lt_succ_self _), hkept]
  exact haction

/-- What is sent of a history that an action ends, message by message. -/
theorem take_optimized (serde : Serde) (hlast : messages.getLast?.any isUserOrTool = true)
    (later : List Json) :
    (canonicalMessages serde (strippedMessages serde (messages ++ later))).take messages.length =
      ((strippedMessages serde (messages ++ later)).take messages.length).map
        fun m => (canonicalizeMessage serde m).1 := by
  have haction := last_strippedMessages serde hlast later
  have hlength : ((strippedMessages serde (messages ++ later)).take messages.length).length =
      messages.length := by
    unfold strippedMessages
    simp
  have hcanonical := take_canonicalMessages serde haction
    ((strippedMessages serde (messages ++ later)).drop messages.length)
  rw [List.take_append_drop, hlength] at hcanonical
  exact hcanonical

/-- What the upstream was sent stays as it is when the history grows: before the newest user
message always, and all of it while no user message comes. -/
theorem optimizeBody_stable (serde : Serde) {body grown : Fields} {messages later : List Json}
    (hbody : body.get? "messages" = some (.arr messages))
    (hgrown : grown.get? "messages" = some (.arr (messages ++ later)))
    (hlast : messages.getLast?.any isUserOrTool = true) :
    ∃ sent resent, (optimizeBody serde body).get? "messages" = some (.arr sent) ∧
      (optimizeBody serde grown).get? "messages" = some (.arr resent) ∧
      sent.length = messages.length ∧
      sent.take (reasoningEpochBoundary messages) = resent.take (reasoningEpochBoundary messages) ∧
      ((∀ m ∈ later, isUserMessage m = false) → sent <+: resent) := by
  have hlength : (canonicalMessages serde (strippedMessages serde messages)).length =
      messages.length := by
    simp [canonicalMessages, strippedMessages]
  have hwhole : (strippedMessages serde messages).take messages.length =
      strippedMessages serde messages :=
    List.take_of_length_le (by simp [strippedMessages])
  have hsent := take_optimized serde hlast []
  rw [List.append_nil, List.take_of_length_le hlength.le, hwhole] at hsent
  have hresent := take_optimized serde hlast later
  refine ⟨_, _, get?_optimizeBody serde hbody, get?_optimizeBody serde hgrown, hlength, ?_, ?_⟩
  · have hle := reasoningEpochBoundary_le messages
    have hstripped : (strippedMessages serde messages).take (reasoningEpochBoundary messages) =
        (strippedMessages serde (messages ++ later)).take (reasoningEpochBoundary messages) :=
      take_mapFirst_congr (le_refl _) (reasoningEpochBoundary_append messages later)
        (List.take_append_of_le_length hle).symm
    have hfirst := congrArg (List.take (reasoningEpochBoundary messages)) hresent
    rw [List.take_take, Nat.min_eq_left hle, ← List.map_take, List.take_take,
      Nat.min_eq_left hle] at hfirst
    rw [hfirst, hsent, ← List.map_take, hstripped]
  · intro hlater
    rw [strippedMessages_append serde hlater, ← hsent] at hresent
    rw [← hresent]
    exact List.take_prefix _ _

section Cases

def turn (role text : String) : Json := .obj [("role", .str role), ("content", .str text)]

/-- An assistant message with reasoning and a call, whose arguments are written with a space. -/
def calling (reasoning : String) : Json :=
  .obj [("role", .str "assistant"), ("reasoning_content", .str reasoning),
  ("tool_calls", .arr [.obj [("id", .str "call_1"),
    ("function", .obj [("name", .str "read"), ("arguments", .str "\x7b \x7d")])]])]

def loopStart : List Json :=
  [turn "user" "hi", calling "first", turn "tool" "ok", turn "user" "go on", calling "second",
  turn "tool" "ok"]

theorem optimizeBody_stable_loop :
    ∃ sent resent, (optimizeBody .emptyObject [("messages", .arr loopStart)]).get? "messages" =
      some (.arr sent) ∧
      (optimizeBody .emptyObject
        [("messages", .arr (loopStart ++ [calling "third", turn "tool" "ok"]))]).get?
        "messages" = some (.arr resent) ∧
      sent.length = 6 ∧ sent.take 3 = resent.take 3 ∧ sent <+: resent := by
  obtain ⟨sent, resent, hsent, hresent, hlength, htake, hprefix⟩ :=
    @optimizeBody_stable .emptyObject
    [("messages", .arr loopStart)]
      [("messages", .arr (loopStart ++ [calling "third", turn "tool" "ok"]))] loopStart
    [calling "third", turn "tool" "ok"] rfl rfl rfl
  exact ⟨sent, resent, hsent, hresent, hlength, htake, hprefix (by decide)⟩

end Cases

end Growth

end Lobster.Deepseek
