import LobsterProxy.Base.Emitter
import LobsterProxy.Base.Snoc
import LobsterProxy.Chat.Chunk

/-! The pieces of an answer in the order the upstream sends them, and what they add
up to: the texts, and the arguments and the identity of each tool call. -/

namespace Lobster.Chat
open Trace Snoc

inductive Piece where
  | reasoning (text : String)
  | content (text : String)
  | call (call : ToolCallDelta)
  deriving DecidableEq, Repr

def Delta.pieces : Delta → List Piece
  | finish _ => []
  | reasoning text => [.reasoning text]
  | content text => [.content text]
  | toolCalls calls => calls.map .call

def chunkPieces (chunk : Json) : List Piece := (chunkDeltas chunk).flatMap Delta.pieces

namespace Piece

def reasoning? : Piece → Option String
  | reasoning text => some text
  | _ => none

def content? : Piece → Option String
  | content text => some text
  | _ => none

def callAt? (index : Int) : Piece → Option ToolCallDelta
  | call fragment => if fragment.index = index then some fragment else none
  | _ => none

def index? : Piece → Option Int
  | call fragment => some fragment.index
  | _ => none

def isReasoning : Piece → Bool
  | reasoning _ => true
  | _ => false

def isContent : Piece → Bool
  | content _ => true
  | _ => false

def isCall : Piece → Bool
  | call _ => true
  | _ => false

def arguments? (index : Int) (piece : Piece) : Option String :=
  (piece.callAt? index).bind ToolCallDelta.arguments

end Piece

def reasonings (pieces : List Piece) : String := written Piece.reasoning? pieces

def contents (pieces : List Piece) : String := written Piece.content? pieces

def argumentsAt (index : Int) (pieces : List Piece) : String :=
  written (Piece.arguments? index) pieces

def callsAt (index : Int) (pieces : List Piece) : List ToolCallDelta :=
  pieces.filterMap (Piece.callAt? index)

/-- Reasoning comes before all text and all tool calls. -/
def reasoningLeads (pieces : List Piece) : Bool :=
  (pieces.dropWhile Piece.isReasoning).all fun piece => !piece.isReasoning

/-- Text, if there is any, begins before the first tool call. -/
def textLeads (pieces : List Piece) : Bool :=
  !pieces.any Piece.isContent || (pieces.takeWhile fun piece => !piece.isCall).any Piece.isContent

def callOrder (pieces : List Piece) : List Int := (pieces.filterMap Piece.index?).eraseDups

def lastNonEmpty (strings : List (Option String)) : Option String :=
  (strings.filterMap fun s => s.filter fun s => s ≠ "").getLast?

/-- No fragment after the first brings another id or another name than the first has. -/
def Announced : List ToolCallDelta → Prop
  | [] => True
  | first :: later =>
    (lastNonEmpty (later.map ToolCallDelta.id)).getD (first.id.getD "") = first.id.getD "" ∧
      (lastNonEmpty (later.map ToolCallDelta.name)).getD (first.name.getD "") = first.name.getD ""

instance (calls : List ToolCallDelta) : Decidable (Announced calls) := by
  cases calls <;> unfold Announced <;> infer_instance

theorem lastNonEmpty_snoc (strings : List (Option String)) (s : Option String) (d : String) :
    (lastNonEmpty (strings ++ [s])).getD d = keepOr s ((lastNonEmpty strings).getD d) := by
  unfold lastNonEmpty keepOr
  have hlast : ([s].filterMap fun s => s.filter fun s => s ≠ "") =
      (s.filter fun s => s ≠ "").toList := by
    rw [List.filterMap_cons]
    cases s.filter fun s => s ≠ "" <;> rfl
  rw [List.filterMap_append, hlast, List.getLast?_append]
  cases s.filter fun s => s ≠ "" <;> rfl

theorem keepOr_eq (s : Option String) (d : String) :
    keepOr s d = if s.getD "" = "" then d else s.getD "" := by
  cases s with
  | none => rfl
  | some s => by_cases hempty : s = "" <;> simp [keepOr, Option.filter, hempty]

@[simp] theorem keepOr_getD (s : Option String) : keepOr s (s.getD "") = s.getD "" := by
  rw [keepOr_eq, ite_self]

theorem index_of_mem_callsAt {index : Int} {pieces : List Piece} {call : ToolCallDelta}
    (h : call ∈ callsAt index pieces) : call.index = index := by
  obtain ⟨piece, -, hcall⟩ := List.mem_filterMap.mp h
  cases piece with
  | call fragment =>
    dsimp only [Piece.callAt?] at hcall
    split_ifs at hcall with hindex
    rw [← Option.some.inj hcall]
    exact hindex
  | _ => cases hcall

theorem callsAt_snoc (index : Int) (pieces : List Piece) (piece : Piece) :
    callsAt index (pieces ++ [piece]) = callsAt index pieces ++ (piece.callAt? index).toList := by
  unfold callsAt
  rw [List.filterMap_append]
  cases hcall : piece.callAt? index <;> simp [hcall]

theorem argumentsAt_snoc (index : Int) (pieces : List Piece) (piece : Piece) :
    argumentsAt index (pieces ++ [piece]) =
      argumentsAt index pieces ++ (piece.arguments? index).getD "" := by
  unfold argumentsAt
  rw [written_append, written_singleton]

theorem reasoningLeads_snoc (pieces : List Piece) (piece : Piece) :
    reasoningLeads (pieces ++ [piece]) =
      (reasoningLeads pieces && (pieces.all Piece.isReasoning || !piece.isReasoning)) := by
  unfold reasoningLeads
  rw [all_dropWhile_snoc]
  cases piece.isReasoning <;> simp

theorem textLeads_snoc (pieces : List Piece) (piece : Piece) : textLeads (pieces ++ [piece]) =
    (textLeads pieces &&
      (!piece.isContent || pieces.any Piece.isContent || !pieces.any Piece.isCall)) := by
  have hall : (pieces.all fun piece => !piece.isCall) = !pieces.any Piece.isCall := by
    rw [List.not_any_eq_all_not]
  have hfirst : (pieces.takeWhile fun piece => !piece.isCall).any Piece.isContent = true →
      pieces.any Piece.isContent = true := by
    intro h
    obtain ⟨p, hp, hcontent⟩ := List.any_eq_true.mp h
    exact List.any_eq_true.mpr ⟨p, (List.takeWhile_prefix _).subset hp, hcontent⟩
  have hquiet : pieces.any Piece.isCall = false →
      (pieces.takeWhile fun piece => !piece.isCall) = pieces := by
    intro h
    rw [List.takeWhile_eq_self_iff]
    intro p hp
    simpa using List.any_eq_false.mp h p hp
  have hcall : piece.isContent = true → piece.isCall = false := by
    cases piece <;> simp [Piece.isContent, Piece.isCall]
  unfold textLeads
  rw [any_takeWhile_snoc, hall, List.any_append, List.any_cons, List.any_nil, Bool.or_false]
  cases hcontent : piece.isContent with
  | false => simp
  | true =>
    rw [hcall hcontent]
    cases hcalled : pieces.any Piece.isCall with
    | true => cases htext : pieces.any Piece.isContent <;> simp_all
    | false => rw [hquiet hcalled]; cases pieces.any Piece.isContent <;> rfl

theorem callOrder_snoc (pieces : List Piece) {piece : Piece} (h : piece.index? = none) :
    callOrder (pieces ++ [piece]) = callOrder pieces := by
  unfold callOrder
  rw [List.filterMap_append]
  simp [h]

theorem callOrder_call (pieces : List Piece) (call : ToolCallDelta) :
    callOrder (pieces ++ [.call call]) =
      if call.index ∈ callOrder pieces then
        callOrder pieces else callOrder pieces ++ [call.index] := by
  have hlast : [Piece.call call].filterMap Piece.index? = [call.index] := rfl
  unfold callOrder
  rw [List.filterMap_append, hlast, eraseDups_snoc]
  simp only [List.mem_eraseDups]

section Reading
variable (chunk : Json)

def chunkChoiceDeltas : List Json :=
  (((chunk.get? "choices").bind Json.asArray).getD []).filterMap fun choice => choice.get? "delta"

def chunkReasonings : List String :=
  (chunkChoiceDeltas chunk).filterMap fun delta => delta.getStr? "reasoning_content"

def chunkContents : List String :=
  (chunkChoiceDeltas chunk).filterMap fun delta => delta.getStr? "content"

def chunkToolCalls : List ToolCallDelta :=
  (chunkChoiceDeltas chunk).flatMap fun delta =>
    (((delta.get? "tool_calls").bind Json.asArray).getD []).map readToolCall

end Reading

def deltaPieces (delta : Json) : List Piece :=
  (nonEmptyStr delta "reasoning_content").map Piece.reasoning ++
    (nonEmptyStr delta "content").map Piece.content ++
    ((((delta.get? "tool_calls").bind Json.asArray).getD []).map readToolCall).map Piece.call

theorem choiceDeltas_pieces (choice : Json) :
    (choiceDeltas choice).flatMap Delta.pieces =
      (choice.get? "delta").toList.flatMap deltaPieces := by
  have hfinish : ((choice.getStr? "finish_reason").toList.map Delta.finish).flatMap Delta.pieces =
      [] := by
    cases choice.getStr? "finish_reason" <;> rfl
  unfold choiceDeltas
  cases choice.get? "delta" with
  | none => simpa using hfinish
  | some delta =>
    have hreasoning (texts : List String) :
        (texts.map Delta.reasoning).flatMap Delta.pieces = texts.map Piece.reasoning := by
      rw [List.flatMap_map, List.map_eq_flatMap]
      rfl
    have hcontent (texts : List String) :
        (texts.map Delta.content).flatMap Delta.pieces = texts.map Piece.content := by
      rw [List.flatMap_map, List.map_eq_flatMap]
      rfl
    simp only [List.flatMap_append, hfinish, hreasoning, hcontent, List.nil_append,
      Option.toList_some, List.flatMap_singleton, deltaPieces]
    cases (delta.get? "tool_calls").bind Json.asArray with
    | none => rfl
    | some calls => simp [Delta.pieces]

theorem chunkPieces_eq (chunk : Json) :
    chunkPieces chunk = (chunkChoiceDeltas chunk).flatMap deltaPieces := by
  unfold chunkPieces chunkDeltas chunkChoiceDeltas
  generalize ((chunk.get? "choices").bind Json.asArray).getD [] = choices
  induction choices with
  | nil => rfl
  | cons choice choices ih =>
    rw [List.flatMap_cons, List.flatMap_append, ih, choiceDeltas_pieces, List.filterMap_cons]
    cases choice.get? "delta" <;> simp

theorem ne_empty_of_mem_nonEmptyStr {delta : Json} {key s : String}
    (h : s ∈ nonEmptyStr delta key) :
    s ≠ "" := by
  unfold nonEmptyStr at h
  obtain ⟨-, hne⟩ := Option.filter_eq_some_iff.mp (Option.mem_toList.mp h)
  simpa using hne

theorem ne_empty_of_mem_chunkPieces {chunk : Json} {piece : Piece} (h : piece ∈ chunkPieces chunk) :
    piece.reasoning? ≠ some "" ∧ piece.content? ≠ some "" := by
  rw [chunkPieces_eq] at h
  obtain ⟨delta, -, hdelta⟩ := List.mem_flatMap.mp h
  unfold deltaPieces at hdelta
  simp only [List.mem_append, List.mem_map] at hdelta
  rcases hdelta with (⟨s, hs, rfl⟩ | ⟨s, hs, rfl⟩) | ⟨call, -, rfl⟩
  · exact ⟨fun heq => ne_empty_of_mem_nonEmptyStr hs (Option.some.inj heq), nofun⟩
  · exact ⟨nofun, fun heq => ne_empty_of_mem_nonEmptyStr hs (Option.some.inj heq)⟩
  · exact ⟨nofun, nofun⟩

theorem written_nonEmptyStr {select : Piece → Option String} {make : String → Piece}
    (h : ∀ text, select (make text) = some text) (delta : Json) (key : String) :
    written select ((nonEmptyStr delta key).map make) = (delta.getStr? key).getD "" := by
  unfold nonEmptyStr
  cases delta.getStr? key with
  | none => rfl
  | some text =>
    by_cases hempty : text = ""
    · simp [Option.filter, hempty]
    · simp [Option.filter, hempty, h]

theorem written_map_eq_empty {α : Type} {select : Piece → Option String} {make : α → Piece}
    (h : ∀ a, select (make a) = none) (as : List α) : written select (as.map make) = "" :=
  written_eq_empty fun piece hpiece => by
    obtain ⟨a, -, rfl⟩ := List.mem_map.mp hpiece
    exact h a

theorem reasonings_chunk (chunk : Json) :
    reasonings (chunkPieces chunk) = written some (chunkReasonings chunk) := by
  unfold reasonings chunkReasonings
  rw [chunkPieces_eq, written_filterMap_some]
  refine written_flatMap fun delta _ => ?_
  unfold deltaPieces
  rw [written_append, written_append, written_nonEmptyStr fun _ => rfl,
    written_map_eq_empty fun _ => rfl, written_map_eq_empty fun _ => rfl]
  simp

theorem contents_chunk (chunk : Json) :
    contents (chunkPieces chunk) = written some (chunkContents chunk) := by
  unfold contents chunkContents
  rw [chunkPieces_eq, written_filterMap_some]
  refine written_flatMap fun delta _ => ?_
  unfold deltaPieces
  rw [written_append, written_append, written_map_eq_empty fun _ => rfl,
    written_nonEmptyStr fun _ => rfl, written_map_eq_empty fun _ => rfl]
  simp

theorem callsAt_chunk (index : Int) (chunk : Json) :
    callsAt index (chunkPieces chunk) =
      (chunkToolCalls chunk).filter fun call => call.index = index := by
  unfold callsAt chunkToolCalls
  rw [chunkPieces_eq]
  generalize chunkChoiceDeltas chunk = deltas
  induction deltas with
  | nil => rfl
  | cons delta deltas ih =>
    have hnone (texts : List String) (make : String → Piece)
        (h : ∀ s, (make s).callAt? index = none) :
        (texts.map make).filterMap (Piece.callAt? index) = [] := by
      rw [List.filterMap_map, List.filterMap_eq_nil_iff]
      exact fun s _ => h s
    have hcalls (calls : List ToolCallDelta) :
        (calls.map Piece.call).filterMap (Piece.callAt? index) =
          calls.filter fun call => call.index = index := by
      rw [List.filterMap_map, ← List.filterMap_eq_filter]
      refine List.filterMap_congr fun call _ => ?_
      simp [Piece.callAt?, Option.guard]
    rw [List.flatMap_cons, List.filterMap_append, ih, List.flatMap_cons, List.filter_append]
    unfold deltaPieces
    rw [List.filterMap_append, List.filterMap_append, hnone _ _ fun _ => rfl,
      hnone _ _ fun _ => rfl,
      hcalls, List.nil_append, List.nil_append]

theorem argumentsAt_eq (index : Int) (pieces : List Piece) :
    argumentsAt index pieces = written ToolCallDelta.arguments (callsAt index pieces) := by
  unfold argumentsAt callsAt
  induction pieces with
  | nil => rfl
  | cons piece pieces ih =>
    rw [written_cons, ih, List.filterMap_cons]
    unfold Piece.arguments?
    cases piece.callAt? index with
    | none => simp
    | some call => simp [written_cons]

section Chunks
variable (chunks : List Json)

theorem reasonings_chunks :
    reasonings (chunks.flatMap chunkPieces) = written some (chunks.flatMap chunkReasonings) := by
  induction chunks with
  | nil => rfl
  | cons chunk chunks ih =>
    rw [List.flatMap_cons, List.flatMap_cons, written_append, ← ih, ← reasonings_chunk]
    exact written_append _ _

theorem contents_chunks :
    contents (chunks.flatMap chunkPieces) = written some (chunks.flatMap chunkContents) := by
  induction chunks with
  | nil => rfl
  | cons chunk chunks ih =>
    rw [List.flatMap_cons, List.flatMap_cons, written_append, ← ih, ← contents_chunk]
    exact written_append _ _

theorem callsAt_chunks (index : Int) : callsAt index (chunks.flatMap chunkPieces) =
    (chunks.flatMap chunkToolCalls).filter fun call => call.index = index := by
  induction chunks with
  | nil => rfl
  | cons chunk chunks ih =>
    rw [List.flatMap_cons, List.flatMap_cons, List.filter_append, ← ih, ← callsAt_chunk]
    exact List.filterMap_append

end Chunks

def fragmentsAt (index : Int) (chunks : List Json) : List ToolCallDelta :=
  (chunks.flatMap chunkToolCalls).filter fun call => call.index = index

/-- Two fragments of one call, the id and the name in the second only. -/
def lateIdentity : List Json :=
  [.obj [("choices", .arr [.obj [("delta", .obj [("tool_calls",
      .arr [.obj [("index", .ofNat 0)]])])]])],
    .obj [("choices", .arr [.obj [("delta", .obj [("tool_calls", .arr [.obj [("index", .ofNat 0),
      ("id", .str "call_1"), ("function", .obj [("name", .str "read"),
        ("arguments", .str "\x7b\x7d")])]])])]])]]

end Lobster.Chat
