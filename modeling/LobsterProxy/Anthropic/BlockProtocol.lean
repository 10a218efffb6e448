import LobsterProxy.Anthropic.Stream
import Mathlib.Data.List.Count
import Mathlib.Data.List.Range

/-! The block protocol of a Messages event stream, as a rule on what may follow a
given past, and what a whole legal stream looks like. -/

namespace Lobster.Anthropic
open Trace

namespace Event

def startIndex? : Event → Option Nat
  | contentBlockStart index _ => some index
  | _ => none

def isMessageStart : Event → Bool
  | messageStart .. => true
  | _ => false

def isTail : Event → Bool
  | messageDelta .. => true
  | messageStop => true
  | _ => false

def blockKind? : Event → Option BlockKind
  | contentBlockStart _ block => some block.kind
  | contentBlockDelta _ delta => some delta.kind
  | _ => none

end Event

def openStep (blocks : Nat → Option BlockKind) : Event → Nat → Option BlockKind
  | .contentBlockStart index block => fun i => if i = index then some block.kind else blocks i
  | .contentBlockStop index => fun i => if i = index then none else blocks i
  | _ => blocks

/-- The kind of the block at each index that is started and not yet stopped. -/
def openBlocks (past : List Event) : Nat → Option BlockKind := past.foldl openStep fun _ => none

def startIndices (past : List Event) : List Nat := past.filterMap Event.startIndex?

def ThinkingClosed (past : List Event) : Prop := ∀ i, openBlocks past i ≠ some .thinking

def Running (past : List Event) : Prop := past ≠ [] ∧ ∀ e ∈ past, e.isTail = false

/-- Content other than thinking waits until no thinking block is open. -/
def ThinkingAlone (past : List Event) (e : Event) : Prop :=
  ∀ kind, e.blockKind? = some kind → kind ≠ .thinking → ThinkingClosed past

def Allowed (past : List Event) (e : Event) : Prop :=
  ThinkingAlone past e ∧ match e with
  | .messageStart .. => past = []
  | .contentBlockStart index _ => Running past ∧ index = (startIndices past).length
  | .contentBlockDelta index delta => Running past ∧ openBlocks past index = some delta.kind
  | .contentBlockStop index => Running past ∧ openBlocks past index ≠ none
  | .messageDelta .. => Running past ∧ ∀ i, openBlocks past i = none
  | .messageStop => ∃ body reason tokens, past = body ++ [.messageDelta reason tokens]

structure WellFormed (events : List Event) : Prop where
  /-- `message_start` is first and unique. -/
  start : ∃ id model rest, events = .messageStart id model :: rest ∧
    ∀ e ∈ rest, e.isMessageStart = false
  /-- Blocks are numbered 0, 1, 2, … in the order they start. -/
  indices : startIndices events = List.range (startIndices events).length
  /-- A delta writes to an open block of its own kind. -/
  deltas : ∀ pre index delta post, events = pre ++ .contentBlockDelta index delta :: post →
    openBlocks pre index = some delta.kind
  /-- Only an open block is stopped. -/
  stops : ∀ pre index post, events = pre ++ .contentBlockStop index :: post →
    openBlocks pre index ≠ none
  /-- Each started block is stopped exactly once. -/
  stopped : ∀ index block, .contentBlockStart index block ∈ events →
    events.count (.contentBlockStop index) = 1
  /-- `message_delta` and `message_stop` are last and unique. -/
  tail : ∃ body reason tokens, events = body ++ [.messageDelta reason tokens, .messageStop] ∧
    ∀ e ∈ body, e.isTail = false
  /-- No text or tool block starts or grows while a thinking block is open. -/
  thinkingAlone : ∀ pre e post, events = pre ++ e :: post → ThinkingAlone pre e

@[simp] theorem openBlocks_nil (i : Nat) : openBlocks [] i = none := rfl

@[simp] theorem openBlocks_snoc (past : List Event) (e : Event) :
    openBlocks (past ++ [e]) = openStep (openBlocks past) e := by
  unfold openBlocks
  rw [List.foldl_append]
  rfl

@[simp] theorem startIndices_snoc (past : List Event) (e : Event) :
    startIndices (past ++ [e]) = startIndices past ++ e.startIndex?.toList := by
  unfold startIndices
  rw [List.filterMap_append]
  cases h : e.startIndex? <;> simp [h]

theorem Running.snoc {past : List Event} {e : Event} (h : Running past) (he : e.isTail = false) :
    Running (past ++ [e]) := by
  refine ⟨List.append_ne_nil_of_left_ne_nil h.1 _, fun e' he' => ?_⟩
  rcases List.mem_append.mp he' with hpast | hlast
  · exact h.2 e' hpast
  · rw [List.mem_singleton.mp hlast]
    exact he

theorem startIndices_range {events : List Event} (h : Legal Allowed events) :
    startIndices events = List.range (startIndices events).length := by
  induction events using List.reverseRecOn with
  | nil => rfl
  | append_singleton past e ih =>
    obtain ⟨hpast, he⟩ := legal_snoc_iff.mp h
    have hih := ih hpast
    cases e with
    | contentBlockStart index block =>
      obtain ⟨-, -, hindex⟩ := he
      rw [startIndices_snoc, List.length_append]
      show startIndices past ++ [index] = List.range ((startIndices past).length + 1)
      rw [List.range_succ, ← hih, hindex]
    | _ =>
      rw [startIndices_snoc]
      simpa [Event.startIndex?] using hih

theorem count_stop {events : List Event} (h : Legal Allowed events) (i : Nat) :
    events.count (.contentBlockStop i) + (openBlocks events i).toList.length =
      min 1 ((startIndices events).length - i) := by
  induction events using List.reverseRecOn with
  | nil => simp [startIndices]
  | append_singleton past e ih =>
    obtain ⟨hpast, he⟩ := legal_snoc_iff.mp h
    have hih := ih hpast
    rw [List.count_append, openBlocks_snoc, startIndices_snoc, List.length_append]
    cases e with
    | contentBlockStart index block =>
      obtain ⟨-, -, hindex⟩ := he
      by_cases hi : i = index
      · rw [hi] at hih
        simp [openStep, Event.startIndex?, hi, ← hindex]
        omega
      · simp [openStep, Event.startIndex?, hi]
        omega
    | contentBlockStop index =>
      obtain ⟨-, -, hopen⟩ := he
      by_cases hi : i = index
      · subst hi
        obtain ⟨kind, hkind⟩ := Option.ne_none_iff_exists'.mp hopen
        rw [hkind] at hih
        simpa [openStep, Event.startIndex?] using hih
      · have hne : ¬ index = i := fun h => hi h.symm
        simpa [openStep, Event.startIndex?, hi, hne] using hih
    | _ => simpa [openStep, Event.startIndex?] using hih

theorem mem_startIndices {events : List Event} {index : Nat} {block : ContentBlock}
    (h : .contentBlockStart index block ∈ events) : index ∈ startIndices events :=
  List.mem_filterMap.mpr ⟨_, h, rfl⟩

theorem allowed_nil {e : Event} (h : Allowed [] e) : e.isMessageStart = true := by
  obtain ⟨-, h⟩ := h
  cases e with
  | messageStart => rfl
  | messageStop =>
    obtain ⟨body, reason, tokens, hpast⟩ := h
    exact absurd hpast.symm (List.append_ne_nil_of_right_ne_nil _ (List.cons_ne_nil _ _))
  | _ => exact absurd rfl h.1.1

theorem wellFormed_of_legal {body : List Event} {reason : String} {tokens : UInt64}
    (h : Legal Allowed (body ++ [.messageDelta reason tokens, .messageStop])) :
    WellFormed (body ++ [.messageDelta reason tokens, .messageStop]) := by
  obtain ⟨-, hrunning, hclosed⟩ := h body (.messageDelta reason tokens) [.messageStop] rfl
  constructor
  case start =>
    obtain ⟨first, rest, hbody⟩ := List.exists_cons_of_ne_nil hrunning.1
    subst hbody
    have hfirst := allowed_nil (h [] first (rest ++ _) rfl)
    cases first with
    | messageStart id model =>
      refine ⟨id, model, _, rfl, fun e he => ?_⟩
      obtain ⟨pre, post, hrest⟩ := List.append_of_mem he
      cases e with
      | messageStart id' model' =>
        obtain ⟨-, hpast⟩ := h (.messageStart id model :: pre) (.messageStart id' model') post
          (congrArg (Event.messageStart id model :: ·) hrest)
        cases hpast
      | _ => rfl
    | _ => cases hfirst
  case indices => exact startIndices_range h
  case deltas => exact fun pre index delta post ht => (h pre _ post ht).2.2
  case stops => exact fun pre index post ht => (h pre _ post ht).2.2
  case stopped =>
    intro index block hmem
    have hlt := mem_startIndices hmem
    rw [startIndices_range h, List.mem_range] at hlt
    have hopen : openBlocks (body ++ [.messageDelta reason tokens, .messageStop]) index = none := by
      rw [List.append_cons, openBlocks_snoc, openBlocks_snoc]
      exact hclosed index
    have hcount := count_stop h index
    rw [hopen, Nat.min_eq_left (by omega)] at hcount
    exact hcount
  case tail => exact ⟨body, reason, tokens, rfl, hrunning.2⟩
  case thinkingAlone => exact fun pre e post ht => (h pre e post ht).1

end Lobster.Anthropic
