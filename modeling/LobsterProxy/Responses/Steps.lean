import LobsterProxy.Responses.Stream
import Mathlib.Tactic.SplitIfs

/-! What each step of the Responses converter can do: the fields it may change and the
kind of the items its events are about. -/

namespace Lobster.Responses
open Chat Emitter

def Event.kind? : Event → Option ItemKind
  | outputItemAdded _ item | outputItemDone _ item => some item.kind
  | reasoningPartAdded .. | reasoningDelta .. | reasoningTextDone .. | reasoningPartDone .. =>
    some .reasoning
  | contentPartAdded .. | outputTextDelta .. | outputTextDone .. | contentPartDone .. =>
    some .message
  | argumentsDelta .. | argumentsDone .. => some .functionCall
  | _ => none

namespace ResponsesConverter
variable (hex : Nat → String) (c : ResponsesConverter)

theorem stateOr_step (idPrefix : String) (state : Option ItemState) : ∃ draws, c.draws ≤ draws ∧
    (stateOr hex idPrefix state c).2 = { c with draws } ∧
    (stateOr hex idPrefix state c).1.itemDone = (state.map ItemState.itemDone).getD false := by
  cases state with
  | none => exact ⟨c.draws + 1, Nat.le_succ _, rfl, rfl⟩
  | some state => exact ⟨c.draws, le_rfl, rfl, rfl⟩

theorem allocate_step (state : ItemState) :
    ∃ next, (allocate state c).2 = { c with nextOutputIndex := next } := by
  unfold allocate
  cases state.outputIndex with
  | none => exact ⟨_, rfl⟩
  | some outputIndex => exact ⟨c.nextOutputIndex, rfl⟩

theorem feedReasoning_step (text : String) : ∃ state next items draws, c.draws ≤ draws ∧
    state.itemDone = (c.reasoning.map ItemState.itemDone).getD false ∧
    (feedReasoning hex text c).1 = { c with
      reasoning := some state
      nextOutputIndex := next
      outputItems := c.outputItems ++ items
      draws := draws } ∧
    (∀ item ∈ items, ∃ itemId, item = .reasoning itemId) ∧
    ∀ e ∈ (feedReasoning hex text c).2, e.kind? = some .reasoning := by
  obtain ⟨draws, hdraws, hdrawn, hdone⟩ := stateOr_step hex c "rs_" c.reasoning
  unfold feedReasoning
  generalize stateOr hex "rs_" c.reasoning c = drawn at hdrawn hdone ⊢
  obtain ⟨state, c'⟩ := drawn
  dsimp only at hdrawn hdone ⊢
  subst hdrawn
  by_cases hexpose : c.exposeThinking = true
  · rw [if_pos hexpose]
    obtain ⟨next, hplaced⟩ := allocate_step { c with draws } state
    generalize allocate state { c with draws } = placed at hplaced ⊢
    obtain ⟨outputIndex, c'⟩ := placed
    dsimp only at hplaced ⊢
    subst hplaced
    refine ⟨_, next, _, draws, hdraws, ?_, rfl, ?_, ?_⟩
    · exact hdone
    · cases state.itemAdded <;> simp
    · cases state.itemAdded <;> cases state.partAdded <;> simp [Event.kind?, Item.kind]
  · rw [if_neg hexpose]
    refine ⟨{ state with accum := state.accum ++ text }, c.nextOutputIndex, [], draws, hdraws,
      hdone, ?_, List.forall_mem_nil _, List.forall_mem_nil _⟩
    rw [List.append_nil]

theorem feedText_step (text : String) : ∃ state next items draws, c.draws ≤ draws ∧
    state.itemDone = (c.message.map ItemState.itemDone).getD false ∧
    (feedText hex text c).1 = { c with
      message := some state
      nextOutputIndex := next
      outputItems := c.outputItems ++ items
      draws := draws } ∧
    (∀ item ∈ items, ∃ itemId, item = .message itemId) ∧
    ∀ e ∈ (feedText hex text c).2, e.kind? = some .message := by
  obtain ⟨draws, hdraws, hdrawn, hdone⟩ := stateOr_step hex c "msg_" c.message
  unfold feedText
  generalize stateOr hex "msg_" c.message c = drawn at hdrawn hdone ⊢
  obtain ⟨state, c'⟩ := drawn
  dsimp only at hdrawn hdone ⊢
  subst hdrawn
  obtain ⟨next, hplaced⟩ := allocate_step { c with draws } state
  generalize allocate state { c with draws } = placed at hplaced ⊢
  obtain ⟨outputIndex, c'⟩ := placed
  dsimp only at hplaced ⊢
  subst hplaced
  refine ⟨_, next, _, draws, hdraws, ?_, rfl, ?_, ?_⟩
  · exact hdone
  · cases state.itemAdded <;> simp
  · cases state.itemAdded <;> simp [Event.kind?, Item.kind]

theorem closeReasoningItem_step : ∃ reasoning, (closeReasoningItem c).1 = { c with reasoning } ∧
    (∀ state, reasoning = some state → state.itemAdded = true → state.itemDone = true) ∧
    ∀ e ∈ (closeReasoningItem c).2, e.kind? = some .reasoning := by
  unfold closeReasoningItem
  cases hstate : c.reasoning with
  | none =>
    refine ⟨c.reasoning, rfl, fun state hsome => ?_, List.forall_mem_nil _⟩
    cases hstate.symm.trans hsome
  | some state =>
    by_cases hclosed : (!state.itemAdded || state.itemDone) = true
    · dsimp only
      rw [if_pos hclosed]
      refine ⟨c.reasoning, rfl, fun state' hsome hadded => ?_, List.forall_mem_nil _⟩
      cases hstate.symm.trans hsome
      simpa [hadded] using hclosed
    · dsimp only
      rw [if_neg hclosed]
      refine ⟨_, rfl, fun state' hsome _ => ?_, ?_⟩
      · cases hsome
        rfl
      · cases state.partAdded <;> cases state.partDone <;> simp [Event.kind?, Item.kind]

theorem closeMessageItem_step : ∃ message, (closeMessageItem c).1 = { c with message } ∧
    message.map ItemState.itemDone = (c.message.map fun _ => true) ∧
    ∀ e ∈ (closeMessageItem c).2, e.kind? = some .message := by
  unfold closeMessageItem
  cases hstate : c.message with
  | none => exact ⟨c.message, rfl, by rw [hstate]; rfl, List.forall_mem_nil _⟩
  | some state =>
    by_cases hdone : state.itemDone = true
    · dsimp only
      rw [if_pos hdone]
      refine ⟨c.message, rfl, ?_, List.forall_mem_nil _⟩
      rw [hstate]
      exact congrArg some hdone
    · dsimp only
      rw [if_neg hdone]
      refine ⟨_, rfl, rfl, ?_⟩
      cases state.partAdded <;> cases state.partDone <;> simp [Event.kind?, Item.kind]

theorem addToolItem_step (call : ToolCallDelta) : ∃ slot items, slot.itemId = "fc_" ++ hex c.draws ∧
    slot.done = false ∧
    (addToolItem hex call c).1 = { c with
      nextOutputIndex := c.nextOutputIndex + 1
      draws := c.draws + 1
      tools := c.tools.insert call.index slot
      outputItems := c.outputItems ++ items } ∧
    (∀ item ∈ items, item = .functionCall slot.itemId) ∧
    ∀ e ∈ (addToolItem hex call c).2, e.kind? = some .functionCall := by
  unfold addToolItem
  dsimp only
  split_ifs
  · exact ⟨_, [], rfl, rfl, by rw [List.append_nil], List.forall_mem_nil _, List.forall_mem_nil _⟩
  · exact ⟨_, _, rfl, rfl, rfl, List.forall_mem_singleton.mpr rfl,
      List.forall_mem_singleton.mpr rfl⟩

theorem feedToolCallArguments_step (call : ToolCallDelta) : ∃ tools,
    (feedToolCallArguments call c).1 = { c with tools } ∧
    ((c.tools.find? call.index = none ∧ tools = c.tools) ∨
      ∃ slot server, c.tools.find? call.index = some slot ∧
        tools = c.tools.insert call.index { slot with
          callId := keepOr call.id slot.callId
          name := keepOr call.name slot.name
          arguments := slot.arguments ++ call.arguments.getD ""
          server := server }) ∧
    ∀ e ∈ (feedToolCallArguments call c).2, ∃ itemId outputIndex delta,
      e = .argumentsDelta itemId outputIndex delta := by
  unfold feedToolCallArguments
  cases hfind : c.tools.find? call.index with
  | none => exact ⟨_, rfl, .inl ⟨rfl, rfl⟩, List.forall_mem_nil _⟩
  | some slot =>
    refine ⟨_, rfl, .inr ⟨slot, _, rfl, rfl⟩, ?_⟩
    dsimp only
    split_ifs
    · exact List.forall_mem_nil _
    · exact List.forall_mem_singleton.mpr ⟨_, _, _, rfl⟩

end ResponsesConverter
end Lobster.Responses
