import LobsterProxy.Responses.Board
import LobsterProxy.Responses.Steps

/-! The Responses converter keeps a board: its item states, its tool slots and its
list of output items say what the emitted events say. -/

namespace Lobster.Responses
open Chat Emitter Trace Snoc

def Entry.descriptor (entry : Entry) : OutputItem :=
  match entry.kind with
  | .reasoning => .reasoning entry.id
  | .message => .message entry.id
  | .functionCall => .functionCall entry.id

def ItemState.entry (kind : ItemKind) (state : ItemState) : Entry :=
  ⟨kind, state.itemId, state.accum, state.itemDone⟩

def ToolSlot.entry (slot : ToolSlot) : Entry :=
  ⟨.functionCall, slot.itemId, slot.arguments, slot.done⟩

/-- The item has been announced, with its part, at some index. -/
structure ItemState.Shown (state : ItemState) : Prop where
  itemAdded : state.itemAdded = true
  partAdded : state.partAdded = true
  partDone : state.partDone = state.itemDone
  placed : ∃ k, state.outputIndex = some k

namespace ResponsesConverter

section Holds

def stateHolds (kind : ItemKind) (state : Option ItemState) (k : Nat) (entry : Entry) : Prop :=
  ∃ s, state = some s ∧ s.outputIndex = some k ∧ entry = s.entry kind

def slotHolds (tools : SortedMap Int ToolSlot) (k : Nat) (entry : Entry) : Prop :=
  ∃ index slot, tools.find? index = some slot ∧ slot.outputIndex = k ∧ entry = slot.entry

def Holds (c : ResponsesConverter) (k : Nat) (entry : Entry) : Prop :=
  stateHolds .reasoning c.reasoning k entry ∨ stateHolds .message c.message k entry ∨
    slotHolds c.tools k entry

/-- No two slots have one output index, and all are below the next one. -/
structure Apart (tools : SortedMap Int ToolSlot) (next : Nat) : Prop where
  apart : ∀ a b s t, tools.find? a = some s → tools.find? b = some t →
    s.outputIndex = t.outputIndex → a = b
  below : ∀ a s, tools.find? a = some s → s.outputIndex < next

variable {kind : ItemKind} {k : Nat} {f : Entry → Entry}

theorem stateHolds_write {s s' : ItemState} (hk : s.outputIndex = some k)
    (hk' : s'.outputIndex = some k) (hentry : s'.entry kind = f (s.entry kind)) (j : Nat)
      (e : Entry) :
    stateHolds kind (some s') j e ↔
      if j = k then e = f (s.entry kind) else stateHolds kind (some s) j e := by
  unfold stateHolds
  by_cases hjk : j = k
  · simp [hjk, hk', hentry]
  · have hkj : ¬ k = j := fun h => hjk h.symm
    simp [hjk, hkj, hk, hk']

theorem stateHolds_new {s : ItemState} (hk : s.outputIndex = some k) (j : Nat) (e : Entry) :
    stateHolds kind (some s) j e ↔ j = k ∧ e = s.entry kind := by
  unfold stateHolds
  simp [hk, eq_comm]

theorem not_stateHolds {state : Option ItemState} (h : ∀ s, state = some s → s.outputIndex = none)
    (j : Nat) (e : Entry) : ¬ stateHolds kind state j e := by
  rintro ⟨s, hs, hj, -⟩
  rw [h s hs] at hj
  cases hj

theorem not_stateHolds_none (j : Nat) (e : Entry) : ¬ stateHolds kind none j e := by
  rintro ⟨s, hs, -⟩
  cases hs

theorem slotHolds_write {tools : SortedMap Int ToolSlot} {next : Nat} (h : Apart tools next)
    {index : Int} {slot slot' : ToolSlot} (hslot : tools.find? index = some slot)
    (hk' : slot'.outputIndex = slot.outputIndex) (hentry : slot'.entry = f slot.entry) (j : Nat)
    (e : Entry) : slotHolds (tools.insert index slot') j e ↔
      if j = slot.outputIndex then e = f slot.entry else slotHolds tools j e := by
  unfold slotHolds
  by_cases hj : j = slot.outputIndex
  · subst hj
    rw [if_pos rfl, ← hentry]
    constructor
    · rintro ⟨a, s, ha, hs, he⟩
      rw [SortedMap.find?_insert] at ha
      split_ifs at ha with hai
      · cases ha
        exact he
      · exact absurd (h.apart index a slot s hslot ha hs.symm) hai
    · rintro rfl
      exact ⟨index, slot', SortedMap.find?_insert_self _ _ _, hk', rfl⟩
  · rw [if_neg hj]
    constructor
    · rintro ⟨a, s, ha, hs, he⟩
      rw [SortedMap.find?_insert] at ha
      split_ifs at ha with hai
      · cases ha
        exact absurd (hs.symm.trans hk') hj
      · exact ⟨a, s, ha, hs, he⟩
    · rintro ⟨a, s, ha, hs, he⟩
      have hai : index ≠ a := by
        rintro rfl
        rw [hslot] at ha
        cases ha
        exact hj hs.symm
      exact ⟨a, s, (SortedMap.find?_insert_ne _ _ hai).trans ha, hs, he⟩

theorem slotHolds_new {tools : SortedMap Int ToolSlot} {index : Int} {slot : ToolSlot}
    (hnew : tools.find? index = none) (j : Nat) (e : Entry) :
    slotHolds (tools.insert index slot) j e ↔
      (j = slot.outputIndex ∧ e = slot.entry) ∨ slotHolds tools j e := by
  unfold slotHolds
  constructor
  · rintro ⟨a, s, ha, hs, he⟩
    rw [SortedMap.find?_insert] at ha
    split_ifs at ha
    · cases ha
      exact .inl ⟨hs.symm, he⟩
    · exact .inr ⟨a, s, ha, hs, he⟩
  · rintro (⟨hj, he⟩ | ⟨a, s, ha, hs, he⟩)
    · exact ⟨index, slot, SortedMap.find?_insert_self _ _ _, hj.symm, he⟩
    · have hai : index ≠ a := by
        rintro rfl
        rw [hnew] at ha
        cases ha
      exact ⟨a, s, (SortedMap.find?_insert_ne _ _ hai).trans ha, hs, he⟩

theorem stateHolds_kind {state : Option ItemState} {e : Entry} (h : stateHolds kind state k e) :
    e.kind = kind := by
  obtain ⟨s, -, -, rfl⟩ := h
  rfl

theorem slotHolds_kind {tools : SortedMap Int ToolSlot} {e : Entry} (h : slotHolds tools k e) :
    e.kind = .functionCall := by
  obtain ⟨a, s, -, -, rfl⟩ := h
  rfl

end Holds

/-- What holds of the converter alone between two chunks. -/
structure Sound (c : ResponsesConverter) : Prop where
  client : c.serverToolNames = []
  reasoning : ∀ state, c.reasoning = some state →
    if c.exposeThinking then state.Shown else state.itemAdded = false ∧ state.outputIndex = none
  message : ∀ state, c.message = some state → state.Shown
  slots : ∀ index slot, c.tools.find? index = some slot → slot.server = false
  apart : Apart c.tools c.nextOutputIndex

structure Tracks (c : ResponsesConverter) (board : Board) : Prop where
  items : c.outputItems = board.map Entry.descriptor
  next : c.nextOutputIndex = board.length
  holds : ∀ k entry, board[k]? = some entry ↔ c.Holds k entry

def Inv (c : ResponsesConverter) (past : List Event) : Prop :=
  Sound c ∧ ∃ board, Tracks c board ∧ Records board past

section Update
variable {c : ResponsesConverter} {board : Board} {past : List Event}
  {started : Bool} {sequence : Nat} {finishReason error modelSeen : Option String}
    {usage : Option Usage}

theorem Sound.update (h : Sound c) :
    Sound { c with started, sequence, finishReason, usage, error, modelSeen } :=
  ⟨h.client, h.reasoning, h.message, h.slots, h.apart⟩

theorem Tracks.update (h : Tracks c board) :
    Tracks { c with started, sequence, finishReason, usage, error, modelSeen } board :=
  ⟨h.items, h.next, h.holds⟩

theorem Inv.update (h : Inv c past) :
    Inv { c with started, sequence, finishReason, usage, error, modelSeen } past := by
  obtain ⟨hsound, board, htracks, hrecords⟩ := h
  exact ⟨hsound.update, board, htracks.update, hrecords⟩

end Update

section Tracks
variable {c c' : ResponsesConverter} {board : Board} {k : Nat} {entry : Entry}

theorem Tracks.add (h : Tracks c board)
    (hitems : c'.outputItems = c.outputItems ++ [entry.descriptor])
    (hnext : c'.nextOutputIndex = c.nextOutputIndex + 1)
    (hholds : ∀ j e, c'.Holds j e ↔ (j = c.nextOutputIndex ∧ e = entry) ∨ c.Holds j e) :
    Tracks c' (board ++ [entry]) where
  items := by rw [hitems, h.items, List.map_append, List.map_singleton]
  next := by rw [hnext, h.next, List.length_append, List.length_singleton]
  holds := by
    intro j e
    rw [getElem?_snoc, hholds, h.holds, h.next, or_comm]
    exact or_congr_left (and_congr_right fun _ => eq_comm)

theorem Tracks.modify (h : Tracks c board) (hk : c.Holds k entry) {f : Entry → Entry}
    (hkind : ∀ e, (f e).kind = e.kind) (hid : ∀ e, (f e).id = e.id)
    (hitems : c'.outputItems = c.outputItems) (hnext : c'.nextOutputIndex = c.nextOutputIndex)
    (hholds : ∀ j e, c'.Holds j e ↔ if j = k then e = f entry else c.Holds j e) :
    Tracks c' (board.modify k f) where
  items := by
    rw [hitems, h.items]
    refine List.ext_getElem? fun i => ?_
    rw [List.getElem?_map, List.getElem?_map, List.getElem?_modify]
    by_cases hki : k = i
    · cases board[i]? <;> simp [hki, Entry.descriptor, hkind, hid]
    · simp [hki]
  next := by rw [hnext, h.next, List.length_modify]
  holds := by
    intro j e
    rw [hholds, List.getElem?_modify]
    by_cases hjk : j = k
    · subst hjk
      rw [(h.holds j entry).mpr hk, if_pos rfl]
      simp [eq_comm]
    · have hkj : ¬ k = j := fun h => hjk h.symm
      simp [hjk, hkj, h.holds]

theorem Tracks.replace (h : Tracks c board) (hk : c.Holds k entry) {f : Entry → Entry}
    {P P' Q : Nat → Entry → Prop} (hsplit : ∀ j e, c.Holds j e ↔ P j e ∨ Q j e)
    (hQ : ∀ e, Q k e → e ≠ entry) (hP' : ∀ j e, P' j e ↔ if j = k then e = f entry else P j e)
    (j : Nat) (e : Entry) : P' j e ∨ Q j e ↔ if j = k then e = f entry else c.Holds j e := by
  by_cases hjk : j = k
  · subst hjk
    have hnone : ¬ Q j e := by
      intro hq
      have hget := (h.holds j e).mpr ((hsplit j e).mpr (.inr hq))
      rw [(h.holds j entry).mpr hk] at hget
      exact hQ e hq (Option.some.inj hget).symm
    rw [hP', if_pos rfl, if_pos rfl, or_iff_left hnone]
  · rw [hP', if_neg hjk, if_neg hjk, hsplit]

theorem Tracks.setReasoning (h : Tracks c board) {s : ItemState} (s' : ItemState)
    (f : Entry → Entry) (hs : c.reasoning = some s) (hk : s.outputIndex = some k)
    (hk' : s'.outputIndex = some k)
    (hkind : ∀ e, (f e).kind = e.kind) (hid : ∀ e, (f e).id = e.id)
    (hentry : s'.entry .reasoning = f (s.entry .reasoning)) :
    Tracks { c with reasoning := some s' } (board.modify k f) := by
  have hheld : c.Holds k (s.entry .reasoning) := .inl ⟨s, hs, hk, rfl⟩
  refine h.modify hheld hkind hid rfl rfl ?_
  refine h.replace hheld (fun j e => Iff.rfl) (fun e hq heq => ?_) fun j e => ?_
  · subst heq
    rcases hq with hq | hq
    · exact absurd (stateHolds_kind hq) nofun
    · exact absurd (slotHolds_kind hq) nofun
  · rw [hs]
    exact stateHolds_write hk hk' hentry j e

theorem Tracks.setMessage (h : Tracks c board) {s : ItemState} (s' : ItemState)
    (f : Entry → Entry) (hs : c.message = some s) (hk : s.outputIndex = some k)
    (hk' : s'.outputIndex = some k)
    (hkind : ∀ e, (f e).kind = e.kind) (hid : ∀ e, (f e).id = e.id)
    (hentry : s'.entry .message = f (s.entry .message)) :
    Tracks { c with message := some s' } (board.modify k f) := by
  have hheld : c.Holds k (s.entry .message) := .inr (.inl ⟨s, hs, hk, rfl⟩)
  refine h.modify hheld hkind hid rfl rfl fun j e => or_left_comm.trans ?_
  refine h.replace hheld (fun j e => or_left_comm) (fun e hq heq => ?_) (fun j e => ?_) j e
  · subst heq
    rcases hq with hq | hq
    · exact absurd (stateHolds_kind hq) nofun
    · exact absurd (slotHolds_kind hq) nofun
  · rw [hs]
    exact stateHolds_write hk hk' hentry j e

theorem Tracks.setSlot (h : Tracks c board) (hsound : Sound c) {index : Int} {slot : ToolSlot}
    (slot' : ToolSlot) (f : Entry → Entry) (hslot : c.tools.find? index = some slot)
    (hk' : slot'.outputIndex = slot.outputIndex) (hkind : ∀ e, (f e).kind = e.kind)
    (hid : ∀ e, (f e).id = e.id) (hentry : slot'.entry = f slot.entry) :
    Tracks { c with tools := c.tools.insert index slot' } (board.modify slot.outputIndex f) := by
  have hheld : c.Holds slot.outputIndex slot.entry := .inr (.inr ⟨index, slot, hslot, rfl, rfl⟩)
  refine h.modify hheld hkind hid rfl rfl fun j e => ?_
  unfold Holds
  rw [← or_assoc, or_comm]
  refine h.replace hheld (fun j e => by unfold Holds; rw [← or_assoc, or_comm]) (fun e hq heq => ?_)
    (fun j e => slotHolds_write hsound.apart hslot hk' hentry j e) j e
  subst heq
  rcases hq with hq | hq
  · exact absurd (stateHolds_kind hq) nofun
  · exact absurd (stateHolds_kind hq) nofun

end Tracks

section Events
variable {board : Board} {past : List Event} {k : Nat} {entry : Entry}

theorem modify_snoc {α : Type} (xs : List α) (x : α) (f : α → α) :
    (xs ++ [x]).modify xs.length f = xs ++ [f x] := by
  induction xs with
  | nil => rfl
  | cons y xs ih => exact congrArg (y :: ·) ih

theorem announce (h : Records board past) (item : Item) {part first : Event} {delta : String}
    (hpart : part.about? = some ⟨item.kind, item.id, board.length⟩)
    (hpartDelta : part.deltaText? = none) (hpartDone : part.done? = none)
    (hfirst : first.about? = some ⟨item.kind, item.id, board.length⟩)
    (hdelta : first.deltaText? = some delta) (hfirstDone : first.done? = none) :
    Records (board ++ [⟨item.kind, item.id, delta, false⟩])
      (past ++ [.outputItemAdded board.length item, part, first]) := by
  let entry : Entry := ⟨item.kind, item.id, "", false⟩
  have hget : (board ++ [entry])[board.length]? = some entry := List.getElem?_concat_length
  have hboard : (board ++ [entry]).modify board.length (Entry.write delta) =
      board ++ [⟨item.kind, item.id, delta, false⟩] := by
    rw [modify_snoc]
    unfold Entry.write
    rw [show entry.text ++ delta = delta from String.empty_append]
  rw [← hboard, List.append_cons past, List.append_cons _ part]
  exact ((h.add item).neutral hget hpart hpartDelta hpartDone).write hget hfirst hdelta hfirstDone

theorem sealItem (h : Records board past) (hk : board[k]? = some entry)
    (hopen : entry.closed = false) {text part : Event}
    (htext : text.about? = some ⟨entry.kind, entry.id, k⟩) (htextDelta : text.deltaText? = none)
    (htextDone : text.done? = none) (hpart : part.about? = some ⟨entry.kind, entry.id, k⟩)
    (hpartDelta : part.deltaText? = none) (hpartDone : part.done? = none) {item : Item}
    (hkind : item.kind = entry.kind) (hid : item.id = entry.id) :
    Records (board.modify k Entry.close) (past ++ [text, part, .outputItemDone k item]) := by
  rw [List.append_cons, List.append_cons _ part]
  have hneutral := (h.neutral hk htext htextDelta htextDone).neutral hk hpart hpartDelta hpartDone
  exact hneutral.close hk hopen hkind hid

end Events

section Equations
variable (hex : Nat → String) {c : ResponsesConverter}

theorem feedReasoning_hidden (hexpose : c.exposeThinking = false) (reasoning : String) :
    feedReasoning hex reasoning c =
      let state := (c.reasoning.getD (.fresh ("rs_" ++ hex c.draws)))
      ({ c with
        reasoning := some { state with accum := state.accum ++ reasoning }
        draws := if c.reasoning.isSome then c.draws else c.draws + 1 }, []) := by
  unfold feedReasoning stateOr
  cases hr : c.reasoning <;> simp [hexpose]

theorem feedReasoning_new (hexpose : c.exposeThinking = true) (hnone : c.reasoning = none)
    (reasoning : String) :
    feedReasoning hex reasoning c =
      let id := "rs_" ++ hex c.draws
      ({ c with
        reasoning := some ⟨id, some c.nextOutputIndex, reasoning, true, true, false, false⟩
        nextOutputIndex := c.nextOutputIndex + 1
        outputItems := c.outputItems ++ [.reasoning id]
        draws := c.draws + 1 },
      [.outputItemAdded c.nextOutputIndex (.reasoning id none),
        .reasoningPartAdded id c.nextOutputIndex,
        .reasoningDelta id c.nextOutputIndex reasoning]) := by
  unfold feedReasoning stateOr allocate
  simp [hexpose, hnone, ItemState.fresh]

theorem feedReasoning_shown (hexpose : c.exposeThinking = true) {state : ItemState}
    (hstate : c.reasoning = some state) (hshown : state.Shown) {k : Nat}
    (hk : state.outputIndex = some k) (reasoning : String) :
    feedReasoning hex reasoning c =
      ({ c with reasoning := some { state with accum := state.accum ++ reasoning } },
        [.reasoningDelta state.itemId k reasoning]) := by
  unfold feedReasoning stateOr allocate
  obtain ⟨hadded, hpart, -, -⟩ := hshown
  obtain ⟨itemId, outputIndex, accum, itemAdded, partAdded, partDone, itemDone⟩ := state
  simp_all

theorem feedText_new (hnone : c.message = none) (content : String) :
    feedText hex content c =
      let id := "msg_" ++ hex c.draws
      ({ c with
        message := some ⟨id, some c.nextOutputIndex, content, true, true, false, false⟩
        nextOutputIndex := c.nextOutputIndex + 1
        outputItems := c.outputItems ++ [.message id]
        draws := c.draws + 1 },
      [.outputItemAdded c.nextOutputIndex (.message id none),
        .contentPartAdded id c.nextOutputIndex,
        .outputTextDelta id c.nextOutputIndex content]) := by
  unfold feedText stateOr allocate
  simp [hnone, ItemState.fresh]

theorem feedText_shown {state : ItemState} (hstate : c.message = some state) (hshown : state.Shown)
    {k : Nat} (hk : state.outputIndex = some k) (content : String) :
    feedText hex content c =
      ({ c with message := some { state with accum := state.accum ++ content } },
        [.outputTextDelta state.itemId k content]) := by
  unfold feedText stateOr allocate
  obtain ⟨hadded, hpart, -, -⟩ := hshown
  obtain ⟨itemId, outputIndex, accum, itemAdded, partAdded, partDone, itemDone⟩ := state
  simp_all

theorem addToolItem_client (hclient : c.serverToolNames = []) (call : ToolCallDelta) :
    addToolItem hex call c =
      let slot : ToolSlot := ⟨"fc_" ++ hex c.draws, call.id.getD "", call.name.getD "", "",
        c.nextOutputIndex, false, false⟩
      ({ c with
        nextOutputIndex := c.nextOutputIndex + 1
        draws := c.draws + 1
        tools := c.tools.insert call.index slot
        outputItems := c.outputItems ++ [.functionCall slot.itemId] },
      [.outputItemAdded c.nextOutputIndex
        (.functionCall slot.itemId slot.callId slot.name none)]) := by
  unfold addToolItem
  simp [hclient]

theorem feedToolCallArguments_client (hclient : c.serverToolNames = []) (call : ToolCallDelta)
    {slot : ToolSlot} (hslot : c.tools.find? call.index = some slot)
      (hserver : slot.server = false) :
    feedToolCallArguments call c =
      ({ c with tools := c.tools.insert call.index { slot with
          callId := keepOr call.id slot.callId
          name := keepOr call.name slot.name
          arguments := slot.arguments ++ call.arguments.getD "" } },
        if call.arguments.getD "" = "" then []
        else [.argumentsDelta slot.itemId slot.outputIndex (call.arguments.getD "")]) := by
  have hnone (names : Option String) : names.any ([] : List String).contains = false := by
    cases names <;> rfl
  unfold feedToolCallArguments
  rw [hslot]
  simp [hclient, hserver, hnone]

theorem closeMessageItem_open {state : ItemState} (hstate : c.message = some state)
    (hshown : state.Shown) (hopen : state.itemDone = false) {k : Nat}
    (hk : state.outputIndex = some k) :
    closeMessageItem c =
      ({ c with message := some { state with itemDone := true, partDone := true } },
        [.outputTextDone state.itemId k state.accum, .contentPartDone state.itemId k state.accum,
          .outputItemDone k (.message state.itemId (some state.accum))]) := by
  unfold closeMessageItem ItemState.wireIndex
  rw [hstate]
  simp [hopen, hshown.partAdded, hshown.partDone, hk]

theorem closeMessageItem_done (hdone : ∀ state, c.message = some state → state.itemDone = true) :
    closeMessageItem c = (c, []) := by
  unfold closeMessageItem
  cases hm : c.message with
  | none => rfl
  | some state => simp [hdone state hm]

theorem closeReasoningItem_open {state : ItemState} (hstate : c.reasoning = some state)
    (hshown : state.Shown) (hopen : state.itemDone = false) {k : Nat}
    (hk : state.outputIndex = some k) :
    closeReasoningItem c =
      ({ c with reasoning := some { state with itemDone := true, partDone := true } },
        [.reasoningTextDone state.itemId k state.accum,
          .reasoningPartDone state.itemId k state.accum,
          .outputItemDone k (.reasoning state.itemId (some state.accum))]) := by
  unfold closeReasoningItem ItemState.wireIndex
  rw [hstate]
  simp [hopen, hshown.itemAdded, hshown.partAdded, hshown.partDone, hk]

theorem closeReasoningItem_hidden
    (hhidden : ∀ state, c.reasoning = some state → state.itemAdded = false) :
    closeReasoningItem c = (c, []) := by
  unfold closeReasoningItem
  cases hr : c.reasoning with
  | none => rfl
  | some state => simp [hhidden state hr]

theorem closeReasoningItem_done {state : ItemState} (hstate : c.reasoning = some state)
    (hdone : state.itemDone = true) : closeReasoningItem c = (c, []) := by
  unfold closeReasoningItem
  rw [hstate]
  simp [hdone]

end Equations

section Steps
variable (hex : Nat → String)

theorem keeps_feedReasoning (reasoning : String) : Keeps Inv (feedReasoning hex reasoning) := by
  rintro c past ⟨hsound, board, htracks, hrecords⟩
  cases hexpose : c.exposeThinking with
  | false =>
    have hhidden : ∀ state, c.reasoning = some state →
        state.itemAdded = false ∧ state.outputIndex = none := by
      intro state hstate
      have hr := hsound.reasoning state hstate
      rwa [hexpose, if_neg Bool.false_ne_true] at hr
    have hfresh : (c.reasoning.getD (.fresh ("rs_" ++ hex c.draws))).itemAdded = false ∧
        (c.reasoning.getD (.fresh ("rs_" ++ hex c.draws))).outputIndex = none := by
      cases hr : c.reasoning with
      | none => exact ⟨rfl, rfl⟩
      | some state => exact hhidden state hr
    rw [feedReasoning_hidden hex hexpose, List.append_nil]
    refine ⟨⟨hsound.client, ?_, hsound.message, hsound.slots, hsound.apart⟩, board, ?_, hrecords⟩
    · intro state hstate
      cases hstate
      dsimp only
      rw [hexpose, if_neg Bool.false_ne_true]
      exact hfresh
    · refine ⟨htracks.items, htracks.next, fun k entry => ?_⟩
      rw [htracks.holds]
      have hold : ¬ stateHolds .reasoning c.reasoning k entry :=
        not_stateHolds (fun s hs => (hhidden s hs).2) k entry
      have hnew :
          ¬ stateHolds .reasoning (some { (c.reasoning.getD (.fresh ("rs_" ++ hex c.draws))) with
            accum := (c.reasoning.getD (.fresh ("rs_" ++ hex c.draws))).accum ++ reasoning })
            k entry := by
        refine not_stateHolds (fun s hs => ?_) k entry
        cases hs
        exact hfresh.2
      exact (or_iff_right hold).trans (or_iff_right hnew).symm
  | true =>
    cases hreasoning : c.reasoning with
    | none =>
      rw [feedReasoning_new hex hexpose hreasoning, htracks.next]
      have happart : Apart c.tools (c.nextOutputIndex + 1) :=
        ⟨hsound.apart.apart, fun a s ha => Nat.lt_succ_of_lt (hsound.apart.below a s ha)⟩
      refine ⟨⟨hsound.client, ?_, hsound.message, hsound.slots, htracks.next ▸ happart⟩, _, ?_,
        announce hrecords (.reasoning _ none) rfl rfl rfl rfl rfl rfl⟩
      · intro state hstate
        cases hstate
        dsimp only
        rw [hexpose, if_pos rfl]
        exact ⟨rfl, rfl, rfl, _, rfl⟩
      · refine htracks.add rfl (by rw [htracks.next]) fun j e => ?_
        unfold Holds
        dsimp only
        rw [stateHolds_new rfl, hreasoning, htracks.next]
        have hnone : ¬ stateHolds .reasoning none j e := not_stateHolds_none j e
        rw [or_iff_right hnone]
        rfl
    | some state =>
      have hr := hsound.reasoning state hreasoning
      rw [hexpose, if_pos rfl] at hr
      obtain ⟨k, hk⟩ := hr.placed
      let state' : ItemState := { state with accum := state.accum ++ reasoning }
      have htracks' : Tracks { c with reasoning := some state' }
          (board.modify k (Entry.write reasoning)) :=
        htracks.setReasoning state' _ hreasoning hk hk (fun _ => rfl) (fun _ => rfl) rfl
      rw [feedReasoning_shown hex hexpose hreasoning hr hk]
      refine ⟨⟨hsound.client, ?_, hsound.message, hsound.slots, hsound.apart⟩, _, htracks',
        hrecords.write ((htracks.holds k _).mpr (.inl ⟨state, hreasoning, hk, rfl⟩)) rfl rfl rfl⟩
      intro state' hstate'
      cases hstate'
      dsimp only
      rw [hexpose, if_pos rfl]
      exact ⟨hr.itemAdded, hr.partAdded, hr.partDone, k, hk⟩

theorem keeps_feedText (content : String) : Keeps Inv (feedText hex content) := by
  rintro c past ⟨hsound, board, htracks, hrecords⟩
  cases hmessage : c.message with
  | none =>
    rw [feedText_new hex hmessage, htracks.next]
    have happart : Apart c.tools (c.nextOutputIndex + 1) :=
      ⟨hsound.apart.apart, fun a s ha => Nat.lt_succ_of_lt (hsound.apart.below a s ha)⟩
    refine ⟨⟨hsound.client, hsound.reasoning, ?_, hsound.slots, htracks.next ▸ happart⟩, _, ?_,
      announce hrecords (.message _ none) rfl rfl rfl rfl rfl rfl⟩
    · intro state hstate
      cases hstate
      exact ⟨rfl, rfl, rfl, _, rfl⟩
    · refine htracks.add rfl (by rw [htracks.next]) fun j e => ?_
      unfold Holds
      dsimp only
      rw [@stateHolds_new .message _ _ rfl, hmessage, htracks.next]
      have hnone : ¬ stateHolds .message none j e := not_stateHolds_none j e
      rw [or_iff_right hnone, or_left_comm]
      rfl
  | some state =>
    have hshown := hsound.message state hmessage
    obtain ⟨k, hk⟩ := hshown.placed
    let state' : ItemState := { state with accum := state.accum ++ content }
    have htracks' : Tracks { c with message := some state' }
      (board.modify k (Entry.write content)) :=
      htracks.setMessage state' _ hmessage hk hk (fun _ => rfl) (fun _ => rfl) rfl
    rw [feedText_shown hex hmessage hshown hk]
    refine ⟨⟨hsound.client, hsound.reasoning, ?_, hsound.slots, hsound.apart⟩, _, htracks',
      hrecords.write ((htracks.holds k _).mpr (.inr (.inl ⟨state, hmessage, hk, rfl⟩))) rfl rfl rfl⟩
    intro state' hstate'
    cases hstate'
    exact ⟨hshown.itemAdded, hshown.partAdded, hshown.partDone, k, hk⟩

theorem keeps_closeReasoningItem : Keeps Inv closeReasoningItem := by
  rintro c past ⟨hsound, board, htracks, hrecords⟩
  cases hreasoning : c.reasoning with
  | none =>
    rw [closeReasoningItem_hidden (by rw [hreasoning]; exact nofun), List.append_nil]
    exact ⟨hsound, board, htracks, hrecords⟩
  | some state =>
    have hr := hsound.reasoning state hreasoning
    split_ifs at hr with hexpose
    · cases hopen : state.itemDone with
      | true =>
        rw [closeReasoningItem_done hreasoning hopen, List.append_nil]
        exact ⟨hsound, board, htracks, hrecords⟩
      | false =>
        obtain ⟨k, hk⟩ := hr.placed
        let state' : ItemState := { state with itemDone := true, partDone := true }
        have htracks' : Tracks { c with reasoning := some state' } (board.modify k Entry.close) :=
          htracks.setReasoning state' _ hreasoning hk hk (fun _ => rfl) (fun _ => rfl) rfl
        rw [closeReasoningItem_open hreasoning hr hopen hk]
        refine ⟨⟨hsound.client, ?_, hsound.message, hsound.slots, hsound.apart⟩, _, htracks',
          sealItem hrecords ((htracks.holds k _).mpr (.inl ⟨state, hreasoning, hk, rfl⟩)) hopen
            rfl rfl rfl rfl rfl rfl rfl rfl⟩
        intro state'' hstate
        cases hstate
        dsimp only
        rw [if_pos hexpose]
        exact ⟨hr.itemAdded, hr.partAdded, rfl, k, hk⟩
    · have hhidden : ∀ s, c.reasoning = some s → s.itemAdded = false := by
        rw [hreasoning]
        rintro s ⟨rfl⟩
        exact hr.1
      rw [closeReasoningItem_hidden hhidden, List.append_nil]
      exact ⟨hsound, board, htracks, hrecords⟩

theorem keeps_closeMessageItem : Keeps Inv closeMessageItem := by
  rintro c past ⟨hsound, board, htracks, hrecords⟩
  by_cases hdone : ∀ state, c.message = some state → state.itemDone = true
  · rw [closeMessageItem_done hdone, List.append_nil]
    exact ⟨hsound, board, htracks, hrecords⟩
  · obtain ⟨state, hstate⟩ := not_forall.mp hdone
    obtain ⟨hmessage, hopen⟩ := Classical.not_imp.mp hstate
    have hopen := Bool.eq_false_iff.mpr hopen
    have hshown := hsound.message state hmessage
    obtain ⟨k, hk⟩ := hshown.placed
    let state' : ItemState := { state with itemDone := true, partDone := true }
    have htracks' : Tracks { c with message := some state' } (board.modify k Entry.close) :=
      htracks.setMessage state' _ hmessage hk hk (fun _ => rfl) (fun _ => rfl) rfl
    rw [closeMessageItem_open hmessage hshown hopen hk]
    refine ⟨⟨hsound.client, hsound.reasoning, ?_, hsound.slots, hsound.apart⟩, _, htracks',
      sealItem hrecords ((htracks.holds k _).mpr (.inr (.inl ⟨state, hmessage, hk, rfl⟩))) hopen
        rfl rfl rfl rfl rfl rfl rfl rfl⟩
    intro state' hstate'
    cases hstate'
    exact ⟨hshown.itemAdded, hshown.partAdded, rfl, k, hk⟩

theorem tools_closeMessageItem (c : ResponsesConverter) :
    (closeMessageItem c).1.tools = c.tools := by
  obtain ⟨message, hstep, -⟩ := closeMessageItem_step c
  rw [hstep]

theorem leads_addToolItem (call : ToolCallDelta) :
    Leads (fun c past => Inv c past ∧ c.tools.find? call.index = none) Inv
      (addToolItem hex call) := by
  rintro c past ⟨⟨hsound, board, htracks, hrecords⟩, hnew⟩
  rw [addToolItem_client hex hsound.client, htracks.next]
  let slot : ToolSlot := ⟨"fc_" ++ hex c.draws, call.id.getD "", call.name.getD "", "",
    board.length, false, false⟩
  have hcases : ∀ a s, (c.tools.insert call.index slot).find? a = some s →
      (a = call.index ∧ s = slot) ∨ c.tools.find? a = some s := by
    intro a s ha
    rw [SortedMap.find?_insert] at ha
    split_ifs at ha with hai
    · exact .inl ⟨hai.symm, (Option.some.inj ha).symm⟩
    · exact .inr ha
  have hbelow : ∀ a s, c.tools.find? a = some s → s.outputIndex < board.length := by
    rw [← htracks.next]
    exact hsound.apart.below
  refine ⟨⟨hsound.client, hsound.reasoning, hsound.message, ?_, ?_, ?_⟩, _, ?_,
    hrecords.add (.functionCall slot.itemId slot.callId slot.name none)⟩
  · intro a s ha
    rcases hcases a s ha with ⟨-, rfl⟩ | ha
    · rfl
    · exact hsound.slots a s ha
  · intro a b s t ha hb hst
    rcases hcases a s ha with ⟨hai, rfl⟩ | hold
    · rcases hcases b t hb with ⟨hbi, -⟩ | hold
      · exact hai.trans hbi.symm
      · exact absurd (hbelow b t hold) (Nat.not_lt.mpr hst.le)
    · rcases hcases b t hb with ⟨-, rfl⟩ | hold'
      · exact absurd (hbelow a s hold) (Nat.not_lt.mpr hst.ge)
      · exact hsound.apart.apart a b s t hold hold' hst
  · intro a s ha
    rcases hcases a s ha with ⟨-, rfl⟩ | hold
    · exact Nat.lt_succ_self _
    · exact Nat.lt_succ_of_lt (hbelow a s hold)
  · refine htracks.add rfl (by rw [htracks.next]) fun j e => ?_
    have hslots : slotHolds (c.tools.insert call.index slot) j e ↔
        (j = c.nextOutputIndex ∧ e = slot.entry) ∨ slotHolds c.tools j e := by
      rw [slotHolds_new hnew, htracks.next]
    refine (or_congr_right (or_congr_right hslots)).trans ?_
    rw [or_left_comm (b := j = _ ∧ _), or_left_comm (b := j = _ ∧ _)]
    rfl

/-- What the end of the message keeps, and a new item of a call, the mention of a call keeps. -/
theorem keeps_ensureToolItemAdded_of {inv : ResponsesConverter → List Event → Prop}
    {call : ToolCallDelta}
    (hclose : Keeps inv closeMessageItem)
    (hadd : Leads (fun c past => inv c past ∧ c.tools.find? call.index = none) inv
      (addToolItem hex call)) :
    Keeps inv (ensureToolItemAdded hex call) := by
  intro c past h
  unfold ensureToolItemAdded
  split_ifs with hcontains hempty
  · rw [List.append_nil]
    exact h
  · have hclosed : Leads (fun c past => inv c past ∧ c.tools.find? call.index = none)
        (fun c past => inv c past ∧ c.tools.find? call.index = none) closeMessageItem := by
      rintro c past ⟨h, hnew⟩
      exact ⟨hclose c past h, by rw [tools_closeMessageItem, hnew]⟩
    exact hclosed.andThen hadd c past ⟨h, Option.not_isSome_iff_eq_none.mp hcontains⟩
  · exact hadd c past ⟨h, Option.not_isSome_iff_eq_none.mp hcontains⟩

theorem keeps_ensureToolItemAdded (call : ToolCallDelta) :
    Keeps Inv (ensureToolItemAdded hex call) :=
  keeps_ensureToolItemAdded_of hex keeps_closeMessageItem (leads_addToolItem hex call)

theorem keeps_feedToolCallArguments (call : ToolCallDelta) :
    Keeps Inv (feedToolCallArguments call) := by
  rintro c past ⟨hsound, board, htracks, hrecords⟩
  cases hfind : c.tools.find? call.index with
  | none =>
    unfold feedToolCallArguments
    rw [hfind, List.append_nil]
    exact ⟨hsound, board, htracks, hrecords⟩
  | some slot =>
    have hserver := hsound.slots call.index slot hfind
    rw [feedToolCallArguments_client hsound.client call hfind hserver]
    generalize call.arguments.getD "" = arguments
    let slot' : ToolSlot := { slot with
      callId := keepOr call.id slot.callId
      name := keepOr call.name slot.name
      arguments := slot.arguments ++ arguments }
    have htracks' : Tracks { c with tools := c.tools.insert call.index slot' }
        (board.modify slot.outputIndex (Entry.write arguments)) :=
      htracks.setSlot hsound slot' _ hfind rfl (fun _ => rfl) (fun _ => rfl) rfl
    have hheld : board[slot.outputIndex]? = some slot.entry :=
      (htracks.holds _ _).mpr (.inr (.inr ⟨call.index, slot, hfind, rfl, rfl⟩))
    -- each slot of the new map has the index and the origin of one of the old map
    have hold : ∀ a s, (c.tools.insert call.index slot').find? a = some s →
        ∃ s₀, c.tools.find? a = some s₀ ∧ s.outputIndex = s₀.outputIndex ∧
        s.server = s₀.server := by
      intro a s ha
      rw [SortedMap.find?_insert] at ha
      split_ifs at ha with hai
      · subst hai
        cases ha
        exact ⟨slot, hfind, rfl, rfl⟩
      · exact ⟨s, ha, rfl, rfl⟩
    refine ⟨⟨hsound.client, hsound.reasoning, hsound.message, ?_, ?_, ?_⟩, _, htracks', ?_⟩
    · intro a s ha
      obtain ⟨s₀, hs₀, -, hserver⟩ := hold a s ha
      rw [hserver]
      exact hsound.slots a s₀ hs₀
    · intro a b s t ha hb hst
      obtain ⟨s₀, hs₀, hs, -⟩ := hold a s ha
      obtain ⟨t₀, ht₀, ht, -⟩ := hold b t hb
      exact hsound.apart.apart a b s₀ t₀ hs₀ ht₀ (by rw [← hs, ← ht, hst])
    · intro a s ha
      obtain ⟨s₀, hs₀, hs, -⟩ := hold a s ha
      rw [hs]
      exact hsound.apart.below a s₀ hs₀
    · split_ifs with hempty
      · have hwrite : Entry.write arguments = id := by
          funext e
          unfold Entry.write
          rw [hempty, String.append_empty]
          rfl
        rw [hwrite, List.modify_id, List.append_nil]
        exact hrecords
      · exact hrecords.write hheld rfl rfl rfl

theorem keeps_feedDelta (delta : Delta) : Keeps Inv (feedDelta hex delta) := by
  cases delta with
  | finish reason =>
    exact leads_silent fun c past h => h.update
  | reasoning text => exact keeps_feedReasoning hex text
  | content text => exact keeps_feedText hex text
  | toolCalls calls =>
    exact (keeps_forEach fun call _ => keeps_ensureToolItemAdded hex call).andThen
      (keeps_forEach fun call _ => keeps_feedToolCallArguments call)

theorem keeps_ensureStarted : Keeps Inv ensureStarted := by
  rintro c past ⟨hsound, board, htracks, hrecords⟩
  unfold ensureStarted
  split_ifs
  · rw [List.append_nil]
    exact ⟨hsound, board, htracks, hrecords⟩
  · refine ⟨hsound.update, board, htracks.update, ?_⟩
    rw [List.append_cons]
    exact (hrecords.outside rfl rfl rfl).outside rfl rfl rfl

theorem keeps_feedChunkEvents (chunk : Json) : Keeps Inv (feedChunkEvents hex chunk) := by
  have hnote : Keeps Inv (silent (noteChunk chunk)) := leads_silent fun _ _ h => h.update
  exact keeps_ensureStarted.andThen
    (hnote.andThen (keeps_forEach fun delta _ => keeps_feedDelta hex delta))

theorem inv_new (createdAt : UInt64) (model : String) (exposeThinking : Bool) :
    Inv (new hex createdAt model exposeThinking) [] := by
  have happart : Apart (new hex createdAt model exposeThinking).tools 0 :=
    ⟨fun _ _ _ _ h => (nomatch h), fun _ _ h => (nomatch h)⟩
  refine ⟨⟨rfl, nofun, nofun, nofun, happart⟩, [], ⟨rfl, rfl, fun k entry => ?_⟩, records_nil⟩
  constructor
  · intro h
    cases h
  · rintro (⟨s, hs, -⟩ | ⟨s, hs, -⟩ | ⟨a, s, hs, -⟩) <;> cases hs

end Steps

end ResponsesConverter
end Lobster.Responses
