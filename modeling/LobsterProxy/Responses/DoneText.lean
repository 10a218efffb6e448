import LobsterProxy.Chat.Phase
import LobsterProxy.Responses.StreamWellFormed

/-! The `done` frames of an item are its last word, unless text resumes after a
tool call. -/

namespace Lobster.Responses
open Chat Emitter Trace

/-- A delta comes only while its item is not done. -/
def BeforeDone (past : List Event) (e : Event) : Prop :=
  ∀ about, e.about? = some about → e.deltaText?.isSome = true → donesAt about.outputIndex past = []

/-- What the `done` frames say so far is all that has been streamed. -/
structure Settling (past : List Event) : Prop where
  beforeDone : Legal BeforeDone past
  texts : ∀ k text, text ∈ doneTexts k past → text = streamed k past ∧ donesAt k past ≠ []

theorem doneTexts_append (k : Nat) (past more : List Event) :
    doneTexts k (past ++ more) = doneTexts k past ++ doneTexts k more := by
  unfold doneTexts
  rw [List.filter_append, List.filterMap_append]

theorem donesAt_append (k : Nat) (past more : List Event) :
    donesAt k (past ++ more) = donesAt k past ++ donesAt k more := by
  unfold donesAt
  rw [List.filter_append, List.filterMap_append]

theorem streamed_append (k : Nat) (past : List Event) {more : List Event}
    (h : ∀ e ∈ more, e.deltaText? = none) : streamed k (past ++ more) = streamed k past := by
  induction more using List.reverseRecOn with
  | nil => rw [List.append_nil]
  | append_singleton more e ih =>
    rw [← List.append_assoc, streamed_snoc, h e (List.mem_append_right _ List.mem_cons_self),
      ih fun e' he' => h e' (List.mem_append_left _ he')]
    split_ifs
    · exact String.append_empty
    · rfl

theorem legal_append {past more : List Event} (h : Legal BeforeDone past)
    (hmore : ∀ e ∈ more, e.deltaText? = none) : Legal BeforeDone (past ++ more) := by
  induction more using List.reverseRecOn with
  | nil => rwa [List.append_nil]
  | append_singleton more e ih =>
    rw [← List.append_assoc]
    refine (ih fun e' he' => hmore e' (List.mem_append_left _ he')).snoc fun about _ hdelta => ?_
    rw [hmore e (List.mem_append_right _ List.mem_cons_self)] at hdelta
    cases hdelta

theorem settling_nil : Settling [] := ⟨legal_nil, fun k text h => by cases h⟩

theorem mem_doneTexts {k : Nat} {text : String} {events : List Event} :
    text ∈ doneTexts k events ↔ ∃ e ∈ events, e.isAbout k = true ∧ e.doneText? = some text := by
  unfold doneTexts
  simp only [List.mem_filterMap, List.mem_filter, and_assoc]

theorem donesAt_ne_nil {k : Nat} {item : Item} {events : List Event}
    (h : Event.outputItemDone k item ∈ events) : donesAt k events ≠ [] := by
  refine List.ne_nil_of_mem (a := item) (List.mem_filterMap.mpr ⟨.outputItemDone k item, ?_, rfl⟩)
  exact List.mem_filter.mpr ⟨h, (isAbout_iff rfl k).mpr rfl⟩

theorem Settling.close {past more : List Event} (h : Settling past)
    (hdelta : ∀ e ∈ more, e.deltaText? = none)
    (htexts : ∀ e ∈ more, ∀ k text, e.isAbout k = true → e.doneText? = some text →
      text = streamed k past ∧ ∃ item, Event.outputItemDone k item ∈ more) :
    Settling (past ++ more) := by
  refine ⟨legal_append h.beforeDone hdelta, fun k text hmem => ?_⟩
  rw [doneTexts_append] at hmem
  rw [streamed_append k past hdelta, donesAt_append]
  rcases List.mem_append.mp hmem with hpast | hmore
  · obtain ⟨htext, hdone⟩ := h.texts k text hpast
    exact ⟨htext, List.append_ne_nil_of_left_ne_nil hdone _⟩
  · obtain ⟨e, he, habout, hdone⟩ := mem_doneTexts.mp hmore
    obtain ⟨htext, item, hitem⟩ := htexts e he k text habout hdone
    exact ⟨htext, List.append_ne_nil_of_right_ne_nil _ (donesAt_ne_nil hitem)⟩

theorem Settling.quiet {past more : List Event} (h : Settling past)
    (hdelta : ∀ e ∈ more, e.deltaText? = none) (htext : ∀ e ∈ more, e.doneText? = none) :
    Settling (past ++ more) := h.close hdelta fun e he k text _ hdone => by
  rw [htext e he] at hdone
  cases hdone

theorem Settling.write {past : List Event} (h : Settling past) {e : Event} {about : About}
    (he : e.about? = some about) (hopen : donesAt about.outputIndex past = [])
    (htext : e.doneText? = none) : Settling (past ++ [e]) := by
  constructor
  · refine h.beforeDone.snoc fun about' habout _ => ?_
    rw [he] at habout
    cases habout
    exact hopen
  · intro k text hmem
    rw [doneTexts_snoc, htext, Option.toList_none, ite_self, List.append_nil] at hmem
    obtain ⟨htext, hdone⟩ := h.texts k text hmem
    have hk : ¬ e.isAbout k = true := by
      rw [isAbout_iff he]
      rintro rfl
      exact hdone hopen
    rw [streamed_snoc, donesAt_snoc, if_neg hk, if_neg hk, List.append_nil]
    exact ⟨htext, hdone⟩

section Records
variable {board : Board} {past : List Event} {k : Nat} {entry : Entry}

theorem Records.donesAt_open (h : Records board past) (hk : board[k]? = some entry)
    (hopen : entry.closed = false) : donesAt k past = [] := by
  have hdones := h.dones k entry hk
  rw [hopen, if_neg Bool.false_ne_true] at hdones
  exact List.map_eq_nil_iff.mp hdones

theorem Records.donesAt_closed (h : Records board past) (hk : board[k]? = some entry)
    (hclosed : entry.closed = true) : donesAt k past ≠ [] := by
  intro hnil
  have hdones := h.dones k entry hk
  rw [hnil, hclosed, if_pos rfl] at hdones
  cases hdones

theorem settling_announce (hrecords : Records board past) (h : Settling past) (item : Item)
    {part first : Event} {about : About} (hpart : part.deltaText? = none)
    (hpartDone : part.done? = none) (hpartText : part.doneText? = none)
    (hfirst : first.about? = some about) (habout : about.outputIndex = board.length)
    (hfirstText : first.doneText? = none) :
    Settling (past ++ [.outputItemAdded board.length item, part, first]) := by
  have hquiet : Settling (past ++ [.outputItemAdded board.length item, part]) := by
    refine h.quiet ?_ ?_ <;> intro e he <;> rcases List.mem_pair.mp he with rfl | rfl
    · rfl
    · exact hpart
    · rfl
    · exact hpartText
  have hsplit : past ++ [.outputItemAdded board.length item, part, first] =
      past ++ [.outputItemAdded board.length item, part] ++ [first] := by
    rw [List.append_assoc]
    rfl
  rw [hsplit]
  refine hquiet.write hfirst ?_ hfirstText
  rw [habout, donesAt_append, (hrecords.beyond (Nat.le_refl _)).2.1, List.nil_append]
  unfold donesAt
  refine List.filterMap_eq_nil_iff.mpr fun e he => ?_
  rcases List.mem_pair.mp (List.mem_of_mem_filter he) with rfl | rfl
  · rfl
  · rw [hpartDone]
    rfl

theorem settling_seal (hrecords : Records board past) (h : Settling past)
    (hk : board[k]? = some entry) {text part : Event} {item : Item}
    (htext : text.about? = some ⟨entry.kind, entry.id, k⟩) (htextDelta : text.deltaText? = none)
    (htextDone : text.doneText? = some entry.text)
    (hpart : part.about? = some ⟨entry.kind, entry.id, k⟩) (hpartDelta : part.deltaText? = none)
    (hpartDone : part.doneText? = some entry.text) (hitem : item.text? = some entry.text) :
    Settling (past ++ [text, part, .outputItemDone k item]) := by
  have hevents : ∀ e ∈ [text, part, .outputItemDone k item], e.deltaText? = none ∧
      e.doneText? = some entry.text ∧ ∀ j, e.isAbout j = true → k = j := by
    intro e he
    simp only [List.mem_cons, List.not_mem_nil, or_false] at he
    rcases he with rfl | rfl | rfl
    · exact ⟨htextDelta, htextDone, fun j => (isAbout_iff htext j).mp⟩
    · exact ⟨hpartDelta, hpartDone, fun j => (isAbout_iff hpart j).mp⟩
    · exact ⟨rfl, hitem, fun j => (isAbout_iff (e := .outputItemDone k item) rfl j).mp⟩
  refine h.close (fun e he => (hevents e he).1) fun e he j text' habout hdone => ?_
  obtain ⟨-, hsame, hindex⟩ := hevents e he
  rw [hsame] at hdone
  obtain rfl := Option.some.inj hdone
  obtain rfl := hindex j habout
  exact ⟨(hrecords.streamed k entry hk).symm, item, by simp⟩

end Records

namespace ResponsesConverter

/-- Nothing but the message is closed before the end. -/
structure Open (c : ResponsesConverter) : Prop where
  reasoning : ∀ state, c.reasoning = some state → state.itemDone = false
  slots : ∀ index slot, c.tools.find? index = some slot → slot.done = false

def phase (c : ResponsesConverter) : Phase := (c.message.map ItemState.itemDone, c.tools.isEmpty)

section Frame
variable (hex : Nat → String)

theorem feedReasoning_frame (text : String) (c : ResponsesConverter) :
    (feedReasoning hex text c).1.message = c.message ∧
      (feedReasoning hex text c).1.tools = c.tools ∧
      ∀ state, (feedReasoning hex text c).1.reasoning = some state →
        state.itemDone = (c.reasoning.map ItemState.itemDone).getD false := by
  obtain ⟨state, next, items, draws, -, hdone, hstep, -⟩ := feedReasoning_step hex c text
  rw [hstep]
  refine ⟨rfl, rfl, fun state' hstate => ?_⟩
  rw [← Option.some.inj hstate]
  exact hdone

theorem feedText_frame (text : String) (c : ResponsesConverter) :
    (feedText hex text c).1.reasoning = c.reasoning ∧ (feedText hex text c).1.tools = c.tools ∧
      (feedText hex text c).1.message.map ItemState.itemDone =
        some ((c.message.map ItemState.itemDone).getD false) := by
  obtain ⟨state, next, items, draws, -, hdone, hstep, -⟩ := feedText_step hex c text
  rw [hstep]
  exact ⟨rfl, rfl, congrArg some hdone⟩

theorem addToolItem_frame (call : ToolCallDelta) (c : ResponsesConverter) :
    (addToolItem hex call c).1.reasoning = c.reasoning ∧
      (addToolItem hex call c).1.message = c.message ∧
      ∃ slot, slot.done = false ∧
        (addToolItem hex call c).1.tools = c.tools.insert call.index slot := by
  obtain ⟨slot, items, -, hdone, hstep, -⟩ := addToolItem_step hex c call
  rw [hstep]
  exact ⟨rfl, rfl, slot, hdone, rfl⟩

theorem feedToolCallArguments_frame (call : ToolCallDelta) (c : ResponsesConverter) :
    (feedToolCallArguments call c).1.reasoning = c.reasoning ∧
      (feedToolCallArguments call c).1.message = c.message ∧
      ((feedToolCallArguments call c).1.tools = c.tools ∨ ∃ slot slot',
        c.tools.find? call.index = some slot ∧
        (feedToolCallArguments call c).1.tools = c.tools.insert call.index slot' ∧
        slot'.done = slot.done) := by
  obtain ⟨tools, hstep, htools, -⟩ := feedToolCallArguments_step c call
  rw [hstep]
  refine ⟨rfl, rfl, htools.imp And.right ?_⟩
  rintro ⟨slot, server, hfind, hinsert⟩
  exact ⟨slot, _, hfind, hinsert, rfl⟩

theorem closeMessageItem_frame (c : ResponsesConverter) :
    (closeMessageItem c).1.reasoning = c.reasoning ∧ (closeMessageItem c).1.tools = c.tools ∧
      (closeMessageItem c).1.message.map ItemState.itemDone = c.message.map fun _ => true := by
  obtain ⟨message, hstep, hdone, -⟩ := closeMessageItem_step c
  rw [hstep]
  exact ⟨rfl, rfl, hdone⟩

theorem phase_ensureToolItemAdded (call : ToolCallDelta) (c : ResponsesConverter) :
    (ensureToolItemAdded hex call c).1.phase = c.phase.next (.toolCalls [call]) := by
  unfold ensureToolItemAdded
  split_ifs with hcontains hempty
  · obtain ⟨slot, hfind⟩ := Option.isSome_iff_exists.mp hcontains
    unfold phase
    rw [SortedMap.isEmpty_of_find? hfind]
    rfl
  · obtain ⟨-, hmessage, slot, -, htools⟩ := addToolItem_frame hex call (closeMessageItem c).1
    show phase (addToolItem hex call (closeMessageItem c).1).1 = _
    unfold phase
    rw [hmessage, (closeMessageItem_frame c).2.2, htools, SortedMap.isEmpty_insert, hempty]
    cases c.message <;> rfl
  · obtain ⟨-, hmessage, slot, -, htools⟩ := addToolItem_frame hex call c
    unfold phase
    rw [hmessage, htools, SortedMap.isEmpty_insert, Bool.eq_false_iff.mpr hempty]
    rfl

theorem phase_feedToolCallArguments (call : ToolCallDelta) (c : ResponsesConverter) :
    (feedToolCallArguments call c).1.phase = c.phase := by
  obtain ⟨-, hmessage, htools | ⟨slot, slot', hfind, htools, -⟩⟩ :=
    feedToolCallArguments_frame call c
  · unfold phase
    rw [hmessage, htools]
  · unfold phase
    rw [hmessage, htools, SortedMap.isEmpty_insert, SortedMap.isEmpty_of_find? hfind]

theorem next_toolCalls (phase : Phase) (call : ToolCallDelta) (calls : List ToolCallDelta) :
    (phase.next (.toolCalls [call])).next (.toolCalls calls) =
      phase.next (.toolCalls (call :: calls)) := by
  obtain ⟨closed, quiet⟩ := phase
  cases quiet <;> cases calls <;> rfl

theorem phase_addCalls (calls : List ToolCallDelta) (c : ResponsesConverter) :
    (forEach (ensureToolItemAdded hex) calls c).1.phase = c.phase.next (.toolCalls calls) := by
  induction calls generalizing c with
  | nil =>
    show phase c = _
    rcases c.phase with ⟨closed, _ | _⟩ <;> rfl
  | cons call calls ih =>
    show phase (forEach _ calls (ensureToolItemAdded hex call c).1).1 = _
    rw [ih, phase_ensureToolItemAdded, next_toolCalls]

theorem phase_feedCalls (calls : List ToolCallDelta) (c : ResponsesConverter) :
    (forEach feedToolCallArguments calls c).1.phase = c.phase :=
  forEach_frame phase_feedToolCallArguments calls c

theorem phase_feedDelta (delta : Delta) (c : ResponsesConverter) :
    (feedDelta hex delta c).1.phase = c.phase.next delta := by
  cases delta with
  | finish reason =>
    show phase c = _
    rcases c.phase with ⟨closed, _ | _⟩ <;> rfl
  | reasoning text =>
    obtain ⟨hmessage, htools, -⟩ := feedReasoning_frame hex text c
    show phase (feedReasoning hex text c).1 = _
    unfold phase
    rw [hmessage, htools]
    cases c.tools.isEmpty <;> rfl
  | content text =>
    obtain ⟨-, htools, hmessage⟩ := feedText_frame hex text c
    show phase (feedText hex text c).1 = _
    unfold phase
    rw [hmessage, htools]
    cases c.tools.isEmpty <;> rfl
  | toolCalls calls => exact (phase_feedCalls calls _).trans (phase_addCalls hex calls c)

end Frame

theorem opens_insert {tools : SortedMap Int ToolSlot} {index : Int} {slot : ToolSlot}
    (h : ∀ a s, tools.find? a = some s → s.done = false) (hslot : slot.done = false) :
    ∀ a s, (tools.insert index slot).find? a = some s → s.done = false := by
  intro a s ha
  rw [SortedMap.find?_insert] at ha
  split_ifs at ha
  · cases ha
    exact hslot
  · exact h a s ha

section Open
variable (hex : Nat → String) {c : ResponsesConverter}

theorem Open.feedReasoning (h : Open c) (text : String) : Open (feedReasoning hex text c).1 := by
  obtain ⟨-, htools, hreasoning⟩ := feedReasoning_frame hex text c
  refine ⟨fun state hstate => ?_, htools ▸ h.slots⟩
  rw [hreasoning state hstate]
  cases hold : c.reasoning with
  | none => rfl
  | some s => exact h.reasoning s hold

theorem Open.feedText (h : Open c) (text : String) : Open (feedText hex text c).1 := by
  obtain ⟨hreasoning, htools, -⟩ := feedText_frame hex text c
  exact ⟨hreasoning ▸ h.reasoning, htools ▸ h.slots⟩

theorem Open.closeMessageItem (h : Open c) : Open (closeMessageItem c).1 := by
  obtain ⟨hreasoning, htools, -⟩ := closeMessageItem_frame c
  exact ⟨hreasoning ▸ h.reasoning, htools ▸ h.slots⟩

theorem Open.addToolItem (h : Open c) (call : ToolCallDelta) : Open (addToolItem hex call c).1 := by
  obtain ⟨hreasoning, -, slot, hdone, htools⟩ := addToolItem_frame hex call c
  refine ⟨hreasoning ▸ h.reasoning, ?_⟩
  rw [htools]
  exact opens_insert h.slots hdone

theorem Open.feedToolCallArguments (h : Open c) (call : ToolCallDelta) :
    Open (feedToolCallArguments call c).1 := by
  obtain ⟨hreasoning, -, htools | ⟨slot, slot', hfind, htools, hdone⟩⟩ :=
    feedToolCallArguments_frame call c
  · exact ⟨hreasoning ▸ h.reasoning, htools ▸ h.slots⟩
  · refine ⟨hreasoning ▸ h.reasoning, ?_⟩
    rw [htools]
    exact opens_insert h.slots (hdone.trans (h.slots _ _ hfind))

end Open

theorem settling_closeMessageItem :
    Leads (fun c past => Inv c past ∧ Settling past) (fun _ past => Settling past)
      closeMessageItem := by
  rintro c past ⟨⟨hsound, board, htracks, hrecords⟩, hsettling⟩
  by_cases hdone : ∀ state, c.message = some state → state.itemDone = true
  · rw [closeMessageItem_done hdone, List.append_nil]
    exact hsettling
  · obtain ⟨state, hstate⟩ := not_forall.mp hdone
    obtain ⟨hmessage, hopen⟩ := Classical.not_imp.mp hstate
    have hshown := hsound.message state hmessage
    obtain ⟨k, hk⟩ := hshown.placed
    rw [closeMessageItem_open hmessage hshown (Bool.eq_false_iff.mpr hopen) hk]
    exact settling_seal hrecords hsettling
      ((htracks.holds k _).mpr (.inr (.inl ⟨state, hmessage, hk, rfl⟩))) rfl rfl rfl rfl rfl rfl rfl

def Ready (c : ResponsesConverter) (past : List Event) : Prop := Inv c past ∧ Open c ∧ Settling past

section Ready
variable (hex : Nat → String)

theorem ready_feedReasoning (text : String) : Keeps Ready (feedReasoning hex text) := by
  rintro c past ⟨hinv, hopen, hsettling⟩
  refine ⟨keeps_feedReasoning hex text c past hinv, hopen.feedReasoning hex text, ?_⟩
  · obtain ⟨hsound, board, htracks, hrecords⟩ := hinv
    cases hexpose : c.exposeThinking with
    | false =>
      rw [feedReasoning_hidden hex hexpose, List.append_nil]
      exact hsettling
    | true =>
      cases hreasoning : c.reasoning with
      | none =>
        rw [feedReasoning_new hex hexpose hreasoning, htracks.next]
        exact settling_announce hrecords hsettling _ rfl rfl rfl rfl rfl rfl
      | some state =>
        have hshown := hsound.reasoning state hreasoning
        rw [hexpose, if_pos rfl] at hshown
        obtain ⟨k, hk⟩ := hshown.placed
        rw [feedReasoning_shown hex hexpose hreasoning hshown hk]
        have hheld := (htracks.holds k _).mpr (.inl ⟨state, hreasoning, hk, rfl⟩)
        exact hsettling.write rfl (hrecords.donesAt_open hheld (hopen.reasoning state hreasoning))
          rfl

theorem ready_feedText (text : String) :
    Leads (fun c past => Ready c past ∧ c.phase.1 ≠ some true) Ready (feedText hex text) := by
  rintro c past ⟨⟨hinv, hopen, hsettling⟩, hphase⟩
  refine ⟨keeps_feedText hex text c past hinv, hopen.feedText hex text, ?_⟩
  · obtain ⟨hsound, board, htracks, hrecords⟩ := hinv
    cases hmessage : c.message with
    | none =>
      rw [feedText_new hex hmessage, htracks.next]
      exact settling_announce hrecords hsettling _ rfl rfl rfl rfl rfl rfl
    | some state =>
      have hshown := hsound.message state hmessage
      obtain ⟨k, hk⟩ := hshown.placed
      rw [feedText_shown hex hmessage hshown hk]
      have hheld := (htracks.holds k _).mpr (.inr (.inl ⟨state, hmessage, hk, rfl⟩))
      refine hsettling.write rfl (hrecords.donesAt_open hheld ?_) rfl
      rw [Bool.eq_false_iff]
      intro hdone
      refine hphase ?_
      unfold phase
      rw [hmessage]
      exact congrArg some hdone

/-- Text for a closed message comes after its `output_item.done`. -/
theorem late_feedText (text : String) {c : ResponsesConverter} {past : List Event}
    (hinv : Inv c past) (hphase : c.phase.1 = some true) :
    ¬ Legal BeforeDone (past ++ (feedText hex text c).2) := by
  obtain ⟨hsound, board, htracks, hrecords⟩ := hinv
  obtain ⟨state, hmessage, hdone⟩ := Option.map_eq_some_iff.mp hphase
  have hshown := hsound.message state hmessage
  obtain ⟨k, hk⟩ := hshown.placed
  rw [feedText_shown hex hmessage hshown hk, legal_snoc_iff]
  rintro ⟨-, hbefore⟩
  have hheld := (htracks.holds k _).mpr (.inr (.inl ⟨state, hmessage, hk, rfl⟩))
  exact hrecords.donesAt_closed hheld hdone (hbefore _ rfl rfl)

theorem ready_closeMessageItem : Keeps Ready closeMessageItem := by
  rintro c past ⟨hinv, hopen, hsettling⟩
  exact ⟨keeps_closeMessageItem c past hinv, hopen.closeMessageItem,
    settling_closeMessageItem c past ⟨hinv, hsettling⟩⟩

theorem ready_addToolItem (call : ToolCallDelta) :
    Leads (fun c past => Ready c past ∧ c.tools.find? call.index = none) Ready
      (addToolItem hex call) := by
  rintro c past ⟨⟨hinv, hopen, hsettling⟩, hnew⟩
  refine ⟨leads_addToolItem hex call c past ⟨hinv, hnew⟩, hopen.addToolItem hex call, ?_⟩
  · rw [addToolItem_client hex hinv.1.client]
    refine hsettling.quiet ?_ ?_ <;> intro e he <;> rw [List.mem_singleton.mp he] <;> rfl

theorem ready_ensureToolItemAdded (call : ToolCallDelta) :
    Keeps Ready (ensureToolItemAdded hex call) :=
  keeps_ensureToolItemAdded_of hex ready_closeMessageItem (ready_addToolItem hex call)

theorem ready_feedToolCallArguments (call : ToolCallDelta) :
    Keeps Ready (feedToolCallArguments call) := by
  rintro c past ⟨hinv, hopen, hsettling⟩
  refine ⟨keeps_feedToolCallArguments call c past hinv, hopen.feedToolCallArguments call, ?_⟩
  · obtain ⟨hsound, board, htracks, hrecords⟩ := hinv
    cases hfind : c.tools.find? call.index with
    | none =>
      unfold feedToolCallArguments
      rw [hfind, List.append_nil]
      exact hsettling
    | some slot =>
      rw [feedToolCallArguments_client hsound.client call hfind (hsound.slots _ _ hfind)]
      split_ifs
      · rw [List.append_nil]
        exact hsettling
      · have hheld := (htracks.holds _ _).mpr (.inr (.inr ⟨call.index, slot, hfind, rfl, rfl⟩))
        exact hsettling.write rfl (hrecords.donesAt_open hheld (hopen.slots _ _ hfind)) rfl

theorem ready_feedDelta (delta : Delta) :
    Leads (fun c past => Ready c past ∧ (delta.isContent && c.phase.1 == some true) = false) Ready
      (feedDelta hex delta) := by
  rintro c past ⟨h, hphase⟩
  cases delta with
  | finish reason =>
    refine ⟨keeps_feedDelta hex (.finish reason) c past h.1, ⟨h.2.1.reasoning, h.2.1.slots⟩, ?_⟩
    show Settling (past ++ [])
    rw [List.append_nil]
    exact h.2.2
  | reasoning text => exact ready_feedReasoning hex text c past h
  | content text =>
    exact ready_feedText hex text c past ⟨h, by simpa [Delta.isContent] using hphase⟩
  | toolCalls calls =>
    exact (keeps_forEach fun call _ => ready_ensureToolItemAdded hex call).andThen
      (keeps_forEach fun call _ => ready_feedToolCallArguments call) c past h

theorem settling_closeReasoningItem :
    Leads (fun c past => Inv c past ∧ Settling past) (fun _ past => Settling past)
      closeReasoningItem := by
  rintro c past ⟨⟨hsound, board, htracks, hrecords⟩, hsettling⟩
  cases hreasoning : c.reasoning with
  | none =>
    rw [closeReasoningItem_hidden (by rw [hreasoning]; exact nofun), List.append_nil]
    exact hsettling
  | some state =>
    have hr := hsound.reasoning state hreasoning
    split_ifs at hr with hexpose
    · cases hopen : state.itemDone with
      | true =>
        rw [closeReasoningItem_done hreasoning hopen, List.append_nil]
        exact hsettling
      | false =>
        obtain ⟨k, hk⟩ := hr.placed
        rw [closeReasoningItem_open hreasoning hr hopen hk]
        exact settling_seal hrecords hsettling
          ((htracks.holds k _).mpr (.inl ⟨state, hreasoning, hk, rfl⟩)) rfl rfl rfl rfl rfl rfl rfl
    · have hhidden : ∀ s, c.reasoning = some s → s.itemAdded = false := by
        rw [hreasoning]
        rintro s ⟨rfl⟩
        exact hr.1
      rw [closeReasoningItem_hidden hhidden, List.append_nil]
      exact hsettling

theorem settling_closeTools :
    Leads (fun c past => Inv c past ∧ Settling past) (fun _ past => Settling past) closeTools := by
  rintro c past ⟨⟨hsound, board, htracks, hrecords⟩, hsettling⟩
  have hevents {e : Event} (he : e ∈ (closeTools c).2) : ∃ slot ∈ c.openSlots, e ∈ closeTool slot :=
    List.mem_flatMap.mp he
  refine hsettling.close (fun e he => ?_) fun e he k text habout hdone => ?_
  · obtain ⟨slot, -, he⟩ := hevents he
    rcases List.mem_pair.mp he with rfl | rfl <;> rfl
  · obtain ⟨slot, hslot, he⟩ := hevents he
    obtain ⟨⟨index, hfind⟩, -⟩ := (mem_openSlots hsound).mp hslot
    have hheld := (htracks.holds _ _).mpr (.inr (.inr ⟨index, slot, hfind, rfl, rfl⟩))
    have hitem : Event.outputItemDone slot.outputIndex slot.item ∈ (closeTools c).2 :=
      List.mem_flatMap.mpr ⟨slot, hslot, List.mem_cons_of_mem _ List.mem_cons_self⟩
    have hsame : slot.outputIndex = k ∧ slot.arguments = text := by
      rcases List.mem_pair.mp he with rfl | rfl
      · exact ⟨(isAbout_iff (e := .argumentsDone _ _ _) rfl k).mp habout, Option.some.inj hdone⟩
      · exact ⟨(isAbout_iff (e := .outputItemDone _ _) rfl k).mp habout, Option.some.inj hdone⟩
    obtain ⟨rfl, rfl⟩ := hsame
    exact ⟨(hrecords.streamed _ _ hheld).symm, slot.item, hitem⟩

theorem settling_closeItems :
    Leads (fun c past => Inv c past ∧ Settling past) (fun _ past => Settling past) closeItems := by
  have hreasoning : Keeps (fun c past => Inv c past ∧ Settling past) closeReasoningItem :=
    fun c past h => ⟨keeps_closeReasoningItem c past h.1, settling_closeReasoningItem c past h⟩
  have hmessage : Keeps (fun c past => Inv c past ∧ Settling past) closeMessageItem :=
    fun c past h => ⟨keeps_closeMessageItem c past h.1, settling_closeMessageItem c past h⟩
  exact hreasoning.andThen (hmessage.andThen settling_closeTools)

end Ready

/-- The deltas fed so far decide whether a delta has come too late. -/
def Fed (seen : List Delta) (c : ResponsesConverter) (past : List Event) : Prop :=
  Inv c past ∧ c.phase = phaseOf seen ∧
    if textResumes seen then ¬ Legal BeforeDone past else Open c ∧ Settling past

section Fed
variable (hex : Nat → String)

theorem leads_feedDelta (seen : List Delta) (delta : Delta) :
    Leads (Fed seen) (Fed (seen ++ [delta])) (feedDelta hex delta) := by
  rintro c past ⟨hinv, hphase, hseen⟩
  refine ⟨keeps_feedDelta hex delta c past hinv, ?_, ?_⟩
  · rw [phase_feedDelta, phaseOf_snoc, hphase]
  · rw [textResumes_snoc, ← hphase]
    cases hresumes : textResumes seen with
    | true =>
      rw [hresumes, if_pos rfl] at hseen
      rw [Bool.true_or, if_pos rfl]
      exact fun hlegal => hseen hlegal.of_append
    | false =>
      rw [hresumes, if_neg Bool.false_ne_true] at hseen
      rw [Bool.false_or]
      cases hlate : delta.isContent && c.phase.1 == some true with
      | false => exact (ready_feedDelta hex delta c past ⟨⟨hinv, hseen⟩, hlate⟩).2
      | true =>
        obtain ⟨hcontent, hclosed⟩ := Bool.and_eq_true_iff.mp hlate
        cases delta with
        | content text => exact late_feedText hex text hinv (by simpa using hclosed)
        | _ => cases hcontent

theorem keeps_ensureStarted_fed (seen : List Delta) : Keeps (Fed seen) ensureStarted := by
  rintro c past ⟨hinv, hphase, hseen⟩
  refine ⟨keeps_ensureStarted c past hinv, ?_, ?_⟩
  · rw [← hphase]
    unfold ensureStarted
    split_ifs <;> rfl
  · split_ifs at hseen ⊢
    · exact fun hlegal => hseen hlegal.of_append
    · unfold ensureStarted
      split_ifs
      · rw [List.append_nil]
        exact hseen
      · refine ⟨⟨hseen.1.reasoning, hseen.1.slots⟩, hseen.2.quiet ?_ ?_⟩ <;> intro e he <;>
          rcases List.mem_pair.mp he with rfl | rfl <;> rfl

theorem fed_update {seen : List Delta} {c c' : ResponsesConverter} {past : List Event}
    (h : Fed seen c past) (hinv : Inv c' past) (hreasoning : c'.reasoning = c.reasoning)
    (hmessage : c'.message = c.message) (htools : c'.tools = c.tools) : Fed seen c' past := by
  obtain ⟨-, hphase, hseen⟩ := h
  refine ⟨hinv, ?_, ?_⟩
  · rw [← hphase]
    unfold phase
    rw [hmessage, htools]
  · split_ifs at hseen ⊢
    · exact hseen
    · exact ⟨⟨hreasoning ▸ hseen.1.reasoning, htools ▸ hseen.1.slots⟩, hseen.2⟩

theorem leads_feedChunkEvents (seen : List Delta) (chunk : Json) :
    Leads (Fed seen) (Fed (seen ++ chunkDeltas chunk)) (feedChunkEvents hex chunk) := by
  have hnote : Keeps (Fed seen) (silent (noteChunk chunk)) :=
    leads_silent fun c past h => fed_update h h.1.update rfl rfl rfl
  have hdeltas := leads_forEach (leads_feedDelta hex) (chunkDeltas chunk) seen
  rw [List.flatMap_singleton'] at hdeltas
  exact (keeps_ensureStarted_fed seen).andThen (hnote.andThen hdeltas)

/-- The `done` frames of a finished stream, before the terminal frame and in it. -/
structure Settled (events : List Event) : Prop where
  beforeDone : Legal BeforeDone events
  doneTexts : ∀ k text, text ∈ doneTexts k events → text = streamed k events
  listed : ∃ body t response, events = body ++ [t] ∧ t.response? = some response ∧
    ∀ k text, text ∈ Responses.doneTexts k events →
      ∃ item, response.output[k]? = some item ∧ item.text? = some text

theorem settled_of_sealed {c : ResponsesConverter} {body : List Event} (hsealed : Sealed c body)
    (hsettling : Settling body) (herror : c.error = none)
      (hids : ((added body).map fun a => a.2.id).Nodup) :
    Settled (body ++ [c.terminalEvent]) := by
  obtain ⟨hsound, board, htracks, hrecords, -⟩ := hsealed
  have ht := response?_terminalEvent herror
  have htexts (k : Nat) : doneTexts k (body ++ [c.terminalEvent]) = doneTexts k body := by
    rw [doneTexts_snoc, if_neg (isAbout_terminal ht k), List.append_nil]
  refine ⟨?_, fun k text hmem => ?_, body, _, _, rfl, ht, fun k text hmem => ?_⟩
  · refine hsettling.beforeDone.snoc fun about habout => ?_
    rw [(about?_terminal ht).1] at habout
    cases habout
  · rw [htexts] at hmem
    rw [streamed_terminal ht]
    exact (hsettling.texts k text hmem).1
  · rw [htexts] at hmem
    obtain ⟨htext, -⟩ := hsettling.texts k text hmem
    obtain ⟨e, he, habout, -⟩ := mem_doneTexts.mp hmem
    have hk := List.getElem?_eq_getElem (hrecords.about_lt he habout)
    have houtput := congrArg (·[k]?)
      (terminalResponse_output hsound htracks (added_ids hrecords ▸ hids) c.nonstreamStatus)
    simp only [List.getElem?_map, hk, Option.map_some] at houtput
    obtain ⟨item, hitem, hshown⟩ := Option.map_eq_some_iff.mp houtput
    refine ⟨item, hitem, ?_⟩
    rw [htext, hrecords.streamed k _ hk]
    exact congrArg (fun shown => shown.2.2) hshown

theorem fed_chunks (createdAt : UInt64) (model : String) (exposeThinking : Bool)
    (chunks : List Json) :
    let past := forEach (feedChunk hex) chunks (new hex createdAt model exposeThinking)
    Fed (chunks.flatMap chunkDeltas) past.1 (events past.2) := by
  have hchunk (seen : List Delta) (chunk : Json) :=
    leads_numbered (leads_feedChunkEvents hex seen chunk)
    fun _ _ _ h => fed_update h h.1.update rfl rfl rfl
  have hnew : Fed [] (new hex createdAt model exposeThinking) [] :=
    ⟨inv_new hex createdAt model exposeThinking, rfl, ⟨nofun, nofun⟩, settling_nil⟩
  exact (leads_forEach hchunk chunks [] (new hex createdAt model exposeThinking) []
    ⟨hnew, rfl, rfl⟩).1

/-- The `done` frames are the last word on every item exactly when no text comes both
before and after the first tool call. -/
theorem run_settled_iff (createdAt : UInt64) (model : String) (exposeThinking : Bool)
    (chunks : List Json)
    (hids : ((added (events (run hex createdAt model exposeThinking chunks none).2)).map
      fun a => a.2.id).Nodup) :
    Settled (events (run hex createdAt model exposeThinking chunks none).2) ↔
      textResumes (chunks.flatMap chunkDeltas) = false := by
  obtain ⟨hinv, -, hseen⟩ := fed_chunks hex createdAt model exposeThinking chunks
  let past := forEach (feedChunk hex) chunks (new hex createdAt model exposeThinking)
  have hevents : events (run hex createdAt model exposeThinking chunks none).2 =
      events past.2 ++ (finishEvents none past.1).2 := by
    rw [← events_numbered]
    exact List.map_append
  rw [hevents] at hids ⊢
  constructor
  · intro h
    rw [← Bool.not_eq_true]
    intro hresumes
    rw [if_pos hresumes] at hseen
    exact hseen h.beforeDone.of_append
  · intro hresumes
    rw [if_neg (Bool.eq_false_iff.mp hresumes)] at hseen
    have hinv' : Inv { past.1 with error := none } (events past.2) := hinv.update
    have hsealed := leads_closeItems _ _ hinv'
    have hsettling := settling_closeItems _ _ ⟨hinv', hseen.2⟩
    have herror := error_closeItems { past.1 with error := none }
    rw [finishEvents_none, ← List.append_assoc] at hids ⊢
    rw [added_terminal (response?_terminalEvent herror)] at hids
    exact settled_of_sealed hsealed hsettling herror hids

theorem run_settled_iff_answer :
    let hex (n : Nat) : String := String.ofList (List.replicate n '0')
    let chunk : Json :=
      .obj [("choices", .arr [.obj [("delta", .obj [("content", .str "hello")])]])]
    Settled (events (run hex 0 "m" false [chunk] none).2) ↔
      textResumes ([chunk].flatMap chunkDeltas) = false :=
  run_settled_iff _ 0 "m" false _ (by decide)

/-- Text, a tool call and more text: the item is done with half of its text. -/
theorem run_not_settled :
    let hex (n : Nat) : String := String.ofList (List.replicate n '0')
    let text (content : String) : Json :=
      .obj [("choices", .arr [.obj [("delta", .obj [("content", .str content)])]])]
    let call : Json := .obj [("choices", .arr [.obj [("delta", .obj [("tool_calls", .arr [.obj [
      ("index", .num (.posInt 0)), ("id", .str "call_1"),
      ("function", .obj [("name", .str "ls"), ("arguments", .str "\x7b\x7d")])]])])]])]
    ¬ Settled (events (run hex 0 "m" false [text "Hel", call, text "lo"] none).2) := by
  intro hex text call h
  exact absurd (h.doneTexts 0 "Hel" (by decide)) (by decide)

end Fed

end ResponsesConverter

end Lobster.Responses
