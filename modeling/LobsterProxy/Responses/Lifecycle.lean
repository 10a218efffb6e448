import LobsterProxy.Responses.DoneText
import LobsterProxy.Responses.Openings

/-! Output items come one after another: what is added before an item is done before
it, and the calls are done in output order. -/

namespace Lobster.Responses
open Chat Emitter Trace

def Event.callDone? : Event → Option Nat
  | outputItemDone outputIndex (.functionCall ..) => some outputIndex
  | _ => none

/-- The output indices of the calls' `done` frames. -/
def callDones (past : List Event) : List Nat := past.filterMap Event.callDone?

def AllDone (past : List Event) : Prop :=
  ∀ k item, (k, item) ∈ added past → item.kind ≠ .functionCall → donesAt k past ≠ []

def AddedAfterDone (past : List Event) (e : Event) : Prop := e.added?.isSome = true → AllDone past

structure Sequential (events : List Event) : Prop where
  oneByOne : Legal AddedAfterDone events
  outputOrder : (callDones events).Pairwise (· < ·)

/-- The frames neither add an item nor close a call. -/
def Uneventful (more : List Event) : Prop := ∀ e ∈ more, e.added? = none ∧ e.callDone? = none

section Law
variable {past more : List Event}

theorem callDones_append (past more : List Event) :
    callDones (past ++ more) = callDones past ++ callDones more := List.filterMap_append

theorem Uneventful.callDones (h : Uneventful more) : callDones more = [] :=
  List.filterMap_eq_nil_iff.mpr fun e he => (h e he).2

theorem legal_append_iff (h : ∀ e ∈ more, e.added? = none) :
    Legal AddedAfterDone (past ++ more) ↔ Legal AddedAfterDone past := by
  induction more using List.reverseRecOn with
  | nil => rw [List.append_nil]
  | append_singleton more e ih =>
    have hlast : AddedAfterDone (past ++ more) e := by
      intro hadded
      rw [h e (List.mem_append_right _ List.mem_cons_self)] at hadded
      cases hadded
    rw [← List.append_assoc, legal_snoc_iff, and_iff_left hlast]
    exact ih fun e' he' => h e' (List.mem_append_left _ he')

theorem legal_added_iff {e : Event} {rest : List Event} (he : e.added?.isSome = true)
    (hrest : Uneventful rest) :
    Legal AddedAfterDone (past ++ e :: rest) ↔ Legal AddedAfterDone past ∧ AllDone past := by
  have hlast : AddedAfterDone past e ↔ AllDone past := ⟨fun h => h he, fun h _ => h⟩
  rw [List.append_cons, legal_append_iff fun e' he' => (hrest e' he').1, legal_snoc_iff, hlast]

end Law

namespace ResponsesConverter

section AllDone
variable {c : ResponsesConverter} {past : List Event}

def stateDone (state : Option ItemState) : Prop :=
  ∀ s k, state = some s → s.outputIndex = some k → s.itemDone = true

theorem allDone_iff (h : Inv c past) :
    AllDone past ↔ stateDone c.reasoning ∧ stateDone c.message := by
  obtain ⟨-, board, htracks, hrecords⟩ := h
  have hdone {k : Nat} {entry : Entry} (hk : board[k]? = some entry) :
      donesAt k past ≠ [] ↔ entry.closed = true := by
    constructor
    · intro hne
      rw [← Bool.not_eq_false]
      exact fun hopen => hne (hrecords.donesAt_open hk hopen)
    · exact hrecords.donesAt_closed hk
  constructor
  · intro hall
    have hheld {k : Nat} {entry : Entry} (hholds : c.Holds k entry)
        (hkind : entry.kind ≠ .functionCall) : entry.closed = true := by
      have hk := (htracks.holds k entry).mpr hholds
      obtain ⟨item, hmem, hitem, -⟩ := hrecords.mem_added hk
      exact (hdone hk).mp (hall k item hmem (hitem ▸ hkind))
    constructor
    · intro s k hs hindex
      exact hheld (.inl ⟨s, hs, hindex, rfl⟩) nofun
    · intro s k hs hindex
      exact hheld (.inr (.inl ⟨s, hs, hindex, rfl⟩)) nofun
  · rintro ⟨hreasoning, hmessage⟩ k item hmem hkind
    obtain ⟨entry, hk, hentry, -⟩ := hrecords.entry_of_added hmem
    apply (hdone hk).mpr
    rcases (htracks.holds k entry).mp hk with ⟨s, hs, hindex, rfl⟩ | ⟨s, hs, hindex, rfl⟩ | hslot
    · exact hreasoning s k hs hindex
    · exact hmessage s k hs hindex
    · exact absurd (hentry.symm.trans (slotHolds_kind hslot)) hkind

end AllDone

section Closing
variable (c : ResponsesConverter)

theorem uneventful_sealing {text part e : Event} (p : Bool)
    (htext : text.added? = none ∧ text.callDone? = none)
    (hpart : part.added? = none ∧ part.callDone? = none)
      (he : e.added? = none ∧ e.callDone? = none) :
    Uneventful ((if p then [text, part] else []) ++ [e]) := by
  intro e' he'
  rcases List.mem_append.mp he' with hparts | hlast
  · split_ifs at hparts
    · rcases List.mem_pair.mp hparts with rfl | rfl
      · exact htext
      · exact hpart
    · cases hparts
  · rw [List.mem_singleton.mp hlast]
    exact he

theorem uneventful_closeMessageItem : Uneventful (closeMessageItem c).2 := by
  unfold closeMessageItem
  cases c.message with
  | none => exact nofun
  | some state =>
    dsimp only
    by_cases hdone : state.itemDone = true
    · rw [if_pos hdone]
      exact nofun
    · rw [if_neg hdone]
      exact uneventful_sealing _ ⟨rfl, rfl⟩ ⟨rfl, rfl⟩ ⟨rfl, rfl⟩

theorem uneventful_closeReasoningItem : Uneventful (closeReasoningItem c).2 := by
  unfold closeReasoningItem
  cases c.reasoning with
  | none => exact nofun
  | some state =>
    dsimp only
    by_cases hdone : (!state.itemAdded || state.itemDone) = true
    · rw [if_pos hdone]
      exact nofun
    · rw [if_neg hdone]
      exact uneventful_sealing _ ⟨rfl, rfl⟩ ⟨rfl, rfl⟩ ⟨rfl, rfl⟩

end Closing

section Mirrors

def rank (tools : SortedMap Int ToolSlot) (index : Int) : Nat :=
  ((tools.find? index).map ToolSlot.outputIndex).getD 0

/-- The converter has opened these items, in this order. -/
structure Mirrors (o : List Opening) (closed : Bool) (c : ResponsesConverter) : Prop where
  reasoning : .reasoning ∈ o ↔ (c.reasoning.bind ItemState.outputIndex).isSome = true
  message : c.message.map ItemState.itemDone = if .message ∈ o then some closed else none
  calls : ∀ index, .call index ∈ o ↔ c.tools.contains index = true
  ranked : (o.filterMap Opening.index?).Pairwise fun a b => rank c.tools a < rank c.tools b

/-- What is opened and what is done agree with the items opened so far. -/
structure Follows (expose : Bool) (o : List Opening) (closed : Bool) (c : ResponsesConverter)
    (past : List Event) : Prop where
  inv : Inv c past
  opened : Open c
  exposed : c.exposeThinking = expose
  mirrors : Mirrors o closed c
  legal : Legal AddedAfterDone past ↔ Legal Fits o
  running : callDones past = []

variable {c c' : ResponsesConverter} {past more : List Event} {o : List Opening} {x : Opening}
  {expose closed closed' : Bool}

theorem Mirrors.allDone_iff (h : Mirrors o closed c) (hinv : Inv c past) (hopen : Open c) :
    AllDone past ↔ .reasoning ∉ o ∧ (.message ∈ o → closed = true) := by
  rw [ResponsesConverter.allDone_iff hinv]
  have hmessage := h.message
  constructor
  · rintro ⟨hreasoning, hdone⟩
    constructor
    · intro hmem
      obtain ⟨k, hk⟩ := Option.isSome_iff_exists.mp (h.reasoning.mp hmem)
      obtain ⟨s, hs, hindex⟩ := Option.bind_eq_some_iff.mp hk
      have hclosed := hreasoning s k hs hindex
      rw [hopen.reasoning s hs] at hclosed
      cases hclosed
    · intro hmem
      rw [if_pos hmem] at hmessage
      obtain ⟨s, hs, hclosed⟩ := Option.map_eq_some_iff.mp hmessage
      obtain ⟨k, hk⟩ := (hinv.1.message s hs).placed
      exact hclosed.symm.trans (hdone s k hs hk)
  · rintro ⟨hreasoning, hdone⟩
    constructor
    · intro s k hs hk
      refine absurd (h.reasoning.mpr ?_) hreasoning
      rw [hs, Option.bind_some, hk, Option.isSome_some]
    · intro s k hs _
      rw [hs, Option.map_some] at hmessage
      split_ifs at hmessage with hmem
      exact (Option.some.inj hmessage).trans (hdone hmem)

theorem Follows.quiet (h : Follows expose o closed c past) (hinv : Inv c' (past ++ more))
    (hopen : Open c') (hexposed : c'.exposeThinking = c.exposeThinking)
    (hmirrors : Mirrors o closed' c') (hmore : Uneventful more) :
    Follows expose o closed' c' (past ++ more) where
  inv := hinv
  opened := hopen
  exposed := hexposed.trans h.exposed
  mirrors := hmirrors
  legal := (legal_append_iff fun e he => (hmore e he).1).trans h.legal
  running := by rw [callDones_append, h.running, hmore.callDones, List.append_nil]

theorem Follows.opens (h : Follows expose o closed c past) {e : Event} {rest : List Event}
    (hclosed : .message ∈ o → messageClosed (o ++ [x]) = closed)
    (hinv : Inv c' (past ++ e :: rest)) (hopen : Open c')
    (hexposed : c'.exposeThinking = c.exposeThinking)
    (hmirrors : Mirrors (o ++ [x]) (messageClosed (o ++ [x])) c') (he : e.added?.isSome = true)
    (hcall : e.callDone? = none) (hrest : Uneventful rest) :
    Follows expose (o ++ [x]) (messageClosed (o ++ [x])) c' (past ++ e :: rest) where
  inv := hinv
  opened := hopen
  exposed := hexposed.trans h.exposed
  mirrors := hmirrors
  legal := by
    have hfits : AllDone past ↔ Fits o x := by
      rw [h.mirrors.allDone_iff h.inv h.opened]
      apply and_congr_right
      intro _
      apply forall_congr'
      intro hmem
      rw [hclosed hmem]
    rw [legal_added_iff he hrest, h.legal, hfits, legal_snoc_iff]
  running := by
    have hnone : callDones (e :: rest) = callDones rest := List.filterMap_cons_none hcall
    rw [callDones_append, h.running, hnone, hrest.callDones, List.append_nil]

end Mirrors

section Steps
variable (hex : Nat → String) {expose : Bool} {c : ResponsesConverter} {past : List Event}
  {n : List Opening} {x : Opening}

/-- The converter follows the items named so far. -/
def Tracked (expose : Bool) (n : List Opening) (c : ResponsesConverter) (past : List Event) :
    Prop :=
  Follows expose n.eraseDups (messageClosed n.eraseDups) c past

theorem Tracked.update {started : Bool} {sequence : Nat}
    {finishReason error modelSeen : Option String} {usage : Option Usage}
    (h : Tracked expose n c past) :
    Tracked expose n { c with started, sequence, finishReason, usage, error, modelSeen } past where
  inv := h.inv.update
  opened := ⟨h.opened.reasoning, h.opened.slots⟩
  exposed := h.exposed
  mirrors := ⟨h.mirrors.reasoning, h.mirrors.message, h.mirrors.calls, h.mirrors.ranked⟩
  legal := h.legal
  running := h.running

theorem tracked_known (hx : x ∈ n.eraseDups) : Tracked expose (n ++ [x]) = Tracked expose n := by
  unfold Tracked
  rw [Snoc.eraseDups_snoc, if_pos (List.mem_eraseDups.mp hx)]

theorem eraseDups_new (hx : x ∉ n.eraseDups) : (n ++ [x]).eraseDups = n.eraseDups ++ [x] := by
  rw [Snoc.eraseDups_snoc, if_neg fun hmem => hx (List.mem_eraseDups.mpr hmem)]

theorem leads_feedReasoning_tracked (n : List Opening) (text : String) :
    Leads (Tracked expose n) (Tracked expose (n ++ named expose (.reasoning text)))
      (feedReasoning hex text) := by
  intro c past h
  have hinv := keeps_feedReasoning hex text c past h.inv
  have hopen := h.opened.feedReasoning hex text
  have hsound := h.inv.1.reasoning
  rw [h.exposed] at hsound
  cases expose with
  | false =>
    show Tracked false (n ++ []) _ _
    rw [List.append_nil]
    rw [feedReasoning_hidden hex h.exposed] at hinv hopen ⊢
    refine Follows.quiet h hinv hopen rfl
      ⟨?_, h.mirrors.message, h.mirrors.calls, h.mirrors.ranked⟩ nofun
    have hnone : (c.reasoning.bind ItemState.outputIndex) = none := by
      cases hr : c.reasoning with
      | none => rfl
      | some state => exact (hsound state hr).2
    rw [h.mirrors.reasoning, hnone]
    cases hr : c.reasoning with
    | none => simp [ItemState.fresh]
    | some state =>
      have hindex := (hsound state hr).2
      simp [hindex]
  | true =>
    show Tracked true (n ++ [.reasoning]) _ _
    cases hreasoning : c.reasoning with
    | none =>
      have hx : .reasoning ∉ n.eraseDups := by
        rw [h.mirrors.reasoning, hreasoning]
        exact Bool.false_ne_true
      unfold Tracked
      rw [eraseDups_new hx]
      rw [feedReasoning_new hex h.exposed hreasoning] at hinv hopen ⊢
      have hclosed := messageClosed_snoc_item (o := n.eraseDups) (x := .reasoning) rfl
      refine Follows.opens h (fun _ => hclosed) hinv hopen rfl ⟨by simp, ?_, ?_, ?_⟩ rfl rfl ?_
      · rw [hclosed]
        simpa using h.mirrors.message
      · simpa using h.mirrors.calls
      · rw [calls_snoc_item rfl]
        exact h.mirrors.ranked
      · intro e he
        rcases List.mem_pair.mp he with rfl | rfl <;> exact ⟨rfl, rfl⟩
    | some state =>
      have hshown := hsound state hreasoning
      obtain ⟨k, hk⟩ := hshown.placed
      have hx : .reasoning ∈ n.eraseDups := by
        rw [h.mirrors.reasoning, hreasoning, Option.bind_some, hk]
        rfl
      rw [tracked_known hx]
      rw [feedReasoning_shown hex h.exposed hreasoning hshown hk] at hinv hopen ⊢
      refine Follows.quiet h hinv hopen rfl
        ⟨?_, h.mirrors.message, h.mirrors.calls, h.mirrors.ranked⟩ ?_
      · simp [hx, hk]
      · intro e he
        rw [List.mem_singleton.mp he]
        exact ⟨rfl, rfl⟩

theorem leads_feedText_tracked (n : List Opening) (text : String) :
    Leads (Tracked expose n) (Tracked expose (n ++ named expose (.content text)))
      (feedText hex text) := by
  intro c past h
  have hinv := keeps_feedText hex text c past h.inv
  have hopen := h.opened.feedText hex text
  have hmirror := h.mirrors.message
  show Tracked expose (n ++ [.message]) _ _
  cases hmessage : c.message with
  | none =>
    have hx : .message ∉ n.eraseDups := by
      intro hmem
      rw [hmessage, if_pos hmem] at hmirror
      cases hmirror
    unfold Tracked
    rw [eraseDups_new hx]
    rw [feedText_new hex hmessage] at hinv hopen ⊢
    have hclosed : messageClosed (n.eraseDups ++ [.message]) = false := by
      rw [messageClosed_snoc_item rfl, messageClosed_of_not_mem hx]
    refine Follows.opens h (fun hmem => absurd hmem hx) hinv hopen rfl ⟨?_, ?_, ?_, ?_⟩ rfl rfl ?_
    · simpa using h.mirrors.reasoning
    · rw [hclosed]
      simp
    · simpa using h.mirrors.calls
    · rw [calls_snoc_item rfl]
      exact h.mirrors.ranked
    · intro e he
      rcases List.mem_pair.mp he with rfl | rfl <;> exact ⟨rfl, rfl⟩
  | some state =>
    have hshown := h.inv.1.message state hmessage
    obtain ⟨k, hk⟩ := hshown.placed
    have hx : .message ∈ n.eraseDups := by
      by_contra hmem
      rw [hmessage, if_neg hmem] at hmirror
      cases hmirror
    rw [tracked_known hx]
    rw [feedText_shown hex hmessage hshown hk] at hinv hopen ⊢
    rw [hmessage] at hmirror
    refine Follows.quiet h hinv hopen rfl
      ⟨h.mirrors.reasoning, hmirror, h.mirrors.calls, h.mirrors.ranked⟩ ?_
    intro e he
    rw [List.mem_singleton.mp he]
    exact ⟨rfl, rfl⟩

theorem leads_closeMessageItem_follows (o : List Opening) (closed : Bool) :
    Leads (Follows expose o closed) (Follows expose o true) closeMessageItem := by
  intro c past h
  have hinv := keeps_closeMessageItem c past h.inv
  obtain ⟨message, hstep, hdone, -⟩ := closeMessageItem_step c
  have hmirror : message.map ItemState.itemDone = if .message ∈ o then some true else none := by
    calc message.map ItemState.itemDone
        = (c.message.map ItemState.itemDone).map fun _ => true := by rw [hdone, Option.map_map]; rfl
      _ = if .message ∈ o then some true else none := by
        rw [h.mirrors.message]
        split_ifs <;> rfl
  refine h.quiet hinv h.opened.closeMessageItem ?_ ?_ ?_
  · rw [hstep]
  · rw [hstep]
    exact ⟨h.mirrors.reasoning, hmirror, h.mirrors.calls, h.mirrors.ranked⟩
  · exact uneventful_closeMessageItem c

theorem leads_addToolItem_follows (call : ToolCallDelta) {o : List Opening} {closed : Bool}
    (hclosed : .message ∈ o → messageClosed (o ++ [.call call.index]) = closed) :
    Leads (fun c past => Follows expose o closed c past ∧ c.tools.find? call.index = none)
      (Follows expose (o ++ [.call call.index]) (messageClosed (o ++ [.call call.index])))
      (addToolItem hex call) := by
  rintro c past ⟨h, hnew⟩
  have hinv := leads_addToolItem hex call c past ⟨h.inv, hnew⟩
  have hopen := h.opened.addToolItem hex call
  obtain ⟨hsound, board, htracks, -⟩ := h.inv
  rw [addToolItem_client hex hsound.client] at hinv hopen ⊢
  refine h.opens hclosed hinv hopen rfl ⟨?_, ?_, ?_, ?_⟩ rfl rfl nofun
  · simpa using h.mirrors.reasoning
  · show c.message.map ItemState.itemDone = _
    rw [h.mirrors.message]
    by_cases hmem : .message ∈ o
    · simp [hmem, hclosed hmem]
    · simp [hmem]
  · intro index
    rw [List.mem_append, h.mirrors.calls index]
    unfold SortedMap.contains
    rw [SortedMap.find?_insert]
    split_ifs with hindex
    · simp [hindex]
    · simp [Ne.symm hindex]
  · have hold : ∀ index ∈ o.filterMap Opening.index?, c.tools.contains index = true := by
      intro index hmem
      obtain ⟨x, hx, hindex⟩ := List.mem_filterMap.mp hmem
      cases x <;> cases hindex
      exact (h.mirrors.calls index).mp hx
    have hrank {slot : ToolSlot} {index : Int} (hmem : index ∈ o.filterMap Opening.index?) :
        rank (c.tools.insert call.index slot) index = rank c.tools index := by
      have hne : call.index ≠ index := by
        rintro rfl
        have hcontains := hold call.index hmem
        unfold SortedMap.contains at hcontains
        rw [hnew] at hcontains
        cases hcontains
      unfold rank
      rw [SortedMap.find?_insert_ne _ _ hne]
    have hlast : [Opening.call call.index].filterMap Opening.index? = [call.index] := rfl
    rw [List.filterMap_append, hlast, List.pairwise_append]
    refine ⟨?_, List.pairwise_singleton _ _, ?_⟩
    · refine h.mirrors.ranked.imp_of_mem ?_
      intro a b ha hb hab
      rw [hrank ha, hrank hb]
      exact hab
    · intro a ha b hb
      rw [List.mem_singleton.mp hb, hrank ha]
      obtain ⟨slot, hslot⟩ := Option.isSome_iff_exists.mp (hold a ha)
      have hbelow := hsound.apart.below a slot hslot
      unfold rank
      rw [hslot, SortedMap.find?_insert_self]
      exact hbelow

theorem leads_ensureToolItemAdded_tracked (n : List Opening) (call : ToolCallDelta) :
    Leads (Tracked expose n) (Tracked expose (n ++ [.call call.index]))
      (ensureToolItemAdded hex call) := by
  intro c past h
  unfold ensureToolItemAdded
  have hcalls := h.mirrors.calls
  split_ifs with hcontains hempty
  · rw [tracked_known ((hcalls call.index).mpr hcontains), List.append_nil]
    exact h
  · have hx : .call call.index ∉ n.eraseDups := fun hmem => hcontains ((hcalls call.index).mp hmem)
    have hquiet : n.eraseDups.any Opening.isCall = false := by
      apply List.any_eq_false.mpr
      intro x hx
      cases x with
      | call index =>
        obtain ⟨slot, hslot⟩ := Option.isSome_iff_exists.mp ((hcalls index).mp hx)
        rw [SortedMap.isEmpty_of_find? hslot] at hempty
        cases hempty
      | _ => exact Bool.false_ne_true
    have hfirst (hmem : .message ∈ n.eraseDups) :
        messageClosed (n.eraseDups ++ [.call call.index]) = true := by
      rw [messageClosed_snoc, hquiet, if_neg Bool.false_ne_true]
      simpa [Opening.isCall, Opening.index?] using hmem
    have hclosed : Leads
        (fun c past => Follows expose n.eraseDups (messageClosed n.eraseDups) c past ∧
          c.tools.find? call.index = none)
        (fun c past => Follows expose n.eraseDups true c past ∧ c.tools.find? call.index = none)
        closeMessageItem := by
      rintro c past ⟨h, hnew⟩
      exact ⟨leads_closeMessageItem_follows _ _ c past h, by rw [tools_closeMessageItem, hnew]⟩
    have hadded := hclosed.andThen (leads_addToolItem_follows hex call hfirst) c past
      ⟨h, Option.not_isSome_iff_eq_none.mp hcontains⟩
    unfold Tracked
    rw [eraseDups_new hx]
    exact hadded
  · have hx : .call call.index ∉ n.eraseDups := fun hmem => hcontains ((hcalls call.index).mp hmem)
    have hany : n.eraseDups.any Opening.isCall = true := by
      obtain ⟨index, slot, hslot⟩ :=
        SortedMap.exists_find?_of_isEmpty (Bool.eq_false_iff.mpr hempty)
      have hmem : .call index ∈ n.eraseDups :=
      (hcalls index).mpr (Option.isSome_iff_exists.mpr ⟨slot, hslot⟩)
      exact List.any_eq_true.mpr ⟨_, hmem, rfl⟩
    have hlater (_ : .message ∈ n.eraseDups) :
        messageClosed (n.eraseDups ++ [.call call.index]) = messageClosed n.eraseDups := by
      rw [messageClosed_snoc, hany, if_pos rfl]
    have hadded := leads_addToolItem_follows hex call hlater c past
      ⟨h, Option.not_isSome_iff_eq_none.mp hcontains⟩
    unfold Tracked
    rw [eraseDups_new hx]
    exact hadded

theorem keeps_feedToolCallArguments_tracked (n : List Opening) (call : ToolCallDelta) :
    Keeps (Tracked expose n) (feedToolCallArguments call) := by
  intro c past h
  have hinv := keeps_feedToolCallArguments call c past h.inv
  have hopen := h.opened.feedToolCallArguments call
  cases hfind : c.tools.find? call.index with
  | none =>
    have hsame : feedToolCallArguments call c = (c, []) := by
      unfold feedToolCallArguments
      rw [hfind]
    rw [hsame, List.append_nil]
    exact h
  | some slot =>
    rw [feedToolCallArguments_client h.inv.1.client call hfind (h.inv.1.slots _ _ hfind)]
      at hinv hopen ⊢
    have hrank (slot' : ToolSlot) (hslot' : slot'.outputIndex = slot.outputIndex) :
        rank (c.tools.insert call.index slot') = rank c.tools := by
      funext index
      unfold rank
      rw [SortedMap.find?_insert]
      split_ifs with hindex
      · rw [← hindex, hfind, Option.map_some, Option.map_some, hslot']
      · rfl
    refine Follows.quiet h hinv hopen rfl ⟨h.mirrors.reasoning, h.mirrors.message, ?_, ?_⟩ ?_
    · intro index
      rw [h.mirrors.calls index]
      unfold SortedMap.contains
      rw [SortedMap.find?_insert]
      split_ifs with hindex
      · rw [← hindex, hfind]
        simp
      · rfl
    · dsimp only
      rw [hrank]
      · exact h.mirrors.ranked
      · rfl
    · intro e he
      split_ifs at he
      · cases he
      · rw [List.mem_singleton.mp he]
        exact ⟨rfl, rfl⟩

theorem leads_feedDelta_tracked (n : List Opening) (delta : Delta) :
    Leads (Tracked expose n) (Tracked expose (n ++ named expose delta)) (feedDelta hex delta) := by
  cases delta with
  | finish reason =>
    apply leads_silent
    intro c past h
    show Tracked expose (n ++ []) _ _
    rw [List.append_nil]
    exact h.update
  | reasoning text => exact leads_feedReasoning_tracked hex n text
  | content text => exact leads_feedText_tracked hex n text
  | toolCalls calls =>
    have hcalls : calls.flatMap (fun call => [Opening.call call.index]) =
        calls.map fun call => .call call.index := List.map_eq_flatMap.symm
    have hadded := leads_forEach (@leads_ensureToolItemAdded_tracked hex expose) calls n
    rw [hcalls] at hadded
    exact hadded.andThen (keeps_forEach fun call _ => keeps_feedToolCallArguments_tracked _ call)

theorem keeps_ensureStarted_tracked (n : List Opening) :
    Keeps (Tracked expose n) ensureStarted := by
  intro c past h
  have hinv := keeps_ensureStarted c past h.inv
  unfold ensureStarted at hinv ⊢
  split_ifs at hinv ⊢
  · rw [List.append_nil]
    exact h
  · refine Follows.quiet h hinv ⟨h.opened.reasoning, h.opened.slots⟩ rfl h.update.mirrors ?_
    intro e he
    rcases List.mem_pair.mp he with rfl | rfl <;> exact ⟨rfl, rfl⟩

theorem leads_feedChunkEvents_tracked (n : List Opening) (chunk : Json) :
    Leads (Tracked expose n) (Tracked expose (n ++ (chunkDeltas chunk).flatMap (named expose)))
      (feedChunkEvents hex chunk) := by
  have hnote : Keeps (Tracked expose n) (silent (noteChunk chunk)) :=
    leads_silent fun _ _ h => h.update
  have hdeltas := leads_forEach (@leads_feedDelta_tracked hex expose) (chunkDeltas chunk) n
  exact (keeps_ensureStarted_tracked n).andThen (hnote.andThen hdeltas)

theorem tracked_new (createdAt : UInt64) (model : String) (expose : Bool) :
    Tracked expose [] (new hex createdAt model expose) [] where
  inv := inv_new hex createdAt model expose
  opened := ⟨nofun, nofun⟩
  exposed := rfl
  mirrors := ⟨by simp [new, withServerTools], rfl,
    by simp [new, withServerTools, SortedMap.contains], List.Pairwise.nil⟩
  legal := iff_of_true legal_nil legal_nil
  running := rfl

theorem tracked_chunks (createdAt : UInt64) (model : String) (expose : Bool) (chunks : List Json) :
    let past := forEach (feedChunk hex) chunks (new hex createdAt model expose)
    Tracked expose ((chunks.flatMap chunkDeltas).flatMap (named expose)) past.1
      (events past.2) := by
  have hchunk (n : List Opening) (chunk : Json) := leads_numbered
    (@leads_feedChunkEvents_tracked hex expose n chunk) fun _ _ _ h => h.update
  have hrun := leads_forEach hchunk chunks [] (new hex createdAt model expose) []
    ⟨tracked_new hex createdAt model expose, rfl, rfl⟩
  rw [List.flatMap_assoc]
  exact hrun.1

end Steps

section Finish
variable {c : ResponsesConverter} {past : List Event} {o : List Opening} {expose closed : Bool}

theorem callDones_closeTools
    (h : ∀ index slot, c.tools.find? index = some slot → slot.done = false ∧ slot.server = false) :
    callDones (closeTools c).2 = c.tools.values.map ToolSlot.outputIndex := by
  have hslots : c.openSlots = c.tools.values := by
    apply List.filter_eq_self.mpr
    intro slot hslot
    obtain ⟨index, hfind⟩ := SortedMap.mem_values.mp hslot
    simp [h index slot hfind]
  show callDones (c.openSlots.flatMap closeTool) = _
  rw [hslots]
  induction c.tools.values with
  | nil => rfl
  | cons slot slots ih =>
    rw [List.flatMap_cons, callDones_append, ih]
    rfl

/-- Closing adds nothing, and the calls' `done` frames follow the map of the slots. -/
theorem closeItems_frames (h : Follows expose o closed c past) :
    (∀ e ∈ (closeItems c).2, e.added? = none) ∧
      callDones (closeItems c).2 = c.tools.values.map ToolSlot.outputIndex := by
  obtain ⟨reasoning, hreasoning, -⟩ := closeReasoningItem_step c
  obtain ⟨message, hmessage, -⟩ := closeMessageItem_step (closeReasoningItem c).1
  let c' := (closeMessageItem (closeReasoningItem c).1).1
  have htools : c'.tools = c.tools := by
    show (closeMessageItem (closeReasoningItem c).1).1.tools = _
    rw [hmessage, hreasoning]
  have hfirst := uneventful_closeReasoningItem c
  have hsecond := uneventful_closeMessageItem (closeReasoningItem c).1
  have hthird : callDones (closeTools c').2 = c.tools.values.map ToolSlot.outputIndex := by
    rw [callDones_closeTools, htools]
    intro index slot hfind
    rw [htools] at hfind
    exact ⟨h.opened.slots index slot hfind, h.inv.1.slots index slot hfind⟩
  show (∀ e ∈ (closeReasoningItem c).2 ++ ((closeMessageItem (closeReasoningItem c).1).2 ++
    (closeTools c').2), e.added? = none) ∧ callDones ((closeReasoningItem c).2 ++
      ((closeMessageItem (closeReasoningItem c).1).2 ++ (closeTools c').2)) = _
  constructor
  · intro e he
    rcases List.mem_append.mp he with he | he
    · exact (hfirst e he).1
    · rcases List.mem_append.mp he with he | he
      · exact (hsecond e he).1
      · obtain ⟨slot, -, hslot⟩ := List.mem_flatMap.mp he
        rcases List.mem_pair.mp hslot with rfl | rfl <;> rfl
  · rw [callDones_append, callDones_append, hfirst.callDones, hsecond.callDones, hthird]
    rfl

/-- The slots stand in output order exactly when their indices came in order. -/
theorem outputOrder_iff (h : Follows expose o closed c past) :
    (c.tools.values.map ToolSlot.outputIndex).Pairwise (· < ·) ↔
      (o.filterMap Opening.index?).Pairwise (· < ·) := by
  have hmem (index : Int) : index ∈ o.filterMap Opening.index? ↔
      ∃ slot, c.tools.find? index = some slot := by
    rw [← Option.isSome_iff_exists, List.mem_filterMap]
    refine Iff.trans ?_ (h.mirrors.calls index)
    constructor
    · rintro ⟨x, hx, hindex⟩
      cases x <;> cases hindex
      exact hx
    · intro hx
      exact ⟨_, hx, rfl⟩
  have hrank {index : Int} {slot : ToolSlot} (hfind : c.tools.find? index = some slot) :
      rank c.tools index = slot.outputIndex := by
    unfold rank
    rw [hfind]
    rfl
  have hvalues := @SortedMap.pairwise_iff_of_sorted _ _ _ _ _ Sigma.fst
    (fun e => ToolSlot.outputIndex e.2) _ c.tools.sorted
  have hcalls := @SortedMap.pairwise_iff_of_sorted _ _ _ _ _ (rank c.tools) id _ h.mirrors.ranked
  have hleft : (c.tools.values.map ToolSlot.outputIndex).Pairwise (· < ·) ↔
      c.tools.entries.Pairwise fun a b => a.2.outputIndex < b.2.outputIndex := by
    unfold SortedMap.values
    rw [List.pairwise_map, List.pairwise_map]
  rw [hleft, hvalues]
  refine Iff.trans ?_ hcalls.symm
  constructor
  · intro hall a ha b hb hab
    obtain ⟨s, hs⟩ := (hmem a).mp ha
    obtain ⟨t, ht⟩ := (hmem b).mp hb
    rw [hrank hs, hrank ht] at hab
    by_contra hnot
    rcases lt_or_eq_of_le (not_lt.mp hnot) with hba | hba
    · have hts :=
        hall ⟨b, t⟩ (SortedMap.mem_entries.mpr ht) ⟨a, s⟩ (SortedMap.mem_entries.mpr hs) hba
      exact absurd hab (lt_asymm hts)
    · obtain rfl : b = a := hba
      rw [hs] at ht
      cases ht
      exact absurd hab (lt_irrefl _)
  · rintro hall ⟨a, s⟩ hs ⟨b, t⟩ ht hab
    have hs := SortedMap.mem_entries.mp hs
    have ht := SortedMap.mem_entries.mp ht
    by_contra hnot
    rcases lt_or_eq_of_le (not_lt.mp hnot) with hts | hts
    · have hba :=
        hall b ((hmem b).mpr ⟨t, ht⟩) a ((hmem a).mpr ⟨s, hs⟩)
          (by rw [hrank ht, hrank hs]; exact hts)
      exact absurd hab (lt_asymm hba)
    · have hsame := h.inv.1.apart.apart b a t s ht hs hts
      exact absurd hab (hsame ▸ lt_irrefl _)

theorem sequential_finish_iff {n : List Opening} (h : Tracked expose n c past) :
    Sequential (past ++ (finishEvents none c).2) ↔ InLifecycleOrder n.eraseDups := by
  have hstart : Tracked expose n { c with error := none } past := h.update
  obtain ⟨hadded, hdones⟩ := closeItems_frames hstart
  have hterminal := response?_terminalEvent (error_closeItems { c with error := none })
  have hlast : (closeItems { c with error := none }).1.terminalEvent.callDone? = none := by
    generalize (closeItems { c with error := none }).1.terminalEvent = t at hterminal
    cases t <;> first | rfl | cases hterminal
  rw [finishEvents_none]
  have hlegal : Legal AddedAfterDone (past ++ ((closeItems { c with error := none }).2 ++
      [(closeItems { c with error := none }).1.terminalEvent])) ↔ Legal Fits n.eraseDups := by
    refine Iff.trans (legal_append_iff ?_) h.legal
    intro e he
    rcases List.mem_append.mp he with he | he
    · exact hadded e he
    · rw [List.mem_singleton.mp he]
      exact (about?_terminal hterminal).2
  have horder : callDones (past ++ ((closeItems { c with error := none }).2 ++
      [(closeItems { c with error := none }).1.terminalEvent])) =
        c.tools.values.map ToolSlot.outputIndex := by
    have hnone : callDones [(closeItems { c with error := none }).1.terminalEvent] = [] :=
      List.filterMap_cons_none hlast
    rw [callDones_append, callDones_append, h.running, hdones, hnone, List.append_nil]
    rfl
  constructor
  · rintro ⟨honeByOne, hordered⟩
    rw [horder] at hordered
    obtain ⟨hreasoning, hmessage⟩ := legal_fits_iff.mp (hlegal.mp honeByOne)
    exact ⟨hreasoning, hmessage, (outputOrder_iff h).mp hordered⟩
  · rintro ⟨hreasoning, hmessage, hascending⟩
    refine ⟨hlegal.mpr (legal_fits_iff.mpr ⟨hreasoning, hmessage⟩), ?_⟩
    rw [horder]
    exact (outputOrder_iff h).mpr hascending

end Finish

section Run
variable (hex : Nat → String)

/-- The items come one after another exactly when their first deltas come in lifecycle
order. -/
theorem run_sequential_iff (createdAt : UInt64) (model : String) (expose : Bool)
    (chunks : List Json) :
    Sequential (events (run hex createdAt model expose chunks none).2) ↔
      InLifecycleOrder (openings expose (chunks.flatMap chunkDeltas)) := by
  let past := forEach (feedChunk hex) chunks (new hex createdAt model expose)
  have htracked := tracked_chunks hex createdAt model expose chunks
  have hevents : events (run hex createdAt model expose chunks none).2 =
      events past.2 ++ (finishEvents none past.1).2 := by
    rw [← events_numbered]
    exact List.map_append
  rw [hevents]
  exact sequential_finish_iff htracked

def chunkOf (delta : List (String × Json)) : Json :=
  .obj [("choices", .arr [.obj [("delta", .obj delta)]])]

def callChunk (index : UInt64) (id : String) : Json :=
  chunkOf [("tool_calls", .arr [.obj [("index", .num (.posInt index)), ("id", .str id),
    ("function", .obj [("name", .str "ls"), ("arguments", .str "\x7b\x7d")])]])]

/-- The reasoning item is still open when the message is added, and the calls are done in
the order of their indices. -/
theorem run_not_sequential :
    let hex (n : Nat) : String := String.ofList (List.replicate n '0')
    ¬ Sequential (events (run hex 0 "m" true
      [chunkOf [("reasoning_content", .str "Hm")], chunkOf [("content", .str "Hi")]] none).2) ∧
    ¬ Sequential
      (events (run hex 0 "m" false [callChunk 1 "call_1", callChunk 0 "call_0"] none).2) := by
  intro hex
  constructor
  · intro h
    let sent := events (run hex 0 "m" true
      [chunkOf [("reasoning_content", .str "Hm")], chunkOf [("content", .str "Hi")]] none).2
    have hsplit : sent = sent.take 5 ++ .outputItemAdded 1 (.message "msg_00" none) ::
        sent.drop 6 := by
      decide +kernel
    have hdone : AllDone (sent.take 5) := h.oneByOne _ _ _ hsplit rfl
    exact hdone 0 (.reasoning "rs_0" none) (by decide +kernel) nofun (by decide +kernel)
  · intro h
    have horder : callDones (events (run hex 0 "m" false
        [callChunk 1 "call_1", callChunk 0 "call_0"] none).2) = [1, 0] := by
      decide +kernel
    have hordered := h.outputOrder
    rw [horder] at hordered
    exact absurd hordered (by decide)

end Run

end ResponsesConverter
end Lobster.Responses
