import LobsterProxy.Responses.StreamBoard

/-! A whole run of the Responses converter: what is announced is closed, and the
terminal response lists it. -/

namespace Lobster.Responses
open Chat Emitter Trace

namespace ResponsesConverter

section CloseTools
variable {c : ResponsesConverter} {board : Board} {past : List Event}

def closeAt (board : Board) (slots : List ToolSlot) : Board :=
  slots.foldl (fun board slot => board.modify slot.outputIndex Entry.close) board

theorem records_closeAt (h : Records board past) {slots : List ToolSlot}
    (hnodup : (slots.map ToolSlot.outputIndex).Nodup)
    (hheld : ∀ slot ∈ slots, board[slot.outputIndex]? = some slot.entry ∧ slot.done = false) :
    Records (closeAt board slots) (past ++ slots.flatMap closeTool) := by
  induction slots generalizing board past with
  | nil =>
    rw [List.flatMap_nil, List.append_nil]
    exact h
  | cons slot slots ih =>
    obtain ⟨hnotin, hnodup⟩ := List.nodup_cons.mp hnodup
    obtain ⟨hget, hopen⟩ := hheld slot List.mem_cons_self
    have hstep : Records (board.modify slot.outputIndex Entry.close) (past ++ closeTool slot) := by
      unfold closeTool
      rw [List.append_cons]
      exact (h.neutral hget rfl rfl rfl).close hget hopen rfl rfl
    rw [List.flatMap_cons, ← List.append_assoc]
    refine ih hstep hnodup fun other hother => ?_
    obtain ⟨hget', hopen'⟩ := hheld other (List.mem_cons_of_mem _ hother)
    have hne : ¬ slot.outputIndex = other.outputIndex :=
      fun heq => hnotin (heq ▸ List.mem_map_of_mem hother)
    refine ⟨?_, hopen'⟩
    rw [List.getElem?_modify, hget']
    simp [hne]

theorem closeAt_getElem? (board : Board) (slots : List ToolSlot) (j : Nat) :
    (closeAt board slots)[j]? =
      if j ∈ slots.map ToolSlot.outputIndex then board[j]?.map Entry.close else board[j]? := by
  induction slots generalizing board with
  | nil => rfl
  | cons slot slots ih =>
    show (closeAt (board.modify slot.outputIndex Entry.close) slots)[j]? = _
    rw [ih, List.getElem?_modify]
    by_cases hj : slot.outputIndex = j
    · cases board[j]? <;> simp [hj, Entry.close]
    · have hj' : ¬ j = slot.outputIndex := fun h => hj h.symm
      simp [hj, hj']

theorem closeAt_descriptor (board : Board) (slots : List ToolSlot) :
    (closeAt board slots).map Entry.descriptor = board.map Entry.descriptor ∧
      (closeAt board slots).length = board.length := by
  have hmap : (closeAt board slots).map Entry.descriptor = board.map Entry.descriptor := by
    refine List.ext_getElem? fun i => ?_
    rw [List.getElem?_map, List.getElem?_map, closeAt_getElem?]
    split_ifs
    · rw [Option.map_map]
      rfl
    · rfl
  exact ⟨hmap, by simpa using congrArg List.length hmap⟩

def openSlots (c : ResponsesConverter) : List ToolSlot :=
  c.tools.values.filter fun slot => !slot.done && !slot.server

theorem mem_openSlots (hsound : Sound c) {slot : ToolSlot} :
    slot ∈ c.openSlots ↔ (∃ index, c.tools.find? index = some slot) ∧ slot.done = false := by
  unfold openSlots
  rw [List.mem_filter, SortedMap.mem_values]
  constructor
  · rintro ⟨hmem, hflags⟩
    exact ⟨hmem, by simpa using (Bool.and_eq_true_iff.mp hflags).1⟩
  · rintro ⟨⟨index, hfind⟩, hopen⟩
    exact ⟨⟨index, hfind⟩, by simp [hopen, hsound.slots index slot hfind]⟩

theorem openSlots_nodup (hsound : Sound c) : (c.openSlots.map ToolSlot.outputIndex).Nodup :=
  (SortedMap.nodup_map_values hsound.apart.apart).sublist
    (List.Sublist.map _ List.filter_sublist)

theorem slotHolds_mapValues {tools : SortedMap Int ToolSlot} (f : ToolSlot → ToolSlot)
    (g : Entry → Entry) (hindex : ∀ slot, (f slot).outputIndex = slot.outputIndex)
    (hentry : ∀ slot, (f slot).entry = g slot.entry) (k : Nat) (entry : Entry) :
    slotHolds (tools.mapValues f) k entry ↔ ∃ e, slotHolds tools k e ∧ entry = g e := by
  unfold slotHolds
  constructor
  · rintro ⟨index, slot', hfind, hk, rfl⟩
    rw [SortedMap.find?_mapValues] at hfind
    obtain ⟨slot, hslot, rfl⟩ := Option.map_eq_some_iff.mp hfind
    exact ⟨slot.entry, ⟨index, slot, hslot, (hindex slot).symm.trans hk, rfl⟩, hentry slot⟩
  · rintro ⟨e, ⟨index, slot, hslot, hk, rfl⟩, rfl⟩
    refine ⟨index, f slot, ?_, (hindex slot).trans hk, (hentry slot).symm⟩
    rw [SortedMap.find?_mapValues, hslot]
    rfl

theorem tracks_closeTools (hsound : Sound c) (htracks : Tracks c board) :
    Tracks { c with tools := c.tools.mapValues fun slot => { slot with done := true } }
      (closeAt board c.openSlots) where
  items := htracks.items.trans (closeAt_descriptor board c.openSlots).1.symm
  next := htracks.next.trans (closeAt_descriptor board c.openSlots).2.symm
  holds := by
    intro j e
    unfold Holds
    dsimp only
    rw [closeAt_getElem?, slotHolds_mapValues (fun slot => { slot with done := true }) Entry.close
      (fun _ => rfl) fun _ => rfl]
    have hboard {e : Entry} (h : c.Holds j e) : board[j]? = some e := (htracks.holds j e).mpr h
    by_cases hj : j ∈ c.openSlots.map ToolSlot.outputIndex
    · -- the slot that is open at `j` is all that is held there
      obtain ⟨slot, hmem, rfl⟩ := List.mem_map.mp hj
      obtain ⟨⟨index, hfind⟩, -⟩ := (mem_openSlots hsound).mp hmem
      have hslot : slotHolds c.tools slot.outputIndex slot.entry := ⟨index, slot, hfind, rfl, rfl⟩
      have honly {e : Entry} (h : c.Holds slot.outputIndex e) : e = slot.entry := by
        have hget := hboard h
        rw [hboard (.inr (.inr hslot))] at hget
        exact (Option.some.inj hget).symm
      rw [if_pos hj, hboard (.inr (.inr hslot)), Option.map_some, Option.some.injEq]
      constructor
      · rintro rfl
        exact .inr (.inr ⟨slot.entry, hslot, rfl⟩)
      · rintro (h | h | ⟨e', h, rfl⟩)
        · exact absurd ((stateHolds_kind h).symm.trans (congrArg Entry.kind (honly (.inl h)))) nofun
        · exact absurd
            ((stateHolds_kind h).symm.trans (congrArg Entry.kind (honly (.inr (.inl h))))) nofun
        · rw [honly (.inr (.inr h))]
    · -- a slot at `j` is closed already
      have hclosed {e : Entry} (h : slotHolds c.tools j e) : e.close = e := by
        obtain ⟨index, slot, hfind, rfl, rfl⟩ := h
        have hdone : slot.done = true := by
          rw [← Bool.not_eq_false]
          exact fun hopen =>
            hj (List.mem_map_of_mem ((mem_openSlots hsound).mpr ⟨⟨index, hfind⟩, hopen⟩))
        unfold Entry.close ToolSlot.entry
        rw [hdone]
      rw [if_neg hj, htracks.holds]
      refine or_congr_right (or_congr_right ⟨fun h => ⟨e, h, (hclosed h).symm⟩, ?_⟩)
      rintro ⟨e', h, rfl⟩
      rwa [hclosed h]

theorem keeps_closeTools : Keeps Inv closeTools := by
  rintro c past ⟨hsound, board, htracks, hrecords⟩
  have hold :
      ∀ index slot', (c.tools.mapValues fun slot => { slot with done := true }).find? index =
      some slot' → ∃ slot, c.tools.find? index = some slot ∧
      slot' = { slot with done := true } := by
    intro index slot' h
    rw [SortedMap.find?_mapValues] at h
    obtain ⟨slot, hfind, hslot⟩ := Option.map_eq_some_iff.mp h
    exact ⟨slot, hfind, hslot.symm⟩
  refine ⟨⟨hsound.client, hsound.reasoning, hsound.message, ?_, ?_, ?_⟩, _,
    tracks_closeTools hsound htracks, records_closeAt hrecords (openSlots_nodup hsound) ?_⟩
  · intro index slot' h
    obtain ⟨slot, hfind, rfl⟩ := hold index slot' h
    exact hsound.slots index slot hfind
  · intro a b s t ha hb hst
    obtain ⟨s, hs, rfl⟩ := hold a s ha
    obtain ⟨t, ht, rfl⟩ := hold b t hb
    exact hsound.apart.apart a b s t hs ht hst
  · intro index slot' h
    obtain ⟨slot, hfind, rfl⟩ := hold index slot' h
    exact hsound.apart.below index slot hfind
  · intro slot hmem
    obtain ⟨⟨index, hfind⟩, hopen⟩ := (mem_openSlots hsound).mp hmem
    exact ⟨(htracks.holds _ _).mpr (.inr (.inr ⟨index, slot, hfind, rfl, rfl⟩)), hopen⟩

end CloseTools

section Sealing
variable {c : ResponsesConverter} {board : Board} {past : List Event}

theorem closeReasoningItem_closes (c : ResponsesConverter) {state : ItemState}
    (h : (closeReasoningItem c).1.reasoning = some state) (hadded : state.itemAdded = true) :
    state.itemDone = true := by
  obtain ⟨reasoning, hstep, hdone, -⟩ := closeReasoningItem_step c
  rw [hstep] at h
  exact hdone state h hadded

theorem closeMessageItem_closes (c : ResponsesConverter) {state : ItemState}
    (h : (closeMessageItem c).1.message = some state) : state.itemDone = true := by
  obtain ⟨message, hstep, hdone, -⟩ := closeMessageItem_step c
  rw [hstep] at h
  obtain rfl : message = some state := h
  obtain ⟨_, -, htrue⟩ := Option.map_eq_some_iff.mp hdone.symm
  exact htrue.symm

theorem reasoning_closeMessageItem (c : ResponsesConverter) :
    (closeMessageItem c).1.reasoning = c.reasoning := by
  obtain ⟨message, hstep, -⟩ := closeMessageItem_step c
  rw [hstep]

def Sealed (c : ResponsesConverter) (past : List Event) : Prop :=
  Sound c ∧ ∃ board, Tracks c board ∧ Records board past ∧ ∀ entry ∈ board, entry.closed = true

def closeItems : Emitter ResponsesConverter Event :=
  closeReasoningItem.andThen <| closeMessageItem.andThen closeTools

theorem leads_closeItems : Leads Inv Sealed closeItems := by
  intro c past h
  obtain ⟨hsound, board, htracks, hrecords⟩ : Inv (closeItems c).1 (past ++ (closeItems c).2) :=
    (keeps_closeReasoningItem.andThen (keeps_closeMessageItem.andThen keeps_closeTools)) c past h
  refine ⟨hsound, board, htracks, hrecords, fun entry hentry => ?_⟩
  obtain ⟨k, hk⟩ := List.mem_iff_getElem?.mp hentry
  rcases (htracks.holds k entry).mp hk with ⟨s, hs, hindex, rfl⟩ | ⟨s, hs, -, rfl⟩ |
    ⟨index, slot, hslot, -, rfl⟩
  · have hr := hsound.reasoning s hs
    have hfirst : (closeReasoningItem c).1.reasoning = some s :=
      (reasoning_closeMessageItem (closeReasoningItem c).1).symm.trans hs
    refine closeReasoningItem_closes c hfirst ?_
    split_ifs at hr
    · exact hr.itemAdded
    · rw [hr.2] at hindex
      cases hindex
  · exact closeMessageItem_closes (closeReasoningItem c).1 hs
  · replace hslot : ((closeMessageItem (closeReasoningItem c).1).1.tools.mapValues fun slot =>
        { slot with done := true }).find? index = some slot := hslot
    rw [SortedMap.find?_mapValues] at hslot
    obtain ⟨slot, -, rfl⟩ := Option.map_eq_some_iff.mp hslot
    rfl

theorem map_filterMap {α β γ : Type} {f : α → Option β} {g : β → γ} {h : α → γ} {as : List α}
    (hmap : ∀ a ∈ as, ∃ b, f a = some b ∧ g b = h a) : (as.filterMap f).map g = as.map h := by
  induction as with
  | nil => rfl
  | cons a as ih =>
    obtain ⟨b, hb, hg⟩ := hmap a List.mem_cons_self
    rw [List.filterMap_cons_some hb, List.map_cons, List.map_cons, hg,
      ih fun a' ha' => hmap a' (List.mem_cons_of_mem a ha')]

theorem find?_slot {α : Type} [DecidableEq α] {tools : SortedMap Int ToolSlot} {f : ToolSlot → α}
    {index : Int} {slot : ToolSlot} (hslot : tools.find? index = some slot)
    (hf : ∀ a b s t, tools.find? a = some s → tools.find? b = some t → f s = f t → a = b) :
    (tools.values.find? fun s => f s = f slot) = some slot := by
  cases hfind : tools.values.find? fun s => f s = f slot with
  | none =>
    have hmem : slot ∈ tools.values := SortedMap.mem_values.mpr ⟨index, hslot⟩
    exact absurd (List.find?_eq_none.mp hfind slot hmem) (by simp)
  | some found =>
    obtain ⟨index', hfound⟩ := SortedMap.mem_values.mp (List.mem_of_find?_eq_some hfind)
    have hsame : f found = f slot := by simpa using List.find?_some hfind
    rw [hf index' index found slot hfound hslot hsame, hslot] at hfound
    rw [Option.some.inj hfound]

def DistinctSlots (tools : SortedMap Int ToolSlot) : Prop :=
  ∀ a b s t, tools.find? a = some s → tools.find? b = some t → s.itemId = t.itemId → a = b

theorem distinctSlots_of_nodup (hsound : Sound c) (htracks : Tracks c board)
    (hids : (board.map Entry.id).Nodup) : DistinctSlots c.tools := by
  intro a b s t ha hb hst
  have hget {a : Int} {s : ToolSlot} (ha : c.tools.find? a = some s) :
      (board.map Entry.id)[s.outputIndex]? = some s.itemId := by
    rw [List.getElem?_map, (htracks.holds _ _).mpr (.inr (.inr ⟨a, s, ha, rfl, rfl⟩))]
    rfl
  have hlt := (List.getElem?_eq_some_iff.mp (hget ha)).1
  refine hsound.apart.apart a b s t ha hb ((List.getElem?_inj hlt hids).mp ?_)
  rw [hget ha, hget hb, hst]

def itemAt (c : ResponsesConverter) (k : Nat) : Option Item :=
  ((c.reasoning.filter fun s => s.outputIndex = some k).map fun s =>
      Item.reasoning s.itemId (some s.accum)).or <|
    ((c.message.filter fun s => s.outputIndex = some k).map fun s =>
      Item.message s.itemId (some s.accum)).or <|
    (c.tools.values.find? fun slot => slot.outputIndex = k).map ToolSlot.item

theorem filter_eq_none (state : Option ItemState) (kind : ItemKind) {k : Nat}
    (h : ∀ e, ¬ stateHolds kind state k e) :
    state.filter (fun s => s.outputIndex = some k) = none := by
  refine Option.filter_eq_none_iff.mpr fun s hs => ?_
  rw [decide_eq_true_iff]
  exact fun hk => h _ ⟨s, hs, hk, rfl⟩

theorem outputItem_entry (hsound : Sound c) (htracks : Tracks c board)
    (hdistinct : DistinctSlots c.tools) {k : Nat} {entry : Entry} (hk : board[k]? = some entry) :
    c.outputItem entry.descriptor = c.itemAt k ∧
      ∃ item, c.itemAt k = some item ∧ item.shown = entry.shown := by
  -- what else is held at the index is of the same kind
  have honly {e : Entry} (h : c.Holds k e) : e.kind = entry.kind := by
    have hget := (htracks.holds k e).mpr h
    rw [hk] at hget
    rw [Option.some.inj hget]
  have hstate {state : Option ItemState} {itemId : String} {s : ItemState} (hs : state = some s)
      (hid : s.itemId = itemId) : stateText state itemId = s.accum := by
    rw [hs, ← hid]
    simp [stateText, Option.filter]
  rcases (htracks.holds k entry).mp hk with ⟨s, hs, hindex, rfl⟩ | ⟨s, hs, hindex, rfl⟩ |
    ⟨index, slot, hslot, rfl, rfl⟩
  · have hitem : c.itemAt k = some (.reasoning s.itemId (some s.accum)) := by
      unfold itemAt
      simp [hs, hindex, Option.filter]
    rw [hitem]
    refine ⟨?_, _, rfl, rfl⟩
    show some (Item.reasoning s.itemId (some (stateText c.reasoning s.itemId))) = _
    rw [hstate hs rfl]
  · have hreasoning := filter_eq_none c.reasoning .reasoning fun e h =>
      absurd ((stateHolds_kind h).symm.trans (honly (.inl h))) nofun
    have hitem : c.itemAt k = some (.message s.itemId (some s.accum)) := by
      unfold itemAt
      rw [hreasoning]
      simp [hs, hindex, Option.filter]
    rw [hitem]
    refine ⟨?_, _, rfl, rfl⟩
    show some (Item.message s.itemId (some (stateText c.message s.itemId))) = _
    rw [hstate hs rfl]
  · have hreasoning := filter_eq_none c.reasoning .reasoning fun e h =>
      absurd ((stateHolds_kind h).symm.trans (honly (.inl h))) nofun
    have hmessage := filter_eq_none c.message .message fun e h =>
      absurd ((stateHolds_kind h).symm.trans (honly (.inr (.inl h)))) nofun
    have hitem : c.itemAt slot.outputIndex = some slot.item := by
      unfold itemAt
      rw [hreasoning, hmessage, find?_slot hslot hsound.apart.apart]
      rfl
    rw [hitem]
    refine ⟨?_, _, rfl, rfl⟩
    show (c.tools.values.find? fun s => s.itemId = slot.itemId).map ToolSlot.item = _
    rw [find?_slot hslot hdistinct]
    rfl

theorem filterMap_range {α β : Type} {f : α → Option β} {g : Nat → Option β} {as : List α}
    (h : ∀ k a, as[k]? = some a → f a = g k) :
    as.filterMap f = (List.range as.length).filterMap g := by
  induction as using List.reverseRecOn with
  | nil => rfl
  | append_singleton as a ih =>
    have hlast : f a = g as.length := h as.length a List.getElem?_concat_length
    have hinit := ih fun k b hk => h k b (by
      rw [List.getElem?_append_left (List.getElem?_eq_some_iff.mp hk).1]
      exact hk)
    rw [List.filterMap_append, hinit, List.length_append, List.length_singleton, List.range_succ,
      List.filterMap_append]
    simp [List.filterMap_cons, hlast]

/-- The response lists the items by their output indices. -/
theorem output_eq_itemAt (hsound : Sound c) (htracks : Tracks c board)
    (hdistinct : DistinctSlots c.tools) (status : String) :
    (c.terminalResponse status).output = (List.range c.nextOutputIndex).filterMap c.itemAt := by
  show c.outputItems.filterMap c.outputItem = _
  rw [htracks.items, List.filterMap_map, htracks.next]
  exact filterMap_range fun k entry hk => (outputItem_entry hsound htracks hdistinct hk).1

theorem terminalResponse_output (hsound : Sound c) (htracks : Tracks c board)
    (hids : (board.map Entry.id).Nodup) (status : String) :
    (c.terminalResponse status).output.map Item.shown = board.map Entry.shown := by
  show (c.outputItems.filterMap c.outputItem).map Item.shown = _
  rw [htracks.items, List.filterMap_map]
  refine map_filterMap fun entry hentry => ?_
  obtain ⟨k, hk⟩ := List.mem_iff_getElem?.mp hentry
  obtain ⟨hread, item, hitem, hshown⟩ :=
    outputItem_entry hsound htracks (distinctSlots_of_nodup hsound htracks hids) hk
  exact ⟨item, hread.trans hitem, hshown⟩

end Sealing

section Frames

def events (frames : List Frame) : List Event := frames.map Frame.event

/-- The frames so far carry the numbers from one on. -/
def Counted (c : ResponsesConverter) (frames : List Frame) : Prop :=
  frames.map Frame.sequence = List.range' 1 frames.length ∧ c.sequence = frames.length

theorem events_numbered (f : Emitter ResponsesConverter Event) (c : ResponsesConverter) :
    events (numbered f c).2 = (f c).2 := by
  unfold numbered events
  refine List.ext_getElem? fun i => ?_
  simp only [List.getElem?_map, List.getElem?_mapIdx, Option.map_map]
  cases (f c).2[i]? <;> rfl

theorem leads_numbered {pre post : ResponsesConverter → List Event → Prop}
    {f : Emitter ResponsesConverter Event} (h : Leads pre post f)
    (hpost : ∀ c past n, post c past → post { c with sequence := n } past) :
    Leads (fun c frames => pre c (events frames) ∧ Counted c frames)
      (fun c frames => post c (events frames) ∧ Counted c frames) (numbered f) := by
  rintro c frames ⟨hpre, hcount, hsequence⟩
  refine ⟨?_, ?_, ?_⟩
  · unfold events at hpre ⊢
    rw [List.map_append]
    rw [show (numbered f c).2.map Frame.event = (f c).2 from events_numbered f c]
    exact hpost _ _ _ (h c _ hpre)
  · have hlength : (numbered f c).2.length = (f c).2.length := List.length_mapIdx
    rw [List.map_append, hcount, List.length_append, ← List.range'_append_1, hlength]
    refine congrArg (_ ++ ·) (List.ext_getElem? fun i => ?_)
    unfold numbered
    simp only [List.getElem?_map, List.getElem?_mapIdx, Option.map_map, hsequence]
    by_cases hi : i < (f c).2.length
    · rw [List.getElem?_eq_getElem hi, List.getElem?_range' hi]
      simp
      omega
    · rw [List.getElem?_eq_none (Nat.not_lt.mp hi), List.getElem?_eq_none (by simpa using hi)]
      rfl
  · show c.sequence + (f c).2.length = _
    rw [hsequence, List.length_append]
    exact congrArg (_ + ·) (List.length_mapIdx).symm

end Frames

section Finish
variable (error : Option String)

theorem error_closeItems (c : ResponsesConverter) : (closeItems c).1.error = c.error := by
  obtain ⟨reasoning, hreasoning, -⟩ := closeReasoningItem_step c
  obtain ⟨message, hmessage, -⟩ := closeMessageItem_step (closeReasoningItem c).1
  show (closeMessageItem (closeReasoningItem c).1).1.error = c.error
  rw [hmessage, hreasoning]

theorem finishEvents_none (c : ResponsesConverter) :
    finishEvents none c =
      let closed := closeItems { c with error := none }
      (closed.1, closed.2 ++ [closed.1.terminalEvent]) := by
  unfold finishEvents closeItems andThen
  simp only [List.append_assoc]

theorem nonstreamStatus_running {c : ResponsesConverter} (herror : c.error = none) :
    c.nonstreamStatus = if c.finishReason = some "length" then "incomplete" else "completed" := by
  unfold nonstreamStatus
  split
  · next message hsome =>
    rw [herror] at hsome
    cases hsome
  · next hreason => rw [if_pos hreason]
  · next hreason => rw [if_neg (hreason herror)]

theorem response?_terminalEvent {c : ResponsesConverter} (herror : c.error = none) :
    c.terminalEvent.response? = some c.nonstreamResponse := by
  unfold terminalEvent nonstreamResponse
  rw [nonstreamStatus_running herror]
  split_ifs <;> rfl

theorem finishEvents_terminal (c : ResponsesConverter) : ∃ body t,
    (finishEvents error c).2 = body ++ [t] ∧
      t.response? = some (finishEvents error c).1.nonstreamResponse := by
  cases error with
  | none =>
    rw [finishEvents_none]
    exact ⟨_, _, rfl, response?_terminalEvent (error_closeItems _)⟩
  | some message => exact ⟨[], _, rfl, rfl⟩

end Finish

section Run
variable (hex : Nat → String)

def Opened (past : List Event) : Prop :=
  ∃ response rest, past = .created response :: .inProgress response :: rest

/-- All items are closed and the last event carries the response object. -/
def Finished (c : ResponsesConverter) (past : List Event) : Prop :=
  ∃ body, past = body ++ [c.terminalEvent] ∧ c.error = none ∧ Sealed c body

theorem opened_append {past : List Event} (h : Opened past) (more : List Event) :
    Opened (past ++ more) := by
  obtain ⟨response, rest, rfl⟩ := h
  exact ⟨response, rest ++ more, rfl⟩

theorem finished_sequence {c : ResponsesConverter} {past : List Event} (n : Nat)
    (h : Finished c past) :
    Finished { c with sequence := n } past := by
  obtain ⟨body, hpast, herror, hsound, board, htracks, hrecords, hclosed⟩ := h
  exact ⟨body, hpast, herror, hsound.update, board, htracks.update, hrecords, hclosed⟩

theorem leads_firstChunk (chunk : Json) :
    Leads (fun c past => Inv c past ∧ c.started = false ∧ past = [])
      (fun c past => Inv c past ∧ Opened past) (feedChunkEvents hex chunk) := by
  rintro c past ⟨hinv, hstarted, rfl⟩
  refine ⟨keeps_feedChunkEvents hex chunk c [] hinv, ?_⟩
  have hfirst : ∃ response, (ensureStarted c).2 = [.created response, .inProgress response] := by
    unfold ensureStarted
    rw [if_neg (by rw [hstarted]; exact Bool.false_ne_true)]
    exact ⟨_, rfl⟩
  obtain ⟨response, hfirst⟩ := hfirst
  have hopened : Opened (ensureStarted c).2 := ⟨response, [], hfirst⟩
  exact opened_append hopened _

theorem keeps_opened (f : Emitter ResponsesConverter Event) : Keeps (fun _ => Opened) f :=
  fun _ _ h => opened_append h _

theorem leads_finishEvents : Leads Inv Finished (finishEvents none) := by
  intro c past h
  have hseal := leads_closeItems { c with error := none } past h.update
  rw [finishEvents_none, ← List.append_assoc]
  exact ⟨_, rfl, error_closeItems _, hseal⟩

structure WellFormed (frames : List Frame) : Prop where
  numbered : frames.map Frame.sequence = List.range' 1 frames.length
  opening : Opened (events frames)
  inOrder : (added (events frames)).map Prod.fst = List.range (added (events frames)).length
  announced : Legal Allowed (events frames)
  closed : ∀ k item, (k, item) ∈ added (events frames) →
    ∃ item', donesAt k (events frames) = [item'] ∧
    item'.kind = item.kind ∧ item'.id = item.id
  terminal : ∃ body t response, events frames = body ++ [t] ∧ (∀ e ∈ body, e.isTerminal = false) ∧
    t.response? = some response ∧ response.output.map Item.shown =
      (added (events frames)).map fun a => (a.2.kind, a.2.id, some (streamed a.1 (events frames)))

section Terminal
variable {board : Board} {body : List Event} {t : Event} {response : ResponseObject}

theorem about?_terminal (ht : t.response? = some response) : t.about? = none ∧ t.added? = none := by
  cases t <;> first | exact ⟨rfl, rfl⟩ | cases ht

theorem isAbout_terminal (ht : t.response? = some response) (k : Nat) : ¬ t.isAbout k = true := by
  unfold Event.isAbout
  rw [(about?_terminal ht).1]
  exact Bool.false_ne_true

theorem added_terminal (ht : t.response? = some response) : added (body ++ [t]) = added body := by
  rw [added_snoc, (about?_terminal ht).2, Option.toList_none, List.append_nil]

theorem streamed_terminal (ht : t.response? = some response) (k : Nat) :
    streamed k (body ++ [t]) = streamed k body := by
  rw [streamed_snoc, if_neg (isAbout_terminal ht k)]

theorem donesAt_terminal (ht : t.response? = some response) (k : Nat) :
    donesAt k (body ++ [t]) = donesAt k body := by
  rw [donesAt_snoc, if_neg (isAbout_terminal ht k), List.append_nil]

theorem added_shown (hrecords : Records board body) :
    (added body).map (fun a => (a.2.kind, a.2.id, some (streamed a.1 body))) =
      board.map Entry.shown := by
  have hshown : board.map Entry.shown = (board.mapIdx fun i entry => (i, entry.kind, entry.id)).map
      fun a => (a.2.1, a.2.2, some (streamed a.1 body)) := by
    refine List.ext_getElem? fun k => ?_
    simp only [List.getElem?_map, List.getElem?_mapIdx, Option.map_map]
    cases hk : board[k]? with
    | none => rfl
    | some entry =>
      show some entry.shown = some (entry.kind, entry.id, some (streamed k body))
      rw [hrecords.streamed k entry hk]
      rfl
  rw [hshown, ← hrecords.added, List.map_map]
  rfl

theorem added_ids (hrecords : Records board body) :
    (added body).map (fun a => a.2.id) = board.map Entry.id := by
  have h := congrArg (List.map fun a => a.2.1) (added_shown hrecords)
  rwa [List.map_map, List.map_map] at h

theorem added_indices (hrecords : Records board body) :
    (added body).map Prod.fst = List.range (added body).length := by
  have hlength := congrArg List.length hrecords.added
  rw [List.length_map, List.length_mapIdx] at hlength
  have hindices := congrArg (List.map Prod.fst) hrecords.added
  rw [List.map_map] at hindices
  exact hindices.trans (List.ext_getElem (by simp [hlength]) fun k _ _ => by simp)

end Terminal

theorem wellFormed_of_finished {c : ResponsesConverter} {frames : List Frame}
    (hfinished : Finished c (events frames)) (hopened : Opened (events frames))
    (hcounted : Counted c frames) (hids : ((added (events frames)).map fun a => a.2.id).Nodup) :
    WellFormed frames := by
  obtain ⟨body, hbody, herror, hsound, board, htracks, hrecords, hclosed⟩ := hfinished
  have ht := response?_terminalEvent herror
  constructor
  case numbered => exact hcounted.1
  case opening => exact hopened
  case inOrder =>
    rw [hbody, added_terminal ht]
    exact added_indices hrecords
  case announced =>
    rw [hbody]
    refine hrecords.legal.snoc fun about habout => ?_
    rw [(about?_terminal ht).1] at habout
    cases habout
  case closed =>
    intro k item hmem
    rw [hbody, added_terminal ht] at hmem
    rw [hbody, donesAt_terminal ht]
    obtain ⟨entry, hk, hkind, hid⟩ := hrecords.entry_of_added hmem
    have hdones := hrecords.dones k entry hk
    rw [hclosed entry (List.mem_of_getElem? hk), if_pos rfl] at hdones
    obtain ⟨item', hitem', heq⟩ := List.map_eq_singleton_iff.mp hdones
    obtain ⟨hkind', hid'⟩ := Prod.mk.injEq _ _ _ _ ▸ heq
    exact ⟨item', hitem', hkind'.trans hkind, hid'.trans hid⟩
  case terminal =>
    refine ⟨body, _, _, hbody, hrecords.running, ht, ?_⟩
    rw [hbody] at hids ⊢
    rw [added_terminal ht, added_ids hrecords] at hids
    simp only [streamed_terminal ht]
    rw [added_terminal ht, added_shown hrecords]
    exact terminalResponse_output hsound htracks hids c.nonstreamStatus

def feedAll (chunks : List Json) (error : Option String) : Emitter ResponsesConverter Frame :=
  (forEach (feedChunk hex) chunks).andThen (finish error)

def run (createdAt : UInt64) (model : String) (exposeThinking : Bool) (chunks : List Json)
    (error : Option String) : ResponsesConverter × List Frame :=
  feedAll hex chunks error (new hex createdAt model exposeThinking)

theorem leads_run (createdAt : UInt64) (model : String) (exposeThinking : Bool) {chunks : List Json}
    (hne : chunks ≠ []) :
    let result := run hex createdAt model exposeThinking chunks none
    (Finished result.1 (events result.2) ∧ Opened (events result.2)) ∧
      Counted result.1 result.2 := by
  obtain ⟨chunk, chunks, rfl⟩ := List.exists_cons_of_ne_nil hne
  have hfirst := leads_numbered (leads_firstChunk hex chunk)
    fun _ _ _ h => ⟨h.1.update, h.2⟩
  have hrest : Keeps _ (forEach (feedChunk hex) chunks) := keeps_forEach fun chunk _ =>
    leads_numbered ((keeps_feedChunkEvents hex chunk).and (keeps_opened _))
      fun _ _ _ h => ⟨h.1.update, h.2⟩
  have hlast := leads_numbered (leads_finishEvents.and (keeps_opened _))
    fun _ _ n h => ⟨finished_sequence n h.1, h.2⟩
  exact ((hfirst.andThen hrest).andThen hlast) (new hex createdAt model exposeThinking) []
    ⟨⟨inv_new hex createdAt model exposeThinking, rfl, rfl⟩, rfl, rfl⟩

/-- Every stream that ends without an error is well formed, and the terminal frame
carries the response object of `nonstream_response`. -/
theorem run_wellFormed (createdAt : UInt64) (model : String) (exposeThinking : Bool)
    (chunks : List Json) (hne : chunks ≠ [])
    (hids : ((added (events (run hex createdAt model exposeThinking chunks none).2)).map
      fun a => a.2.id).Nodup) :
    WellFormed (run hex createdAt model exposeThinking chunks none).2 ∧
      ∀ error, ∃ body t,
        events (run hex createdAt model exposeThinking chunks error).2 = body ++ [t] ∧
        t.response? =
          some (run hex createdAt model exposeThinking chunks error).1.nonstreamResponse := by
  obtain ⟨⟨hfinished, hopened⟩, hcounted⟩ := leads_run hex createdAt model exposeThinking hne
  refine ⟨wellFormed_of_finished hfinished hopened hcounted hids, fun error => ?_⟩
  obtain ⟨past, hpast⟩ : ∃ past, past = forEach (feedChunk hex) chunks
    (new hex createdAt model exposeThinking) := ⟨_, rfl⟩
  obtain ⟨body, t, hbody, ht⟩ := finishEvents_terminal error past.1
  refine ⟨events past.2 ++ body, t, ?_, ?_⟩
  · rw [List.append_assoc, ← hbody, ← events_numbered, hpast]
    exact List.map_append
  · rw [ht, hpast]
    rfl

theorem run_wellFormed_hello :
    let hex (n : Nat) : String := String.ofList (List.replicate n '0')
    let chunk : Json :=
      .obj [("choices", .arr [.obj [("delta", .obj [("content", .str "hello")])]])]
    WellFormed (run hex 0 "m" false [chunk] none).2 ∧ ∀ error, ∃ body t,
      events (run hex 0 "m" false [chunk] error).2 = body ++ [t] ∧
      t.response? = some (run hex 0 "m" false [chunk] error).1.nonstreamResponse :=
  run_wellFormed _ 0 "m" false _ (by decide) (by decide)

end Run

end ResponsesConverter
end Lobster.Responses
