import LobsterProxy.Chat.Pieces
import LobsterProxy.Responses.Pump

/-! The identity of a function call: what its `added` frame announces, and what the
fragments make of it by the end. -/

namespace Lobster.Responses
open Chat Emitter

def Event.addsCall : Event → Bool
  | outputItemAdded _ (.functionCall ..) => true
  | _ => false

namespace ResponsesConverter

/-- The pieces whose calls have slots are `known`; those whose ids and names have reached
the slots are `heard`. -/
structure Named (known heard : List Chat.Piece) (c : ResponsesConverter) (past : List Event) :
    Prop where
  client : c.serverToolNames = []
  fresh : ∀ index, c.tools.find? index = none → callsAt index known = []
  slotAt : ∀ index slot, c.tools.find? index = some slot → slot.done = false ∧
    ∃ first, (callsAt index known).head? = some first ∧
      slot.callId = (lastNonEmpty ((callsAt index heard).map ToolCallDelta.id)).getD
        (first.id.getD "") ∧
      slot.name = (lastNonEmpty ((callsAt index heard).map ToolCallDelta.name)).getD
        (first.name.getD "") ∧
      .outputItemAdded slot.outputIndex
        (.functionCall slot.itemId (first.id.getD "") (first.name.getD "") none) ∈ past
  addedAt : ∀ k id callId name arguments,
    .outputItemAdded k (.functionCall id callId name arguments) ∈ past →
      ∃ index slot first, c.tools.find? index = some slot ∧ slot.outputIndex = k ∧
      slot.itemId = id ∧
        (callsAt index known).head? = some first ∧ callId = first.id.getD "" ∧
        name = first.name.getD ""

section Steps
variable {hex : Nat → String} {known heard : List Chat.Piece} {c c' : ResponsesConverter}
  {past : List Event}

theorem Named.update {started : Bool} {sequence : Nat}
    {finishReason error modelSeen : Option String} {usage : Option Usage}
    (h : Named known heard c past) :
    Named known heard { c with started, sequence, finishReason, usage, error, modelSeen } past :=
  ⟨h.client, h.fresh, h.slotAt, h.addedAt⟩

/-- A step that leaves the tool slots alone and announces no call. -/
def Quiet (f : Emitter ResponsesConverter Event) : Prop :=
  ∀ c, (f c).1.serverToolNames = c.serverToolNames ∧ (f c).1.tools = c.tools ∧
    ∀ e ∈ (f c).2, e.addsCall = false

theorem Quiet.keeps {f : Emitter ResponsesConverter Event} (hf : Quiet f) :
    Keeps (Named known heard) f := by
  intro c past h
  obtain ⟨hnames, htools, hevents⟩ := hf c
  have hold {k : Nat} {id callId name : String} {arguments : Option String}
      (hmem : .outputItemAdded k (.functionCall id callId name arguments) ∈ past ++ (f c).2) :
      .outputItemAdded k (.functionCall id callId name arguments) ∈ past := by
    rcases List.mem_append.mp hmem with hpast | hnew
    · exact hpast
    · cases hevents _ hnew
  refine ⟨hnames.trans h.client, ?_, ?_, ?_⟩
  · rw [htools]
    exact h.fresh
  · rw [htools]
    intro index slot hslot
    obtain ⟨hdone, first, hfirst, hid, hname, hadded⟩ := h.slotAt index slot hslot
    exact ⟨hdone, first, hfirst, hid, hname, List.mem_append_left _ hadded⟩
  · rw [htools]
    intro k id callId name arguments hmem
    exact h.addedAt k id callId name arguments (hold hmem)

theorem quiet_ensureStarted : Quiet ensureStarted := by
  intro c
  cases hs : c.started <;> simp [ensureStarted, hs, Event.addsCall]

theorem addsCall_eq_false {e : Event} {kind : ItemKind} (h : e.kind? = some kind)
    (hkind : kind ≠ .functionCall) : e.addsCall = false := by
  cases e with
  | outputItemAdded _ item =>
    cases item with
    | functionCall id callId name arguments => exact absurd (Option.some.inj h).symm hkind
    | _ => rfl
  | _ => rfl

theorem quiet_feedReasoning (text : String) : Quiet (feedReasoning hex text) := by
  intro c
  obtain ⟨state, next, items, draws, -, -, hstep, -, hkind⟩ := feedReasoning_step hex c text
  rw [hstep]
  exact ⟨rfl, rfl, fun e he => addsCall_eq_false (hkind e he) nofun⟩

theorem quiet_feedText (text : String) : Quiet (feedText hex text) := by
  intro c
  obtain ⟨state, next, items, draws, -, -, hstep, -, hkind⟩ := feedText_step hex c text
  rw [hstep]
  exact ⟨rfl, rfl, fun e he => addsCall_eq_false (hkind e he) nofun⟩

theorem quiet_closeMessageItem : Quiet closeMessageItem := by
  intro c
  obtain ⟨message, hstep, -, hkind⟩ := closeMessageItem_step c
  rw [hstep]
  exact ⟨rfl, rfl, fun e he => addsCall_eq_false (hkind e he) nofun⟩

theorem quiet_closeReasoningItem : Quiet closeReasoningItem := by
  intro c
  obtain ⟨reasoning, hstep, -, hkind⟩ := closeReasoningItem_step c
  rw [hstep]
  exact ⟨rfl, rfl, fun e he => addsCall_eq_false (hkind e he) nofun⟩

theorem callsAt_other {index : Int} {call : ToolCallDelta} (hne : call.index ≠ index)
    (pieces : List Chat.Piece) : callsAt index (pieces ++ [.call call]) = callsAt index pieces := by
  rw [callsAt_snoc, Chat.Piece.callAt?, if_neg hne]
  exact List.append_nil _

theorem callsAt_call (call : ToolCallDelta) (pieces : List Chat.Piece) :
    callsAt call.index (pieces ++ [.call call]) = callsAt call.index pieces ++ [call] := by
  rw [callsAt_snoc, Chat.Piece.callAt?, if_pos rfl]
  rfl

theorem head?_callsAt {index : Int} {first : ToolCallDelta} {pieces : List Chat.Piece}
    (h : (callsAt index pieces).head? = some first) (piece : Chat.Piece) :
    (callsAt index (pieces ++ [piece])).head? = some first := by
  rw [callsAt_snoc, List.head?_append, h]
  rfl

theorem Named.again (h : Named known heard c past) {call : ToolCallDelta} {slot : ToolSlot}
    (hslot : c.tools.find? call.index = some slot) :
    Named (known ++ [.call call]) heard c past where
  client := h.client
  fresh := by
    intro index hnone
    have hne : call.index ≠ index := by
      rintro rfl
      cases hslot.symm.trans hnone
    rw [callsAt_other hne, h.fresh index hnone]
  slotAt := by
    intro index slot hslot
    obtain ⟨hdone, first, hfirst, hrest⟩ := h.slotAt index slot hslot
    exact ⟨hdone, first, head?_callsAt hfirst _, hrest⟩
  addedAt := by
    intro k id callId name arguments hmem
    obtain ⟨index, slot, first, hslot, hk, hid, hfirst, hrest⟩ :=
      h.addedAt k id callId name arguments hmem
    exact ⟨index, slot, first, hslot, hk, hid, head?_callsAt hfirst _, hrest⟩

theorem Named.first (h : Named known heard c past) {call : ToolCallDelta}
    (hnew : c.tools.find? call.index = none) (hheard : callsAt call.index heard = []) :
    Named (known ++ [.call call]) heard (addToolItem hex call c).1
      (past ++ (addToolItem hex call c).2) := by
  have hcalls : callsAt call.index (known ++ [.call call]) = [call] := by
    rw [callsAt_call, h.fresh call.index hnew, List.nil_append]
  rw [addToolItem_client hex h.client]
  refine ⟨h.client, ?_, ?_, ?_⟩
  · intro index hnone
    rw [SortedMap.find?_insert] at hnone
    split_ifs at hnone with hne
    rw [callsAt_other hne, h.fresh index hnone]
  · intro index slot hslot
    rw [SortedMap.find?_insert] at hslot
    split_ifs at hslot with hindex
    · cases hslot
      subst hindex
      rw [hcalls, hheard]
      exact ⟨rfl, call, rfl, rfl, rfl, List.mem_append_right _ List.mem_cons_self⟩
    · obtain ⟨hdone, first, hfirst, hid, hname, hadded⟩ := h.slotAt index slot hslot
      exact ⟨hdone, first, head?_callsAt hfirst _, hid, hname, List.mem_append_left _ hadded⟩
  · intro k id callId name arguments hmem
    rcases List.mem_append.mp hmem with hpast | hlast
    · obtain ⟨index, slot, first, hslot, hk, hid, hfirst, hrest⟩ :=
        h.addedAt k id callId name arguments hpast
      have hne : call.index ≠ index := by
        rintro rfl
        cases hnew.symm.trans hslot
      refine ⟨index, slot, first, ?_, hk, hid, head?_callsAt hfirst _, hrest⟩
      rw [SortedMap.find?_insert_ne _ _ hne, hslot]
    · cases List.mem_singleton.mp hlast
      refine ⟨call.index, _, call, SortedMap.find?_insert_self _ _ _, rfl, rfl, ?_, rfl, rfl⟩
      rw [hcalls]
      rfl

theorem leads_ensureToolItemAdded (seen passed : List Chat.Piece) (call : ToolCallDelta) :
    Leads (Named (seen ++ passed) seen) (Named (seen ++ (passed ++ [.call call])) seen)
      (ensureToolItemAdded hex call) := by
  intro c past h
  rw [← List.append_assoc]
  unfold ensureToolItemAdded
  by_cases hknown : c.tools.contains call.index = true
  · obtain ⟨slot, hslot⟩ := Option.isSome_iff_exists.mp hknown
    rw [if_pos hknown, List.append_nil]
    exact h.again hslot
  · have hnew : c.tools.find? call.index = none := Option.not_isSome_iff_eq_none.mp hknown
    have hheard : callsAt call.index seen = [] := by
      have hnone := h.fresh call.index hnew
      unfold callsAt at hnone ⊢
      rw [List.filterMap_append] at hnone
      exact (List.append_eq_nil_iff.mp hnone).1
    rw [if_neg hknown]
    split_ifs
    · have hclosed := quiet_closeMessageItem.keeps c past h
      have hnew' : (closeMessageItem c).1.tools.find? call.index = none := by
        rw [tools_closeMessageItem, hnew]
      unfold andThen
      rw [← List.append_assoc]
      exact hclosed.first hnew' hheard
    · exact h.first hnew hheard

theorem leads_feedToolCallArguments (heard : List Chat.Piece) (call : ToolCallDelta) :
    Leads (Named known heard) (Named known (heard ++ [.call call]))
      (feedToolCallArguments call) := by
  intro c past h
  have hother {index : Int} {slot : ToolSlot} (hslot : c.tools.find? index = some slot)
      (hne : call.index ≠ index) := by
    have hold := h.slotAt index slot hslot
    rw [← callsAt_other hne heard] at hold
    exact hold
  cases hfind : c.tools.find? call.index with
  | none =>
    have hstep : feedToolCallArguments call c = (c, []) := by
      unfold feedToolCallArguments
      rw [hfind]
    rw [hstep, List.append_nil]
    refine ⟨h.client, h.fresh, fun index slot hslot => ?_, h.addedAt⟩
    refine hother hslot ?_
    rintro rfl
    cases hfind.symm.trans hslot
  | some slot =>
    obtain ⟨tools, hstate, ⟨hnone, -⟩ | ⟨slot', server, hslot', rfl⟩, hsaid⟩ :=
      feedToolCallArguments_step c call
    · cases hfind.symm.trans hnone
    obtain rfl := Option.some.inj (hfind.symm.trans hslot')
    have hquiet : ∀ e ∈ (feedToolCallArguments call c).2, e.addsCall = false := by
      intro e he
      obtain ⟨itemId, outputIndex, delta, rfl⟩ := hsaid e he
      rfl
    rw [hstate]
    refine ⟨h.client, ?_, ?_, ?_⟩
    · intro index hnone
      rw [SortedMap.find?_insert] at hnone
      split_ifs at hnone with hne
      exact h.fresh index hnone
    · intro index s hs
      rw [SortedMap.find?_insert] at hs
      split_ifs at hs with hne
      · cases hs
        subst hne
        obtain ⟨hopen, first, hfirst, hid', hname', hadded⟩ := h.slotAt call.index slot hfind
        refine ⟨hopen, first, hfirst, ?_, ?_, List.mem_append_left _ hadded⟩
        · rw [hid', callsAt_call, List.map_append, List.map_singleton, lastNonEmpty_snoc]
        · rw [hname', callsAt_call, List.map_append, List.map_singleton, lastNonEmpty_snoc]
      · obtain ⟨hopen, first, hfirst, hid', hname', hadded⟩ := hother hs hne
        exact ⟨hopen, first, hfirst, hid', hname', List.mem_append_left _ hadded⟩
    · intro k id callId name arguments hmem
      rcases List.mem_append.mp hmem with hpast | hnew
      · obtain ⟨index, s, first, hs, hk, hsid, hfirst⟩ := h.addedAt k id callId name arguments hpast
        by_cases hne : call.index = index
        · subst hne
          cases hfind.symm.trans hs
          exact ⟨call.index, _, first, SortedMap.find?_insert_self _ _ _, hk, hsid, hfirst⟩
        · refine ⟨index, s, first, ?_, hk, hsid, hfirst⟩
          rw [SortedMap.find?_insert_ne _ _ hne, hs]
      · cases hquiet _ hnew

/-- The calls of a delta are passed twice: to make them known, then to hear them. -/
theorem leads_twoPasses
    {holds : List Chat.Piece → List Chat.Piece → ResponsesConverter → List Event → Prop}
    {add hear : ToolCallDelta → Emitter ResponsesConverter Event}
    (hadd : ∀ seen passed call, Leads (holds (seen ++ passed) seen)
      (holds (seen ++ (passed ++ [.call call])) seen) (add call))
    (hhear : ∀ known heard call,
      Leads (holds known heard) (holds known (heard ++ [.call call])) (hear call))
    (seen : List Chat.Piece) (calls : List ToolCallDelta) :
    Leads (holds seen seen)
      (holds (seen ++ (Delta.toolCalls calls).pieces) (seen ++ (Delta.toolCalls calls).pieces))
      ((forEach add calls).andThen (forEach hear calls)) := by
  have hpieces : calls.flatMap (fun call => [Chat.Piece.call call]) =
      (Delta.toolCalls calls).pieces :=
    List.map_eq_flatMap.symm
  have hadded := leads_forEach (hadd seen) calls []
  have hheard := leads_forEach (hhear (seen ++ (Delta.toolCalls calls).pieces)) calls seen
  rw [List.nil_append, List.append_nil, hpieces] at hadded
  rw [hpieces] at hheard
  exact hadded.andThen hheard

theorem leads_namedDelta (seen : List Chat.Piece) (delta : Delta) :
    Leads (Named seen seen) (Named (seen ++ delta.pieces) (seen ++ delta.pieces))
      (feedDelta hex delta) := by
  have htalk {piece : Chat.Piece} (hcall : ∀ index, piece.callAt? index = none)
      {c : ResponsesConverter}
      {past : List Event} (h : Named seen seen c past) :
      Named (seen ++ [piece]) (seen ++ [piece]) c past := by
    have hcalls (index : Int) : callsAt index (seen ++ [piece]) = callsAt index seen := by
      rw [callsAt_snoc, hcall]
      exact List.append_nil _
    constructor
    case client => exact h.client
    all_goals simp only [hcalls]
    · exact h.fresh
    · exact h.slotAt
    · exact h.addedAt
  cases delta with
  | finish reason =>
    rw [show seen ++ (Delta.finish reason).pieces = seen from List.append_nil seen]
    exact leads_silent fun _ _ h => h.update
  | reasoning text =>
    exact (quiet_feedReasoning text).keeps.imp (fun _ _ h => h) fun _ _ h => htalk (fun _ => rfl) h
  | content text =>
    exact (quiet_feedText text).keeps.imp (fun _ _ h => h) fun _ _ h => htalk (fun _ => rfl) h
  | toolCalls calls =>
    exact leads_twoPasses (@leads_ensureToolItemAdded hex) (@leads_feedToolCallArguments) seen calls

theorem leads_namedChunk (seen : List Chat.Piece) (chunk : Json) :
    Leads (Named seen seen) (Named (seen ++ chunkPieces chunk) (seen ++ chunkPieces chunk))
      (feedChunkEvents hex chunk) := by
  have hnote : Keeps (Named seen seen) (silent (noteChunk chunk)) :=
    leads_silent fun _ _ h => h.update
  have hdeltas := leads_forEach (@leads_namedDelta hex) (chunkDeltas chunk) seen
  exact quiet_ensureStarted.keeps.andThen (hnote.andThen hdeltas)

theorem named_chunks (hex : Nat → String) (createdAt : UInt64) (model : String) (expose : Bool)
    (chunks : List Json) :
    let fed := forEach (feedChunk hex) chunks (new hex createdAt model expose)
    Named (chunks.flatMap chunkPieces) (chunks.flatMap chunkPieces) fed.1 (events fed.2) := by
  have hchunk (seen : List Chat.Piece) (chunk : Json) :=
    leads_numbered (@leads_namedChunk hex seen chunk) fun _ _ _ h => h.update
  have hnew : Named [] [] (new hex createdAt model expose) [] := ⟨rfl, fun _ _ => rfl, nofun, nofun⟩
  exact (leads_forEach hchunk chunks [] _ [] ⟨hnew, rfl, rfl⟩).1

end Steps

section Closing
variable {c : ResponsesConverter} {past : List Event} {board : Board}

theorem mem_closeItems {index : Int} {slot : ToolSlot} (hslot : c.tools.find? index = some slot)
    (hopen : slot.done = false) (hclient : slot.server = false) :
    .outputItemDone slot.outputIndex slot.item ∈ (closeItems c).2 := by
  have htools : (closeMessageItem (closeReasoningItem c).1).1.tools = c.tools := by
    rw [tools_closeMessageItem, (quiet_closeReasoningItem c).2.1]
  have hmem : slot ∈ (closeMessageItem (closeReasoningItem c).1).1.openSlots := by
    unfold openSlots
    rw [htools, List.mem_filter]
    exact ⟨SortedMap.mem_values.mpr ⟨index, hslot⟩, by rw [hopen, hclient]; rfl⟩
  have hclosed : .outputItemDone slot.outputIndex slot.item ∈
      (closeTools (closeMessageItem (closeReasoningItem c).1).1).2 :=
    List.mem_flatMap.mpr ⟨slot, hmem, List.mem_cons_of_mem _ List.mem_cons_self⟩
  exact List.mem_append_right _ (List.mem_append_right _ hclosed)

theorem quiet_closeItems {e : Event} (h : e ∈ (closeItems c).2) : e.addsCall = false := by
  rcases List.mem_append.mp h with h | h
  · exact (quiet_closeReasoningItem c).2.2 e h
  rcases List.mem_append.mp h with h | h
  · exact (quiet_closeMessageItem _).2.2 e h
  · obtain ⟨slot, -, h⟩ := List.mem_flatMap.mp h
    rcases List.mem_cons.mp h with rfl | h
    · rfl
    · rw [List.mem_singleton.mp h]
      rfl

theorem tools_closeItems (c : ResponsesConverter) :
    (closeItems c).1.tools = c.tools.mapValues fun slot => { slot with done := true } := by
  have htools : (closeMessageItem (closeReasoningItem c).1).1.tools = c.tools := by
    rw [tools_closeMessageItem, (quiet_closeReasoningItem c).2.1]
  rw [← htools]
  rfl

theorem output_getElem? (hsound : Sound c) (htracks : Tracks c board)
    (hdistinct : DistinctSlots c.tools) (status : String) (k : Nat) :
    (c.terminalResponse status).output[k]? = (board[k]?).bind fun _ => c.itemAt k := by
  have hsome : (board.filterMap fun entry => c.outputItem entry.descriptor).map some =
      board.map fun entry => c.outputItem entry.descriptor := by
    refine map_filterMap fun entry hentry => ?_
    obtain ⟨j, hj⟩ := List.mem_iff_getElem?.mp hentry
    obtain ⟨hread, item, hitem, -⟩ := outputItem_entry hsound htracks hdistinct hj
    exact ⟨item, hread.trans hitem, (hread.trans hitem).symm⟩
  have houtput : (c.terminalResponse status).output =
      board.filterMap fun entry => c.outputItem entry.descriptor := by
    show c.outputItems.filterMap c.outputItem = _
    rw [htracks.items, List.filterMap_map]
    rfl
  have hget := congrArg (fun items : List (Option Item) => items[k]?) hsome
  simp only [List.getElem?_map] at hget
  rw [houtput]
  cases hk : board[k]? with
  | none =>
    rw [hk] at hget
    simpa using hget
  | some entry =>
    obtain ⟨hread, item, hitem, -⟩ := outputItem_entry hsound htracks hdistinct hk
    rw [hk, Option.map_some, hread, hitem] at hget
    rw [Option.bind_some, hitem]
    simpa using hget

theorem itemAt_slot (hsound : Sound c) (htracks : Tracks c board)
    (hdistinct : DistinctSlots c.tools) {index : Int} {slot : ToolSlot}
    (hslot : c.tools.find? index = some slot) :
    c.itemAt slot.outputIndex = some slot.item := by
  have hheld : board[slot.outputIndex]? = some slot.entry :=
    (htracks.holds _ _).mpr (.inr (.inr ⟨index, slot, hslot, rfl, rfl⟩))
  rw [← (outputItem_entry hsound htracks hdistinct hheld).1]
  show (c.tools.values.find? fun s => s.itemId = slot.itemId).map ToolSlot.item = _
  rw [find?_slot hslot hdistinct]
  rfl

/-- What the end of a stream says of the slot: in the one `done` frame at its index, and in
the response. -/
theorem closed_slot {hex : Nat → String} (hinv : Inv c past) (hdrawn : Drawn hex c past)
    {index : Int} {slot : ToolSlot} (hslot : c.tools.find? index = some slot)
    (hopen : slot.done = false) :
    let closed := closeItems { c with error := none }
    donesAt slot.outputIndex (past ++ (closed.2 ++ [closed.1.terminalEvent])) = [slot.item] ∧
      ∃ response, closed.1.terminalEvent.response? = some response ∧
        response.output[slot.outputIndex]? = some slot.item := by
  intro closed
  have hdrawn' : Drawn hex { c with error := none } past := hdrawn.of_tools rfl le_rfl
  have hdistinct := (draws_closeItems _ past hdrawn').distinctSlots
  obtain ⟨hsound, board, htracks, hrecords, hseal⟩ := leads_closeItems _ past hinv.update
  have hterminal : closed.1.terminalEvent.response? = some closed.1.nonstreamResponse :=
    response?_terminalEvent (error_closeItems _)
  have hslot' : closed.1.tools.find? index = some { slot with done := true } := by
    rw [tools_closeItems, SortedMap.find?_mapValues, hslot]
    rfl
  have hheld : board[slot.outputIndex]? = some ({ slot with done := true } : ToolSlot).entry :=
    (htracks.holds _ _).mpr (.inr (.inr ⟨index, _, hslot', rfl, rfl⟩))
  refine ⟨?_, _, hterminal, ?_⟩
  · have hdones := hrecords.dones _ _ hheld
    rw [if_pos (hseal _ (List.mem_of_getElem? hheld))] at hdones
    obtain ⟨item, hitem, -⟩ := List.map_eq_singleton_iff.mp hdones
    have hdone : .outputItemDone slot.outputIndex slot.item ∈ past ++ closed.2 :=
      List.mem_append_right _ (@mem_closeItems { c with error := none } _ _ hslot hopen
        (hinv.1.slots index slot hslot))
    have hmem : slot.item ∈ donesAt slot.outputIndex (past ++ closed.2) := by
      refine List.mem_filterMap.mpr ⟨_, List.mem_filter.mpr ⟨hdone, ?_⟩, rfl⟩
      simp [Event.isAbout, Event.about?]
    rw [← List.append_assoc, donesAt_terminal hterminal, hitem]
    rw [hitem] at hmem
    rw [List.mem_singleton.mp hmem]
  · show (closed.1.terminalResponse closed.1.nonstreamStatus).output[slot.outputIndex]? = _
    rw [output_getElem? hsound htracks hdistinct, hheld, Option.bind_some]
    have hitem := itemAt_slot hsound htracks hdistinct hslot'
    exact hitem

end Closing

/-- The first fragment has an id and a name, and no later one brings another. -/
def Introduced : List ToolCallDelta → Prop
  | [] => True
  | first :: later => first.id.getD "" ≠ "" ∧ first.name.getD "" ≠ "" ∧ Announced (first :: later)

instance (calls : List ToolCallDelta) : Decidable (Introduced calls) :=
  match calls with
  | [] => .isTrue trivial
  | _ :: _ => inferInstanceAs (Decidable (_ ∧ _ ∧ _))

/-- Each call is announced under an id and a name, which the `done` frame at its index and
the response give it too. -/
def CallsIdentified (events : List Event) : Prop :=
  ∀ k id callId name arguments,
    .outputItemAdded k (.functionCall id callId name arguments) ∈ events →
    callId ≠ "" ∧ name ≠ "" ∧
    ∃ full, donesAt k events = [.functionCall id callId name (some full)] ∧
      ∃ response, events.getLast?.bind Event.response? = some response ∧
        response.output[k]? = some (.functionCall id callId name (some full))

theorem lastNonEmpty_first (s : Option String) (strings : List (Option String)) :
    (lastNonEmpty (s :: strings)).getD (s.getD "") = (lastNonEmpty strings).getD (s.getD "") := by
  induction strings using List.reverseRecOn with
  | nil => exact (lastNonEmpty_snoc [] s (s.getD "")).trans (keepOr_getD s)
  | append_singleton strings last ih =>
    rw [← List.cons_append, lastNonEmpty_snoc, lastNonEmpty_snoc, ih]

/-- A slot ends under the identity that its first fragment announces exactly when no later
fragment brings another. -/
theorem Named.announced_iff {pieces : List Chat.Piece} {c : ResponsesConverter} {past : List Event}
    (h : Named pieces pieces c past) {index : Int} {slot : ToolSlot} {first : ToolCallDelta}
    (hslot : c.tools.find? index = some slot) (hfirst : (callsAt index pieces).head? = some first) :
    Announced (callsAt index pieces) ↔
      slot.callId = first.id.getD "" ∧ slot.name = first.name.getD "" := by
  obtain ⟨-, first', hfirst', hid, hname, -⟩ := h.slotAt index slot hslot
  obtain rfl : first = first' := Option.some.inj (hfirst.symm.trans hfirst')
  obtain ⟨later, hcalls⟩ := List.head?_eq_some_iff.mp hfirst
  rw [hid, hname, hcalls, List.map_cons, List.map_cons, lastNonEmpty_first, lastNonEmpty_first]
  rfl

theorem introduced_iff {calls : List ToolCallDelta} {first : ToolCallDelta}
    (h : calls.head? = some first) :
    Introduced calls ↔ first.id.getD "" ≠ "" ∧ first.name.getD "" ≠ "" ∧ Announced calls := by
  obtain ⟨later, rfl⟩ := List.head?_eq_some_iff.mp h
  rfl

theorem callsIdentified_iff {hex : Nat → String} {pieces : List Chat.Piece}
    {c : ResponsesConverter} {past : List Event} (hinv : Inv c past) (hdrawn : Drawn hex c past)
    (hnamed : Named pieces pieces c past) :
    let closed := closeItems { c with error := none }
    CallsIdentified (past ++ (closed.2 ++ [closed.1.terminalEvent])) ↔
      ∀ index, Introduced (callsAt index pieces) := by
  intro closed
  have hlast : (past ++ (closed.2 ++ [closed.1.terminalEvent])).getLast? =
      some closed.1.terminalEvent := by
    rw [← List.append_assoc, List.getLast?_concat]
  constructor
  · intro hidentified index
    cases hfind : c.tools.find? index with
    | none =>
      rw [hnamed.fresh index hfind]
      trivial
    | some slot =>
      obtain ⟨hopen, first, hfirst, -, -, hadded⟩ := hnamed.slotAt index slot hfind
      obtain ⟨hid, hname, full, hdones, -⟩ := hidentified _ _ _ _ _ (List.mem_append_left _ hadded)
      rw [(closed_slot hinv hdrawn hfind hopen).1] at hdones
      have hitem : slot.item = _ := List.singleton_inj.mp hdones
      simp only [ToolSlot.item, Item.functionCall.injEq] at hitem
      rw [introduced_iff hfirst, hnamed.announced_iff hfind hfirst]
      exact ⟨hid, hname, hitem.2.1, hitem.2.2.1⟩
  · intro hintroduced k id callId name arguments hadded
    have hpast : .outputItemAdded k (.functionCall id callId name arguments) ∈ past := by
      rcases List.mem_append.mp hadded with hpast | hend
      · exact hpast
      rcases List.mem_append.mp hend with hclosed | hterminal
      · cases quiet_closeItems hclosed
      · have hresponse : closed.1.terminalEvent.response? = some closed.1.nonstreamResponse :=
          response?_terminalEvent (error_closeItems _)
        rw [← List.mem_singleton.mp hterminal] at hresponse
        cases hresponse
    obtain ⟨index, slot, first, hslot, rfl, rfl, hfirst, rfl, rfl⟩ :=
      hnamed.addedAt k id callId name arguments hpast
    obtain ⟨hdones, response, hresponse, houtput⟩ :=
      closed_slot hinv hdrawn hslot (hnamed.slotAt index slot hslot).1
    obtain ⟨hid, hname, hannounced⟩ := (introduced_iff hfirst).mp (hintroduced index)
    obtain ⟨hid', hname'⟩ := (hnamed.announced_iff hslot hfirst).mp hannounced
    have hitem : slot.item = .functionCall slot.itemId (first.id.getD "") (first.name.getD "")
        (some slot.arguments) := by rw [ToolSlot.item, hid', hname']
    rw [hitem] at hdones houtput
    refine ⟨hid, hname, slot.arguments, hdones, response, ?_, houtput⟩
    rw [hlast]
    exact hresponse

theorem events_run (hex : Nat → String) (createdAt : UInt64) (model : String) (expose : Bool)
    (chunks : List Json) : events (run hex createdAt model expose chunks none).2 =
      let fed := forEach (feedChunk hex) chunks (new hex createdAt model expose)
      let closed := closeItems { fed.1 with error := none }
      events fed.2 ++ (closed.2 ++ [closed.1.terminalEvent]) := by
  have hfinish (c : ResponsesConverter) : events (finish none c).2 =
      let closed := closeItems { c with error := none }
      closed.2 ++ [closed.1.terminalEvent] := by
    unfold finish
    rw [events_numbered, finishEvents_none]
  have hsplit := hfinish (forEach (feedChunk hex) chunks (new hex createdAt model expose)).1
  exact List.map_append.trans (congrArg _ hsplit)

/-- The calls of a stream are identified exactly when each is introduced by its first fragment. -/
theorem run_callsIdentified_iff {hex : Nat → String} (hinj : Function.Injective hex)
    (createdAt : UInt64) (model : String) (expose : Bool) (chunks : List Json) :
    CallsIdentified (events (run hex createdAt model expose chunks none).2) ↔
      ∀ index, Introduced (fragmentsAt index chunks) := by
  have hnamed := named_chunks hex createdAt model expose chunks
  obtain ⟨hinv, hdrawn, -⟩ := ResponsesPump.feeding_chunks hinj createdAt model expose chunks
  rw [events_run]
  refine (callsIdentified_iff hinv hdrawn hnamed).trans (forall_congr' fun index => ?_)
  rw [callsAt_chunks, fragmentsAt]

theorem run_callsIdentified_iff_late :
    let hex (n : Nat) : String := String.ofList (List.replicate n '0')
    CallsIdentified (events (run hex 0 "m" false lateIdentity none).2) ↔
      ∀ index, Introduced (fragmentsAt index lateIdentity) :=
  run_callsIdentified_iff zeros_injective 0 "m" false lateIdentity

/-- The call whose id and name come late is announced under no id at all. -/
theorem run_not_callsIdentified :
    let hex (n : Nat) : String := String.ofList (List.replicate n '0')
    ¬ CallsIdentified (events (run hex 0 "m" false lateIdentity none).2) := by
  intro hex h
  have hadded : .outputItemAdded 0 (.functionCall "fc_0" "" "" none) ∈
      events (run hex 0 "m" false lateIdentity none).2 := by decide +kernel
  exact (h 0 "fc_0" "" "" none hadded).1 rfl

end ResponsesConverter
end Lobster.Responses
