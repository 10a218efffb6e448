import LobsterProxy.Anthropic.Account
import LobsterProxy.Base.Snoc

/-! The outline of an answer: which blocks the pieces open, in order, and the
converter that follows it. A tool block announces what its first fragment says. -/

namespace Lobster.Anthropic
open Chat Emitter Trace Snoc

/-- The head of a block, with the first fragment of a tool call. -/
inductive Head where
  | thinking
  | text
  | toolUse (first : ToolCallDelta)
  deriving DecidableEq, Repr

namespace Head

def block : Head → ContentBlock
  | thinking => .thinking
  | text => .text
  | toolUse first => .toolUse (first.id.getD "") (first.name.getD "")

def callIndex? : Head → Option Int
  | toolUse first => some first.index
  | _ => none

end Head

structure Outline where
  heads : List Head
  thinking : Bool

namespace Outline

def next (expose : Bool) (o : Outline) : Piece → Outline
  | .reasoning _ =>
    if expose then ⟨o.heads ++ if o.thinking then [] else [.thinking], true⟩ else o
  | .content _ => ⟨o.heads ++ if .text ∈ o.heads then [] else [.text], false⟩
  | .call call =>
    ⟨o.heads ++ if some call.index ∈ o.heads.map Head.callIndex? then
      [] else [.toolUse call], false⟩

end Outline

def outlineOf (expose : Bool) (pieces : List Piece) : Outline :=
  pieces.foldl (Outline.next expose) ⟨[], false⟩

theorem outlineOf_snoc (expose : Bool) (pieces : List Piece) (piece : Piece) :
    outlineOf expose (pieces ++ [piece]) = (outlineOf expose pieces).next expose piece := by
  unfold outlineOf
  rw [List.foldl_append]
  rfl

namespace Event

def startBlock? : Event → Option ContentBlock
  | contentBlockStart _ block => some block
  | _ => none

end Event

def startBlocks (past : List Event) : List ContentBlock := past.filterMap Event.startBlock?

theorem startBlocks_append (past more : List Event) :
    startBlocks (past ++ more) = startBlocks past ++ startBlocks more := List.filterMap_append

@[simp] theorem startBlocks_singleton (e : Event) : startBlocks [e] = e.startBlock?.toList := by
  cases e <;> rfl

theorem length_startBlocks (past : List Event) :
    (startBlocks past).length = (startIndices past).length := by
  unfold startBlocks startIndices
  induction past with
  | nil => rfl
  | cons e past ih =>
    rw [List.filterMap_cons, List.filterMap_cons]
    cases e <;> simp [Event.startBlock?, Event.startIndex?, ih]

theorem mem_contentBlockStart {past : List Event} (h : Legal Allowed past) (i : Nat)
    (block : ContentBlock) :
    .contentBlockStart i block ∈ past ↔ (startBlocks past)[i]? = some block := by
  induction past using List.reverseRecOn with
  | nil => simp [startBlocks]
  | append_singleton past e ih =>
    obtain ⟨hpast, he⟩ := legal_snoc_iff.mp h
    rw [List.mem_append, ih hpast, startBlocks_append, List.mem_singleton]
    cases e with
    | contentBlockStart index block' =>
      obtain ⟨-, -, hindex⟩ := he
      rw [← length_startBlocks] at hindex
      rw [startBlocks_singleton, List.getElem?_append]
      split_ifs with hi
      · simp [hindex, Nat.ne_of_lt hi]
      · have hnone : (startBlocks past)[i]? = none := List.getElem?_eq_none (Nat.not_lt.mp hi)
        rw [hnone, Event.startBlock?, Option.toList_some, List.getElem?_singleton, hindex]
        constructor
        · rintro (hfalse | heq)
          · cases hfalse
          · cases heq
            simp
        · intro hsome
          split_ifs at hsome with hzero
          · have hi' : i = (startBlocks past).length := by omega
            rw [hi', Option.some.inj hsome]
            exact .inr rfl
    | _ => simp [Event.startBlock?]

/-- The slots against the heads of the tool blocks and the fragments received. -/
structure Indexed (heads : List Head) (pieces : List Piece) (tools : SortedMap Int ToolSlot) :
    Prop where
  slotAt : ∀ index slot, tools.find? index = some slot → ∃ first later,
    callsAt index pieces = first :: later ∧ heads[slot.blockIdx]? = some (.toolUse first) ∧
      slot.id = (lastNonEmpty (later.map ToolCallDelta.id)).getD (first.id.getD "") ∧
      slot.name = (lastNonEmpty (later.map ToolCallDelta.name)).getD (first.name.getD "")
  headAt : ∀ i first, heads[i]? = some (.toolUse first) →
    ∃ slot, tools.find? first.index = some slot ∧ slot.blockIdx = i
  fresh : ∀ index, tools.find? index = none → callsAt index pieces = []

section Indexed
variable {heads extra : List Head} {pieces : List Piece} {tools : SortedMap Int ToolSlot}
    {piece : Piece}

theorem Indexed.mem_iff (h : Indexed heads pieces tools) (index : Int) :
    some index ∈ heads.map Head.callIndex? ↔ tools.find? index ≠ none := by
  constructor
  · intro hmem
    obtain ⟨head, hhead, hindex⟩ := List.mem_map.mp hmem
    cases head with
    | toolUse first =>
      obtain ⟨i, hi⟩ := List.mem_iff_getElem?.mp hhead
      obtain ⟨slot, hslot, -⟩ := h.headAt i first hi
      rw [← Option.some.inj hindex, hslot]
      exact Option.some_ne_none slot
    | _ => cases hindex
  · intro hne
    obtain ⟨slot, hslot⟩ := Option.ne_none_iff_exists'.mp hne
    obtain ⟨first, later, hcalls, hhead, -⟩ := h.slotAt index slot hslot
    have hindex : first.index = index := index_of_mem_callsAt (hcalls ▸ List.mem_cons_self)
    refine List.mem_map.mpr ⟨.toolUse first, List.mem_of_getElem? hhead, ?_⟩
    rw [Head.callIndex?, hindex]

theorem Indexed.talk (h : Indexed heads pieces tools)
    (hpiece : ∀ index, piece.callAt? index = none) (hextra : ∀ first, .toolUse first ∉ extra) :
    Indexed (heads ++ extra) (pieces ++ [piece]) tools where
  slotAt := by
    intro index slot hslot
    obtain ⟨first, later, hcalls, hhead, hidentity⟩ := h.slotAt index slot hslot
    refine ⟨first, later, ?_, ?_, hidentity⟩
    · rw [callsAt_snoc, hpiece, hcalls]
      simp
    · obtain ⟨hlt, -⟩ := List.getElem?_eq_some_iff.mp hhead
      rw [List.getElem?_append_left hlt, hhead]
  headAt := by
    intro i first hi
    rw [List.getElem?_append] at hi
    split_ifs at hi with hlt
    · exact h.headAt i first hi
    · exact absurd (List.mem_of_getElem? hi) (hextra first)
  fresh := by
    intro index hnone
    rw [callsAt_snoc, hpiece, h.fresh index hnone]
    rfl

theorem Indexed.talkOn (h : Indexed heads pieces tools)
    (hpiece : ∀ index, piece.callAt? index = none) :
    Indexed heads (pieces ++ [piece]) tools := by
  have htalk := @talk heads [] pieces tools piece h hpiece fun _ => List.not_mem_nil
  rwa [List.append_nil] at htalk

theorem callAt?_self (call : ToolCallDelta) : (Piece.call call).callAt? call.index = some call :=
  if_pos rfl

theorem callAt?_ne {call : ToolCallDelta} {index : Int} (h : call.index ≠ index) :
    (Piece.call call).callAt? index = none := if_neg h

theorem Indexed.callsAt_insert (h : Indexed heads pieces tools) {call : ToolCallDelta}
    {slot : ToolSlot} {index : Int} (hnone : (tools.insert call.index slot).find? index = none) :
    callsAt index (pieces ++ [.call call]) = [] := by
  rw [SortedMap.find?_insert] at hnone
  split_ifs at hnone with hindex
  rw [callsAt_snoc, callAt?_ne hindex, h.fresh index hnone]
  rfl

theorem Indexed.again (h : Indexed heads pieces tools) {call : ToolCallDelta} {slot : ToolSlot}
    (hslot : tools.find? call.index = some slot) :
    Indexed heads (pieces ++ [.call call])
      (tools.insert call.index { slot.update call with started := true }) where
  slotAt := by
    intro index other hother
    rw [SortedMap.find?_insert] at hother
    split_ifs at hother with hindex
    · cases hother
      obtain ⟨first, later, hcalls, hhead, hid, hname⟩ := h.slotAt call.index slot hslot
      refine ⟨first, later ++ [call], ?_, hhead, ?_, ?_⟩
      · rw [← hindex, callsAt_snoc, callAt?_self, hcalls]
        rfl
      · rw [List.map_append, List.map_singleton, lastNonEmpty_snoc, ← hid]
        rfl
      · rw [List.map_append, List.map_singleton, lastNonEmpty_snoc, ← hname]
        rfl
    · obtain ⟨first, later, hcalls, hhead, hidentity⟩ := h.slotAt index other hother
      refine ⟨first, later, ?_, hhead, hidentity⟩
      rw [callsAt_snoc, callAt?_ne hindex, hcalls]
      simp
  headAt := by
    intro i first hi
    obtain ⟨other, hother, hblock⟩ := h.headAt i first hi
    rw [SortedMap.find?_insert]
    split_ifs with hindex
    · rw [← hindex, hslot] at hother
      cases hother
      exact ⟨_, rfl, hblock⟩
    · exact ⟨other, hother, hblock⟩
  fresh _ hnone := h.callsAt_insert hnone

theorem Indexed.first (h : Indexed heads pieces tools) {call : ToolCallDelta}
    (hnew : tools.find? call.index = none) :
    Indexed (heads ++ [.toolUse call]) (pieces ++ [.call call]) (tools.insert call.index
      { (ToolSlot.fresh call heads.length).update call with started := true }) where
  slotAt := by
    intro index other hother
    rw [SortedMap.find?_insert] at hother
    split_ifs at hother with hindex
    · cases hother
      refine ⟨call, [], ?_, ?_, ?_, ?_⟩
      · rw [← hindex, callsAt_snoc, callAt?_self, h.fresh call.index hnew]
        rfl
      · exact getElem?_snoc.mpr (.inr ⟨rfl, rfl⟩)
      · exact keepOr_getD call.id
      · exact keepOr_getD call.name
    · obtain ⟨first, later, hcalls, hhead, hidentity⟩ := h.slotAt index other hother
      refine ⟨first, later, ?_, getElem?_snoc.mpr (.inl hhead), hidentity⟩
      rw [callsAt_snoc, callAt?_ne hindex, hcalls]
      simp
  headAt := by
    intro i first hi
    rcases getElem?_snoc.mp hi with hold | ⟨hlen, hfirst⟩
    · obtain ⟨other, hother, hblock⟩ := h.headAt i first hold
      refine ⟨other, ?_, hblock⟩
      rw [SortedMap.find?_insert_ne, hother]
      rintro hindex
      rw [← hindex, hnew] at hother
      cases hother
    · cases hfirst
      exact ⟨_, SortedMap.find?_insert_self _ _ _, hlen.symm⟩
  fresh _ hnone := h.callsAt_insert hnone

end Indexed

namespace StreamConverter

/-- The blocks streamed are those of the outline, and the converter knows their places. -/
structure Traces (o : Outline) (pieces : List Piece) (c : StreamConverter) (past : List Event) :
    Prop where
  starts : startBlocks past = o.heads.map Head.block
  thinking : c.thinkingOpen = o.thinking
  textAt : ∀ i, o.heads[i]? = some .text ↔ c.textOpen = true ∧ i = c.textIdx
  indexed : Indexed o.heads pieces c.tools

section Traces
variable {o : Outline} {c c' : StreamConverter} {past events : List Event} {pieces : List Piece}
  {piece : Piece}

theorem Traces.length (h : Traces o pieces c past) (hledger : Ledger c past) :
    o.heads.length = c.nextBlockIdx := by
  rw [← hledger.count, ← length_startBlocks, h.starts, List.length_map]

theorem Traces.mem_text (h : Traces o pieces c past) : .text ∈ o.heads ↔ c.textOpen = true := by
  rw [List.mem_iff_getElem?]
  constructor
  · rintro ⟨i, hi⟩
    exact ((h.textAt i).mp hi).1
  · intro hopen
    exact ⟨c.textIdx, (h.textAt c.textIdx).mpr ⟨hopen, rfl⟩⟩

theorem startBlocks_stopThinking : startBlocks c.stopThinking = [] :=
  List.filterMap_eq_nil_iff.mpr fun e he => by
    rw [mem_stopThinking he]
    rfl

theorem startBlocks_argumentDeltas (blockIdx : Nat) (call : ToolCallDelta) :
    startBlocks (argumentDeltas blockIdx call) = [] :=
  List.filterMap_eq_nil_iff.mpr fun e he => by
    obtain ⟨s, rfl⟩ := mem_argumentDeltas he
    rfl

theorem Traces.textAt_snoc (h : Traces o pieces c past) {head : Head} (hne : head ≠ .text)
    (i : Nat) :
    (o.heads ++ [head])[i]? = some .text ↔ c.textOpen = true ∧ i = c.textIdx := by
  rw [getElem?_snoc, h.textAt]
  simp [hne]

theorem Traces.feed (h : Traces o pieces c past) (hledger : Ledger c past)
    (hfed : Fed c piece c' events) :
    Traces (o.next c.exposeThinking piece) (pieces ++ [piece]) c' (past ++ events) := by
  have hlength := h.length hledger
  cases hfed with
  | hidden text hexpose =>
    have hnext : o.next c.exposeThinking (.reasoning text) = o := by simp [Outline.next, hexpose]
    rw [hnext, List.append_nil]
    exact ⟨h.starts, h.thinking, h.textAt, h.indexed.talkOn fun _ => rfl⟩
  | thinkOn text hexpose hopen =>
    have hthinking : o.thinking = true := h.thinking.symm.trans hopen
    have hnext : o.next c.exposeThinking (.reasoning text) = ⟨o.heads, true⟩ := by
      simp [Outline.next, hexpose, hthinking]
    rw [hnext]
    refine ⟨?_, hopen, h.textAt, h.indexed.talkOn fun _ => rfl⟩
    rw [startBlocks_append, h.starts]
    exact List.append_nil _
  | think text hexpose hopen =>
    have hthinking : o.thinking = false := h.thinking.symm.trans hopen
    have hnext : o.next c.exposeThinking (.reasoning text) = ⟨o.heads ++ [.thinking], true⟩ := by
      simp [Outline.next, hexpose, hthinking]
    rw [hnext]
    refine ⟨?_, rfl, h.textAt_snoc nofun, h.indexed.talk (fun _ => rfl) (by simp)⟩
    rw [startBlocks_append, h.starts, List.map_append]
    rfl
  | textOn text hopen =>
    have hnext : o.next c.exposeThinking (.content text) = ⟨o.heads, false⟩ := by
      simp [Outline.next, h.mem_text.mpr hopen]
    rw [hnext]
    refine ⟨?_, rfl, h.textAt, h.indexed.talkOn fun _ => rfl⟩
    rw [startBlocks_append, startBlocks_append, startBlocks_stopThinking, h.starts]
    exact List.append_nil _
  | text text hopen =>
    have hnone : .text ∉ o.heads := by
      rw [h.mem_text, hopen]
      exact Bool.false_ne_true
    have hnext : o.next c.exposeThinking (.content text) = ⟨o.heads ++ [.text], false⟩ := by
      simp [Outline.next, hnone]
    rw [hnext]
    refine ⟨?_, rfl, fun i => ?_, h.indexed.talk (fun _ => rfl) (by simp)⟩
    · rw [startBlocks_append, startBlocks_append, startBlocks_stopThinking, h.starts,
        List.map_append]
      rfl
    · rw [getElem?_snoc, hlength]
      constructor
      · rintro (hold | ⟨hi, -⟩)
        · exact absurd (List.mem_of_getElem? hold) hnone
        · exact ⟨rfl, hi⟩
      · rintro ⟨-, hi⟩
        exact .inr ⟨hi, rfl⟩
  | callOn call slot hslot =>
    have hknown : some call.index ∈ o.heads.map Head.callIndex? := by
      rw [h.indexed.mem_iff, hslot]
      exact Option.some_ne_none slot
    have hnext : o.next c.exposeThinking (.call call) = ⟨o.heads, false⟩ := by
      rw [Outline.next, if_pos hknown, List.append_nil]
    rw [hnext]
    refine ⟨?_, rfl, h.textAt, h.indexed.again hslot⟩
    rw [startBlocks_append, startBlocks_append, startBlocks_stopThinking,
      startBlocks_argumentDeltas, h.starts]
    exact List.append_nil _
  | call call hnew =>
    have hunknown : some call.index ∉ o.heads.map Head.callIndex? := by
      rw [h.indexed.mem_iff, hnew]
      simp
    have hnext : o.next c.exposeThinking (.call call) = ⟨o.heads ++ [.toolUse call], false⟩ := by
      rw [Outline.next, if_neg hunknown]
    rw [hnext]
    have hindexed := h.indexed.first hnew
    rw [hlength] at hindexed
    refine ⟨?_, rfl, h.textAt_snoc nofun, hindexed⟩
    rw [List.append_cons c.stopThinking, startBlocks_append, startBlocks_append, startBlocks_append,
      startBlocks_stopThinking, startBlocks_argumentDeltas, h.starts, List.map_append,
      List.append_nil]
    rfl

end Traces

def Outlined (expose : Bool) (pieces : List Piece) (c : StreamConverter) (past : List Event) :
    Prop :=
  c.exposeThinking = expose ∧ Traces (outlineOf expose pieces) pieces c past

theorem exposeThinking_of_fed {c c' : StreamConverter} {piece : Piece} {events : List Event}
    (hfed : Fed c piece c' events) : c'.exposeThinking = c.exposeThinking := by
  cases hfed <;> rfl

theorem steady_outlined (expose : Bool) : Steady (Outlined expose) where
  note := fun _ _ _ _ _ _ _ h => ⟨h.1, h.2.starts, h.2.thinking, h.2.textAt, h.2.indexed⟩
  start := by
    rintro pieces c past id model ⟨hexposed, h⟩
    refine ⟨hexposed, ?_, h.thinking, h.textAt, h.indexed⟩
    rw [startBlocks_append, h.starts]
    exact List.append_nil _
  feed := by
    rintro pieces c past piece c' events hledger hfed ⟨hexposed, h⟩
    refine ⟨(exposeThinking_of_fed hfed).trans hexposed, ?_⟩
    rw [outlineOf_snoc, ← hexposed]
    rw [← hexposed] at h
    exact h.feed hledger hfed

theorem outlined_new (hex : String) (expose : Bool) : Outlined expose [] (new hex expose) [] := by
  refine ⟨rfl, rfl, rfl, fun i => ?_, nofun, nofun, fun _ _ => rfl⟩
  constructor
  · intro hi
    cases hi
  · rintro ⟨hopen, -⟩
    cases hopen

/-- The identity that each tool block announces is the one accumulated for its call. -/
def Identified (c : StreamConverter) (events : List Event) : Prop :=
  ∀ i id name, .contentBlockStart i (.toolUse id name) ∈ events →
    ∃ index slot, c.tools.find? index = some slot ∧ slot.blockIdx = i ∧
      slot.accum.id = id ∧ slot.accum.name = name

theorem identified_iff {o : Outline} {c : StreamConverter} {past : List Event} {pieces : List Piece}
    (h : Traces o pieces c past) (hlegal : Legal Allowed past) :
    Identified c past ↔ ∀ index, Announced (callsAt index pieces) := by
  constructor
  · intro hidentified index
    cases hfind : c.tools.find? index with
    | none =>
      rw [h.indexed.fresh index hfind]
      trivial
    | some slot =>
      obtain ⟨first, later, hcalls, hhead, hid, hname⟩ := h.indexed.slotAt index slot hfind
      have hindex : first.index = index := index_of_mem_callsAt (hcalls ▸ List.mem_cons_self)
      -- the block of the call announces the first fragment
      have hstart : .contentBlockStart slot.blockIdx
          (.toolUse (first.id.getD "") (first.name.getD "")) ∈ past := by
        rw [mem_contentBlockStart hlegal, h.starts, List.getElem?_map, hhead]
        rfl
      obtain ⟨index', slot', hslot', hblock, hid', hname'⟩ := hidentified _ _ _ hstart
      obtain ⟨first', later', hcalls', hhead', -⟩ := h.indexed.slotAt index' slot' hslot'
      rw [hblock, hhead] at hhead'
      cases hhead'
      have hindex' : first.index = index' := index_of_mem_callsAt (hcalls' ▸ List.mem_cons_self)
      rw [← hindex', hindex, hfind] at hslot'
      cases hslot'
      rw [hcalls]
      exact ⟨hid.symm.trans hid', hname.symm.trans hname'⟩
  · intro hannounced i id name hstart
    rw [mem_contentBlockStart hlegal, h.starts, List.getElem?_map] at hstart
    obtain ⟨head, hhead, hblock⟩ := Option.map_eq_some_iff.mp hstart
    cases head with
    | toolUse first =>
      obtain ⟨slot, hslot, hi⟩ := h.indexed.headAt i first hhead
      obtain ⟨first', later, hcalls, hhead', hid, hname⟩ := h.indexed.slotAt first.index slot hslot
      rw [hi, hhead] at hhead'
      cases hhead'
      have hidentity := hannounced first.index
      rw [hcalls] at hidentity
      cases hblock
      exact ⟨first.index, slot, hslot, hi, hid.trans hidentity.1, hname.trans hidentity.2⟩
    | _ => cases hblock

theorem Unfinished.legal {c : StreamConverter} {past : List Event} (h : Unfinished c past) :
    Legal Allowed past := by
  rcases h with ⟨⟨rfl, -⟩, -⟩ | ⟨hledger, -⟩
  · exact legal_nil
  · exact hledger.legal

/-- The announced identities hold exactly when no later fragment of a call brings another id
or another name. -/
theorem feedChunks_identified_iff (hex : String) (expose : Bool) (chunks : List Json) :
    Identified (forEach feedChunk chunks (new hex expose)).1
        (forEach feedChunk chunks (new hex expose)).2 ↔
      ∀ index, Announced (fragmentsAt index chunks) := by
  obtain ⟨hunfinished, -, htraces⟩ :=
    (steady_outlined expose).feedChunks (outlined_new hex expose) chunks
  rw [identified_iff htraces hunfinished.legal]
  refine forall_congr' fun index => ?_
  rw [callsAt_chunks, fragmentsAt]

theorem feedChunks_not_identified :
    ¬ Identified (forEach feedChunk lateIdentity (new "0" true)).1
      (forEach feedChunk lateIdentity (new "0" true)).2 := by
  intro h
  have hstart : .contentBlockStart 0 (.toolUse "" "") ∈
      (forEach feedChunk lateIdentity (new "0" true)).2 := by decide +kernel
  obtain ⟨index, slot, hslot, -, hid, -⟩ := h 0 "" "" hstart
  have hids : ∀ call ∈ (forEach feedChunk lateIdentity (new "0" true)).1.accumulated.toolCalls,
      call.id = "call_1" := by decide +kernel
  have hmem := List.mem_map_of_mem (f := ToolSlot.accum) (SortedMap.mem_values.mpr ⟨index, hslot⟩)
  rw [hids slot.accum hmem] at hid
  exact absurd hid (by decide)

end StreamConverter
end Lobster.Anthropic
