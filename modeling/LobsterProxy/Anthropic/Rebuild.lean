import LobsterProxy.Anthropic.BlockOrder
import Mathlib.Data.List.Sort

/-! The content array a client rebuilds from the event stream, against the one of
the non-stream response. -/

namespace Lobster.Anthropic
open Chat Emitter Trace Snoc

/-- A content block with all that its deltas have brought. -/
inductive Content where
  | thinking (text : String)
  | text (text : String)
  | toolUse (id name : String) (input : Option Json)
  deriving DecidableEq

namespace Content

def kind : Content → BlockKind
  | thinking _ => .thinking
  | text _ => .text
  | toolUse .. => .toolUse

/-- The entry of a message's `content` array. -/
def ofJson (block : Json) : Option Content :=
  match block.getStr? "type" with
  | some "thinking" => some (.thinking (block.getStrD "thinking"))
  | some "text" => some (.text (block.getStrD "text"))
  | some "tool_use" =>
    some (.toolUse (block.getStrD "id") (block.getStrD "name") (block.get? "input"))
  | _ => none

end Content

/-- The block with its deltas; the input of a tool is parsed from them. -/
def ContentBlock.filled (serde : Serde) : ContentBlock → String → Content
  | thinking, payload => .thinking payload
  | text, payload => .text payload
  | toolUse id name, payload => .toolUse id name (serde.fromStr payload)

def BlockDelta.payload : BlockDelta → String
  | thinking s => s
  | text s => s
  | inputJson s => s

namespace Event

def start? : Event → Option (Nat × ContentBlock)
  | contentBlockStart index block => some (index, block)
  | _ => none

def payloadAt? (i : Nat) : Event → Option String
  | contentBlockDelta index delta => if index = i then some delta.payload else none
  | _ => none

end Event

/-- One block per `content_block_start`, by index, with its deltas end to end. -/
def rebuilt (serde : Serde) (events : List Event) : List Content :=
  ((events.filterMap Event.start?).insertionSort fun a b => a.1 ≤ b.1).map fun start =>
    start.2.filled serde (written (Event.payloadAt? start.1) events)

def messageContent (message : Json) : List (Option Content) :=
  (((message.get? "content").bind Json.asArray).getD []).map Content.ofJson

section Blocks
variable {serde : Serde} {past : List Event} {i : Nat}

theorem openBlocks_startBlocks (h : Legal Allowed past) {kind : BlockKind}
    (hopen : openBlocks past i = some kind) :
    ∃ block, (startBlocks past)[i]? = some block ∧ block.kind = kind := by
  induction past using List.reverseRecOn generalizing kind with
  | nil => cases hopen
  | append_singleton past e ih =>
    obtain ⟨hpast, he⟩ := legal_snoc_iff.mp h
    rw [startBlocks_append, startBlocks_singleton]
    have hold : ∀ more, openBlocks past i = some kind →
        ∃ block, (startBlocks past ++ more)[i]? = some block ∧ block.kind = kind := by
      intro more hopen
      obtain ⟨block, hblock, hkind⟩ := ih hpast hopen
      obtain ⟨hlt, -⟩ := List.getElem?_eq_some_iff.mp hblock
      exact ⟨block, (List.getElem?_append_left hlt).trans hblock, hkind⟩
    rw [openBlocks_snoc] at hopen
    cases e with
    | contentBlockStart index block =>
      obtain ⟨-, -, hindex⟩ := he
      dsimp only [openStep] at hopen
      split_ifs at hopen with hi
      · refine ⟨block, getElem?_snoc.mpr (.inr ⟨?_, rfl⟩), Option.some.inj hopen⟩
        rw [hi, hindex, length_startBlocks]
      · exact hold _ hopen
    | contentBlockStop index =>
      dsimp only [openStep] at hopen
      split_ifs at hopen
      exact hold _ hopen
    | _ => exact hold _ hopen

theorem startBlocks_of_delta (h : Legal Allowed past) {delta : BlockDelta}
    (hmem : .contentBlockDelta i delta ∈ past) :
    ∃ block, (startBlocks past)[i]? = some block ∧ block.kind = delta.kind := by
  obtain ⟨before, after, rfl⟩ := List.append_of_mem hmem
  obtain ⟨-, -, hopen⟩ := h before _ after rfl
  obtain ⟨block, hblock, hkind⟩ := openBlocks_startBlocks h.of_append hopen
  obtain ⟨hlt, -⟩ := List.getElem?_eq_some_iff.mp hblock
  rw [startBlocks_append]
  exact ⟨block, (List.getElem?_append_left hlt).trans hblock, hkind⟩

theorem starts_eq (h : Legal Allowed past) :
    past.filterMap Event.start? = (startBlocks past).mapIdx Prod.mk := by
  induction past using List.reverseRecOn with
  | nil => rfl
  | append_singleton past e ih =>
    obtain ⟨hpast, he⟩ := legal_snoc_iff.mp h
    rw [List.filterMap_append, ih hpast, startBlocks_append, startBlocks_singleton]
    cases e with
    | contentBlockStart index block =>
      obtain ⟨-, -, hindex⟩ := he
      rw [← length_startBlocks] at hindex
      simp [Event.start?, Event.startBlock?, List.mapIdx_append, hindex]
    | _ => simp [Event.start?, Event.startBlock?]

theorem rebuilt_eq (serde : Serde) (h : Legal Allowed past) : rebuilt serde past =
    (startBlocks past).mapIdx fun i block =>
      block.filled serde (written (Event.payloadAt? i) past) := by
  unfold rebuilt
  rw [starts_eq h]
  have hsorted : ((startBlocks past).mapIdx Prod.mk).Pairwise fun a b => a.1 ≤ b.1 := by
    rw [List.pairwise_iff_getElem]
    intro i j _ _ hij
    simpa using Nat.le_of_lt hij
  rw [hsorted.insertionSort_eq, eq_comm, List.mapIdx_eq_iff]
  intro i
  rw [List.getElem?_map, List.getElem?_mapIdx, Option.map_map]
  rfl

end Blocks

def callContent (serde : Serde) (pieces : List Piece) (index : Int) : Content :=
  let first := (callsAt index pieces).head?
  .toolUse ((first.bind ToolCallDelta.id).getD "") ((first.bind ToolCallDelta.name).getD "")
    (serde.fromStr (argumentsAt index pieces))

def headContent (serde : Serde) (pieces : List Piece) : Head → Content
  | .thinking => .thinking (reasonings pieces)
  | .text => .text (contents pieces)
  | .toolUse first => callContent serde pieces first.index

namespace StreamConverter

section Blocks
variable {serde : Serde} {expose : Bool} {pieces : List Piece} {c : StreamConverter}
    {past : List Event}

/-- What the converter's invariants say together. -/
structure Whole (expose : Bool) (pieces : List Piece) (c : StreamConverter) (past : List Event) :
    Prop where
  legal : Legal Allowed past
  traces : Traces (outlineOf expose pieces) pieces c past
  spoken : Spoken expose pieces c past
  routed : Routed pieces c past

theorem whole_feedChunks (hex : String) (expose : Bool) (chunks : List Json) :
    Whole expose (chunks.flatMap chunkPieces) (forEach feedChunk chunks (new hex expose)).1
      (forEach feedChunk chunks (new hex expose)).2 := by
  obtain ⟨hunfinished, -, htraces⟩ :=
    (steady_outlined expose).feedChunks (outlined_new hex expose) chunks
  obtain ⟨-, hspoken⟩ := steady_spoken.feedChunks (spoken_new hex expose) chunks
  obtain ⟨-, hrouted⟩ := steady_routed.feedChunks (routed_new hex expose) chunks
  exact ⟨hunfinished.legal, htraces, hspoken, hrouted⟩

theorem Whole.kind_eq (h : Whole expose pieces c past) {i : Nat} {delta : BlockDelta}
    (hmem : .contentBlockDelta i delta ∈ past) :
    ∃ head, (outlineOf expose pieces).heads[i]? = some head ∧ head.kind = delta.kind := by
  obtain ⟨block, hblock, hkind⟩ := startBlocks_of_delta h.legal hmem
  rw [h.traces.starts, List.getElem?_map] at hblock
  obtain ⟨head, hhead, rfl⟩ := Option.map_eq_some_iff.mp hblock
  exact ⟨head, hhead, hkind⟩

theorem Whole.ne_of_kind_ne (h : Whole expose pieces c past) {i j : Nat} {head : Head}
    {delta : BlockDelta} (hhead : (outlineOf expose pieces).heads[i]? = some head)
    (hmem : .contentBlockDelta j delta ∈ past) (hkind : delta.kind ≠ head.kind) : j ≠ i := by
  rintro rfl
  obtain ⟨head', hhead', hkind'⟩ := h.kind_eq hmem
  rw [hhead] at hhead'
  rw [Option.some.inj hhead'] at hkind
  exact hkind hkind'.symm

theorem Whole.filled_thinking (serde : Serde) (h : Whole expose pieces c past) {i : Nat}
    (hhead : (outlineOf expose pieces).heads[i]? = some .thinking)
    (hone : ∀ j, (outlineOf expose pieces).heads[j]? = some .thinking → j = i) :
    Head.thinking.block.filled serde (written (Event.payloadAt? i) past) =
      headContent serde pieces .thinking := by
  have hexpose : expose = true := by
    have hmem := (mem_outlineOf_thinking expose pieces).mp (List.mem_of_getElem? hhead)
    exact (Bool.and_eq_true_iff.mp hmem).1
  have hwritten : written (Event.payloadAt? i) past = written Event.thinking? past := by
    refine written_congr fun e he => ?_
    cases e with
    | contentBlockDelta j delta =>
      cases delta with
      | thinking s =>
        obtain ⟨head, hj, hkind⟩ := h.kind_eq he
        have hthinking : head = .thinking := by cases head <;> first | rfl | cases hkind
        exact if_pos (hone j (hthinking ▸ hj))
      | text s => exact if_neg (h.ne_of_kind_ne hhead he nofun)
      | inputJson s => exact if_neg (h.ne_of_kind_ne hhead he nofun)
    | _ => rfl
  rw [hwritten, h.spoken.thinking, if_pos hexpose, h.spoken.reasonings]
  rfl

theorem Whole.filled_text (serde : Serde) (h : Whole expose pieces c past) {i : Nat}
    (hhead : (outlineOf expose pieces).heads[i]? = some .text) :
    Head.text.block.filled serde (written (Event.payloadAt? i) past) =
      headContent serde pieces .text := by
  obtain ⟨-, hi⟩ := (h.traces.textAt i).mp hhead
  have hwritten : written (Event.payloadAt? i) past = written Event.text? past := by
    refine written_congr fun e he => ?_
    cases e with
    | contentBlockDelta j delta =>
      cases delta with
      | text s =>
        obtain ⟨head, hj, hkind⟩ := h.kind_eq he
        have htext : head = .text := by cases head <;> first | rfl | cases hkind
        obtain ⟨-, hj'⟩ := (h.traces.textAt j).mp (htext ▸ hj)
        exact if_pos (hj'.trans hi.symm)
      | thinking s => exact if_neg (h.ne_of_kind_ne hhead he nofun)
      | inputJson s => exact if_neg (h.ne_of_kind_ne hhead he nofun)
    | _ => rfl
  rw [hwritten, h.spoken.text, h.spoken.contents]
  rfl

theorem Whole.filled_toolUse (serde : Serde) (h : Whole expose pieces c past) {i : Nat}
    {first : ToolCallDelta} (hhead : (outlineOf expose pieces).heads[i]? = some (.toolUse first)) :
    (Head.toolUse first).block.filled serde (written (Event.payloadAt? i) past) =
      headContent serde pieces (.toolUse first) := by
  obtain ⟨slot, hslot, hblock⟩ := h.traces.indexed.headAt i first hhead
  obtain ⟨first', later, hcalls, hhead', -⟩ := h.traces.indexed.slotAt first.index slot hslot
  rw [hblock, hhead] at hhead'
  cases hhead'
  have hwritten : written (Event.payloadAt? i) past = written (Event.inputJsonAt? i) past := by
    refine written_congr fun e he => ?_
    cases e with
    | contentBlockDelta j delta =>
      cases delta with
      | inputJson s => rfl
      | thinking s => exact if_neg (h.ne_of_kind_ne hhead he nofun)
      | text s => exact if_neg (h.ne_of_kind_ne hhead he nofun)
    | _ => rfl
  rw [hwritten, ← hblock, h.routed.sent first.index slot hslot,
    h.routed.received first.index slot hslot]
  simp [headContent, callContent, hcalls, Head.block, ContentBlock.filled]

theorem Whole.kinds (serde : Serde) (h : Whole expose pieces c past) :
    (rebuilt serde past).map Content.kind = (outlineOf expose pieces).heads.map Head.kind := by
  rw [rebuilt_eq serde h.legal, h.traces.starts]
  refine List.ext_getElem? fun i => ?_
  rw [List.getElem?_map, List.getElem?_mapIdx, List.getElem?_map, List.getElem?_map]
  cases (outlineOf expose pieces).heads[i]? with
  | none => rfl
  | some head => cases head <;> rfl

theorem Whole.rebuilt_map (serde : Serde) (h : Whole expose pieces c past)
    (hone : ∀ i j : Nat, (outlineOf expose pieces).heads[i]? = some Head.thinking →
      (outlineOf expose pieces).heads[j]? = some Head.thinking → j = i) :
    rebuilt serde past = (outlineOf expose pieces).heads.map (headContent serde pieces) := by
  rw [rebuilt_eq serde h.legal, h.traces.starts, List.mapIdx_eq_iff]
  intro i
  rw [List.getElem?_map, List.getElem?_map, Option.map_map]
  cases hhead : (outlineOf expose pieces).heads[i]? with
  | none => rfl
  | some head =>
    rw [Option.map_some, Option.map_some, Option.some.injEq]
    symm
    cases head with
    | thinking => exact h.filled_thinking serde hhead fun j hj => hone i j hhead hj
    | text => exact h.filled_text serde hhead
    | toolUse first => exact h.filled_toolUse serde hhead

/-- Tool calls that are announced as they end up, with objects for arguments. -/
structure Proper (serde : Serde) (pieces : List Piece) : Prop where
  nonEmpty : ∀ piece ∈ pieces, piece.reasoning? ≠ some "" ∧ piece.content? ≠ some ""
  announced : ∀ index, Announced (callsAt index pieces)
  object : ∀ index, callsAt index pieces ≠ [] →
    ∃ fields, serde.fromStr (argumentsAt index pieces) = some (.obj fields)

theorem any_isReasoning_iff (h : ∀ piece ∈ pieces, piece.reasoning? ≠ some "") :
    pieces.any Piece.isReasoning = true ↔ reasonings pieces ≠ "" := by
  unfold reasonings
  rw [Ne, written_eq_empty_iff, List.any_eq_true]
  push Not
  refine exists_congr fun piece => and_congr_right fun hpiece => ?_
  have hne := h piece hpiece
  cases piece <;> simp_all [Piece.isReasoning, Piece.reasoning?]

theorem any_isContent_iff (h : ∀ piece ∈ pieces, piece.content? ≠ some "") :
    pieces.any Piece.isContent = true ↔ contents pieces ≠ "" := by
  unfold contents
  rw [Ne, written_eq_empty_iff, List.any_eq_true]
  push Not
  refine exists_congr fun piece => and_congr_right fun hpiece => ?_
  have hne := h piece hpiece
  cases piece <;> simp_all [Piece.isContent, Piece.content?]

theorem Whole.ofJson_toolUse (h : Whole expose pieces c past) (hproper : Proper serde pieces)
    {index : Int} {slot : ToolSlot} (hslot : c.tools.find? index = some slot) :
    Content.ofJson (toolUseContent serde slot) = some (callContent serde pieces index) := by
  obtain ⟨first, later, hcalls, -, hid, hname⟩ := h.traces.indexed.slotAt index slot hslot
  have hannounced := hproper.announced index
  rw [hcalls] at hannounced
  obtain ⟨fields, hobject⟩ := hproper.object index (by rw [hcalls]; exact List.cons_ne_nil _ _)
  have harguments := h.routed.received index slot hslot
  have hid' : slot.id = first.id.getD "" := hid.trans hannounced.1
  have hname' : slot.name = first.name.getD "" := hname.trans hannounced.2
  unfold toolUseContent callContent
  rw [harguments, hobject, hcalls, hid', hname']
  simp [Content.ofJson, Json.getStr?, Json.getStrD, Fields.get?_cons, Json.isObject, Option.filter]

theorem Whole.keys_eq (h : Whole expose pieces c past) :
    c.tools.keys = (callOrder pieces).insertionSort (· ≤ ·) := by
  have hsorted : c.tools.keys.Pairwise (· ≤ ·) := by
    unfold SortedMap.keys
    rw [List.pairwise_map]
    exact c.tools.sorted.imp le_of_lt
  refine List.Perm.eq_of_pairwise' hsorted (List.pairwise_insertionSort _ _) ?_
  refine List.Perm.trans ?_ (List.perm_insertionSort _ _).symm
  refine (List.perm_ext_iff_of_nodup (SortedMap.keys_nodup _) (nodup_eraseDups _)).mpr
    fun index => ?_
  rw [SortedMap.mem_keys, h.routed.called, List.mem_eraseDups, List.mem_filterMap, ne_eq,
    callsAt, List.filterMap_eq_nil_iff]
  push Not
  refine exists_congr fun piece => and_congr_right fun _ => ?_
  cases piece with
  | call call => simp [Piece.callAt?, Piece.index?]
  | _ => simp [Piece.callAt?, Piece.index?]

theorem Whole.nonstream_eq (h : Whole expose pieces c past) (hproper : Proper serde pieces) :
    messageContent (c.nonstreamResponse serde) =
      ((plan expose pieces).map (headContent serde pieces) ++
      ((callOrder pieces).insertionSort (· ≤ ·)).map (callContent serde pieces)).map some := by
  have hreasoning := any_isReasoning_iff fun piece hpiece => (hproper.nonEmpty piece hpiece).1
  have hcontent := any_isContent_iff fun piece hpiece => (hproper.nonEmpty piece hpiece).2
  have hcalls : (c.tools.values.map (toolUseContent serde)).map Content.ofJson =
      (c.tools.keys.map (callContent serde pieces)).map some := by
    unfold SortedMap.values SortedMap.keys
    simp only [List.map_map]
    refine List.map_congr_left fun entry hentry => ?_
    exact h.ofJson_toolUse hproper (SortedMap.mem_entries.mp hentry)
  have hmessage : messageContent (c.nonstreamResponse serde) =
      (c.nonstreamContent serde).map Content.ofJson := rfl
  rw [hmessage, ← h.keys_eq]
  unfold nonstreamContent plan
  rw [List.map_append, List.map_append, List.map_append, hcalls, h.spoken.exposed,
    h.spoken.reasonings, h.spoken.contents, List.map_append, List.map_append]
  congr 2
  · cases expose with
    | false => simp
    | true =>
      by_cases hnone : reasonings pieces = ""
      · have hany : pieces.any Piece.isReasoning = false := by
          rw [Bool.eq_false_iff]
          exact fun hany => hreasoning.mp hany hnone
        simp [hnone, hany]
      · simp [hnone, hreasoning.mpr hnone, Content.ofJson, Json.getStr?, Json.getStrD,
          Fields.get?_cons, headContent]
  · by_cases hnone : contents pieces = ""
    · have hany : pieces.any Piece.isContent = false := by
        rw [Bool.eq_false_iff]
        exact fun hany => hcontent.mp hany hnone
      simp [hnone, hany]
    · simp [hnone, hcontent.mpr hnone, Content.ofJson, Json.getStr?, Json.getStrD, Fields.get?_cons,
        headContent]

theorem Whole.rebuilt_inOrder (serde : Serde) (h : Whole expose pieces c past)
    (hkinds : KindsInOrder expose pieces) : rebuilt serde past =
      (plan expose pieces).map (headContent serde pieces) ++
        (callOrder pieces).map (callContent serde pieces) := by
  have hheads := heads_of_kindsInOrder hkinds
  have htools : ((outlineOf expose pieces).heads.filter Head.isToolUse).map
      (headContent serde pieces) =
      (callOrder pieces).map (callContent serde pieces) := by
    rw [← outlineOf_calls expose pieces]
    generalize (outlineOf expose pieces).heads = heads
    induction heads with
    | nil => rfl
    | cons head heads ih =>
      cases head with
      | toolUse first => exact congrArg (callContent serde pieces first.index :: ·) ih
      | _ => exact ih
  have hone : ∀ i j : Nat, (outlineOf expose pieces).heads[i]? = some Head.thinking →
      (outlineOf expose pieces).heads[j]? = some Head.thinking → j = i := by
    -- thinking can only be the first block
    have hzero : ∀ i : Nat, (outlineOf expose pieces).heads[i]? = some Head.thinking → i = 0 := by
      have hrest : Head.thinking ∉ (if pieces.any Piece.isContent then [Head.text] else []) ++
          (outlineOf expose pieces).heads.filter Head.isToolUse := by
        split_ifs <;> simp [Head.isToolUse]
      intro i hi
      rw [hheads, plan, List.append_assoc] at hi
      cases hthinking : expose && pieces.any Piece.isReasoning with
      | false =>
        rw [hthinking] at hi
        exact absurd (List.mem_of_getElem? hi) hrest
      | true =>
        rw [hthinking, if_pos rfl, List.singleton_append] at hi
        cases i with
        | zero => rfl
        | succ i =>
          rw [List.getElem?_cons_succ] at hi
          exact absurd (List.mem_of_getElem? hi) hrest
    intro i j hi hj
    rw [hzero i hi, hzero j hj]
  rw [h.rebuilt_map serde hone, ← htools, ← List.map_append, ← hheads]

theorem kinds_plan (serde : Serde) (expose : Bool) (pieces : List Piece) (indices : List Int) :
    (((plan expose pieces).map (headContent serde pieces) ++
      indices.map (callContent serde pieces)).map Content.kind).Pairwise
        fun a b => a.before b = true := by
  have htools : (indices.map (callContent serde pieces)).map Content.kind =
      List.replicate indices.length .toolUse := by
    rw [List.map_map, ← List.map_const]
    rfl
  have hplan : ((plan expose pieces).map (headContent serde pieces)).map Content.kind =
      (if expose && pieces.any Piece.isReasoning then [.thinking] else []) ++
        if pieces.any Piece.isContent then [.text] else [] := by
    unfold plan
    split_ifs <;> rfl
  rw [List.map_append, htools, hplan, List.pairwise_append]
  refine ⟨?_, List.pairwise_replicate.mpr (.inr rfl), ?_⟩
  · split_ifs <;> simp [BlockKind.before]
  · intro a ha b hb
    rw [List.eq_of_mem_replicate hb]
    have hcases : a = .thinking ∨ a = .text := by
      split_ifs at ha <;> simp_all
    rcases hcases with rfl | rfl <;> rfl

/-- The two views agree exactly when the kinds come in order and the calls read the same
by first arrival as by index. -/
theorem Whole.sameContent_iff (h : Whole expose pieces c past) (hproper : Proper serde pieces) :
    messageContent (c.nonstreamResponse serde) = (rebuilt serde past).map some ↔
      KindsInOrder expose pieces ∧ (callOrder pieces).map (callContent serde pieces) =
        ((callOrder pieces).insertionSort (· ≤ ·)).map (callContent serde pieces) := by
  rw [h.nonstream_eq hproper]
  have hkinds : ((plan expose pieces).map (headContent serde pieces) ++
      ((callOrder pieces).insertionSort (· ≤ ·)).map (callContent serde pieces)).map some =
        (rebuilt serde past).map some → KindsInOrder expose pieces := by
    intro heq
    have hlists := List.map_injective_iff.mpr (Option.some_injective _) heq
    apply kindsInOrder_of_heads
    rw [← h.kinds serde, ← hlists]
    exact kinds_plan serde expose pieces _
  constructor
  · intro heq
    refine ⟨hkinds heq, ?_⟩
    rw [h.rebuilt_inOrder serde (hkinds heq)] at heq
    have hlists := List.map_injective_iff.mpr (Option.some_injective _) heq
    exact (List.append_cancel_left hlists).symm
  · rintro ⟨horder, hcalls⟩
    rw [h.rebuilt_inOrder serde horder, hcalls]

end Blocks

section Finish
variable (serde : Serde) (message : List (Option Content)) (content : List Content)

/-- Both views of the content, which closing the stream leaves as they are. -/
def Views (c : StreamConverter) (past : List Event) : Prop :=
  messageContent (c.nonstreamResponse serde) = message ∧ rebuilt serde past = content

theorem rebuilt_append {past more : List Event} (hstart : ∀ e ∈ more, Event.start? e = none)
    (hpayload : ∀ e ∈ more, ∀ i, Event.payloadAt? i e = none) :
    rebuilt serde (past ++ more) = rebuilt serde past := by
  unfold rebuilt
  rw [List.filterMap_append, List.filterMap_eq_nil_iff.mpr hstart, List.append_nil]
  refine List.map_congr_left fun start _ => ?_
  rw [written_append, written_eq_empty fun e he => hpayload e he start.1, String.append_empty]

theorem keeps_closeThinking : Keeps (Views serde message content) closeThinking := by
  rintro c past ⟨hmessage, hcontent⟩
  unfold closeThinking
  split_ifs
  · exact ⟨hmessage,
      (rebuilt_append serde (by simp [Event.start?]) (by simp [Event.payloadAt?])).trans hcontent⟩
  · rw [List.append_nil]
    exact ⟨hmessage, hcontent⟩

theorem keeps_closeText : Keeps (Views serde message content) closeText := by
  rintro c past ⟨hmessage, hcontent⟩
  unfold closeText
  split_ifs
  · exact ⟨hmessage,
      (rebuilt_append serde (by simp [Event.start?]) (by simp [Event.payloadAt?])).trans hcontent⟩
  · rw [List.append_nil]
    exact ⟨hmessage, hcontent⟩

theorem keeps_closeTools : Keeps (Views serde message content) closeTools := by
  rintro c past ⟨hmessage, hcontent⟩
  have hstops : ∀ e ∈ (closeTools c).2, ∃ i, e = .contentBlockStop i := by
    intro e he
    obtain ⟨slot, -, rfl⟩ := List.mem_map.mp he
    exact ⟨slot.blockIdx, rfl⟩
  have hstart : ∀ e ∈ (closeTools c).2, Event.start? e = none := by
    intro e he
    obtain ⟨i, rfl⟩ := hstops e he
    rfl
  have hpayload : ∀ e ∈ (closeTools c).2, ∀ i, Event.payloadAt? i e = none := by
    intro e he i
    obtain ⟨j, rfl⟩ := hstops e he
    rfl
  refine ⟨?_, (rebuilt_append serde hstart hpayload).trans hcontent⟩
  unfold closeTools
  rw [← hmessage]
  have htools : ((c.tools.mapValues fun slot => { slot with started := false }).values.map
      (toolUseContent serde)) = c.tools.values.map (toolUseContent serde) := by
    rw [SortedMap.values_mapValues, List.map_map]
    rfl
  unfold nonstreamResponse nonstreamContent
  dsimp only
  rw [htools]

theorem keeps_finish : Keeps (Views serde message content) finish := by
  intro c past h
  unfold finish finishWithStop
  split_ifs
  · rw [List.append_nil]
    exact h
  · have hset : Keeps (Views serde message content)
        (silent fun c => { c with finished := true } : Emitter StreamConverter Event) :=
      leads_silent fun c past h => h
    have htail (reason : String) : Keeps (Views serde message content) fun c =>
        (c, [.messageDelta reason (c.usage.elim 0 Usage.output), .messageStop]) :=
      fun c past h => ⟨h.1, (rebuilt_append serde (by simp [Event.start?])
        (by simp [Event.payloadAt?])).trans h.2⟩
    exact (hset.andThen ((keeps_closeThinking serde message content).andThen
      ((keeps_closeText serde message content).andThen
        ((keeps_closeTools serde message content).andThen (htail _))))) c past h

end Finish

/-- Each tool call announces its identity, and its arguments are an object. -/
structure WellSent (serde : Serde) (chunks : List Json) : Prop where
  announced : ∀ index, Announced (fragmentsAt index chunks)
  object : ∀ index, fragmentsAt index chunks ≠ [] → ∃ fields,
    serde.fromStr (written ToolCallDelta.arguments (fragmentsAt index chunks)) = some (.obj fields)

/-- The calls read the same in the order of their first fragments as by index. -/
def CallsInOrder (serde : Serde) (pieces : List Piece) : Prop :=
  (callOrder pieces).map (callContent serde pieces) =
    ((callOrder pieces).insertionSort (· ≤ ·)).map (callContent serde pieces)

theorem WellSent.proper {serde : Serde} {chunks : List Json} (h : WellSent serde chunks) :
    Proper serde (chunks.flatMap chunkPieces) where
  nonEmpty := by
    intro piece hpiece
    obtain ⟨chunk, -, hchunk⟩ := List.mem_flatMap.mp hpiece
    exact ne_empty_of_mem_chunkPieces hchunk
  announced := by
    intro index
    rw [callsAt_chunks]
    exact h.announced index
  object := by
    intro index hcalls
    rw [callsAt_chunks] at hcalls
    rw [argumentsAt_eq, callsAt_chunks]
    exact h.object index hcalls

/-- A client that rebuilds the content from the whole stream has what the non-stream response
holds, exactly when reasoning (if exposed), text and tool calls come in this order, and the
calls in the order of their indices. -/
theorem run_rebuilt_iff (serde : Serde) (hex : String) (expose : Bool) (chunks : List Json)
    (h : WellSent serde chunks) :
    messageContent ((run chunks (new hex expose)).1.nonstreamResponse serde) =
        (rebuilt serde (run chunks (new hex expose)).2).map some ↔
      KindsInOrder expose (chunks.flatMap chunkPieces) ∧
        CallsInOrder serde (chunks.flatMap chunkPieces) := by
  have hwhole := whole_feedChunks hex expose chunks
  obtain ⟨hmessage, hcontent⟩ := keeps_finish serde _ _ _ _ (⟨rfl, rfl⟩ : Views serde _ _
    (forEach feedChunk chunks (new hex expose)).1 (forEach feedChunk chunks (new hex expose)).2)
  have hiff := hwhole.sameContent_iff h.proper
  rw [← hmessage, ← hcontent] at hiff
  exact hiff

def callDelta : Json :=
  .obj [("tool_calls", .arr [.obj [("index", .ofNat 0), ("id", .str "call_1"),
    ("function", .obj [("name", .str "read"), ("arguments", .str "\x7b\x7d")])]])]

def deltaChunk (delta : Json) : Json := .obj [("choices", .arr [.obj [("delta", delta)]])]

def textAfterCall : List Json :=
  [deltaChunk callDelta, deltaChunk (.obj [("content", .str "done")])]

def inTurn : List Json :=
  [deltaChunk (.obj [("reasoning_content", .str "hm"), ("content", .str "ok")]),
  deltaChunk callDelta]

theorem wellSent_of_calls {chunks : List Json}
    (h : chunks.flatMap chunkToolCalls = [⟨0, some "call_1", some "read", some "\x7b\x7d"⟩]) :
    WellSent .emptyObject chunks where
  announced := by
    intro index
    unfold fragmentsAt
    rw [h]
    by_cases hindex : (0 : Int) = index
    · rw [List.filter_cons_of_pos (by simpa using hindex)]
      exact ⟨rfl, rfl⟩
    · rw [List.filter_cons_of_neg (by simpa using hindex)]
      trivial
  object := fun _ _ => ⟨[], rfl⟩

theorem run_rebuilt_iff_inTurn :
    messageContent ((run inTurn (new "0" true)).1.nonstreamResponse .emptyObject) =
      (rebuilt .emptyObject (run inTurn (new "0" true)).2).map some :=
  (run_rebuilt_iff .emptyObject "0" true inTurn (wellSent_of_calls (by decide +kernel))).mpr
    ⟨by decide +kernel, by unfold CallsInOrder; decide +kernel⟩

theorem run_rebuilt_differs : WellSent .emptyObject textAfterCall ∧
    messageContent ((run textAfterCall (new "0" true)).1.nonstreamResponse .emptyObject) ≠
      (rebuilt .emptyObject (run textAfterCall (new "0" true)).2).map some :=
  ⟨wellSent_of_calls (by decide +kernel), by decide +kernel⟩

end StreamConverter
end Lobster.Anthropic
