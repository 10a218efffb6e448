import LobsterProxy.Anthropic.BlockProtocol

/-! The stream converter keeps the block protocol: its open flags and counters are a
ledger of the events it has emitted. -/

namespace Lobster.Anthropic
open Chat Emitter Trace

namespace StreamConverter

def Opens (c : StreamConverter) (i : Nat) (kind : BlockKind) : Prop :=
  (kind = .thinking ∧ c.thinkingOpen = true ∧ i = c.thinkingIdx) ∨
  (kind = .text ∧ c.textOpen = true ∧ i = c.textIdx) ∨
  (kind = .toolUse ∧ ∃ index slot, c.tools.find? index = some slot ∧ i = slot.blockIdx)

structure Ledger (c : StreamConverter) (past : List Event) : Prop where
  legal : Legal Allowed past
  running : Running past
  count : (startIndices past).length = c.nextBlockIdx
  opens : ∀ i kind, openBlocks past i = some kind ↔ c.Opens i kind
  slotsStarted : ∀ index slot, c.tools.find? index = some slot → slot.started = true
  slotsDistinct : ∀ a b s t, c.tools.find? a = some s → c.tools.find? b = some t →
    s.blockIdx = t.blockIdx → a = b

def Quiet (c : StreamConverter) (past : List Event) : Prop := Ledger c past ∧ c.thinkingOpen = false

section Ledger
variable {c c' : StreamConverter} {past : List Event} {i : Nat} {kind kind' : BlockKind}

theorem Ledger.kind_eq (h : Ledger c past) (hk : c.Opens i kind) (hk' : c.Opens i kind') :
    kind = kind' := by
  have ho := (h.opens i kind).mpr hk
  rw [(h.opens i kind').mpr hk'] at ho
  exact (Option.some.inj ho).symm

theorem Ledger.lt_nextBlockIdx (h : Ledger c past) (hk : c.Opens i kind) : i < c.nextBlockIdx := by
  have hcount := count_stop h.legal i
  rw [(h.opens i kind).mpr hk, h.count] at hcount
  rw [Option.toList_some, List.length_singleton] at hcount
  omega

theorem Quiet.thinkingClosed (h : Quiet c past) : ThinkingClosed past := by
  intro i hi
  rcases (h.1.opens i .thinking).mp hi with ⟨-, hopen, -⟩ | ⟨hkind, -⟩ | ⟨hkind, -⟩
  · rw [h.2] at hopen
    cases hopen
  · cases hkind
  · cases hkind

theorem Ledger.start (h : Ledger c past) {block : ContentBlock}
    (halone : block.kind ≠ .thinking → ThinkingClosed past)
    (hcount : c'.nextBlockIdx = c.nextBlockIdx + 1)
    (hopens : ∀ i kind, c'.Opens i kind ↔ (i = c.nextBlockIdx ∧ kind = block.kind) ∨ c.Opens i kind)
    (hstarted : ∀ index slot, c'.tools.find? index = some slot → slot.started = true)
    (hdistinct : ∀ a b s t, c'.tools.find? a = some s → c'.tools.find? b = some t →
      s.blockIdx = t.blockIdx → a = b) :
    Ledger c' (past ++ [.contentBlockStart c.nextBlockIdx block]) where
  legal := by
    refine h.legal.snoc ⟨?_, h.running, h.count.symm⟩
    intro kind hkind hne
    exact halone (Option.some.inj hkind ▸ hne)
  running := h.running.snoc rfl
  count := by
    rw [startIndices_snoc, List.length_append, h.count, hcount]
    rfl
  opens := by
    intro i kind
    rw [openBlocks_snoc, hopens]
    show (if i = c.nextBlockIdx then some block.kind else openBlocks past i) = some kind ↔ _
    by_cases hi : i = c.nextBlockIdx
    · have hno : ¬ c.Opens i kind := fun hk => absurd (h.lt_nextBlockIdx hk) (by omega)
      rw [if_pos hi, Option.some.injEq]
      constructor
      · rintro rfl
        exact .inl ⟨hi, rfl⟩
      · rintro (⟨-, hkind⟩ | hk)
        · exact hkind.symm
        · exact absurd hk hno
    · rw [if_neg hi, h.opens]
      constructor
      · exact .inr
      · rintro (⟨heq, -⟩ | hk)
        · exact absurd heq hi
        · exact hk
  slotsStarted := hstarted
  slotsDistinct := hdistinct

theorem Ledger.delta (h : Ledger c past) {delta : BlockDelta} (hopen : c.Opens i delta.kind)
    (halone : delta.kind ≠ .thinking → ThinkingClosed past) :
    Ledger c (past ++ [.contentBlockDelta i delta]) where
  legal := by
    refine h.legal.snoc ⟨?_, h.running, (h.opens _ _).mpr hopen⟩
    intro kind hkind hne
    exact halone (Option.some.inj hkind ▸ hne)
  running := h.running.snoc rfl
  count := by
    rw [startIndices_snoc, ← h.count]
    simp [Event.startIndex?]
  opens := by
    intro i kind
    rw [openBlocks_snoc]
    exact h.opens i kind
  slotsStarted := h.slotsStarted
  slotsDistinct := h.slotsDistinct

theorem Ledger.stop (h : Ledger c past) (hopen : c.Opens i kind)
    (hcount : c'.nextBlockIdx = c.nextBlockIdx) (htools : c'.tools = c.tools)
    (hopens : ∀ j kind, c'.Opens j kind ↔ j ≠ i ∧ c.Opens j kind) :
    Ledger c' (past ++ [.contentBlockStop i]) where
  legal := by
    refine h.legal.snoc ⟨nofun, h.running, ?_⟩
    rw [(h.opens i kind).mpr hopen]
    exact Option.some_ne_none kind
  running := h.running.snoc rfl
  count := by
    rw [startIndices_snoc, hcount, ← h.count]
    simp [Event.startIndex?]
  opens := by
    intro j kind
    rw [openBlocks_snoc, hopens]
    show (if j = i then none else openBlocks past j) = some kind ↔ _
    by_cases hj : j = i
    · simp [hj]
    · rw [if_neg hj, h.opens]
      exact ⟨fun hk => ⟨hj, hk⟩, fun hk => hk.2⟩
  slotsStarted := by
    rw [htools]
    exact h.slotsStarted
  slotsDistinct := by
    rw [htools]
    exact h.slotsDistinct

end Ledger

section Steps

theorem leads_closeThinking : Leads Ledger Quiet closeThinking := by
  intro c past h
  unfold closeThinking
  split_ifs with hopen
  · have hthinking : c.Opens c.thinkingIdx .thinking := .inl ⟨rfl, hopen, rfl⟩
    refine ⟨h.stop hthinking rfl rfl fun j kind => ?_, rfl⟩
    constructor
    · intro hk
      have hk' : c.Opens j kind ∧ kind ≠ .thinking := by
        rcases hk with ⟨-, hfalse, -⟩ | ⟨rfl, hk⟩ | ⟨rfl, hk⟩
        · cases hfalse
        · exact ⟨.inr (.inl ⟨rfl, hk⟩), nofun⟩
        · exact ⟨.inr (.inr ⟨rfl, hk⟩), nofun⟩
      refine ⟨?_, hk'.1⟩
      rintro rfl
      exact hk'.2 (h.kind_eq hk'.1 hthinking)
    · rintro ⟨hj, ⟨-, -, hi⟩ | hk⟩
      · exact absurd hi hj
      · exact .inr hk
  · rw [List.append_nil]
    exact ⟨h, Bool.eq_false_iff.mpr hopen⟩

theorem leads_openThinking :
    Leads Ledger (fun c past => Ledger c past ∧ c.thinkingOpen = true) openThinking := by
  intro c past h
  unfold openThinking
  split_ifs with hopen
  · rw [List.append_nil]
    exact ⟨h, hopen⟩
  · refine ⟨h.start (fun hne => absurd rfl hne) rfl (fun i kind => ?_) h.slotsStarted
      h.slotsDistinct, rfl⟩
    constructor
    · rintro (⟨hkind, -, hi⟩ | hk)
      · exact .inl ⟨hi, hkind⟩
      · exact .inr (.inr hk)
    · rintro (⟨hi, hkind⟩ | ⟨-, hfalse, -⟩ | hk)
      · exact .inl ⟨hkind, rfl, hi⟩
      · exact absurd hfalse hopen
      · exact .inr hk

theorem leads_openText : Leads Quiet (fun c past => Quiet c past ∧ c.textOpen = true) openText := by
  intro c past h
  unfold openText
  split_ifs with hopen
  · rw [List.append_nil]
    exact ⟨h, hopen⟩
  · refine ⟨⟨h.1.start (fun _ => h.thinkingClosed) rfl (fun i kind => ?_) h.1.slotsStarted
      h.1.slotsDistinct, h.2⟩, rfl⟩
    constructor
    · rintro (hk | ⟨hkind, -, hi⟩ | hk)
      · exact .inr (.inl hk)
      · exact .inl ⟨hi, hkind⟩
      · exact .inr (.inr (.inr hk))
    · rintro (⟨hi, hkind⟩ | hk | ⟨-, hfalse, -⟩ | hk)
      · exact .inr (.inl ⟨hkind, rfl, hi⟩)
      · exact .inl hk
      · exact absurd hfalse hopen
      · exact .inr (.inr hk)

theorem keeps_feedReasoning (reasoning : String) : Keeps Ledger (feedReasoning reasoning) := by
  intro c past h
  have h' : Ledger { c with thinkingAccum := c.thinkingAccum ++ reasoning } past :=
    ⟨h.legal, h.running, h.count, h.opens, h.slotsStarted, h.slotsDistinct⟩
  unfold feedReasoning
  dsimp only
  split_ifs
  · refine (leads_openThinking.andThen ?_ : Leads _ Ledger _) _ past h'
    rintro c past ⟨h, hopen⟩
    exact h.delta (.inl ⟨rfl, hopen, rfl⟩) fun hne => absurd rfl hne
  · rw [List.append_nil]
    exact h'

theorem leads_feedContent (content : String) : Leads Ledger Quiet (feedContent content) := by
  refine leads_closeThinking.andThen ((leads_silent ?_ : Leads _ Quiet _).andThen
    (leads_openText.andThen ?_))
  · rintro c past ⟨h, hquiet⟩
    exact ⟨⟨h.legal, h.running, h.count, h.opens, h.slotsStarted, h.slotsDistinct⟩, hquiet⟩
  · rintro c past ⟨h, hopen⟩
    exact ⟨h.1.delta (.inr (.inl ⟨rfl, hopen, rfl⟩)) fun _ => h.thinkingClosed, h.2⟩

theorem Ledger.rewriteSlot {c : StreamConverter} {past : List Event} (h : Ledger c past)
    {index : Int} {slot : ToolSlot} (slot' : ToolSlot) (hslot : c.tools.find? index = some slot)
    (hblock : slot'.blockIdx = slot.blockIdx) (hstarted : slot'.started = true) :
    Ledger { c with tools := c.tools.insert index slot' } past where
  legal := h.legal
  running := h.running
  count := h.count
  opens := by
    intro i kind
    rw [h.opens]
    refine or_congr_right (or_congr_right (and_congr_right fun _ => ?_))
    constructor
    · rintro ⟨a, s, ha, rfl⟩
      by_cases hai : index = a
      · subst hai
        refine ⟨index, slot', SortedMap.find?_insert_self _ _ _, ?_⟩
        rw [hblock, Option.some.inj (hslot.symm.trans ha)]
      · exact ⟨a, s, (SortedMap.find?_insert_ne _ _ hai).trans ha, rfl⟩
    · rintro ⟨a, s, ha, rfl⟩
      rw [SortedMap.find?_insert] at ha
      split_ifs at ha with hai
      · cases ha
        exact ⟨index, slot, hslot, hblock⟩
      · exact ⟨a, s, ha, rfl⟩
  slotsStarted := by
    intro a s ha
    rw [SortedMap.find?_insert] at ha
    split_ifs at ha
    · cases ha
      exact hstarted
    · exact h.slotsStarted a s ha
  slotsDistinct := by
    -- each slot of the new map has the block of one of the old map at the same index
    have hold : ∀ a s, (c.tools.insert index slot').find? a = some s →
        ∃ s₀, c.tools.find? a = some s₀ ∧ s.blockIdx = s₀.blockIdx := by
      intro a s ha
      rw [SortedMap.find?_insert] at ha
      split_ifs at ha with hai
      · subst hai
        cases ha
        exact ⟨slot, hslot, hblock⟩
      · exact ⟨s, ha, rfl⟩
    intro a b s t ha hb hst
    obtain ⟨s₀, hs₀, hs⟩ := hold a s ha
    obtain ⟨t₀, ht₀, ht⟩ := hold b t hb
    exact h.slotsDistinct a b s₀ t₀ hs₀ ht₀ (by rw [← hs, ← ht, hst])

theorem Quiet.startSlot {c : StreamConverter} {past : List Event} (h : Quiet c past) {index : Int}
    (slot : ToolSlot) (hnew : c.tools.find? index = none) (hblock : slot.blockIdx = c.nextBlockIdx)
    (hstarted : slot.started = true) :
    Ledger { c with nextBlockIdx := c.nextBlockIdx + 1, tools := c.tools.insert index slot }
      (past ++ [.contentBlockStart c.nextBlockIdx (.toolUse slot.id slot.name)]) := by
  have hcases : ∀ a s, (c.tools.insert index slot).find? a = some s →
      (a = index ∧ s = slot) ∨ (a ≠ index ∧ c.tools.find? a = some s) := by
    intro a s ha
    rw [SortedMap.find?_insert] at ha
    split_ifs at ha with hai
    · exact .inl ⟨hai.symm, (Option.some.inj ha).symm⟩
    · exact .inr ⟨fun h => hai h.symm, ha⟩
  have hlt : ∀ a s, c.tools.find? a = some s → s.blockIdx < c.nextBlockIdx :=
    fun a s ha => h.1.lt_nextBlockIdx (.inr (.inr ⟨rfl, a, s, ha, rfl⟩))
  refine h.1.start (fun _ => h.thinkingClosed) rfl (fun i kind => ?_) ?_ ?_
  · constructor
    · rintro (hk | hk | ⟨hkind, a, s, ha, hi⟩)
      · exact .inr (.inl hk)
      · exact .inr (.inr (.inl hk))
      · rcases hcases a s ha with ⟨-, rfl⟩ | ⟨-, ha⟩
        · exact .inl ⟨hi.trans hblock, hkind⟩
        · exact .inr (.inr (.inr ⟨hkind, a, s, ha, hi⟩))
    · rintro (⟨hi, hkind⟩ | hk | hk | ⟨hkind, a, s, ha, hi⟩)
      · exact .inr
          (.inr ⟨hkind, index, slot, SortedMap.find?_insert_self _ _ _, hi.trans hblock.symm⟩)
      · exact .inl hk
      · exact .inr (.inl hk)
      · have hai : index ≠ a := by
          rintro rfl
          rw [hnew] at ha
          cases ha
        exact .inr (.inr ⟨hkind, a, s, (SortedMap.find?_insert_ne _ _ hai).trans ha, hi⟩)
  · intro a s ha
    rcases hcases a s ha with ⟨-, rfl⟩ | ⟨-, ha⟩
    · exact hstarted
    · exact h.1.slotsStarted a s ha
  · intro a b s t ha hb hst
    rcases hcases a s ha with ⟨hai, rfl⟩ | ⟨-, hold⟩
    · rcases hcases b t hb with ⟨hbi, -⟩ | ⟨-, hold⟩
      · exact hai.trans hbi.symm
      · exact absurd (hlt b t hold) (by omega)
    · rcases hcases b t hb with ⟨-, rfl⟩ | ⟨-, hold'⟩
      · exact absurd (hlt a s hold) (by omega)
      · exact h.1.slotsDistinct a b s t hold hold' hst

theorem keeps_feedSlot (call : ToolCallDelta) : Keeps Quiet (feedSlot call) := by
  intro c past h
  unfold feedSlot slotFor
  -- the state after the block is sure to be started, and the arguments still to send
  have harguments {c' : StreamConverter} {past' : List Event} (slot : ToolSlot)
      (h' : Quiet c' past')
      (hslot : c'.tools.find? call.index = some slot) :
      Quiet c' (past' ++ (call.arguments.filter (fun s => s ≠ "")).toList.map
        fun s => .contentBlockDelta slot.blockIdx (.inputJson s)) := by
    cases call.arguments.filter (fun s => s ≠ "") with
    | none =>
      rw [Option.toList_none, List.map_nil, List.append_nil]
      exact h'
    | some s =>
      exact ⟨h'.1.delta (.inr (.inr ⟨rfl, _, slot, hslot, rfl⟩)) fun _ => h'.thinkingClosed, h'.2⟩
  cases hfind : c.tools.find? call.index with
  | some slot =>
    have hstarted : (slot.update call).started = true := h.1.slotsStarted call.index slot hfind
    let slot' : ToolSlot := { slot.update call with started := true }
    have hledger := h.1.rewriteSlot slot' hfind rfl rfl
    dsimp only
    rw [if_pos hstarted, List.nil_append]
    exact harguments slot' ⟨hledger, h.2⟩ (SortedMap.find?_insert_self _ _ _)
  | none =>
    let slot' : ToolSlot :=
      { (ToolSlot.fresh call c.nextBlockIdx).update call with started := true }
    have hledger := h.startSlot slot' hfind rfl rfl
    dsimp only
    rw [← List.append_assoc]
    exact harguments slot' ⟨hledger, h.2⟩ (SortedMap.find?_insert_self _ _ _)

theorem keeps_feedToolCall (call : ToolCallDelta) : Keeps Ledger (feedToolCall call) :=
  leads_closeThinking.andThen ((keeps_feedSlot call).imp (fun _ _ h => h) fun _ _ h => h.1)

theorem keeps_feedDelta (delta : Delta) : Keeps Ledger (feedDelta delta) := by
  cases delta with
  | finish reason =>
    exact leads_silent fun c past h =>
      ⟨h.legal, h.running, h.count, h.opens, h.slotsStarted, h.slotsDistinct⟩
  | reasoning text => exact keeps_feedReasoning text
  | content text => exact (leads_feedContent text).imp (fun _ _ h => h) fun _ _ h => h.1
  | toolCalls calls => exact keeps_forEach fun call _ => keeps_feedToolCall call

end Steps

section Flags
variable (started finished : Bool)

def Flags (c : StreamConverter) (_ : List Event) : Prop :=
  c.started = started ∧ c.finished = finished

theorem flags_closeThinking : Keeps (Flags started finished) closeThinking := by
  intro c past h
  unfold closeThinking
  split_ifs <;> exact h

theorem flags_openThinking : Keeps (Flags started finished) openThinking := by
  intro c past h
  unfold openThinking
  split_ifs <;> exact h

theorem flags_openText : Keeps (Flags started finished) openText := by
  intro c past h
  unfold openText
  split_ifs <;> exact h

theorem flags_feedSlot (call : ToolCallDelta) : Keeps (Flags started finished) (feedSlot call) := by
  intro c past h
  unfold feedSlot slotFor
  cases c.tools.find? call.index <;> exact h

theorem flags_feedDelta (delta : Delta) : Keeps (Flags started finished) (feedDelta delta) := by
  cases delta with
  | finish reason => exact leads_silent fun c past h => h
  | reasoning text =>
    intro c past h
    show Flags started finished (feedReasoning text c).1 _
    unfold feedReasoning
    dsimp only
    split_ifs
    · exact flags_openThinking started finished _ past h
    · exact h
  | content text =>
    refine (flags_closeThinking _ _).andThen
      ((leads_silent ?_ : Keeps (Flags started finished) _).andThen
      ((flags_openText _ _).andThen ?_))
    · exact fun c past h => h
    · exact fun c past h => h
  | toolCalls calls =>
    exact keeps_forEach fun call _ => (flags_closeThinking _ _).andThen (flags_feedSlot _ _ call)

theorem flags_closeText : Keeps (Flags started finished) closeText := by
  intro c past h
  unfold closeText
  split_ifs <;> exact h

theorem flags_closeTools : Keeps (Flags started finished) closeTools := fun _ _ h => h

end Flags

section Run

def Unstarted (c : StreamConverter) (past : List Event) : Prop :=
  past = [] ∧ c.nextBlockIdx = 0 ∧ c.thinkingOpen = false ∧ c.textOpen = false ∧ c.tools = .empty

/-- Some chunk has been fed and `finish` has not been called. -/
def Begun (c : StreamConverter) (past : List Event) : Prop :=
  Ledger c past ∧ Flags true false c past

def Unfinished (c : StreamConverter) (past : List Event) : Prop :=
  (Unstarted c past ∧ Flags false false c past) ∨ Begun c past

theorem unfinished_new (hex : String) (exposeThinking : Bool) :
    Unfinished (new hex exposeThinking) [] := .inl ⟨⟨rfl, rfl, rfl, rfl, rfl⟩, rfl, rfl⟩

theorem leads_ensureStarted : Leads Unfinished Begun ensureStarted := by
  intro c past h
  unfold ensureStarted
  rcases h with ⟨⟨rfl, hnext, hthinking, htext, htools⟩, hflags⟩ | h
  · rw [if_neg (by rw [hflags.1]; exact Bool.false_ne_true)]
    refine ⟨⟨?_, ?_, ?_, ?_, ?_, ?_⟩, rfl, hflags.2⟩
    · exact legal_nil.snoc ⟨nofun, rfl⟩
    · refine ⟨List.cons_ne_nil _ _, fun e he => ?_⟩
      rw [List.mem_singleton.mp he]
      rfl
    · exact hnext.symm
    · intro i kind
      constructor
      · intro hopen
        cases hopen
      · rintro (⟨-, hopen, -⟩ | ⟨-, hopen, -⟩ | ⟨-, index, slot, hslot, -⟩)
        · rw [hthinking] at hopen
          cases hopen
        · rw [htext] at hopen
          cases hopen
        · rw [htools] at hslot
          cases hslot
    · intro index slot hslot
      rw [htools] at hslot
      cases hslot
    · intro a b s t hs
      rw [htools] at hs
      cases hs
  · rw [if_pos h.2.1, List.append_nil]
    exact h

/-- One chunk, whatever it holds, keeps the protocol. -/
theorem leads_feedChunk (chunk : Json) : Leads Unfinished Begun (feedChunk chunk) := by
  have hdeltas : Keeps Begun (forEach feedDelta (chunkDeltas chunk)) :=
    keeps_forEach fun delta _ => (keeps_feedDelta delta).and (flags_feedDelta true false delta)
  have hnote : Keeps Unfinished (silent (noteChunk chunk)) := by
    refine leads_silent fun c past h => ?_
    rcases h with h | ⟨h, hflags⟩
    · exact .inl h
    · exact .inr ⟨⟨h.legal, h.running, h.count, h.opens, h.slotsStarted, h.slotsDistinct⟩, hflags⟩
  intro c past h
  have hfinished : c.finished = false := by
    rcases h with h | h
    · exact h.2.2
    · exact h.2.2
  unfold feedChunk
  rw [if_neg (by rw [hfinished]; exact Bool.false_ne_true)]
  exact hnote.andThen (leads_ensureStarted.andThen hdeltas) c past h

theorem leads_feedChunks {chunks : List Json} (hne : chunks ≠ []) :
    Leads Unfinished Begun (forEach feedChunk chunks) := by
  obtain ⟨chunk, rest, rfl⟩ := List.exists_cons_of_ne_nil hne
  refine (leads_feedChunk chunk).andThen (keeps_forEach fun chunk _ => ?_)
  exact (leads_feedChunk chunk).imp (fun _ _ h => .inr h) fun _ _ h => h

theorem stopAll {past : List Event} (hlegal : Legal Allowed past) (hrunning : Running past)
    {stops : List Nat} (hnodup : stops.Nodup) (hopen : ∀ i ∈ stops, openBlocks past i ≠ none) :
    Legal Allowed (past ++ stops.map .contentBlockStop) ∧
      Running (past ++ stops.map .contentBlockStop) ∧
      ∀ i, openBlocks (past ++ stops.map .contentBlockStop) i =
        if i ∈ stops then none else openBlocks past i := by
  induction stops generalizing past with
  | nil =>
    rw [List.map_nil, List.append_nil]
    exact ⟨hlegal, hrunning, fun i => (if_neg List.not_mem_nil).symm⟩
  | cons stop stops ih =>
    obtain ⟨hnotin, hnodup⟩ := List.nodup_cons.mp hnodup
    have hlegal' := hlegal.snoc (e := .contentBlockStop stop)
      ⟨nofun, hrunning, hopen stop List.mem_cons_self⟩
    have hopen' : ∀ i ∈ stops, openBlocks (past ++ [.contentBlockStop stop]) i ≠ none := by
      intro i hi
      have hne : i ≠ stop := fun h => hnotin (h ▸ hi)
      rw [openBlocks_snoc]
      show (if i = stop then none else openBlocks past i) ≠ none
      rw [if_neg hne]
      exact hopen i (List.mem_cons_of_mem _ hi)
    obtain ⟨hl, hr, hclosed⟩ := ih hlegal' (hrunning.snoc rfl) hnodup hopen'
    rw [List.map_cons, List.append_cons]
    refine ⟨hl, hr, fun i => ?_⟩
    rw [hclosed i, openBlocks_snoc]
    show (if i ∈ stops then none else if i = stop then none else openBlocks past i) = _
    by_cases hi : i = stop
    · rw [if_pos hi, ite_self, if_pos (hi ▸ List.mem_cons_self)]
    · simp only [List.mem_cons, hi, false_or, if_false]

/-- The tail of a message: every open block is stopped, then the two last events. -/
def Closed (past : List Event) : Prop :=
  Legal Allowed past ∧ Running past ∧ ∀ i, openBlocks past i = none

theorem leads_closeText :
    Leads Quiet (fun c past => Quiet c past ∧ c.textOpen = false) closeText := by
  rintro c past ⟨h, hquiet⟩
  unfold closeText
  split_ifs with hopen
  · have htext : c.Opens c.textIdx .text := .inr (.inl ⟨rfl, hopen, rfl⟩)
    refine ⟨⟨h.stop htext rfl rfl fun j kind => ?_, hquiet⟩, rfl⟩
    constructor
    · intro hk
      have hk' : c.Opens j kind ∧ kind ≠ .text := by
        rcases hk with ⟨rfl, hk⟩ | ⟨-, hfalse, -⟩ | ⟨rfl, hk⟩
        · exact ⟨.inl ⟨rfl, hk⟩, nofun⟩
        · cases hfalse
        · exact ⟨.inr (.inr ⟨rfl, hk⟩), nofun⟩
      refine ⟨?_, hk'.1⟩
      rintro rfl
      exact hk'.2 (h.kind_eq hk'.1 htext)
    · rintro ⟨hj, hk | ⟨-, -, hi⟩ | hk⟩
      · exact .inl hk
      · exact absurd hi hj
      · exact .inr (.inr hk)
  · rw [List.append_nil]
    exact ⟨⟨h, hquiet⟩, Bool.eq_false_iff.mpr hopen⟩

theorem leads_closeTools :
    Leads (fun c past => Quiet c past ∧ c.textOpen = false)
      (fun _ past => Closed past) closeTools := by
  rintro c past ⟨⟨h, hthinking⟩, htext⟩
  have hall : c.tools.values.filter ToolSlot.started = c.tools.values := by
    refine List.filter_eq_self.mpr fun slot hslot => ?_
    obtain ⟨index, hfind⟩ := SortedMap.mem_values.mp hslot
    exact h.slotsStarted index slot hfind
  unfold closeTools
  dsimp only
  have hmap : c.tools.values.map (fun slot => Event.contentBlockStop slot.blockIdx) =
      (c.tools.values.map ToolSlot.blockIdx).map .contentBlockStop := by
    rw [List.map_map]
    rfl
  rw [hall, hmap]
  have hopen : ∀ i, openBlocks past i ≠ none ↔ i ∈ c.tools.values.map ToolSlot.blockIdx := by
    intro i
    rw [Option.ne_none_iff_exists']
    constructor
    · rintro ⟨kind, hkind⟩
      rcases (h.opens i kind).mp hkind with ⟨-, hfalse, -⟩ | ⟨-, hfalse, -⟩ |
        ⟨-, index, slot, hslot, rfl⟩
      · rw [hthinking] at hfalse
        cases hfalse
      · rw [htext] at hfalse
        cases hfalse
      · exact List.mem_map_of_mem (SortedMap.mem_values.mpr ⟨index, hslot⟩)
    · intro hi
      obtain ⟨slot, hslot, rfl⟩ := List.mem_map.mp hi
      obtain ⟨index, hfind⟩ := SortedMap.mem_values.mp hslot
      exact ⟨.toolUse, (h.opens _ _).mpr (.inr (.inr ⟨rfl, index, slot, hfind, rfl⟩))⟩
  obtain ⟨hlegal, hrunning, hclosed⟩ := stopAll h.legal h.running
    (SortedMap.nodup_map_values h.slotsDistinct) fun i hi => (hopen i).mpr hi
  refine ⟨hlegal, hrunning, fun i => ?_⟩
  rw [hclosed i]
  split_ifs with hi
  · rfl
  · by_contra hne
    exact hi ((hopen i).mp hne)

theorem Closed.finish {past : List Event} (h : Closed past) (reason : String) (tokens : UInt64) :
    WellFormed (past ++ [.messageDelta reason tokens, .messageStop]) := by
  obtain ⟨hlegal, hrunning, hclosed⟩ := h
  refine wellFormed_of_legal ?_
  rw [List.append_cons]
  refine (hlegal.snoc (e := .messageDelta reason tokens) ⟨nofun, hrunning, hclosed⟩).snoc ?_
  exact ⟨nofun, past, reason, tokens, rfl⟩

theorem leads_finish :
    Leads Begun (fun c past => WellFormed past ∧ c.finished = true) finish := by
  intro c past h
  have hfinished : c.finished = false := h.2.2
  unfold finish finishWithStop
  rw [if_neg (by rw [hfinished]; exact Bool.false_ne_true)]
  have hthinking := leads_closeThinking.and (flags_closeThinking true true)
  have htext := leads_closeText.and (flags_closeText true true)
  have htools := leads_closeTools.and (flags_closeTools true true)
  have hset : Leads Begun (fun c past => Ledger c past ∧ Flags true true c past)
      (silent fun c => { c with finished := true }) := by
    refine leads_silent fun c past h => ⟨?_, h.2.1, rfl⟩
    exact ⟨h.1.legal, h.1.running, h.1.count, h.1.opens, h.1.slotsStarted, h.1.slotsDistinct⟩
  have htail (reason : String) : Leads (fun c past => Closed past ∧ Flags true true c past)
      (fun c past => WellFormed past ∧ c.finished = true) fun c =>
        (c, [.messageDelta reason (c.usage.elim 0 Usage.output), .messageStop]) :=
    fun c past h => ⟨h.1.finish _ _, h.2.2⟩
  exact (hset.andThen (hthinking.andThen (htext.andThen (htools.andThen (htail _))))) c past h

def run (chunks : List Json) : Emitter StreamConverter Event :=
  (forEach feedChunk chunks).andThen finish

inductive Call where
  | feedChunk (chunk : Json)
  | finish

def perform : Call → Emitter StreamConverter Event
  | .feedChunk chunk => feedChunk chunk
  | .finish => finish

theorem perform_finished {c : StreamConverter} (h : c.finished = true) (call : Call) :
    perform call c = (c, []) := by
  cases call with
  | feedChunk chunk => exact if_pos h
  | finish => exact if_pos h

theorem performAll_finished {c : StreamConverter} (h : c.finished = true) (calls : List Call) :
    forEach perform calls c = (c, []) := by
  induction calls with
  | nil => rfl
  | cons call calls ih =>
    rw [forEach, andThen]
    simp only [perform_finished h call, ih, List.append_nil]

/-- Any chunks and then `finish` give one whole message, after which nothing is emitted. -/
theorem run_balanced (hex : String) (exposeThinking : Bool) (chunks : List Json)
    (hne : chunks ≠ []) :
    WellFormed (run chunks (new hex exposeThinking)).2 ∧
      ∀ calls, forEach perform calls (run chunks (new hex exposeThinking)).1 =
        ((run chunks (new hex exposeThinking)).1, []) := by
  have hrun := ((leads_feedChunks hne).andThen leads_finish) (new hex exposeThinking) []
    (unfinished_new hex exposeThinking)
  rw [List.nil_append] at hrun
  exact ⟨hrun.1, performAll_finished hrun.2⟩

end Run

def helloChunk : Json :=
  .obj [("choices", .arr [.obj [("delta", .obj [("reasoning_content", .str "hm"),
    ("content", .str "hello"), ("tool_calls", .arr [.obj [("id", .str "t1")]])])]])]

theorem run_balanced_hello : WellFormed (run [helloChunk, helloChunk] (new "0" true)).2 :=
  (run_balanced "0" true [helloChunk, helloChunk] (List.cons_ne_nil _ _)).1

end StreamConverter
end Lobster.Anthropic
