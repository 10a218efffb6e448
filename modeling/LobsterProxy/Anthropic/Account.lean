import LobsterProxy.Anthropic.StreamWellFormed
import LobsterProxy.Chat.Pieces

/-! The converter fed piece by piece, and its accounts: what it streams is what it
accumulates, and that is what the upstream has sent. -/

namespace Lobster.Anthropic
open Chat Emitter Trace

namespace StreamConverter

def feedPiece : Piece → Emitter StreamConverter Event
  | .reasoning text => feedReasoning text
  | .content text => feedContent text
  | .call call => feedToolCall call

def noteFinish (delta : Delta) (c : StreamConverter) : StreamConverter :=
  { c with finishReason := delta.finish?.or c.finishReason }

theorem feedDelta_eq (delta : Delta) :
    feedDelta delta = (silent (noteFinish delta)).andThen (forEach feedPiece delta.pieces) := by
  funext c
  cases delta with
  | finish reason => rfl
  | reasoning text =>
    simp only [feedDelta, Delta.pieces, forEach, feedPiece, silent, andThen, noteFinish,
      Delta.finish?, Option.none_or, List.nil_append, List.append_nil]
  | content text =>
    simp only [feedDelta, Delta.pieces, forEach, feedPiece, silent, andThen, noteFinish,
      Delta.finish?, Option.none_or, List.nil_append, List.append_nil]
  | toolCalls calls =>
    have hcalls : forEach feedPiece (calls.map Piece.call) = forEach feedToolCall calls := by
      induction calls with
      | nil => rfl
      | cons call calls ih => rw [List.map_cons, forEach, forEach, ih]; rfl
    rw [Delta.pieces, hcalls]
    rfl

def stopThinking (c : StreamConverter) : List Event :=
  if c.thinkingOpen then [.contentBlockStop c.thinkingIdx] else []

def argumentDeltas (blockIdx : Nat) (call : ToolCallDelta) : List Event :=
  (call.arguments.filter (fun s => s ≠ "")).toList.map fun s =>
  .contentBlockDelta blockIdx (.inputJson s)

inductive Fed (c : StreamConverter) : Piece → StreamConverter → List Event → Prop where
  | hidden (text : String) (hexpose : c.exposeThinking = false) :
    Fed c (.reasoning text) { c with thinkingAccum := c.thinkingAccum ++ text } []
  | thinkOn (text : String) (hexpose : c.exposeThinking = true) (hopen : c.thinkingOpen = true) :
    Fed c (.reasoning text) { c with thinkingAccum := c.thinkingAccum ++ text }
      [.contentBlockDelta c.thinkingIdx (.thinking text)]
  | think (text : String) (hexpose : c.exposeThinking = true) (hopen : c.thinkingOpen = false) :
    Fed c (.reasoning text) { c with
        thinkingAccum := c.thinkingAccum ++ text
        thinkingIdx := c.nextBlockIdx
        nextBlockIdx := c.nextBlockIdx + 1
        thinkingOpen := true }
      [.contentBlockStart c.nextBlockIdx .thinking, .contentBlockDelta c.nextBlockIdx
        (.thinking text)]
  | textOn (text : String) (hopen : c.textOpen = true) :
    Fed c (.content text) { c with thinkingOpen := false, textAccum := c.textAccum ++ text }
      (c.stopThinking ++ [.contentBlockDelta c.textIdx (.text text)])
  | text (text : String) (hopen : c.textOpen = false) :
    Fed c (.content text) { c with
        thinkingOpen := false
        textAccum := c.textAccum ++ text
        textIdx := c.nextBlockIdx
        nextBlockIdx := c.nextBlockIdx + 1
        textOpen := true }
      (c.stopThinking ++ [.contentBlockStart c.nextBlockIdx .text,
        .contentBlockDelta c.nextBlockIdx (.text text)])
  | callOn (call : ToolCallDelta) (slot : ToolSlot) (hslot : c.tools.find? call.index = some slot) :
    Fed c (.call call) { c with
        thinkingOpen := false
        tools := c.tools.insert call.index { slot.update call with started := true } }
      (c.stopThinking ++ argumentDeltas slot.blockIdx call)
  | call (call : ToolCallDelta) (hnew : c.tools.find? call.index = none) :
    Fed c (.call call) { c with
        thinkingOpen := false
        nextBlockIdx := c.nextBlockIdx + 1
        tools := c.tools.insert call.index
          { (ToolSlot.fresh call c.nextBlockIdx).update call with started := true } }
      (c.stopThinking ++ .contentBlockStart c.nextBlockIdx
        (.toolUse (call.id.getD "") (call.name.getD "")) ::
        argumentDeltas c.nextBlockIdx call)

theorem closeThinking_eq (c : StreamConverter) :
    closeThinking c = ({ c with thinkingOpen := false }, c.stopThinking) := by
  unfold closeThinking stopThinking
  cases hopen : c.thinkingOpen with
  | true => rfl
  | false =>
    cases c
    cases hopen
    rfl

theorem fed {c : StreamConverter} {past : List Event} (h : Ledger c past) (piece : Piece) :
    Fed c piece (feedPiece piece c).1 (feedPiece piece c).2 := by
  cases piece with
  | reasoning text =>
    cases hexpose : c.exposeThinking with
    | false => simpa [feedPiece, feedReasoning, hexpose] using Fed.hidden text hexpose
    | true =>
      cases hopen : c.thinkingOpen with
      | true =>
        have hfed := Fed.thinkOn text hexpose hopen
        simpa [feedPiece, feedReasoning, hexpose, andThen, openThinking, hopen] using hfed
      | false =>
        have hfed := Fed.think text hexpose hopen
        simpa [feedPiece, feedReasoning, hexpose, andThen, openThinking, hopen] using hfed
  | content text =>
    cases hopen : c.textOpen with
    | true =>
      have hfed := Fed.textOn text hopen
      simpa [feedPiece, feedContent, andThen, closeThinking_eq, silent, openText, hopen] using hfed
    | false =>
      have hfed := Fed.text text hopen
      simpa [feedPiece, feedContent, andThen, closeThinking_eq, silent, openText, hopen] using hfed
  | call call =>
    cases hfind : c.tools.find? call.index with
    | some slot =>
      have hstarted : slot.started = true := h.slotsStarted call.index slot hfind
      have hfed := Fed.callOn call slot hfind
      simpa [feedPiece, feedToolCall, feedSlot, slotFor, andThen, closeThinking_eq, hfind, hstarted,
        argumentDeltas, ToolSlot.update] using hfed
    | none =>
      have hfed := Fed.call call hfind
      simpa [feedPiece, feedToolCall, feedSlot, slotFor, andThen, closeThinking_eq, hfind,
        argumentDeltas, ToolSlot.update, ToolSlot.fresh] using hfed

theorem keeps_feedPiece (piece : Piece) : Keeps Begun (feedPiece piece) := by
  cases piece with
  | reasoning text =>
    exact (keeps_feedReasoning text).and (flags_feedDelta true false (.reasoning text))
  | content text =>
    have hledger : Keeps Ledger (feedContent text) :=
      (leads_feedContent text).imp (fun _ _ h => h) fun _ _ h => h.1
    exact hledger.and (flags_feedDelta true false (.content text))
  | call call =>
    have hflags : Keeps (Flags true false) (feedToolCall call) :=
      (flags_closeThinking true false).andThen (flags_feedSlot true false call)
    exact (keeps_feedToolCall call).and hflags

/-- An invariant about the blocks, which the pieces so far carry. -/
structure Steady (inv : List Piece → StreamConverter → List Event → Prop) : Prop where
  note : ∀ pieces c past started finishReason usage model, inv pieces c past →
    inv pieces { c with started, finishReason, usage, model } past
  start : ∀ pieces c past id model, inv pieces c past →
    inv pieces c (past ++ [.messageStart id model])
  feed : ∀ pieces c past piece c' events, Ledger c past → Fed c piece c' events →
    inv pieces c past →
    inv (pieces ++ [piece]) c' (past ++ events)

section Steady
variable {inv : List Piece → StreamConverter → List Event → Prop}

theorem Steady.leads_feedPiece (h : Steady inv) (pieces : List Piece) (piece : Piece) :
    Leads (fun c past => Begun c past ∧ inv pieces c past)
      (fun c past => Begun c past ∧ inv (pieces ++ [piece]) c past) (feedPiece piece) := by
  rintro c past ⟨hbegun, hinv⟩
  refine ⟨keeps_feedPiece piece c past hbegun, ?_⟩
  exact h.feed pieces c past piece _ _ hbegun.1 (fed hbegun.1 piece) hinv

theorem Steady.leads_feedDelta (h : Steady inv) (pieces : List Piece) (delta : Delta) :
    Leads (fun c past => Begun c past ∧ inv pieces c past)
      (fun c past => Begun c past ∧ inv (pieces ++ delta.pieces) c past) (feedDelta delta) := by
  have hpieces := leads_forEach h.leads_feedPiece delta.pieces pieces
  rw [List.flatMap_singleton'] at hpieces
  rw [feedDelta_eq]
  refine Leads.andThen (leads_silent ?_) hpieces
  rintro c past ⟨⟨hledger, hflags⟩, hinv⟩
  refine ⟨⟨?_, hflags⟩, h.note pieces c past c.started _ c.usage c.model hinv⟩
  exact ⟨hledger.legal, hledger.running, hledger.count, hledger.opens, hledger.slotsStarted,
    hledger.slotsDistinct⟩

theorem Steady.leads_feedChunk (h : Steady inv) (pieces : List Piece) (chunk : Json) :
    Leads (fun c past => Unfinished c past ∧ inv pieces c past)
      (fun c past => Unfinished c past ∧ inv (pieces ++ chunkPieces chunk) c past)
        (feedChunk chunk) := by
  rintro c past ⟨hunfinished, hinv⟩
  have hfinished : c.finished = false := by
    rcases hunfinished with hunfinished | hunfinished
    · exact hunfinished.2.2
    · exact hunfinished.2.2
  have hchunk := StreamConverter.leads_feedChunk chunk c past hunfinished
  refine ⟨.inr hchunk, ?_⟩
  unfold feedChunk
  rw [if_neg (by rw [hfinished]; exact Bool.false_ne_true)]
  have hnote : Leads (fun c past => Unfinished c past ∧ inv pieces c past)
      (fun c past => Unfinished c past ∧ inv pieces c past) (silent (noteChunk chunk)) := by
    refine leads_silent ?_
    rintro c past ⟨hunfinished, hinv⟩
    refine ⟨?_, h.note pieces c past c.started c.finishReason _ _ hinv⟩
    rcases hunfinished with hunfinished | ⟨hledger, hflags⟩
    · exact .inl hunfinished
    · exact .inr
        ⟨⟨hledger.legal, hledger.running, hledger.count, hledger.opens, hledger.slotsStarted,
        hledger.slotsDistinct⟩, hflags⟩
  have hstart : Leads (fun c past => Unfinished c past ∧ inv pieces c past)
      (fun c past => Begun c past ∧ inv pieces c past) ensureStarted := by
    rintro c past ⟨hunfinished, hinv⟩
    refine ⟨leads_ensureStarted c past hunfinished, ?_⟩
    unfold ensureStarted
    split_ifs
    · rw [List.append_nil]
      exact hinv
    · exact h.start pieces _ past _ _
        (h.note pieces c past true c.finishReason c.usage c.model hinv)
  have hdeltas := leads_forEach h.leads_feedDelta (chunkDeltas chunk) pieces
  exact ((hnote.andThen (hstart.andThen hdeltas)) c past ⟨hunfinished, hinv⟩).2

/-- What holds of a new converter, and of each step, holds after any chunks. -/
theorem Steady.feedChunks (h : Steady inv) {hex : String} {exposeThinking : Bool}
    (hnew : inv [] (new hex exposeThinking) []) (chunks : List Json) :
    Unfinished (forEach feedChunk chunks (new hex exposeThinking)).1
        (forEach feedChunk chunks (new hex exposeThinking)).2 ∧
      inv (chunks.flatMap chunkPieces) (forEach feedChunk chunks (new hex exposeThinking)).1
        (forEach feedChunk chunks (new hex exposeThinking)).2 :=
  leads_forEach h.leads_feedChunk chunks [] (new hex exposeThinking) []
    ⟨unfinished_new hex exposeThinking, hnew⟩

end Steady

end StreamConverter

namespace Event

def text? : Event → Option String
  | contentBlockDelta _ (.text text) => some text
  | _ => none

def thinking? : Event → Option String
  | contentBlockDelta _ (.thinking thinking) => some thinking
  | _ => none

def inputJsonAt? (i : Nat) : Event → Option String
  | contentBlockDelta index (.inputJson partialJson) => if index = i then some partialJson else none
  | _ => none

end Event

namespace StreamConverter

structure Spoken (expose : Bool) (pieces : List Piece) (c : StreamConverter) (past : List Event) :
    Prop where
  exposed : c.exposeThinking = expose
  text : written Event.text? past = c.textAccum
  thinking : written Event.thinking? past = if expose then c.thinkingAccum else ""
  contents : c.textAccum = contents pieces
  reasonings : c.thinkingAccum = reasonings pieces

/-- Each tool call has a block of its own, which gets the fragments of its index only. -/
structure Routed (pieces : List Piece) (c : StreamConverter) (past : List Event) : Prop where
  sent : ∀ index slot, c.tools.find? index = some slot →
    written (Event.inputJsonAt? slot.blockIdx) past = slot.arguments
  received : ∀ index slot, c.tools.find? index = some slot →
    slot.arguments = argumentsAt index pieces
  called : ∀ index, c.tools.contains index = true ↔ callsAt index pieces ≠ []
  routed : ∀ i s, .contentBlockDelta i (.inputJson s) ∈ past →
    ∃ index slot, c.tools.find? index = some slot ∧ slot.blockIdx = i

section Account
variable {expose : Bool} {c c' : StreamConverter} {past events : List Event} {pieces : List Piece}
  {piece : Piece}

theorem written_stopThinking {select : Event → Option String}
    (h : ∀ i, select (.contentBlockStop i) = none) : written select c.stopThinking = "" := by
  unfold stopThinking
  split_ifs
  · rw [written_singleton, h]
    rfl
  · rfl

theorem mem_stopThinking {e : Event} (h : e ∈ c.stopThinking) :
    e = .contentBlockStop c.thinkingIdx := by
  unfold stopThinking at h
  split_ifs at h
  · exact List.mem_singleton.mp h
  · cases h

theorem mem_argumentDeltas {blockIdx : Nat} {call : ToolCallDelta} {e : Event}
    (h : e ∈ argumentDeltas blockIdx call) :
    ∃ s, e = .contentBlockDelta blockIdx (.inputJson s) := by
  obtain ⟨s, -, rfl⟩ := List.mem_map.mp h
  exact ⟨s, rfl⟩

theorem written_argumentDeltas (blockIdx i : Nat) (call : ToolCallDelta) :
    written (Event.inputJsonAt? i) (argumentDeltas blockIdx call) =
      if blockIdx = i then call.arguments.getD "" else "" := by
  unfold argumentDeltas
  cases call.arguments with
  | none => simp
  | some s =>
    by_cases hempty : s = ""
    · simp [Option.filter, hempty]
    · simp only [Option.filter, hempty, ne_eq, not_false_eq_true, decide_true, if_true,
        Option.toList_some, List.map_cons, List.map_nil, written_singleton, Event.inputJsonAt?,
        Option.getD_some]
      split_ifs <;> rfl

theorem written_argumentDeltas_eq_empty {select : Event → Option String}
    (h : ∀ i s, select (.contentBlockDelta i (.inputJson s)) = none) (blockIdx : Nat)
    (call : ToolCallDelta) : written select (argumentDeltas blockIdx call) = "" :=
  written_eq_empty fun e he => by
    obtain ⟨s, rfl⟩ := mem_argumentDeltas he
    exact h blockIdx s

theorem Spoken.extend (h : Spoken expose pieces c past)
    (hexposed : c'.exposeThinking = c.exposeThinking)
    (hcontent : c'.textAccum = c.textAccum ++ piece.content?.getD "")
    (hreasoning : c'.thinkingAccum = c.thinkingAccum ++ piece.reasoning?.getD "")
    (htext : written Event.text? events = piece.content?.getD "")
    (hthinking : written Event.thinking? events = if c.exposeThinking then
      piece.reasoning?.getD "" else "") :
    Spoken expose (pieces ++ [piece]) c' (past ++ events) where
  exposed := hexposed.trans h.exposed
  text := by rw [written_append, h.text, htext, hcontent]
  thinking := by
    rw [written_append, h.thinking, hthinking, hreasoning, h.exposed]
    cases expose with
    | true => rfl
    | false => exact String.append_empty
  contents := by
    rw [hcontent, h.contents, Chat.contents, Chat.contents, written_append, written_singleton]
  reasonings := by
    rw [hreasoning, h.reasonings, Chat.reasonings, Chat.reasonings, written_append,
      written_singleton]

theorem Spoken.feed (h : Spoken expose pieces c past) (hfed : Fed c piece c' events) :
    Spoken expose (pieces ++ [piece]) c' (past ++ events) := by
  have hempty : ∀ s : String, s = s ++ "" := fun s => String.append_empty.symm
  have hstop {select : Event → Option String} (hselect : ∀ i, select (.contentBlockStop i) = none)
      (more : List Event) : written select (c.stopThinking ++ more) = written select more := by
    rw [written_append, written_stopThinking hselect, String.empty_append]
  cases hfed with
  | hidden text hexpose => exact h.extend rfl (hempty _) rfl rfl (by rw [hexpose]; rfl)
  | thinkOn text hexpose | think text hexpose =>
    refine h.extend rfl (hempty _) rfl (written_eq_empty ?_) ?_
    · simp [Event.text?]
    · rw [hexpose]
      simp [written_cons, Event.thinking?, Piece.reasoning?]
  | textOn text | text text =>
    refine h.extend rfl rfl (hempty _) ?_ ?_
    · rw [hstop fun _ => rfl]
      simp [written_cons, Event.text?, Piece.content?]
    · rw [hstop fun _ => rfl]
      exact (written_eq_empty (by simp [Event.thinking?])).trans (ite_self "").symm
  | callOn call slot =>
    refine h.extend rfl (hempty _) (hempty _) ?_ ?_
    · rw [hstop fun _ => rfl]
      exact written_argumentDeltas_eq_empty (fun _ _ => rfl) _ _
    · rw [hstop fun _ => rfl]
      exact (written_argumentDeltas_eq_empty (fun _ _ => rfl) _ _).trans (ite_self "").symm
  | call call =>
    refine h.extend rfl (hempty _) (hempty _) ?_ ?_
    · rw [hstop fun _ => rfl, written_cons]
      exact written_argumentDeltas_eq_empty (fun _ _ => rfl) _ _
    · rw [hstop fun _ => rfl, written_cons]
      exact (written_argumentDeltas_eq_empty (fun _ _ => rfl) _ _).trans (ite_self "").symm

theorem Routed.quiet (h : Routed pieces c past) (htools : c'.tools = c.tools)
    (hpiece : ∀ index, piece.callAt? index = none)
      (hevents : ∀ e ∈ events, ∀ i, e.inputJsonAt? i = none) :
    Routed (pieces ++ [piece]) c' (past ++ events) where
  sent := by
    intro index slot hslot
    rw [htools] at hslot
    rw [written_append, h.sent index slot hslot, written_eq_empty fun e he => hevents e he _,
      String.append_empty]
  received := by
    intro index slot hslot
    rw [htools] at hslot
    rw [argumentsAt_snoc, h.received index slot hslot, Piece.arguments?, hpiece]
    simp
  called := by
    intro index
    rw [htools, h.called, callsAt_snoc, hpiece]
    simp
  routed := by
    intro i s hmem
    rw [htools]
    rcases List.mem_append.mp hmem with hpast | hnew
    · exact h.routed i s hpast
    · have hnone := hevents _ hnew i
      simp [Event.inputJsonAt?] at hnone

theorem Routed.call (h : Routed pieces c past) {call : ToolCallDelta} (slot : ToolSlot)
    {start : List Event}
    (htools : c'.tools = c.tools.insert call.index slot)
    (harguments : slot.arguments = argumentsAt call.index pieces ++ call.arguments.getD "")
    (hsent : written (Event.inputJsonAt? slot.blockIdx) past = argumentsAt call.index pieces)
    (hothers : ∀ index other, c.tools.find? index = some other → index ≠ call.index →
      other.blockIdx ≠ slot.blockIdx)
    (hsame : ∀ old, c.tools.find? call.index = some old → old.blockIdx = slot.blockIdx)
    (hstart : ∀ e ∈ start, ∀ i, e.inputJsonAt? i = none) :
    Routed (pieces ++ [.call call]) c' (past ++ (start ++ argumentDeltas slot.blockIdx call)) := by
  have hfind : ∀ index other, c'.tools.find? index = some other →
      (index = call.index ∧ other = slot) ∨
      (index ≠ call.index ∧ c.tools.find? index = some other) := by
    intro index other hother
    rw [htools, SortedMap.find?_insert] at hother
    split_ifs at hother with hindex
    · exact .inl ⟨hindex.symm, (Option.some.inj hother).symm⟩
    · exact .inr ⟨fun heq => hindex heq.symm, hother⟩
  have hwritten :
      ∀ i, written (Event.inputJsonAt? i) (past ++ (start ++ argumentDeltas slot.blockIdx call)) =
      written (Event.inputJsonAt? i) past ++ if slot.blockIdx = i then
      call.arguments.getD "" else "" := by
    intro i
    rw [written_append, written_append, written_eq_empty fun e he => hstart e he i,
      written_argumentDeltas, String.empty_append]
  have hpiece : ∀ index, ((Piece.call call).arguments? index).getD "" =
      if call.index = index then call.arguments.getD "" else "" := by
    intro index
    simp only [Piece.arguments?, Piece.callAt?]
    split_ifs <;> rfl
  refine ⟨?_, ?_, ?_, ?_⟩
  case refine_1 =>
    intro index other hother
    rw [hwritten]
    rcases hfind index other hother with ⟨-, rfl⟩ | ⟨hne, hold⟩
    · rw [if_pos rfl, hsent, harguments]
    · rw [if_neg (hothers index other hold hne).symm, String.append_empty, h.sent index other hold]
  case refine_2 =>
    intro index other hother
    rw [argumentsAt_snoc, hpiece]
    rcases hfind index other hother with ⟨rfl, rfl⟩ | ⟨hne, hold⟩
    · rw [if_pos rfl, harguments]
    · rw [if_neg (Ne.symm hne), String.append_empty, h.received index other hold]
  case refine_3 =>
    intro index
    rw [callsAt_snoc]
    unfold SortedMap.contains
    rw [htools, SortedMap.find?_insert]
    by_cases hindex : call.index = index
    · simp [Piece.callAt?, hindex]
    · have hcalled := h.called index
      unfold SortedMap.contains at hcalled
      simpa [Piece.callAt?, hindex] using hcalled
  case refine_4 =>
    intro i s hmem
    rcases List.mem_append.mp hmem with hpast | hnew
    · obtain ⟨index, other, hother, hi⟩ := h.routed i s hpast
      by_cases hindex : call.index = index
      · subst hindex
        refine ⟨call.index, slot, by rw [htools, SortedMap.find?_insert_self], ?_⟩
        rw [← hi, hsame other hother]
      · refine ⟨index, other, ?_, hi⟩
        rw [htools, SortedMap.find?_insert_ne _ _ hindex, hother]
    · rcases List.mem_append.mp hnew with hstarted | hdelta
      · have hnone := hstart _ hstarted i
        simp [Event.inputJsonAt?] at hnone
      · obtain ⟨s', heq⟩ := mem_argumentDeltas hdelta
        cases heq
        exact ⟨call.index, slot, by rw [htools, SortedMap.find?_insert_self], rfl⟩

theorem Routed.feed (h : Routed pieces c past) (hledger : Ledger c past)
    (hfed : Fed c piece c' events) :
    Routed (pieces ++ [piece]) c' (past ++ events) := by
  have hstop : ∀ e ∈ c.stopThinking, ∀ i, e.inputJsonAt? i = none := by
    intro e he i
    rw [mem_stopThinking he]
    rfl
  cases hfed with
  | hidden text => exact h.quiet rfl (fun _ => rfl) nofun
  | thinkOn text => exact h.quiet rfl (fun _ => rfl) (by simp [Event.inputJsonAt?])
  | think text => exact h.quiet rfl (fun _ => rfl) (by simp [Event.inputJsonAt?])
  | textOn text =>
    refine h.quiet rfl (fun _ => rfl) fun e he i => ?_
    rcases List.mem_append.mp he with hstopped | hdelta
    · exact hstop e hstopped i
    · rw [List.mem_singleton.mp hdelta]
      rfl
  | text text =>
    refine h.quiet rfl (fun _ => rfl) fun e he i => ?_
    rcases List.mem_append.mp he with hstopped | hmore
    · exact hstop e hstopped i
    · simp only [List.mem_cons, List.not_mem_nil, or_false] at hmore
      rcases hmore with rfl | rfl <;> rfl
  | callOn call slot hslot =>
    have hreceived := h.received call.index slot hslot
    let slot' : ToolSlot := { slot.update call with started := true }
    refine h.call slot' rfl ?_ ?_ ?_ ?_ hstop
    · rw [← hreceived]
      rfl
    · exact (h.sent call.index slot hslot).trans hreceived
    · intro index other hother hne hblock
      exact hne (hledger.slotsDistinct index call.index other slot hother hslot hblock)
    · intro old hold
      rw [Option.some.inj (hold.symm.trans hslot)]
      rfl
  | call call hnew =>
    -- nothing has been sent to a block that no slot holds yet
    have hnone : argumentsAt call.index pieces = "" := by
      have hcalls : callsAt call.index pieces = [] := by
        by_contra hne
        have hcontains := (h.called call.index).mpr hne
        rw [SortedMap.contains, hnew] at hcontains
        cases hcontains
      rw [argumentsAt_eq, hcalls, written_nil]
    have hlt : ∀ index other, c.tools.find? index = some other → other.blockIdx < c.nextBlockIdx :=
      fun index other hother => hledger.lt_nextBlockIdx
        (.inr (.inr ⟨rfl, index, other, hother, rfl⟩))
    let slot : ToolSlot := { (ToolSlot.fresh call c.nextBlockIdx).update call with started := true }
    rw [List.append_cons c.stopThinking]
    refine h.call slot rfl ?_ ?_ ?_ ?_ ?_
    · rw [hnone]
      rfl
    · rw [hnone]
      refine written_eq_empty fun e he => ?_
      cases e with
      | contentBlockDelta i delta =>
        cases delta with
        | inputJson s =>
          obtain ⟨index, other, hother, hi⟩ := h.routed i s he
          have hne : i ≠ c.nextBlockIdx := by
            have := hlt index other hother
            omega
          exact if_neg hne
        | _ => rfl
      | _ => rfl
    · intro index other hother _
      exact Nat.ne_of_lt (hlt index other hother)
    · intro old hold
      rw [hnew] at hold
      cases hold
    · intro e he i
      rcases List.mem_append.mp he with hstopped | hstart
      · exact hstop e hstopped i
      · rw [List.mem_singleton.mp hstart]
        rfl

theorem steady_spoken : Steady (Spoken expose) where
  note := fun _ _ _ _ _ _ _ h => ⟨h.exposed, h.text, h.thinking, h.contents, h.reasonings⟩
  start := by
    intro pieces c past id model h
    refine ⟨h.exposed, ?_, ?_, h.contents, h.reasonings⟩
    · rw [written_append, h.text]
      exact String.append_empty
    · rw [written_append, h.thinking]
      exact String.append_empty
  feed := fun _ _ _ _ _ _ _ hfed h => h.feed hfed

theorem steady_routed : Steady Routed where
  note := fun _ _ _ _ _ _ _ h => ⟨h.sent, h.received, h.called, h.routed⟩
  start := by
    intro pieces c past id model h
    refine ⟨fun index slot hslot => ?_, h.received, h.called, fun i s hmem => ?_⟩
    · rw [written_append, h.sent index slot hslot]
      exact String.append_empty
    · rcases List.mem_append.mp hmem with hpast | hstart
      · exact h.routed i s hpast
      · cases List.mem_singleton.mp hstart
  feed := fun _ _ _ _ _ _ hledger hfed h => h.feed hledger hfed

theorem spoken_new (hex : String) (expose : Bool) : Spoken expose [] (new hex expose) [] := by
  refine ⟨rfl, rfl, ?_, rfl, rfl⟩
  cases expose <;> rfl

theorem routed_new (hex : String) (expose : Bool) : Routed [] (new hex expose) [] :=
  ⟨nofun, nofun, fun index => by simp [callsAt, new, SortedMap.contains], nofun⟩

theorem Unfinished.slotsDistinct (h : Unfinished c past) (a b : Int) (s t : ToolSlot)
    (ha : c.tools.find? a = some s) (hb : c.tools.find? b = some t)
      (hst : s.blockIdx = t.blockIdx) :
    a = b := by
  rcases h with ⟨⟨-, -, -, -, hempty⟩, -⟩ | ⟨hledger, -⟩
  · rw [hempty] at ha
    cases ha
  · exact hledger.slotsDistinct a b s t ha hb hst

end Account

/-- What the client has been sent, what has been accumulated and what the chunks held. -/
structure Delivered (expose : Bool) (chunks : List Json) (c : StreamConverter)
    (events : List Event) :
    Prop where
  text : written Event.text? events = c.accumulated.text
  contents : c.accumulated.text = written some (chunks.flatMap chunkContents)
  thinking : written Event.thinking? events = if expose then c.accumulated.reasoning else ""
  reasonings : c.accumulated.reasoning = written some (chunks.flatMap chunkReasonings)
  /-- Each upstream index has a slot, and no other index has one. -/
  indices : ∀ index, c.tools.contains index = true ↔
    ∃ call ∈ chunks.flatMap chunkToolCalls, call.index = index
  /-- The block of an index gets just the arguments accumulated for it … -/
  sent : ∀ index slot, c.tools.find? index = some slot →
    written (Event.inputJsonAt? slot.blockIdx) events = slot.accum.arguments
  /-- … which are the fragments of that index in order. -/
  received : ∀ index slot, c.tools.find? index = some slot → slot.accum.arguments =
    written ToolCallDelta.arguments
      ((chunks.flatMap chunkToolCalls).filter fun call => call.index = index)
  /-- No two indices share a block. -/
  distinct : ∀ a b s t, c.tools.find? a = some s → c.tools.find? b = some t →
    s.blockIdx = t.blockIdx → a = b
  /-- Every fragment goes to the block of some index. -/
  routed : ∀ i s, .contentBlockDelta i (.inputJson s) ∈ events →
    ∃ index slot, c.tools.find? index = some slot ∧ slot.blockIdx = i

/-- Nothing is lost, doubled or sent to another block, however the upstream interleaves. -/
theorem feedChunks_delivered (hex : String) (expose : Bool) (chunks : List Json) :
    Delivered expose chunks (forEach feedChunk chunks (new hex expose)).1
      (forEach feedChunk chunks (new hex expose)).2 := by
  obtain ⟨-, hspoken⟩ := steady_spoken.feedChunks (spoken_new hex expose) chunks
  obtain ⟨hunfinished, hrouted⟩ := steady_routed.feedChunks (routed_new hex expose) chunks
  generalize forEach feedChunk chunks (new hex expose) = fed at *
  constructor
  case text => exact hspoken.text
  case contents => exact hspoken.contents.trans (contents_chunks chunks)
  case thinking => exact hspoken.thinking
  case reasonings => exact hspoken.reasonings.trans (reasonings_chunks chunks)
  case indices =>
    intro index
    rw [hrouted.called, callsAt_chunks, Ne, List.filter_eq_nil_iff]
    push Not
    simp only [decide_eq_true_eq]
  case sent => exact hrouted.sent
  case received =>
    intro index slot hslot
    rw [← callsAt_chunks, ← argumentsAt_eq]
    exact hrouted.received index slot hslot
  case distinct => exact hunfinished.slotsDistinct
  case routed => exact hrouted.routed

end StreamConverter
end Lobster.Anthropic
