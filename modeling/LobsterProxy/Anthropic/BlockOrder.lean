import LobsterProxy.Anthropic.Outline

/-! The order of the blocks: thinking, text and tools come one after the other exactly
when the pieces do. -/

namespace Lobster.Anthropic
open Chat Emitter Trace Snoc

/-- The order in which the non-stream response gives the kinds. -/
def BlockKind.before : BlockKind → BlockKind → Bool
  | .thinking, .text => true
  | .thinking, .toolUse => true
  | .text, .toolUse => true
  | .toolUse, .toolUse => true
  | _, _ => false

namespace Head

def kind (head : Head) : BlockKind := head.block.kind

def isToolUse : Head → Bool
  | toolUse _ => true
  | _ => false

end Head

def plan (expose : Bool) (pieces : List Piece) : List Head :=
  (if expose && pieces.any Piece.isReasoning then [.thinking] else []) ++
    if pieces.any Piece.isContent then [.text] else []

/-- No kind of content comes before a kind that the non-stream response puts first. -/
def KindsInOrder (expose : Bool) (pieces : List Piece) : Prop :=
  (expose = true → reasoningLeads pieces = true) ∧ textLeads pieces = true

instance (expose : Bool) (pieces : List Piece) : Decidable (KindsInOrder expose pieces) := by
  unfold KindsInOrder
  infer_instance

section Outline
variable {expose : Bool} {pieces : List Piece} {piece : Piece}

theorem Outline.next_reasoning (o : Outline) (text : String) :
    (o.next expose (.reasoning text)).heads =
      o.heads ++ if expose && !o.thinking then [.thinking] else [] := by
  unfold Outline.next
  cases expose <;> cases o.thinking <;> simp

theorem outlineOf_thinking (expose : Bool) (pieces : List Piece) :
    (outlineOf expose pieces).thinking = (expose && pieces.getLast?.any Piece.isReasoning) := by
  induction pieces using List.reverseRecOn with
  | nil => cases expose <;> rfl
  | append_singleton pieces piece ih =>
    rw [outlineOf_snoc, List.getLast?_append]
    cases piece with
    | reasoning text =>
      cases expose with
      | true => rfl
      | false => simpa [Outline.next] using ih
    | content text => cases expose <;> rfl
    | call call => cases expose <;> rfl

theorem mem_outlineOf_text (expose : Bool) (pieces : List Piece) :
    .text ∈ (outlineOf expose pieces).heads ↔ pieces.any Piece.isContent = true := by
  induction pieces using List.reverseRecOn with
  | nil => simp [outlineOf]
  | append_singleton pieces piece ih =>
    rw [outlineOf_snoc, List.any_append, Bool.or_eq_true, ← ih]
    cases piece with
    | reasoning text =>
      rw [Outline.next_reasoning]
      split_ifs <;> simp [Piece.isContent]
    | content text =>
      by_cases htext : Head.text ∈ (outlineOf expose pieces).heads
      · simp [Outline.next, htext]
      · simp [Outline.next, htext, Piece.isContent]
    | call call =>
      by_cases hknown : some call.index ∈ (outlineOf expose pieces).heads.map Head.callIndex?
      · simp [Outline.next, Piece.isContent]
      · simp [Outline.next, Piece.isContent]

theorem outlineOf_calls (expose : Bool) (pieces : List Piece) :
    (outlineOf expose pieces).heads.filterMap Head.callIndex? = callOrder pieces := by
  induction pieces using List.reverseRecOn with
  | nil => rfl
  | append_singleton pieces piece ih =>
    rw [outlineOf_snoc]
    cases piece with
    | reasoning text =>
      rw [callOrder_snoc pieces rfl, ← ih, Outline.next_reasoning, List.filterMap_append]
      split_ifs <;> simp [Head.callIndex?]
    | content text =>
      rw [callOrder_snoc pieces rfl, ← ih]
      by_cases htext : Head.text ∈ (outlineOf expose pieces).heads
      · simp [Outline.next, htext]
      · simp [Outline.next, htext, Head.callIndex?]
    | call call =>
      have hmem : some call.index ∈ (outlineOf expose pieces).heads.map Head.callIndex? ↔
          call.index ∈ callOrder pieces := by
        rw [← ih, List.mem_filterMap, List.mem_map]
      rw [callOrder_call, ← ih]
      unfold Outline.next
      simp only [hmem, ih]
      split_ifs with hknown
      · rw [List.append_nil, ih]
      · rw [List.filterMap_append, ih]
        rfl

theorem kindsInOrder_snoc : KindsInOrder expose (pieces ++ [piece]) ↔ KindsInOrder expose pieces ∧
    (expose = true → pieces.all Piece.isReasoning = true ∨ piece.isReasoning = false) ∧
      (piece.isContent = true → pieces.any Piece.isContent = true ∨
        pieces.any Piece.isCall = false) := by
  unfold KindsInOrder
  rw [reasoningLeads_snoc, textLeads_snoc]
  cases piece.isReasoning <;> cases piece.isContent <;> cases expose <;>
    simp only [Bool.and_eq_true, Bool.or_eq_true, Bool.not_eq_true', forall_const, Bool.not_true,
      Bool.not_false, Bool.or_true, Bool.or_false, Bool.and_true, Bool.false_or, true_or, or_true,
      or_false, and_true, true_and, reduceCtorEq, IsEmpty.forall_iff] <;> tauto

theorem filter_toolUse_eq_nil (h : pieces.any Piece.isCall = false) :
    (outlineOf expose pieces).heads.filter Head.isToolUse = [] := by
  have hnone : callOrder pieces = [] := by
    have hindices : pieces.filterMap Piece.index? = [] := by
      rw [List.filterMap_eq_nil_iff]
      intro piece hpiece
      have hcall := List.any_eq_false.mp h piece hpiece
      cases piece <;> first | rfl | exact absurd rfl hcall
    rw [callOrder, hindices]
    rfl
  rw [← outlineOf_calls expose pieces, List.filterMap_eq_nil_iff] at hnone
  rw [List.filter_eq_nil_iff]
  intro head hhead htool
  have hindex := hnone head hhead
  cases head with
  | toolUse first => cases hindex
  | _ => cases htool

theorem any_eq_false_of_all {p q : Piece → Bool} (hpq : ∀ piece, p piece = true → q piece = false)
    (h : pieces.all p = true) : pieces.any q = false := by
  rw [List.any_eq_false]
  intro piece hpiece
  rw [hpq piece (List.all_eq_true.mp h piece hpiece)]
  exact Bool.false_ne_true

theorem heads_of_kindsInOrder (h : KindsInOrder expose pieces) : (outlineOf expose pieces).heads =
    plan expose pieces ++ (outlineOf expose pieces).heads.filter Head.isToolUse := by
  induction pieces using List.reverseRecOn with
  | nil => simp [outlineOf, plan]
  | append_singleton pieces piece ih =>
    obtain ⟨hbefore, hreasoning, hcontent⟩ := kindsInOrder_snoc.mp h
    have hheads := ih hbefore
    rw [outlineOf_snoc]
    cases piece with
    | reasoning text =>
      rw [Outline.next_reasoning]
      cases expose with
      | false =>
        have hplan : plan false (pieces ++ [.reasoning text]) = plan false pieces := by
          simp [plan, Piece.isContent]
        rw [hplan]
        simpa using hheads
      | true =>
        -- only reasoning so far: there is one block or none
        have hall : pieces.all Piece.isReasoning = true :=
          (hreasoning rfl).resolve_right fun h => Bool.false_ne_true h.symm
        have htext : pieces.any Piece.isContent = false :=
          any_eq_false_of_all
            (fun piece => by cases piece <;> simp [Piece.isReasoning, Piece.isContent]) hall
        have hcall : pieces.any Piece.isCall = false :=
          any_eq_false_of_all
            (fun piece => by cases piece <;> simp [Piece.isReasoning, Piece.isCall]) hall
        have hplan : plan true (pieces ++ [.reasoning text]) = [.thinking] := by
          simp [plan, Piece.isReasoning, Piece.isContent, htext]
        have hbefore : plan true pieces = if pieces.any Piece.isReasoning then
            [.thinking] else [] := by
          simp [plan, htext]
        rw [filter_toolUse_eq_nil hcall, List.append_nil, hbefore] at hheads
        rw [hplan, outlineOf_thinking, hheads]
        rcases List.eq_nil_or_concat pieces with rfl | ⟨before, last, rfl⟩
        · rfl
        · have hlast : last.isReasoning = true := List.all_eq_true.mp hall last (by simp)
          simp [hlast, Head.isToolUse]
    | content text =>
      have hreasoning : (pieces ++ [Piece.content text]).any Piece.isReasoning =
          pieces.any Piece.isReasoning := by
        simp [Piece.isReasoning]
      have htext : (pieces ++ [Piece.content text]).any Piece.isContent = true := by
        simp [Piece.isContent]
      unfold Outline.next
      simp only [mem_outlineOf_text]
      cases hknown : pieces.any Piece.isContent with
      | true =>
        rw [if_pos rfl, List.append_nil]
        unfold plan at hheads ⊢
        rw [hknown] at hheads
        rwa [hreasoning, htext]
      | false =>
        have hcall := (hcontent rfl).resolve_left (by rw [hknown]; exact Bool.false_ne_true)
        rw [filter_toolUse_eq_nil hcall, List.append_nil] at hheads
        rw [if_neg Bool.false_ne_true, hheads]
        unfold plan
        rw [hreasoning, htext, hknown]
        cases expose && pieces.any Piece.isReasoning <;> simp [Head.isToolUse]
    | call call =>
      have hplan : plan expose (pieces ++ [.call call]) = plan expose pieces := by
        simp [plan, Piece.isReasoning, Piece.isContent]
      dsimp only [Outline.next]
      rw [hplan, List.filter_append, ← List.append_assoc, ← hheads]
      split_ifs <;> rfl

theorem mem_outlineOf_thinking (expose : Bool) (pieces : List Piece) :
    .thinking ∈ (outlineOf expose pieces).heads ↔
      (expose && pieces.any Piece.isReasoning) = true := by
  induction pieces using List.reverseRecOn with
  | nil => simp [outlineOf]
  | append_singleton pieces piece ih =>
    rw [outlineOf_snoc, List.any_append]
    cases piece with
    | reasoning text =>
      rw [Outline.next_reasoning, List.mem_append, ih, outlineOf_thinking]
      cases expose with
      | false => simp
      | true =>
        cases hlast : pieces.getLast?.any Piece.isReasoning with
        | false => simp [Piece.isReasoning]
        | true =>
          obtain ⟨last, hlast, hreasoning⟩ := (Option.any_eq_true _ _).mp hlast
          have hany : pieces.any Piece.isReasoning = true :=
            List.any_eq_true.mpr ⟨last, List.mem_of_getLast? hlast, hreasoning⟩
          simp [hany]
    | content text =>
      rw [Outline.next]
      split_ifs <;> simp [ih, Piece.isReasoning]
    | call call =>
      rw [Outline.next]
      split_ifs <;> simp [ih, Piece.isReasoning]

theorem exists_toolUse (expose : Bool) (h : pieces.any Piece.isCall = true) :
    ∃ first, .toolUse first ∈ (outlineOf expose pieces).heads := by
  obtain ⟨piece, hpiece, hcall⟩ := List.any_eq_true.mp h
  cases piece with
  | call call =>
    have hmem : call.index ∈ callOrder pieces :=
      List.mem_eraseDups.mpr (List.mem_filterMap.mpr ⟨_, hpiece, rfl⟩)
    rw [← outlineOf_calls expose, List.mem_filterMap] at hmem
    obtain ⟨head, hhead, hindex⟩ := hmem
    cases head with
    | toolUse first => exact ⟨first, hhead⟩
    | _ => cases hindex
  | _ => cases hcall

theorem eq_nil_of_heads_eq_nil (h : (outlineOf true pieces).heads = []) : pieces = [] := by
  by_contra hne
  obtain ⟨piece, hpiece⟩ := List.exists_mem_of_ne_nil pieces hne
  have hsome : ∃ head, head ∈ (outlineOf true pieces).heads := by
    cases piece with
    | reasoning text =>
      have hany : pieces.any Piece.isReasoning = true := List.any_eq_true.mpr ⟨_, hpiece, rfl⟩
      exact ⟨.thinking, (mem_outlineOf_thinking true pieces).mpr hany⟩
    | content text =>
      exact ⟨.text, (mem_outlineOf_text true pieces).mpr (List.any_eq_true.mpr ⟨_, hpiece, rfl⟩)⟩
    | call call =>
      obtain ⟨first, hfirst⟩ := exists_toolUse true (List.any_eq_true.mpr ⟨_, hpiece, rfl⟩)
      exact ⟨.toolUse first, hfirst⟩
  rw [h] at hsome
  obtain ⟨head, hhead⟩ := hsome
  cases hhead

theorem all_isReasoning (hleads : reasoningLeads pieces = true)
    (hlast : pieces.getLast?.any Piece.isReasoning = true) :
    pieces.all Piece.isReasoning = true := by
  rcases List.eq_nil_or_concat pieces with rfl | ⟨before, last, rfl⟩
  · rfl
  · rw [List.concat_eq_append] at *
    have hreasoning : last.isReasoning = true := by simpa using hlast
    rw [reasoningLeads_snoc, hreasoning] at hleads
    simpa [hreasoning] using (Bool.and_eq_true_iff.mp hleads).2

theorem kindsInOrder_of_heads
    (h : ((outlineOf expose pieces).heads.map Head.kind).Pairwise fun a b => a.before b = true) :
    KindsInOrder expose pieces := by
  induction pieces using List.reverseRecOn with
  | nil => exact ⟨fun _ => rfl, rfl⟩
  | append_singleton pieces piece ih =>
    rw [outlineOf_snoc] at h
    have hnext : ∃ extra, ((outlineOf expose pieces).next expose piece).heads =
        (outlineOf expose pieces).heads ++ extra := by
      cases piece with
      | reasoning text => exact ⟨_, Outline.next_reasoning _ text⟩
      | content text => exact ⟨_, rfl⟩
      | call call => exact ⟨_, rfl⟩
    have hbefore : KindsInOrder expose pieces := by
      obtain ⟨extra, hextra⟩ := hnext
      rw [hextra, List.map_append] at h
      exact ih (List.pairwise_append.mp h).1
    refine kindsInOrder_snoc.mpr ⟨hbefore, ?_, ?_⟩
    · intro hexpose
      subst hexpose
      cases piece with
      | reasoning text =>
        left
        rw [Outline.next_reasoning, outlineOf_thinking] at h
        cases hlast : pieces.getLast?.any Piece.isReasoning with
        | true => exact all_isReasoning (hbefore.1 rfl) hlast
        | false =>
          -- a new thinking block is the first block
          have hnil : (outlineOf true pieces).heads = [] := by
            by_contra hne
            obtain ⟨head, hhead⟩ := List.exists_mem_of_ne_nil _ hne
            rw [hlast, List.map_append] at h
            have hpair := (List.pairwise_append.mp h).2.2 head.kind (List.mem_map_of_mem hhead)
              BlockKind.thinking (by simp [Head.kind, Head.block, ContentBlock.kind])
            cases hkind : head.kind <;> rw [hkind] at hpair <;> cases hpair
          rw [eq_nil_of_heads_eq_nil hnil]
          rfl
      | _ => exact .inr rfl
    · intro hcontent
      cases piece with
      | content text =>
        by_contra hnot
        rw [not_or, Bool.not_eq_true, Bool.not_eq_false] at hnot
        obtain ⟨first, hfirst⟩ := exists_toolUse expose hnot.2
        have htext : .text ∉ (outlineOf expose pieces).heads := by
          rw [mem_outlineOf_text, hnot.1]
          exact Bool.false_ne_true
        rw [Outline.next, if_neg htext, List.map_append] at h
        have hpair := (List.pairwise_append.mp h).2.2 BlockKind.toolUse
          (List.mem_map.mpr ⟨_, hfirst, rfl⟩) BlockKind.text
            (by simp [Head.kind, Head.block, ContentBlock.kind])
        cases hpair
      | _ => cases hcontent

end Outline

end Lobster.Anthropic
