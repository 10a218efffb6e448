import Mathlib.Data.List.Perm.Basic
import Mathlib.Data.List.Nodup
import Mathlib.Data.List.TakeWhile

/-! Transcripts of turns that open calls and answers that close them, over an
arbitrary type of call ids. -/

namespace Lobster

inductive Step (ι : Type) where
  | turn (calls : List ι)
  | answer (id : ι)
  deriving DecidableEq, Repr

namespace Step
variable {ι : Type}

def answer? : Step ι → Option ι
  | turn _ => none
  | answer id => some id

def isAnswer (s : Step ι) : Bool := s.answer?.isSome

end Step

namespace Transcript
variable {ι : Type} [DecidableEq ι]

/-- The open calls after the steps, unless some call reuses an open id or some
answer finds no open call. -/
def settle : List ι → List (Step ι) → Option (List ι)
  | opened, [] => some opened
  | opened, .turn calls :: rest =>
    if (opened ++ calls).Nodup then settle (opened ++ calls) rest else none
  | opened, .answer id :: rest => if id ∈ opened then settle (opened.erase id) rest else none

def leadingAnswers (t : List (Step ι)) : List ι :=
  (t.takeWhile Step.isAnswer).filterMap Step.answer?

/-- Each turn with calls is followed at once by the answers of exactly its calls. -/
def AnsweredAtOnce (t : List (Step ι)) : Prop :=
  ∀ pre calls post, t = pre ++ .turn calls :: post → calls ≠ [] → (leadingAnswers post).Perm calls

def QuietFrom (opened : List ι) (t : List (Step ι)) : Prop :=
  ∀ pre calls post, t = pre ++ .turn calls :: post → settle opened pre = some []

def QuietTurns (t : List (Step ι)) : Prop := QuietFrom [] t

omit [DecidableEq ι] in
@[simp] theorem leadingAnswers_nil : leadingAnswers ([] : List (Step ι)) = [] := rfl

omit [DecidableEq ι] in
@[simp] theorem leadingAnswers_turn (calls : List ι) (rest : List (Step ι)) :
    leadingAnswers (.turn calls :: rest) = [] := rfl

omit [DecidableEq ι] in
@[simp] theorem leadingAnswers_answer (id : ι) (rest : List (Step ι)) :
    leadingAnswers (.answer id :: rest) = id :: leadingAnswers rest := rfl

theorem settle_append (opened : List ι) (a b : List (Step ι)) :
    settle opened (a ++ b) = (settle opened a).bind (fun o => settle o b) := by
  induction a generalizing opened with
  | nil => rfl
  | cons s a ih =>
    cases s <;> simp only [List.cons_append, settle] <;> split_ifs <;> simp [ih]

theorem settle_turn_eq_some {opened calls : List ι} {rest : List (Step ι)} {out : List ι}
    (h : settle opened (.turn calls :: rest) = some out) :
    (opened ++ calls).Nodup ∧ settle (opened ++ calls) rest = some out := by
  unfold settle at h
  split_ifs at h with hnodup
  exact ⟨hnodup, h⟩

theorem settle_answer_eq_some {opened : List ι} {id : ι} {rest : List (Step ι)} {out : List ι}
    (h : settle opened (.answer id :: rest) = some out) :
    id ∈ opened ∧ settle (opened.erase id) rest = some out := by
  unfold settle at h
  split_ifs at h with hmem
  exact ⟨hmem, h⟩

omit [DecidableEq ι] in
theorem AnsweredAtOnce.tail {s : Step ι} {t : List (Step ι)} (h : AnsweredAtOnce (s :: t)) :
    AnsweredAtOnce t :=
  fun pre calls post ht => h (s :: pre) calls post (by rw [ht, List.cons_append])

theorem leadingAnswers_of_settle_nil {t : List (Step ι)} (h : settle [] t = some []) :
    leadingAnswers t = [] := by
  cases t with
  | nil => rfl
  | cons s rest =>
    cases s with
    | turn calls => rfl
    | answer id => exact absurd (settle_answer_eq_some h).1 List.not_mem_nil

theorem quietFrom_of_answeredAtOnce {t : List (Step ι)} {opened : List ι}
    (hsettle : settle opened t = some []) (hlead : (leadingAnswers t).Perm opened)
    (h : AnsweredAtOnce t) : QuietFrom opened t := by
  induction t generalizing opened with
  | nil =>
    intro pre calls post ht
    exact absurd (congrArg List.length ht) (by simp)
  | cons s rest ih =>
    cases s with
    | answer id =>
      obtain ⟨hmem, hrest⟩ := settle_answer_eq_some hsettle
      have hlead' : (leadingAnswers rest).Perm (opened.erase id) :=
        (List.cons_perm_iff_perm_erase.mp hlead).2
      have hquiet := ih hrest hlead' h.tail
      intro pre calls post ht
      cases pre with
      | nil => cases ht
      | cons p pre =>
        obtain ⟨hp, htail⟩ := List.cons.inj ht
        subst hp
        have hpre := hquiet pre calls post htail
        unfold settle
        rw [if_pos hmem, hpre]
    | turn calls =>
      have hopened : opened = [] := List.nil_perm.mp hlead
      subst hopened
      obtain ⟨hnodup, hrest⟩ := settle_turn_eq_some hsettle
      rw [List.nil_append] at hnodup hrest
      have hlead' : (leadingAnswers rest).Perm calls := by
        by_cases hc : calls = []
        · subst hc
          rw [leadingAnswers_of_settle_nil hrest]
        · exact h [] calls rest rfl hc
      have hquiet := ih hrest hlead' h.tail
      intro pre calls' post ht
      cases pre with
      | nil => rfl
      | cons p pre =>
        obtain ⟨hp, htail⟩ := List.cons.inj ht
        subst hp
        have hpre := hquiet pre calls' post htail
        unfold settle
        rw [List.nil_append, if_pos hnodup, hpre]

theorem answeredAtOnce_of_quietFrom {t : List (Step ι)} {opened : List ι}
    (hsettle : settle opened t = some []) (h : QuietFrom opened t) :
    (leadingAnswers t).Perm opened ∧ AnsweredAtOnce t := by
  induction t generalizing opened with
  | nil =>
    have hopened : opened = [] := Option.some.inj hsettle
    subst hopened
    exact ⟨.nil, fun pre calls post ht => absurd (congrArg List.length ht) (by simp)⟩
  | cons s rest ih =>
    cases s with
    | answer id =>
      obtain ⟨hmem, hrest⟩ := settle_answer_eq_some hsettle
      have hquiet : QuietFrom (opened.erase id) rest := by
        intro pre calls post ht
        have hpre := h (.answer id :: pre) calls post (by rw [ht, List.cons_append])
        exact (settle_answer_eq_some hpre).2
      obtain ⟨hlead, hanswered⟩ := ih hrest hquiet
      refine ⟨List.cons_perm_iff_perm_erase.mpr ⟨hmem, hlead⟩, ?_⟩
      intro pre calls post ht hc
      cases pre with
      | nil => cases ht
      | cons p pre => exact hanswered pre calls post (List.cons.inj ht).2 hc
    | turn calls =>
      have hopened : opened = [] := Option.some.inj (h [] calls rest rfl)
      subst hopened
      obtain ⟨-, hrest⟩ := settle_turn_eq_some hsettle
      rw [List.nil_append] at hrest
      have hquiet : QuietFrom calls rest := by
        intro pre calls' post ht
        have hpre := h (.turn calls :: pre) calls' post (by rw [ht, List.cons_append])
        exact (settle_turn_eq_some hpre).2
      obtain ⟨hlead, hanswered⟩ := ih hrest hquiet
      refine ⟨.nil, ?_⟩
      intro pre calls' post ht hc
      cases pre with
      | nil =>
        obtain ⟨hturn, rfl⟩ := List.cons.inj ht
        cases hturn
        exact hlead
      | cons p pre => exact hanswered pre calls' post (List.cons.inj ht).2 hc

/-- In a settled transcript, answers follow their turn at once exactly when no
turn interrupts an open call. -/
theorem answeredAtOnce_iff_quietTurns {t : List (Step ι)} (h : settle [] t = some []) :
    AnsweredAtOnce t ↔ QuietTurns t := by
  constructor
  · intro ha
    refine quietFrom_of_answeredAtOnce h ?_ ha
    rw [leadingAnswers_of_settle_nil h]
  · intro hq
    exact (answeredAtOnce_of_quietFrom h hq).2

theorem settle_perm {opened opened' : List ι} (hp : opened.Perm opened') {t : List (Step ι)}
    {out : List ι} (h : settle opened t = some out) :
    ∃ out', settle opened' t = some out' ∧ out.Perm out' := by
  induction t generalizing opened opened' with
  | nil => exact ⟨opened', rfl, Option.some.inj h ▸ hp⟩
  | cons s rest ih =>
    cases s with
    | turn calls =>
      obtain ⟨hnodup, hrest⟩ := settle_turn_eq_some h
      have hp' := hp.append_right calls
      obtain ⟨out', hout, hperm⟩ := ih hp' hrest
      exact ⟨out', by unfold settle; rw [if_pos (hp'.nodup_iff.mp hnodup), hout], hperm⟩
    | answer id =>
      obtain ⟨hmem, hrest⟩ := settle_answer_eq_some h
      obtain ⟨out', hout, hperm⟩ := ih (hp.erase id) hrest
      exact ⟨out', by unfold settle; rw [if_pos (hp.mem_iff.mp hmem), hout], hperm⟩

end Transcript
end Lobster
