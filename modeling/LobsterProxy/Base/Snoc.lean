import Mathlib.Data.List.Induction
import Mathlib.Data.List.Nodup
import Mathlib.Data.List.TakeWhile

/-! Lists that grow at the end: what a new last entry changes. -/

namespace Lobster.Snoc
variable {α : Type} {as : List α} {a b : α} {i : Nat}

theorem getElem?_snoc : (as ++ [a])[i]? = some b ↔ as[i]? = some b ∨ i = as.length ∧ a = b := by
  rw [List.getElem?_append]
  split_ifs with hi
  · constructor
    · exact .inl
    · rintro (hold | ⟨hlen, -⟩)
      · exact hold
      · omega
  · rw [List.getElem?_singleton, List.getElem?_eq_none (Nat.not_lt.mp hi)]
    constructor
    · intro hnew
      split_ifs at hnew with hzero
      exact .inr ⟨by omega, Option.some.inj hnew⟩
    · rintro (hold | ⟨hlen, rfl⟩)
      · cases hold
      · rw [if_pos (by omega)]

section Span
variable (p q : α → Bool) (as : List α) (a : α)

theorem any_takeWhile_snoc : ((as ++ [a]).takeWhile p).any q =
    ((as.takeWhile p).any q || (as.all p && (p a && q a))) := by
  induction as with
  | nil => cases hp : p a <;> simp [hp]
  | cons b as ih =>
    rw [List.cons_append, List.takeWhile_cons, List.takeWhile_cons, List.all_cons]
    cases p b with
    | true => simp [ih, Bool.or_assoc]
    | false => simp

theorem any_dropWhile_snoc : ((as ++ [a]).dropWhile p).any q =
    ((as.dropWhile p).any q || (!(as.all p && p a) && q a)) := by
  induction as with
  | nil => cases hp : p a <;> simp [hp]
  | cons b as ih =>
    rw [List.cons_append, List.dropWhile_cons, List.dropWhile_cons, List.all_cons]
    cases p b with
    | true => simpa using ih
    | false => simp [Bool.or_assoc]

theorem all_dropWhile_snoc : ((as ++ [a]).dropWhile p).all q =
    ((as.dropWhile p).all q && ((as.all p && p a) || q a)) := by
  induction as with
  | nil => cases hp : p a <;> simp [hp]
  | cons b as ih =>
    rw [List.cons_append, List.dropWhile_cons, List.dropWhile_cons, List.all_cons]
    cases p b with
    | true => simpa using ih
    | false => simp [Bool.and_assoc]

end Span

section Dups
variable [DecidableEq α]

theorem eraseDups_snoc (as : List α) (a : α) :
    (as ++ [a]).eraseDups = if a ∈ as then as.eraseDups else as.eraseDups ++ [a] := by
  rw [List.eraseDups_append]
  by_cases ha : a ∈ as
  · simp [List.removeAll, ha]
  · simp [List.removeAll, ha, List.eraseDups_cons]

theorem nodup_eraseDups (as : List α) : as.eraseDups.Nodup := by
  induction as using List.reverseRecOn with
  | nil => exact List.nodup_nil
  | append_singleton as b ih =>
    rw [eraseDups_snoc]
    split_ifs with hb
    · exact ih
    · refine List.nodup_append.mpr ⟨ih, List.nodup_singleton b, ?_⟩
      intro a ha c hc heq
      rw [List.mem_singleton.mp hc] at heq
      exact hb (List.mem_eraseDups.mp (heq ▸ ha))

end Dups

end Lobster.Snoc
