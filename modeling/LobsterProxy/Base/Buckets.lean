import Mathlib.Data.List.Count
import Mathlib.Data.List.Range

/-! Counting into buckets: one counter for each bucket, and their running totals. The first bucket
that takes a value is found by its bound; where the bounds ascend, the total up to a bucket counts
the values within its bound. -/

namespace Lobster.Buckets

def cumulate {ρ : Type} [Add ρ] : ρ → List ρ → List ρ
  | _, [] => []
  | running, x :: xs => (running + x) :: cumulate (running + x) xs

theorem cumulate_map {ρ σ : Type} [Add ρ] [Add σ] (f : ρ → σ) (hf : ∀ a b, f (a + b) = f a + f b)
    (start : ρ) (xs : List ρ) : cumulate (f start) (xs.map f) = (cumulate start xs).map f := by
  induction xs generalizing start with
  | nil => rfl
  | cons x xs ih =>
    rw [List.map_cons, cumulate, cumulate, List.map_cons, ← hf, ih]

def tally (buckets : ℕ) (keys : List ℕ) : List ℕ := (List.range buckets).map fun i => keys.count i

theorem countP_lt_succ (keys : List ℕ) (i : ℕ) :
    keys.countP (· < i) + keys.count i = keys.countP (· ≤ i) := by
  induction keys with
  | nil => rfl
  | cons key keys ih =>
    simp only [List.countP_cons, List.count_cons]
    rcases lt_trichotomy key i with h | rfl | h
    · simp [h, h.le, h.ne]
      omega
    · simp
      omega
    · simp [h.not_gt, h.not_ge, h.ne']
      omega

theorem cumulate_counts (keys : List ℕ) (start buckets : ℕ) :
    cumulate (keys.countP (· < start)) ((List.range' start buckets).map fun i => keys.count i) =
      (List.range' start buckets).map fun i => keys.countP (· ≤ i) := by
  induction buckets generalizing start with
  | zero => rfl
  | succ buckets ih =>
    have hnext : keys.countP (· ≤ start) = keys.countP (· < start + 1) := by
      congr 1
      funext key
      exact decide_eq_decide.mpr Nat.lt_succ_iff.symm
    rw [List.range'_succ, List.map_cons, List.map_cons, cumulate, countP_lt_succ, hnext, ih]

theorem cumulate_tally (buckets : ℕ) (keys : List ℕ) :
    cumulate 0 (tally buckets keys) = (List.range buckets).map fun i => keys.countP (· ≤ i) := by
  have hnone : keys.countP (· < 0) = 0 := List.countP_eq_zero.mpr fun key _ => by simp
  have hcounts := cumulate_counts keys 0 buckets
  rw [hnone, ← List.range_eq_range'] at hcounts
  exact hcounts

theorem tally_append (buckets : ℕ) (keys : List ℕ) (key : ℕ) :
    tally buckets (keys ++ [key]) = (tally buckets keys).modify key (· + 1) := by
  apply List.ext_getElem
  · simp [tally]
  · intro i hi hi'
    rw [List.getElem_modify]
    simp only [tally, List.getElem_map, List.getElem_range, List.count_append, List.count_singleton]
    by_cases h : key = i
    · simp [h]
    · simp [h]

theorem map_modify {α β : Type} {f : α → β} {g : α → α} {g' : β → β} (h : ∀ a, f (g a) = g' (f a))
    (as : List α) (i : ℕ) : (as.modify i g).map f = (as.map f).modify i g' := by
  apply List.ext_getElem
  · simp
  · intro k hk hk'
    simp only [List.getElem_map, List.getElem_modify]
    split_ifs
    · exact h _
    · rfl

section Bounds
variable {α : Type} {p : α → Bool} {bounds : List α}

theorem findIdx_le_iff (hascending : bounds.Pairwise fun a b => p a = true → p b = true) {i : ℕ}
    (hi : i < bounds.length) : bounds.findIdx p ≤ i ↔ p bounds[i] = true := by
  constructor
  · intro hle
    have hlt : bounds.findIdx p < bounds.length := hle.trans_lt hi
    have hfound : p bounds[bounds.findIdx p] = true := List.findIdx_getElem
    rcases hle.lt_or_eq with h | h
    · exact List.pairwise_iff_getElem.mp hascending _ _ hlt hi h hfound
    · simpa only [h] using hfound
  · intro htaken
    by_contra hlt
    exact absurd htaken (by simpa using List.not_of_lt_findIdx (not_le.mp hlt))

end Bounds

end Lobster.Buckets
