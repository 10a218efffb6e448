import Mathlib.Data.List.Basic
import Mathlib.Data.List.Forall2
import Mathlib.Order.Basic

/-! A function applied to the first elements of a list, and the others as they are. -/

namespace Lobster.Leading
variable {α : Type} {f g : α → α} {xs ys : List α} {n m i : Nat}

def mapFirst (f : α → α) (n : Nat) (xs : List α) : List α := (xs.take n).map f ++ xs.drop n

@[simp] theorem mapFirst_zero (f : α → α) (xs : List α) : mapFirst f 0 xs = xs := rfl

@[simp] theorem length_mapFirst (f : α → α) (n : Nat) (xs : List α) :
    (mapFirst f n xs).length = xs.length := by
  unfold mapFirst
  rw [List.length_append, List.length_map, List.length_take, List.length_drop]
  omega

theorem getElem?_mapFirst (f : α → α) (n : Nat) (xs : List α) (i : Nat) :
    (mapFirst f n xs)[i]? = if i < n then xs[i]?.map f else xs[i]? := by
  unfold mapFirst
  rw [List.getElem?_append, List.length_map, List.length_take, List.getElem?_map,
    List.getElem?_take]
  by_cases hn : i < n
  · by_cases hlen : i < xs.length
    · rw [if_pos (by omega), if_pos hn, if_pos hn]
    · have hnone : xs[i]? = none := List.getElem?_eq_none (Nat.not_lt.mp hlen)
      rw [if_neg (by omega), if_pos hn, hnone, List.getElem?_eq_none]
      · rfl
      · rw [List.length_drop]
        omega
  · rw [if_neg (by omega), if_neg hn, List.getElem?_drop]
    by_cases hlen : n ≤ xs.length
    · rw [Nat.min_eq_left hlen, Nat.add_sub_cancel' (Nat.not_lt.mp hn)]
    · rw [List.getElem?_eq_none (by omega), List.getElem?_eq_none (by omega)]

theorem take_mapFirst_congr (hn : i ≤ n) (hm : i ≤ m) (hsame : xs.take i = ys.take i) :
    (mapFirst f n xs).take i = (mapFirst f m ys).take i := by
  apply List.ext_getElem?
  intro j
  rw [List.getElem?_take, List.getElem?_take, getElem?_mapFirst, getElem?_mapFirst]
  by_cases hj : j < i
  · have hread : xs[j]? = ys[j]? := by
      have hcongr := congrArg (·[j]?) hsame
      simpa only [List.getElem?_take, if_pos hj] using hcongr
    rw [if_pos hj, if_pos hj, if_pos (by omega), if_pos (by omega), hread]
  · rw [if_neg hj, if_neg hj]

/-- A beginning of which at most the last element lies beyond the bound, and the function
leaves that one alone. -/
theorem take_mapFirst_of_last (hbound : i ≤ n + 1) (hlast : ∀ a, xs[i - 1]? = some a → f a = a) :
    (mapFirst f n xs).take i = (xs.take i).map f := by
  apply List.ext_getElem?
  intro j
  rw [List.getElem?_take, getElem?_mapFirst, List.getElem?_map, List.getElem?_take]
  by_cases hj : j < i
  · rw [if_pos hj, if_pos hj]
    split_ifs with hn
    · rfl
    · obtain rfl : j = i - 1 := by omega
      cases hread : xs[i - 1]? with
      | none => rfl
      | some a => rw [Option.map_some, hlast a hread]
  · rw [if_neg hj, if_neg hj]
    rfl

theorem mapFirst_append (h : n ≤ xs.length) : mapFirst f n (xs ++ ys) = mapFirst f n xs ++ ys := by
  unfold mapFirst
  rw [List.take_append_of_le_length h, List.drop_append_of_le_length h, List.append_assoc]

theorem forall₂_mapFirst {R : α → α → Prop} (hrefl : ∀ a, R a a) (hf : ∀ a ∈ xs, R a (f a))
    (n : Nat) :
    List.Forall₂ R xs (mapFirst f n xs) := by
  refine List.forall₂_iff_get.mpr ⟨(length_mapFirst f n xs).symm, fun i hxs hys => ?_⟩
  have hread := getElem?_mapFirst f n xs i
  rw [List.getElem?_eq_getElem hxs, List.getElem?_eq_getElem hys] at hread
  simp only [List.get_eq_getElem]
  split_ifs at hread
  · rw [Option.map_some, Option.some_inj] at hread
    rw [hread]
    exact hf _ (List.getElem_mem hxs)
  · rw [Option.some_inj] at hread
    rw [hread]
    exact hrefl _

theorem forall₂_comp {R S T : α → α → Prop} {zs : List α} (hRS : ∀ a b c, R a b → S b c → T a c)
    (hleft : List.Forall₂ R xs ys) (hright : List.Forall₂ S ys zs) : List.Forall₂ T xs zs := by
  induction hleft generalizing zs with
  | nil =>
    cases hright
    exact .nil
  | cons hfirst _ ih =>
    cases hright with
    | cons hsecond hrest => exact .cons (hRS _ _ _ hfirst hsecond) (ih hrest)

end Lobster.Leading
