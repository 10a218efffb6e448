import Mathlib.Data.List.Nodup
import Mathlib.Data.List.Pairwise
import Mathlib.Data.List.Perm.Basic

/-! Queues of the keys that are live, the least recently touched in front. -/

namespace Lobster.Recency
variable {κ : Type} [DecidableEq κ] {order order' : List κ} {live live' : κ → Prop}
    {time time' : κ → Nat}
  {key : κ} {now : Nat}

/-- The queue lists the live keys, each of them once. -/
structure Lists (order : List κ) (live : κ → Prop) : Prop where
  nodup : order.Nodup
  mem : ∀ key, key ∈ order ↔ live key

/-- No key was touched before one that stands in front of it. -/
def Sorted (order : List κ) (time : κ → Nat) : Prop := order.Pairwise fun a b => time a ≤ time b

omit [DecidableEq κ] in
theorem Lists.congr (h : Lists order live) (hlive : ∀ key, live' key ↔ live key) :
    Lists order live' :=
  ⟨h.nodup, fun key => (h.mem key).trans (hlive key).symm⟩

theorem Lists.remove (h : Lists order live) (key : κ) :
    Lists (order.filter fun k => k ≠ key) fun k => k ≠ key ∧ live k := by
  refine ⟨h.nodup.filter _, fun k => ?_⟩
  rw [List.mem_filter, h.mem, and_comm, decide_eq_true_iff]

omit [DecidableEq κ] in
theorem Lists.push (h : Lists order live) (hnew : ¬ live key) :
    Lists (order ++ [key]) fun k => k = key ∨ live k := by
  refine ⟨?_, fun k => ?_⟩
  · refine h.nodup.append (List.nodup_singleton key) ?_
    rw [List.disjoint_singleton, h.mem]
    exact hnew
  · rw [List.mem_append, List.mem_singleton, h.mem, or_comm]

theorem Lists.moveToBack (h : Lists order live) (hlive : live key) :
    Lists ((order.filter fun k => k ≠ key) ++ [key]) live := by
  refine ((h.remove key).push fun hkey => hkey.1 rfl).congr fun k => ?_
  by_cases hk : k = key
  · simp [hk, hlive]
  · simp [hk]

omit [DecidableEq κ] in
theorem Lists.length_eq (h : Lists order live) (h' : Lists order' live) :
    order.length = order'.length :=
  ((List.perm_ext_iff_of_nodup h.nodup h'.nodup).mpr fun k =>
  (h.mem k).trans (h'.mem k).symm).length_eq

omit [DecidableEq κ] in
theorem Sorted.sublist (h : Sorted order time) (hsub : order'.Sublist order) : Sorted order' time :=
  List.Pairwise.sublist hsub h

omit [DecidableEq κ] in
theorem Sorted.congr (h : Sorted order time) (htime : ∀ k ∈ order, time' k = time k) :
    Sorted order time' := by
  refine h.imp_of_mem fun ha hb hle => ?_
  rw [htime _ ha, htime _ hb]
  exact hle

omit [DecidableEq κ] in
theorem Sorted.push (h : Sorted order time) (hle : ∀ k ∈ order, time k ≤ time key) :
    Sorted (order ++ [key]) time := by
  refine List.pairwise_append.mpr ⟨h, List.pairwise_singleton _ key, fun a ha b hb => ?_⟩
  rw [List.mem_singleton.mp hb]
  exact hle a ha

section Uses
variable {uses : List (Option κ)} {a b : κ}

/-- Each use of the first key has one of the second at its place or later. -/
def NotAfter (uses : List (Option κ)) (a b : κ) : Prop :=
  ∀ i : Nat, uses[i]? = some (some a) → ∃ j ≥ i, uses[j]? = some (some b)

omit [DecidableEq κ] in
theorem notAfter_last (uses : List (Option κ)) (a key : κ) :
    NotAfter (uses ++ [some key]) a key := by
  intro i hi
  obtain ⟨hlt, -⟩ := List.getElem?_eq_some_iff.mp hi
  rw [List.length_append, List.length_singleton] at hlt
  exact ⟨uses.length, Nat.le_of_lt_succ hlt, List.getElem?_concat_length⟩

omit [DecidableEq κ] in
theorem NotAfter.push {use : Option κ} (h : NotAfter uses a b) (hne : use ≠ some a) :
    NotAfter (uses ++ [use]) a b := by
  intro i hi
  have hlt : i < uses.length := by
    by_contra hge
    have hplace : i - uses.length = 0 := by
      obtain ⟨hlt, -⟩ := List.getElem?_eq_some_iff.mp hi
      rw [List.length_append, List.length_singleton] at hlt
      omega
    rw [List.getElem?_append_right (Nat.not_lt.mp hge), hplace] at hi
    exact hne (Option.some.inj hi)
  rw [List.getElem?_append_left hlt] at hi
  obtain ⟨j, hij, hj⟩ := h i hi
  obtain ⟨hbound, -⟩ := List.getElem?_eq_some_iff.mp hj
  exact ⟨j, hij, (List.getElem?_append_left hbound).trans hj⟩

omit [DecidableEq κ] in
theorem pairwise_notAfter_pass (h : order.Pairwise (NotAfter uses)) :
    order.Pairwise (NotAfter (uses ++ [none])) := h.imp fun hab => hab.push nofun

omit [DecidableEq κ] in
theorem pairwise_notAfter_use (h : order.Pairwise (NotAfter uses)) (hkey : key ∉ order) :
    (order ++ [key]).Pairwise (NotAfter (uses ++ [some key])) := by
  refine List.pairwise_append.mpr ⟨?_, List.pairwise_singleton _ key, fun a _ b hb => ?_⟩
  · refine h.imp_of_mem fun ha _ hab => hab.push fun heq => hkey ?_
    exact Option.some.inj heq ▸ ha
  · rw [List.mem_singleton.mp hb]
    exact notAfter_last uses a key

omit [DecidableEq κ] in
theorem pairwise_notAfter_newest (h : order.Pairwise (NotAfter uses)) (hnodup : order.Nodup)
    (hnewest : key ∈ order → order.getLast? = some key) :
    order.Pairwise (NotAfter (uses ++ [some key])) := by
  by_cases hkey : key ∈ order
  · obtain ⟨front, rfl⟩ := List.getLast?_eq_some_iff.mp (hnewest hkey)
    refine pairwise_notAfter_use (h.sublist (List.sublist_append_left front _)) fun hmem => ?_
    exact (List.nodup_append.mp hnodup).2.2 key hmem key List.mem_cons_self rfl
  · exact (pairwise_notAfter_use h hkey).sublist (List.sublist_append_left order _)

end Uses

theorem length_filter_lt (h : key ∈ order) :
    (order.filter fun k => k ≠ key).length < order.length :=
  List.length_filter_lt_length_iff_exists.mpr ⟨key, h, by simp⟩

end Lobster.Recency
