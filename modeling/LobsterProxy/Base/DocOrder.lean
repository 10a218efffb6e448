import LobsterProxy.Base.JsonText
import Mathlib.Algebra.BigOperators.Group.List.Basic
import Mathlib.Algebra.Order.Ring.Int
import Mathlib.Data.List.Forall2
import Mathlib.Data.List.Perm.Basic
import Mathlib.Data.List.Sort

/-! Documents up to the order of their fields: sorted documents stand for them where the keys
are distinct. -/

namespace Lobster.JsonText

section ByKey
variable {α β : Type}

def byKey (a b : String × α) : Prop := a.1 ≤ b.1

instance : DecidableRel (byKey : String × α → String × α → Prop) :=
  fun a b => inferInstanceAs (Decidable (a.1 ≤ b.1))

instance : Std.Total (byKey : String × α → String × α → Prop) := ⟨fun a b => le_total a.1 b.1⟩

instance : IsTrans (String × α) byKey := ⟨fun _ _ _ hab hbc => le_trans hab hbc⟩

theorem insertionSort_byKey_congr {l m : List (String × α)} (hperm : l.Perm m)
    (hkeys : (l.map Prod.fst).Nodup) :
    l.insertionSort byKey = m.insertionSort byKey := by
  refine List.Perm.eq_of_pairwise (fun a b ha hb hab hba => ?_)
    (List.pairwise_insertionSort byKey l)
    (List.pairwise_insertionSort byKey m)
    (((List.perm_insertionSort byKey l).trans hperm).trans (List.perm_insertionSort byKey m).symm)
  have ha := (List.mem_insertionSort byKey).mp ha
  have hb := hperm.mem_iff.mpr ((List.mem_insertionSort byKey).mp hb)
  exact List.inj_on_of_nodup_map hkeys ha hb (le_antisymm hab hba)

theorem map_insertionSort_byKey (f : String × α → String × β) (hf : ∀ e, (f e).1 = e.1)
    (l : List (String × α)) :
    (l.insertionSort byKey).map f = (l.map f).insertionSort byKey := by
  refine List.map_insertionSort byKey byKey f l fun a _ b _ => ?_
  unfold byKey
  rw [hf, hf]

end ByKey

section Order
variable {σ τ : Type}

mutual

def Doc.distinct : Doc σ → Bool
  | .leaf _ => true
  | .arr items => distinctItems items
  | .obj fields => decide (fields.map Prod.fst).Nodup && distinctFields fields

def distinctItems : List (Doc σ) → Bool
  | [] => true
  | t :: items => t.distinct && distinctItems items

def distinctFields : List (String × Doc σ) → Bool
  | [] => true
  | (_, t) :: fields => t.distinct && distinctFields fields

end

mutual

/-- The document with the fields of every object in the order of their keys. -/
def Doc.sort : Doc σ → Doc σ
  | .leaf s => .leaf s
  | .arr items => .arr (sortItems items)
  | .obj fields => .obj ((sortFields fields).insertionSort byKey)

def sortItems : List (Doc σ) → List (Doc σ)
  | [] => []
  | t :: items => t.sort :: sortItems items

def sortFields : List (String × Doc σ) → List (String × Doc σ)
  | [] => []
  | (key, t) :: fields => (key, t.sort) :: sortFields fields

end

mutual

/-- The same document up to the order of the fields, with related leaves. -/
inductive Same (R : σ → τ → Prop) : Doc σ → Doc τ → Prop
  | leaf {s : σ} {s' : τ} (h : R s s') : Same R (.leaf s) (.leaf s')
  | arr {items : List (Doc σ)} {items' : List (Doc τ)} (h : SameItems R items items') :
      Same R (.arr items) (.arr items')
  | obj {fields : List (String × Doc σ)} {moved fields' : List (String × Doc τ)}
      (h : SameFields R fields moved) (horder : moved.Perm fields') :
        Same R (.obj fields) (.obj fields')

inductive SameItems (R : σ → τ → Prop) : List (Doc σ) → List (Doc τ) → Prop
  | nil : SameItems R [] []
  | cons {t : Doc σ} {t' : Doc τ} {items : List (Doc σ)} {items' : List (Doc τ)} (h : Same R t t')
      (hrest : SameItems R items items') : SameItems R (t :: items) (t' :: items')

inductive SameFields (R : σ → τ → Prop) : List (String × Doc σ) → List (String × Doc τ) → Prop
  | nil : SameFields R [] []
  | cons {key : String} {t : Doc σ} {t' : Doc τ} {fields : List (String × Doc σ)}
      {fields' : List (String × Doc τ)} (h : Same R t t') (hrest : SameFields R fields fields') :
      SameFields R ((key, t) :: fields) ((key, t') :: fields')

end

variable {R : σ → τ → Prop}

theorem sortFields_eq_map (fields : List (String × Doc σ)) :
    sortFields fields = fields.map fun e => (e.1, e.2.sort) := by
  induction fields with
  | nil => rfl
  | cons e fields ih => rw [sortFields, List.map_cons, ih]

theorem sort_perm (fields : List (String × Doc σ)) :
    ((sortFields fields).insertionSort byKey).Perm (sortFields fields) :=
      List.perm_insertionSort _ _

theorem sortFields_perm {fields fields' : List (String × Doc σ)} (h : fields.Perm fields') :
    (sortFields fields).Perm (sortFields fields') := by
  rw [sortFields_eq_map, sortFields_eq_map]
  exact h.map _

mutual

theorem Same.sort {t : Doc σ} {t' : Doc τ} (h : Same R t t') : Same R t t'.sort := by
  cases h with
  | leaf h => exact .leaf h
  | arr h => exact .arr h.sort
  | obj h horder => exact .obj h.sort ((sortFields_perm horder).trans (sort_perm _).symm)

theorem SameItems.sort {items : List (Doc σ)} {items' : List (Doc τ)}
    (h : SameItems R items items') :
    SameItems R items (sortItems items') := by
  cases h with
  | nil => exact .nil
  | cons h hrest => exact .cons h.sort hrest.sort

theorem SameFields.sort {fields : List (String × Doc σ)} {fields' : List (String × Doc τ)}
    (h : SameFields R fields fields') : SameFields R fields (sortFields fields') := by
  cases h with
  | nil => exact .nil
  | cons h hrest => exact .cons h.sort hrest.sort

end

theorem exists_map_of_perm {α β : Type} {f : α → β} {l : List β} {m : List α}
    (h : l.Perm (m.map f)) :
    ∃ m' : List α, m'.Perm m ∧ l = m'.map f := by
  have himage : List.Forall₂ (fun b a => b = f a) (m.map f) m :=
    List.forall₂_map_left_iff.mpr (List.forall₂_same.mpr fun _ _ => rfl)
  obtain ⟨m', hsame, hperm⟩ := List.perm_comp_forall₂ h himage
  refine ⟨m', hperm, ?_⟩
  clear hperm himage h
  induction hsame with
  | nil => rfl
  | cons hfirst _ ih => rw [List.map_cons, hfirst, ih]

mutual

theorem Same.of_sort {t : Doc σ} {t' : Doc τ} (h : Same R t t'.sort) : Same R t t' := by
  cases t with
  | leaf s =>
    cases t' with
    | leaf s' =>
      cases h with
      | leaf h => exact .leaf h
    | arr items' => cases h
    | obj fields' => cases h
  | arr items =>
    cases t' with
    | arr items' =>
      cases h with
      | arr h => exact .arr h.of_sort
    | leaf s' => cases h
    | obj fields' => cases h
  | obj fields =>
    cases t' with
    | obj fields' =>
      cases h with
      | obj h horder =>
        have hmoved := horder.trans (sort_perm fields')
        rw [sortFields_eq_map] at hmoved
        obtain ⟨before, hbefore, rfl⟩ := exists_map_of_perm hmoved
        rw [← sortFields_eq_map] at h
        exact .obj h.of_sort hbefore
    | leaf s' => cases h
    | arr items' => cases h

theorem SameItems.of_sort {items : List (Doc σ)} {items' : List (Doc τ)}
    (h : SameItems R items (sortItems items')) :
    SameItems R items items' := by
  cases items with
  | nil =>
    cases items' with
    | nil => exact .nil
    | cons t' items' => cases h
  | cons t items =>
    cases items' with
    | nil => cases h
    | cons t' items' =>
      cases h with
      | cons h hrest => exact .cons h.of_sort hrest.of_sort

theorem SameFields.of_sort {fields : List (String × Doc σ)} {fields' : List (String × Doc τ)}
    (h : SameFields R fields (sortFields fields')) : SameFields R fields fields' := by
  cases fields with
  | nil =>
    cases fields' with
    | nil => exact .nil
    | cons e' fields' => cases h
  | cons e fields =>
    cases fields' with
    | nil => cases h
    | cons e' fields' =>
      cases h with
      | cons h hrest => exact .cons h.of_sort hrest.of_sort

end

mutual

theorem same_refl (t : Doc σ) : Same Eq t t := by
  cases t with
  | leaf s => exact .leaf rfl
  | arr items => exact .arr (sameItems_refl items)
  | obj fields => exact .obj (sameFields_refl fields) (List.Perm.refl _)

theorem sameItems_refl (items : List (Doc σ)) : SameItems Eq items items := by
  cases items with
  | nil => exact .nil
  | cons t items => exact .cons (same_refl t) (sameItems_refl items)

theorem sameFields_refl (fields : List (String × Doc σ)) : SameFields Eq fields fields := by
  cases fields with
  | nil => exact .nil
  | cons e fields => exact .cons (same_refl e.2) (sameFields_refl fields)

end

theorem SameFields.keys {fields : List (String × Doc σ)} {fields' : List (String × Doc τ)}
    (h : SameFields R fields fields') : fields.map Prod.fst = fields'.map Prod.fst := by
  induction fields generalizing fields' with
  | nil =>
    cases h
    rfl
  | cons e fields ih =>
    cases h with
    | cons h hrest => rw [List.map_cons, List.map_cons, ih hrest]

theorem keys_sortFields (fields : List (String × Doc σ)) :
    (sortFields fields).map Prod.fst = fields.map Prod.fst := by
  rw [sortFields_eq_map, List.map_map]
  rfl

theorem distinctFields_eq_all (fields : List (String × Doc σ)) :
    distinctFields fields = fields.all fun e => e.2.distinct := by
  induction fields with
  | nil => rfl
  | cons e fields ih => rw [distinctFields, List.all_cons, ih]

mutual

theorem distinct_sort (t : Doc σ) : t.sort.distinct = t.distinct := by
  cases t with
  | leaf s => rfl
  | arr items => exact distinctItems_sort items
  | obj fields =>
    have hkeys := ((sort_perm fields).map Prod.fst).nodup_iff
    rw [keys_sortFields] at hkeys
    rw [Doc.sort, Doc.distinct, Doc.distinct, distinctFields_eq_all, (sort_perm fields).all_eq,
      ← distinctFields_eq_all, distinctFields_sort, decide_eq_decide.mpr hkeys]

theorem distinctItems_sort (items : List (Doc σ)) :
    distinctItems (sortItems items) = distinctItems items := by
  cases items with
  | nil => rfl
  | cons t items => rw [sortItems, distinctItems, distinctItems, distinct_sort, distinctItems_sort]

theorem distinctFields_sort (fields : List (String × Doc σ)) :
    distinctFields (sortFields fields) = distinctFields fields := by
  cases fields with
  | nil => rfl
  | cons e fields =>
    rw [sortFields, distinctFields, distinctFields, distinct_sort, distinctFields_sort]

end

mutual

theorem Same.sort_eq {t t' : Doc σ} (h : Same Eq t t') (hdistinct : t.distinct = true) :
    t.sort = t'.sort := by
  cases h with
  | leaf h => rw [h]
  | arr h =>
    rw [Doc.distinct] at hdistinct
    rw [Doc.sort, Doc.sort, h.sort_eq hdistinct]
  | obj h horder =>
    rw [Doc.distinct, Bool.and_eq_true, decide_eq_true_iff] at hdistinct
    obtain ⟨hkeys, hdistinct⟩ := hdistinct
    have hsame := h.sort_eq hdistinct
    rw [Doc.sort, Doc.sort, hsame, insertionSort_byKey_congr (sortFields_perm horder)]
    rw [keys_sortFields, ← h.keys]
    exact hkeys

theorem SameItems.sort_eq {items items' : List (Doc σ)} (h : SameItems Eq items items')
    (hdistinct : distinctItems items = true) : sortItems items = sortItems items' := by
  cases h with
  | nil => rfl
  | cons h hrest =>
    rw [distinctItems, Bool.and_eq_true] at hdistinct
    rw [sortItems, sortItems, h.sort_eq hdistinct.1, hrest.sort_eq hdistinct.2]

theorem SameFields.sort_eq {fields fields' : List (String × Doc σ)}
    (h : SameFields Eq fields fields') (hdistinct : distinctFields fields = true) :
    sortFields fields = sortFields fields' := by
  cases h with
  | nil => rfl
  | cons h hrest =>
    rw [distinctFields, Bool.and_eq_true] at hdistinct
    rw [sortFields, sortFields, h.sort_eq hdistinct.1, hrest.sort_eq hdistinct.2]

end

/-- The sorted document is a complete invariant of the documents with distinct keys. -/
theorem sort_eq_iff {t t' : Doc σ} (hdistinct : t.distinct = true) :
    t.sort = t'.sort ↔ Same Eq t t' := by
  refine ⟨fun h => ?_, fun h => h.sort_eq hdistinct⟩
  have hsorted := (same_refl t).sort
  rw [h] at hsorted
  exact hsorted.of_sort

mutual

theorem map_sort (f : σ → τ) (t : Doc σ) : t.sort.map f = (t.map f).sort := by
  cases t with
  | leaf s => rfl
  | arr items => exact congrArg Doc.arr (mapItems_sortItems f items)
  | obj fields =>
    rw [Doc.sort, Doc.map, Doc.map, Doc.sort, mapFields_eq_map,
      map_insertionSort_byKey (fun e : String × Doc σ => (e.1, e.2.map f))
        (fun _ => rfl), ← mapFields_eq_map,
      mapFields_sortFields]

theorem mapItems_sortItems (f : σ → τ) (items : List (Doc σ)) :
    mapItems f (sortItems items) = sortItems (mapItems f items) := by
  cases items with
  | nil => rfl
  | cons t items => rw [sortItems, mapItems, mapItems, sortItems, map_sort, mapItems_sortItems]

theorem mapFields_sortFields (f : σ → τ) (fields : List (String × Doc σ)) :
    mapFields f (sortFields fields) = sortFields (mapFields f fields) := by
  cases fields with
  | nil => rfl
  | cons e fields =>
    rw [sortFields, mapFields, mapFields, sortFields, map_sort, mapFields_sortFields]

end

mutual

theorem distinct_map (f : σ → τ) (t : Doc σ) : (t.map f).distinct = t.distinct := by
  cases t with
  | leaf s => rfl
  | arr items => exact distinctItems_map f items
  | obj fields => rw [Doc.map, Doc.distinct, Doc.distinct, keys_mapFields, distinctFields_map]

theorem distinctItems_map (f : σ → τ) (items : List (Doc σ)) :
    distinctItems (mapItems f items) = distinctItems items := by
  cases items with
  | nil => rfl
  | cons t items => rw [mapItems, distinctItems, distinctItems, distinct_map, distinctItems_map]

theorem distinctFields_map (f : σ → τ) (fields : List (String × Doc σ)) :
    distinctFields (mapFields f fields) = distinctFields fields := by
  cases fields with
  | nil => rfl
  | cons e fields =>
    rw [mapFields, distinctFields, distinctFields, distinct_map, distinctFields_map]

end

end Order

section Size
variable {σ τ : Type} {R : σ → τ → Prop}

theorem sizeFields_eq_sum (fields : List (String × Doc σ)) :
    sizeFields fields = (fields.map fun e => size e.2).sum + 1 := by
  induction fields with
  | nil => rfl
  | cons e fields ih => rw [sizeFields, ih, List.map_cons, List.sum_cons, Nat.add_assoc]

theorem sizeFields_perm {fields fields' : List (String × Doc σ)} (h : fields.Perm fields') :
    sizeFields fields = sizeFields fields' := by
  rw [sizeFields_eq_sum, sizeFields_eq_sum, (h.map _).sum_nat]

mutual

theorem size_map (f : σ → τ) (t : Doc σ) : size (t.map f) = size t := by
  cases t with
  | leaf s => rfl
  | arr items => rw [Doc.map, size, size, sizeItems_map]
  | obj fields => rw [Doc.map, size, size, sizeFields_map]

theorem sizeItems_map (f : σ → τ) (items : List (Doc σ)) :
    sizeItems (mapItems f items) = sizeItems items := by
  cases items with
  | nil => rfl
  | cons t items => rw [mapItems, sizeItems, sizeItems, size_map, sizeItems_map]

theorem sizeFields_map (f : σ → τ) (fields : List (String × Doc σ)) :
    sizeFields (mapFields f fields) = sizeFields fields := by
  cases fields with
  | nil => rfl
  | cons e fields => rw [mapFields, sizeFields, sizeFields, size_map, sizeFields_map]

end

mutual

theorem Same.size_eq {t : Doc σ} {t' : Doc τ} (h : Same R t t') : size t = size t' := by
  cases h with
  | leaf h => rfl
  | arr h => rw [size, size, h.size_eq]
  | obj h horder => rw [size, size, h.size_eq, sizeFields_perm horder]

theorem SameItems.size_eq {items : List (Doc σ)} {items' : List (Doc τ)}
    (h : SameItems R items items') :
    sizeItems items = sizeItems items' := by
  cases h with
  | nil => rfl
  | cons h hrest => rw [sizeItems, sizeItems, h.size_eq, hrest.size_eq]

theorem SameFields.size_eq {fields : List (String × Doc σ)} {fields' : List (String × Doc τ)}
    (h : SameFields R fields fields') : sizeFields fields = sizeFields fields' := by
  cases h with
  | nil => rfl
  | cons h hrest => rw [sizeFields, sizeFields, h.size_eq, hrest.size_eq]

end

theorem size_sort (t : Doc σ) : size t.sort = size t := (same_refl t).sort.size_eq.symm

end Size

section Leaves
variable {σ τ : Type} {R : σ → τ → Prop} {f : σ → τ}

mutual

def Doc.leaves : Doc σ → List σ
  | .leaf s => [s]
  | .arr items => leavesItems items
  | .obj fields => leavesFields fields

def leavesItems : List (Doc σ) → List σ
  | [] => []
  | t :: items => t.leaves ++ leavesItems items

def leavesFields : List (String × Doc σ) → List σ
  | [] => []
  | (_, t) :: fields => t.leaves ++ leavesFields fields

end

mutual

theorem same_map (t : Doc σ) (h : ∀ s ∈ t.leaves, R s (f s)) : Same R t (t.map f) := by
  cases t with
  | leaf s => exact .leaf (h s List.mem_cons_self)
  | arr items => exact .arr (sameItems_map items h)
  | obj fields => exact .obj (sameFields_map fields h) (List.Perm.refl _)

theorem sameItems_map (items : List (Doc σ)) (h : ∀ s ∈ leavesItems items, R s (f s)) :
    SameItems R items (mapItems f items) := by
  cases items with
  | nil => exact .nil
  | cons t items =>
    exact .cons (same_map t fun s hs => h s (List.mem_append_left _ hs))
      (sameItems_map items fun s hs => h s (List.mem_append_right _ hs))

theorem sameFields_map (fields : List (String × Doc σ)) (h : ∀ s ∈ leavesFields fields, R s (f s)) :
    SameFields R fields (mapFields f fields) := by
  cases fields with
  | nil => exact .nil
  | cons e fields =>
    exact .cons (same_map e.2 fun s hs => h s (List.mem_append_left _ hs))
      (sameFields_map fields fun s hs => h s (List.mem_append_right _ hs))

end

theorem eq_of_perm_of_keys {α : Type} {l m : List (String × α)} (hperm : l.Perm m)
    (hkeys : l.map Prod.fst = m.map Prod.fst) (hnodup : (l.map Prod.fst).Nodup) : l = m := by
  induction l generalizing m with
  | nil => exact (List.nil_perm.mp hperm).symm
  | cons e l ih =>
    cases m with
    | nil => cases hkeys
    | cons e' m =>
      rw [List.map_cons, List.map_cons, List.cons.injEq] at hkeys
      obtain ⟨hkey, hkeys⟩ := hkeys
      obtain ⟨hnew, hnodup⟩ := List.nodup_cons.mp hnodup
      have hfirst : e = e' := by
        rcases List.mem_cons.mp (hperm.mem_iff.mp List.mem_cons_self) with he | he
        · exact he
        · exact absurd (hkeys ▸ List.mem_map_of_mem he) hnew
      subst hfirst
      rw [ih (List.Perm.cons_inv hperm) hkeys hnodup]

mutual

theorem Same.leaves {t : Doc σ} (h : Same R t (t.map f)) (hdistinct : t.distinct = true) :
    ∀ s ∈ t.leaves, R s (f s) := by
  cases t with
  | leaf s =>
    cases h with
    | leaf h =>
      intro s' hs
      rw [List.mem_singleton.mp hs]
      exact h
  | arr items =>
    cases h with
    | arr h => exact h.leaves hdistinct
  | obj fields =>
    rw [Doc.distinct, Bool.and_eq_true, decide_eq_true_iff] at hdistinct
    cases h with
    | obj h horder =>
      have hkeys := h.keys
      have hmoved :=
        eq_of_perm_of_keys horder (by rw [← hkeys, keys_mapFields]) (hkeys ▸ hdistinct.1)
      rw [hmoved] at h
      exact h.leaves hdistinct.2

theorem SameItems.leaves {items : List (Doc σ)} (h : SameItems R items (mapItems f items))
    (hdistinct : distinctItems items = true) : ∀ s ∈ leavesItems items, R s (f s) := by
  cases items with
  | nil => exact nofun
  | cons t items =>
    rw [distinctItems, Bool.and_eq_true] at hdistinct
    cases h with
    | cons h hrest =>
      intro s hs
      rcases List.mem_append.mp hs with hs | hs
      · exact h.leaves hdistinct.1 s hs
      · exact hrest.leaves hdistinct.2 s hs

theorem SameFields.leaves {fields : List (String × Doc σ)}
    (h : SameFields R fields (mapFields f fields)) (hdistinct : distinctFields fields = true) :
    ∀ s ∈ leavesFields fields, R s (f s) := by
  cases fields with
  | nil => exact nofun
  | cons e fields =>
    rw [distinctFields, Bool.and_eq_true] at hdistinct
    cases h with
    | cons h hrest =>
      intro s hs
      rcases List.mem_append.mp hs with hs | hs
      · exact h.leaves hdistinct.1 s hs
      · exact hrest.leaves hdistinct.2 s hs

end

theorem same_sort_map_iff {t : Doc σ} (hdistinct : t.distinct = true) :
    Same R t (t.map f).sort ↔ ∀ s ∈ t.leaves, R s (f s) :=
  ⟨fun h => h.of_sort.leaves hdistinct, fun h => (same_map t h).sort⟩

end Leaves

end Lobster.JsonText
