import Mathlib.Algebra.Order.Ring.Int
import Mathlib.Data.List.Sigma
import Mathlib.Data.List.Perm.Basic
import Mathlib.Order.Basic

/-! Ordered maps as key-sorted association lists; iteration follows the list. -/

namespace Lobster

structure SortedMap (κ ν : Type) [LinearOrder κ] where
  entries : List ((_ : κ) × ν)
  sorted : entries.Pairwise (fun a b => a.1 < b.1)

namespace SortedMap
variable {κ ν μ : Type} [LinearOrder κ]

theorem pairwise_iff_of_sorted {α π : Type} [LinearOrder π] {f : α → κ} {g : α → π} {as : List α}
    (h : as.Pairwise fun a b => f a < f b) :
    (as.Pairwise fun a b => g a < g b) ↔ ∀ a ∈ as, ∀ b ∈ as, f a < f b → g a < g b := by
  constructor
  · intro hg a ha b hb hab
    obtain ⟨i, hi, rfl⟩ := List.mem_iff_getElem.mp ha
    obtain ⟨j, hj, rfl⟩ := List.mem_iff_getElem.mp hb
    rcases lt_trichotomy i j with hij | rfl | hji
    · exact List.pairwise_iff_getElem.mp hg i j hi hj hij
    · exact absurd hab (lt_irrefl _)
    · have hba := List.pairwise_iff_getElem.mp h j i hj hi hji
      exact absurd hab (lt_asymm hba)
  · intro hall
    have hboth := List.Pairwise.and_mem.mp h
    exact hboth.imp fun hab => hall _ hab.1 _ hab.2.1 hab.2.2

def insertEntry (k : κ) (v : ν) : List ((_ : κ) × ν) → List ((_ : κ) × ν)
  | [] => [⟨k, v⟩]
  | ⟨k', v'⟩ :: rest =>
    if k < k' then ⟨k, v⟩ :: ⟨k', v'⟩ :: rest
    else if k = k' then ⟨k, v⟩ :: rest
    else ⟨k', v'⟩ :: insertEntry k v rest

theorem mem_insertEntry {k : κ} {v : ν} {e : (_ : κ) × ν} {es : List ((_ : κ) × ν)}
    (h : e ∈ insertEntry k v es) : e = ⟨k, v⟩ ∨ e ∈ es := by
  induction es with
  | nil => simpa [insertEntry] using h
  | cons d rest ih =>
    obtain ⟨k', v'⟩ := d
    unfold insertEntry at h
    split_ifs at h <;> grind

theorem sorted_insertEntry (k : κ) (v : ν) {es : List ((_ : κ) × ν)}
    (h : es.Pairwise (fun a b => a.1 < b.1)) :
    (insertEntry k v es).Pairwise (fun a b => a.1 < b.1) := by
  induction es with
  | nil => simp [insertEntry]
  | cons d rest ih =>
    obtain ⟨k', v'⟩ := d
    rw [List.pairwise_cons] at h
    unfold insertEntry
    split_ifs with hlt heq
    · refine List.pairwise_cons.mpr ⟨fun a ha => ?_, List.pairwise_cons.mpr h⟩
      rcases List.mem_cons.mp ha with rfl | ha
      · exact hlt
      · exact hlt.trans (h.1 a ha)
    · subst heq
      exact List.pairwise_cons.mpr h
    · refine List.pairwise_cons.mpr ⟨fun a ha => ?_, ih h.2⟩
      rcases mem_insertEntry ha with rfl | ha
      · exact lt_of_le_of_ne (not_lt.mp hlt) (Ne.symm heq)
      · exact h.1 a ha

def empty : SortedMap κ ν := ⟨[], List.Pairwise.nil⟩

def find? (m : SortedMap κ ν) (k : κ) : Option ν := m.entries.dlookup k

def contains (m : SortedMap κ ν) (k : κ) : Bool := (m.find? k).isSome

def insert (m : SortedMap κ ν) (k : κ) (v : ν) : SortedMap κ ν :=
  ⟨insertEntry k v m.entries, sorted_insertEntry k v m.sorted⟩

def remove (m : SortedMap κ ν) (k : κ) : SortedMap κ ν :=
  ⟨m.entries.kerase k, m.sorted.sublist (List.kerase_sublist k _)⟩

def isEmpty (m : SortedMap κ ν) : Bool := m.entries.isEmpty

def keys (m : SortedMap κ ν) : List κ := m.entries.map Sigma.fst

def values (m : SortedMap κ ν) : List ν := m.entries.map Sigma.snd

def mapValues (f : ν → μ) (m : SortedMap κ ν) : SortedMap κ μ :=
  ⟨m.entries.map (fun e => ⟨e.1, f e.2⟩), by
    rw [List.pairwise_map]
    exact m.sorted⟩

theorem nodupKeys (m : SortedMap κ ν) : m.entries.NodupKeys :=
  List.nodupKeys_iff_pairwise.mpr (m.sorted.imp ne_of_lt)

theorem keys_nodup (m : SortedMap κ ν) : m.keys.Nodup := m.nodupKeys

theorem ext {m n : SortedMap κ ν} (h : m.entries = n.entries) : m = n := by
  cases m
  cases n
  simpa using h

instance [DecidableEq ν] : DecidableEq (SortedMap κ ν) := fun m n =>
  decidable_of_iff (m.entries = n.entries) ⟨ext, fun h => h ▸ rfl⟩

@[simp] theorem find?_empty (k : κ) : (empty : SortedMap κ ν).find? k = none := rfl

@[simp] theorem values_empty : (empty : SortedMap κ ν).values = [] := rfl

@[simp] theorem isEmpty_empty : (empty : SortedMap κ ν).isEmpty = true := rfl

theorem dlookup_insertEntry (k k' : κ) (v : ν) (es : List ((_ : κ) × ν)) :
    (insertEntry k v es).dlookup k' = if k = k' then some v else es.dlookup k' := by
  have hcons (es : List ((_ : κ) × ν)) :
      List.dlookup k' (⟨k, v⟩ :: es) = if k = k' then some v else es.dlookup k' := by
    split_ifs with h
    · subst h
      exact List.dlookup_cons_eq es k v
    · exact List.dlookup_cons_ne es _ (Ne.symm h)
  induction es with
  | nil => exact hcons []
  | cons d rest ih =>
    obtain ⟨k₀, v₀⟩ := d
    unfold insertEntry
    by_cases hlt : k < k₀
    · rw [if_pos hlt]
      exact hcons _
    · rw [if_neg hlt]
      by_cases heq : k = k₀
      · subst heq
        rw [if_pos rfl, hcons]
        split_ifs with h
        · rfl
        · rw [List.dlookup_cons_ne _ _ (Ne.symm h)]
      · rw [if_neg heq]
        by_cases h : k₀ = k'
        · subst h
          rw [List.dlookup_cons_eq, List.dlookup_cons_eq, if_neg heq]
        · rw [List.dlookup_cons_ne _ _ (Ne.symm h), List.dlookup_cons_ne _ _ (Ne.symm h), ih]

theorem find?_insert (m : SortedMap κ ν) (k k' : κ) (v : ν) :
    (m.insert k v).find? k' = if k = k' then some v else m.find? k' :=
  dlookup_insertEntry k k' v m.entries

@[simp] theorem find?_insert_self (m : SortedMap κ ν) (k : κ) (v : ν) :
    (m.insert k v).find? k = some v := by rw [find?_insert, if_pos rfl]

theorem find?_insert_ne (m : SortedMap κ ν) {k k' : κ} (v : ν) (h : k ≠ k') :
    (m.insert k v).find? k' = m.find? k' := by rw [find?_insert, if_neg h]

theorem find?_remove (m : SortedMap κ ν) (k k' : κ) :
    (m.remove k).find? k' = if k = k' then none else m.find? k' := by
  unfold find? remove
  split_ifs with h
  · subst h
    exact List.dlookup_kerase k m.nodupKeys
  · exact List.dlookup_kerase_ne (Ne.symm h)

theorem mem_entries {m : SortedMap κ ν} {k : κ} {v : ν} :
    ⟨k, v⟩ ∈ m.entries ↔ m.find? k = some v :=
  (List.mem_dlookup_iff m.nodupKeys).symm

theorem mem_values {m : SortedMap κ ν} {v : ν} : v ∈ m.values ↔ ∃ k, m.find? k = some v := by
  unfold values
  rw [List.mem_map]
  constructor
  · rintro ⟨⟨k, w⟩, hmem, rfl⟩
    exact ⟨k, mem_entries.mp hmem⟩
  · rintro ⟨k, hk⟩
    exact ⟨⟨k, v⟩, mem_entries.mpr hk, rfl⟩

theorem mem_keys {m : SortedMap κ ν} {k : κ} : k ∈ m.keys ↔ m.contains k = true := by
  unfold keys contains find?
  rw [List.dlookup_isSome]
  rfl

/-- A reading of the values that tells the keys apart takes each result once. -/
theorem nodup_map_values {m : SortedMap κ ν} {f : ν → μ}
    (h : ∀ a b v w, m.find? a = some v → m.find? b = some w → f v = f w → a = b) :
    (m.values.map f).Nodup := by
  unfold values
  rw [List.map_map]
  refine List.Nodup.map_on ?_ (List.Nodup.of_map Sigma.fst m.keys_nodup)
  rintro ⟨a, v⟩ hv ⟨b, w⟩ hw hf
  have hv := mem_entries.mp hv
  have hw := mem_entries.mp hw
  have hab := h a b v w hv hw hf
  subst hab
  rw [Option.some.inj (hv.symm.trans hw)]

theorem isEmpty_iff {m : SortedMap κ ν} : m.isEmpty = true ↔ m.entries = [] := by
  simp [isEmpty]

theorem entries_ne_nil_of_find? {m : SortedMap κ ν} {k : κ} {v : ν} (h : m.find? k = some v) :
    m.entries ≠ [] := List.ne_nil_of_mem (mem_entries.mpr h)

theorem isEmpty_of_find? {m : SortedMap κ ν} {k : κ} {v : ν} (h : m.find? k = some v) :
    m.isEmpty = false := by
  rw [Bool.eq_false_iff]
  exact fun hempty => entries_ne_nil_of_find? h (isEmpty_iff.mp hempty)

theorem exists_find?_of_isEmpty {m : SortedMap κ ν} (h : m.isEmpty = false) :
    ∃ k v, m.find? k = some v := by
  have hne : m.entries ≠ [] := by
    intro hnil
    rw [isEmpty_iff.mpr hnil] at h
    cases h
  obtain ⟨⟨k, v⟩, hmem⟩ := List.exists_mem_of_ne_nil _ hne
  exact ⟨k, v, mem_entries.mp hmem⟩

theorem not_isEmpty_iff {m : SortedMap κ ν} : (!m.isEmpty) = true ↔ ∃ k, m.contains k = true := by
  constructor
  · intro h
    obtain ⟨k, v, hfind⟩ := exists_find?_of_isEmpty (Bool.not_eq_true' _ ▸ h)
    exact ⟨k, Option.isSome_iff_exists.mpr ⟨v, hfind⟩⟩
  · rintro ⟨k, hk⟩
    obtain ⟨v, hfind⟩ := Option.isSome_iff_exists.mp hk
    rw [isEmpty_of_find? hfind]
    rfl

@[simp] theorem isEmpty_insert (m : SortedMap κ ν) (k : κ) (v : ν) :
    (m.insert k v).isEmpty = false :=
  isEmpty_of_find? (find?_insert_self m k v)

theorem keys_remove (m : SortedMap κ ν) (k : κ) : (m.remove k).keys = m.keys.erase k :=
  (List.keys_kerase (l := m.entries) (a := k)).trans rfl

theorem keys_insert_perm (m : SortedMap κ ν) (k : κ) (v : ν) (h : m.contains k = false) :
    (m.insert k v).keys.Perm (k :: m.keys) := by
  refine (List.perm_ext_iff_of_nodup (keys_nodup _) ?_).mpr fun a => ?_
  · refine List.nodup_cons.mpr ⟨?_, keys_nodup m⟩
    rw [mem_keys, h]
    exact Bool.false_ne_true
  · rw [List.mem_cons, mem_keys, mem_keys]
    unfold contains
    rw [find?_insert]
    split_ifs with hk
    · simp [hk]
    · simp [Ne.symm hk]

theorem entries_nodup (m : SortedMap κ ν) : m.entries.Nodup :=
  List.Nodup.of_map Sigma.fst m.keys_nodup

theorem ext_find? {m n : SortedMap κ ν} (h : ∀ k, m.find? k = n.find? k) : m = n := by
  have hperm : m.entries.Perm n.entries := by
    refine (List.perm_ext_iff_of_nodup (entries_nodup m) (entries_nodup n)).mpr ?_
    rintro ⟨k, v⟩
    rw [mem_entries, mem_entries, h]
  apply ext
  refine hperm.eq_of_pairwise ?_ m.sorted n.sorted
  intro a b _ _ hab hba
  exact absurd hab (lt_asymm hba)

theorem perm_insert (m : SortedMap κ ν) (k : κ) (v : ν) :
    (m.insert k v).entries.Perm (⟨k, v⟩ :: (m.remove k).entries) := by
  refine (List.perm_ext_iff_of_nodup (entries_nodup _) ?_).mpr fun e => ?_
  · refine List.nodup_cons.mpr ⟨fun hmem => ?_, entries_nodup _⟩
    rw [mem_entries, find?_remove, if_pos rfl] at hmem
    cases hmem
  · obtain ⟨k', w⟩ := e
    rw [mem_entries, find?_insert, List.mem_cons, mem_entries, find?_remove]
    by_cases hk : k = k'
    · subst hk
      simp [eq_comm]
    · simp [hk, Ne.symm hk]

theorem perm_remove {m : SortedMap κ ν} {k : κ} {v : ν} (h : m.find? k = some v) :
    m.entries.Perm (⟨k, v⟩ :: (m.remove k).entries) := by
  refine List.Perm.trans ?_ (perm_insert m k v)
  refine (List.perm_ext_iff_of_nodup (entries_nodup _) (entries_nodup _)).mpr fun e => ?_
  obtain ⟨k', w⟩ := e
  rw [mem_entries, mem_entries, find?_insert]
  split_ifs with hk
  · subst hk
    rw [h]
  · exact Iff.rfl

theorem remove_of_find?_eq_none {m : SortedMap κ ν} {k : κ} (h : m.find? k = none) :
    m.remove k = m := by
  refine ext (List.kerase_of_notMem_keys ?_)
  rw [← List.dlookup_isSome]
  exact fun hsome => absurd (hsome.symm.trans (congrArg Option.isSome h)) nofun

def weight (f : ν → Nat) (m : SortedMap κ ν) : Nat := (m.values.map f).sum

theorem weight_insert (f : ν → Nat) (m : SortedMap κ ν) (k : κ) (v : ν) :
    (m.insert k v).weight f = f v + (m.remove k).weight f := by
  unfold weight values
  rw [(((perm_insert m k v).map Sigma.snd).map f).sum_nat]
  rfl

theorem weight_remove (f : ν → Nat) (m : SortedMap κ ν) (k : κ) :
    m.weight f = ((m.find? k).map f).getD 0 + (m.remove k).weight f := by
  cases h : m.find? k with
  | none =>
    rw [remove_of_find?_eq_none h]
    exact (Nat.zero_add _).symm
  | some v =>
    unfold weight values
    rw [(((perm_remove h).map Sigma.snd).map f).sum_nat]
    rfl

theorem add_le_weight (f : ν → Nat) {m : SortedMap κ ν} {a b : κ} {v w : ν} (hab : a ≠ b)
    (ha : m.find? a = some v) (hb : m.find? b = some w) : f v + f w ≤ m.weight f := by
  have hfirst := weight_remove f m a
  have hsecond := weight_remove f (m.remove a) b
  rw [find?_remove, if_neg hab, hb] at hsecond
  rw [ha] at hfirst
  simp only [Option.map_some, Option.getD_some] at hfirst hsecond
  omega

theorem find?_mapValues (f : ν → μ) (m : SortedMap κ ν) (k : κ) :
    (m.mapValues f).find? k = (m.find? k).map f :=
  @List.dlookup_map₂ κ _ _ _ m.entries (fun _ => f) k

theorem contains_mapValues (f : ν → μ) (m : SortedMap κ ν) (k : κ) :
    (m.mapValues f).contains k = m.contains k := by
  unfold contains
  rw [find?_mapValues, Option.isSome_map]

theorem isEmpty_mapValues (f : ν → μ) (m : SortedMap κ ν) :
    (m.mapValues f).isEmpty = m.isEmpty := by
  simp [mapValues, isEmpty]

@[simp] theorem mapValues_mapValues {π : Type} (f : ν → μ) (g : μ → π) (m : SortedMap κ ν) :
    (m.mapValues f).mapValues g = m.mapValues (g ∘ f) := by
  apply ext
  simp [mapValues]

theorem values_mapValues (f : ν → μ) (m : SortedMap κ ν) :
    (m.mapValues f).values = m.values.map f := by
  simp [mapValues, values, Function.comp_def]

theorem mapValues_insert (f : ν → μ) (m : SortedMap κ ν) (k : κ) (v : ν) :
    (m.insert k v).mapValues f = (m.mapValues f).insert k (f v) := by
  apply ext
  simp only [mapValues, insert]
  generalize m.entries = es
  induction es with
  | nil => rfl
  | cons d rest ih =>
    obtain ⟨k', v'⟩ := d
    simp only [insertEntry, List.map_cons]
    split_ifs <;> simp [ih]

end SortedMap
end Lobster
