import LobsterProxy.Base.Json
import Mathlib.Data.List.Nodup

/-! Objects whose keys are distinct, as every parsed one has them: their members may be read
and removed in any order. -/

namespace Lobster

namespace Fields
variable {fields : Fields} {key other : String} {value : Json}

def Distinct (fields : Fields) : Prop := (fields.map Prod.fst).Nodup

instance (fields : Fields) : Decidable (Distinct fields) :=
  inferInstanceAs (Decidable (List.Nodup _))

theorem get?_eq_some (h : Distinct fields) :
    fields.get? key = some value ↔ (key, value) ∈ fields := by
  induction fields with
  | nil => simp
  | cons e rest ih =>
    obtain ⟨k, v⟩ := e
    obtain ⟨hk, hrest⟩ := List.nodup_cons.mp h
    rw [get?_cons, List.mem_cons]
    split_ifs with hkey
    · subst hkey
      have hnot : (k, value) ∉ rest := fun hmem => hk (List.mem_map.mpr ⟨_, hmem, rfl⟩)
      simp [hnot, eq_comm]
    · rw [ih hrest]
      simp [Ne.symm hkey]

theorem get?_congr {fields' : Fields} (h : Distinct fields) (hperm : fields.Perm fields') :
    fields.get? key = fields'.get? key := by
  have h' : Distinct fields' := (hperm.map Prod.fst).nodup_iff.mp h
  ext value
  rw [get?_eq_some h, get?_eq_some h', hperm.mem_iff]

theorem swapRemove_perm (h : Distinct fields) :
    (swapRemove key fields).Perm (fields.filter fun e => e.1 ≠ key) := by
  unfold swapRemove
  cases hfound : fields.findIdx? fun e => e.1 = key with
  | none =>
    have hnone := List.findIdx?_eq_none_iff.mp hfound
    have hall : fields.filter (fun e => e.1 ≠ key) = fields := by
      apply List.filter_eq_self.mpr
      intro e he
      simpa using hnone e he
    rw [hall]
  | some i =>
    obtain ⟨hi, hfirst, -⟩ := List.findIdx?_eq_some_iff_getElem.mp hfound
    have hkey : fields[i].1 = key := of_decide_eq_true hfirst
    clear hfirst
    obtain ⟨before, after, hsplit, hlength⟩ :
        ∃ before after, fields = before ++ fields[i] :: after ∧
        before.length = i := ⟨fields.take i, fields.drop (i + 1), by simp, by simp; omega⟩
    generalize fields[i] = e at hkey hsplit
    subst hsplit hkey
    rw [← hlength]
    have hothers : ∀ d ∈ before ++ after, d.1 ≠ e.1 := by
      have hnodup : (e.1 :: (before ++ after).map Prod.fst).Nodup := by
        have hmiddle := List.perm_middle.map Prod.fst |>.nodup_iff.mp h
        exact hmiddle
      intro d hd hde
      exact (List.nodup_cons.mp hnodup).1 (hde ▸ List.mem_map_of_mem hd)
    have hfilter : (before ++ e :: after).filter (fun d => d.1 ≠ e.1) = before ++ after := by
      have hleft : before.filter (fun d => d.1 ≠ e.1) = before :=
        List.filter_eq_self.mpr fun d hd => by simpa using hothers d (List.mem_append_left _ hd)
      have hright : after.filter (fun d => d.1 ≠ e.1) = after :=
        List.filter_eq_self.mpr fun d hd => by simpa using hothers d (List.mem_append_right _ hd)
      rw [List.filter_append, hleft, List.filter_cons_of_neg (by simp), hright]
    rw [hfilter]
    rcases List.eq_nil_or_concat after with rfl | ⟨rest, last, rfl⟩
    · simp
    · have hset : (before ++ e :: (rest ++ [last])).getLast? = some last := by
        rw [← List.cons_append, ← List.append_assoc, List.getLast?_concat]
      rw [List.concat_eq_append, hset]
      dsimp only
      rw [List.set_append_right _ _ (le_refl _), Nat.sub_self, List.set_cons_zero,
        List.dropLast_append_of_ne_nil (List.cons_ne_nil _ _), ← List.cons_append,
        List.dropLast_concat]
      exact List.Perm.append_left before (List.perm_append_singleton last rest).symm

theorem Distinct.swapRemove (h : Distinct fields) (key : String) :
    Distinct (swapRemove key fields) := by
  have hfilter : Distinct (fields.filter fun e => e.1 ≠ key) :=
    h.sublist (List.filter_sublist.map Prod.fst)
  exact ((swapRemove_perm h).map Prod.fst).nodup_iff.mpr hfilter

theorem get?_swapRemove (h : Distinct fields) : (swapRemove key fields).get? other =
    if key = other then none else fields.get? other := by
  have hfilter : Distinct (fields.filter fun e => e.1 ≠ key) :=
    h.sublist (List.filter_sublist.map Prod.fst)
  rw [get?_congr (h.swapRemove key) (swapRemove_perm h)]
  ext value
  rw [get?_eq_some hfilter, List.mem_filter]
  split_ifs with hkey
  · simp [hkey]
  · rw [get?_eq_some h]
    simp [Ne.symm hkey]

theorem insert_insert (key : String) (first second : Json) (fields : Fields) :
    (fields.insert key first).insert key second = fields.insert key second := by
  induction fields with
  | nil => simp [insert]
  | cons e rest ih =>
    obtain ⟨k, v⟩ := e
    by_cases hk : k = key
    · simp [insert, hk]
    · simp [insert, hk, ih]

theorem insert_of_get? (h : fields.get? key = some value) : fields.insert key value = fields := by
  induction fields with
  | nil => cases h
  | cons e rest ih =>
    obtain ⟨k, v⟩ := e
    rw [get?_cons] at h
    by_cases hk : k = key
    · rw [if_pos hk] at h
      cases h
      simp [insert, hk]
    · rw [if_neg hk] at h
      simp [insert, hk, ih h]

theorem keys_insert (key : String) (value : Json) (fields : Fields) :
    (fields.insert key value).map Prod.fst =
      if key ∈ fields.map Prod.fst then fields.map Prod.fst else fields.map Prod.fst ++ [key] := by
  induction fields with
  | nil => rfl
  | cons e rest ih =>
    obtain ⟨k, v⟩ := e
    unfold insert
    by_cases hk : k = key
    · simp [hk]
    · rw [if_neg hk, List.map_cons, ih]
      simp only [List.map_cons, List.mem_cons, Ne.symm hk, false_or]
      split_ifs <;> simp

theorem Distinct.insert (h : Distinct fields) (key : String) (value : Json) :
    Distinct (fields.insert key value) := by
  unfold Distinct
  rw [keys_insert]
  split_ifs with hkey
  · exact h
  · exact h.append (List.nodup_singleton key) (List.disjoint_singleton.mpr hkey)

theorem Distinct.insertSome (h : Distinct fields) (key : String) (value : Option Json) :
    Distinct (fields.insertSome key value) := by
  cases value with
  | none => exact h
  | some v => exact h.insert key v

end Fields

namespace Json

mutual

/-- The keys are distinct in every object of the value. -/
def distinct : Json → Bool
  | .obj fields => decide (Fields.Distinct fields) && distinctFields fields
  | .arr items => distinctItems items
  | _ => true

def distinctItems : List Json → Bool
  | [] => true
  | item :: rest => distinct item && distinctItems rest

def distinctFields : List (String × Json) → Bool
  | [] => true
  | (_, value) :: rest => distinct value && distinctFields rest

end

theorem distinct_of_mem {items : List Json} {item : Json} (h : distinct (.arr items) = true)
    (hmem : item ∈ items) :
    item.distinct = true := by
  rw [distinct] at h
  induction items with
  | nil => cases hmem
  | cons first rest ih =>
    rw [distinctItems, Bool.and_eq_true] at h
    rcases List.mem_cons.mp hmem with rfl | hmem
    · exact h.1
    · exact ih h.2 hmem

theorem distinct_obj {fields : Fields} (h : distinct (.obj fields) = true) :
    Fields.Distinct fields := by
  rw [distinct, Bool.and_eq_true] at h
  exact of_decide_eq_true h.1

theorem distinct_of_get? {v w : Json} {key : String} (h : v.distinct = true)
    (hget : v.get? key = some w) :
    w.distinct = true := by
  obtain ⟨fields, rfl⟩ := obj_of_get? hget
  rw [distinct, Bool.and_eq_true] at h
  have hmembers := h.2
  rw [get?_obj] at hget
  clear h
  induction fields with
  | nil => cases hget
  | cons e rest ih =>
    obtain ⟨k, value⟩ := e
    rw [distinctFields, Bool.and_eq_true] at hmembers
    rw [Fields.get?_cons] at hget
    split_ifs at hget
    · cases hget
      exact hmembers.1
    · exact ih hget hmembers.2

section Relations
variable {R S T : String → Option Json → Option Json → Prop} {u v w : Json}

/-- Two values that are the same, or objects of which the relation holds key by key. -/
inductive Memberwise (R : String → Option Json → Option Json → Prop) : Json → Json → Prop
  | same (v : Json) : Memberwise R v v
  | members (fields fields' : Fields) (h : ∀ key, R key (fields.get? key) (fields'.get? key)) :
      Memberwise R (.obj fields) (.obj fields')

/-- Two values that are the same, or arrays of which the relation holds place by place. -/
inductive Elementwise (R : Json → Json → Prop) : Json → Json → Prop
  | same (v : Json) : Elementwise R v v
  | elements (items items' : List Json) (h : List.Forall₂ R items items') :
      Elementwise R (.arr items) (.arr items')

theorem Memberwise.comp (hleft : Memberwise R u v) (hright : Memberwise S v w)
    (hR : ∀ key a b, R key a b → T key a b) (hS : ∀ key a b, S key a b → T key a b)
    (hRS : ∀ key a b c, R key a b → S key b c → T key a c) : Memberwise T u w := by
  cases hleft with
  | same =>
    cases hright with
    | same => exact .same _
    | members fields fields' h => exact .members fields fields' fun key => hS key _ _ (h key)
  | members fields fields' h =>
    cases hright with
    | same => exact .members fields fields' fun key => hR key _ _ (h key)
    | members _ last h' => exact .members fields last fun key => hRS key _ _ _ (h key) (h' key)

theorem Memberwise.get? (h : Memberwise R v w) (hrefl : ∀ key a, R key a a) (key : String) :
    R key (v.get? key) (w.get? key) := by
  cases h with
  | same => exact hrefl key _
  | members fields fields' h => exact h key

theorem memberwise_set (hrefl : ∀ key a, R key a a) (v w : Json) {key : String}
    (hkey : R key (v.get? key) (some w)) : Memberwise R v (v.set key w) := by
  cases v with
  | obj fields =>
    refine .members fields (Fields.insert key w fields) fun other => ?_
    by_cases hother : key = other
    · subst hother
      rw [Fields.get?_insert_self]
      exact hkey
    · rw [Fields.get?_insert_ne fields w hother]
      exact hrefl other _
  | _ => exact .same _

end Relations

end Json
end Lobster
