import Mathlib.Data.List.Induction

/-! What a history leaves in a map: an event writes values at keys and wipes keys, and a key
holds what was written last unless it was wiped since. -/

namespace Lobster.Latest
variable {ι κ ν : Type} (writes : ι → κ → Option ν) (wipes : ι → κ → Bool)

def apply (m : κ → Option ν) (e : ι) (k : κ) : Option ν :=
  match writes e k with
  | some v => some v
  | none => if wipes e k then none else m k

/-- The map after the history, from the empty one. -/
def plain (history : List ι) : κ → Option ν := history.foldl (apply writes wipes) fun _ => none

def Passes (k : κ) (e : ι) : Prop := writes e k = none ∧ wipes e k = false

/-- The value is what the last event that writes at the key has written, and none has wiped
the key since. -/
def MostRecent (history : List ι) (k : κ) (v : ν) : Prop :=
  ∃ before e after, history = before ++ e :: after ∧ writes e k = some v ∧
  ∀ later ∈ after, Passes writes wipes k later

variable {writes wipes} {history : List ι} {e : ι} {k : κ} {v w : ν} {m : κ → Option ν}

theorem apply_of_writes (h : writes e k = some v) : apply writes wipes m e k = some v := by
  unfold apply
  rw [h]

theorem apply_of_wipes (h : writes e k = none) (hwipes : wipes e k = true) :
    apply writes wipes m e k = none := by
  unfold apply
  rw [h]
  simp [hwipes]

theorem apply_of_passes (h : Passes writes wipes k e) : apply writes wipes m e k = m k := by
  unfold apply
  rw [h.1]
  simp [h.2]

theorem plain_append (history : List ι) (e : ι) :
    plain writes wipes (history ++ [e]) = apply writes wipes (plain writes wipes history) e := by
  unfold plain
  rw [List.foldl_append]
  rfl

theorem MostRecent.passes (h : MostRecent writes wipes history k v)
    (hpasses : Passes writes wipes k e) :
    MostRecent writes wipes (history ++ [e]) k v := by
  obtain ⟨before, e', after, rfl, hwrites, hafter⟩ := h
  refine ⟨before, e', after ++ [e], by simp, hwrites, fun later hlater => ?_⟩
  rcases List.mem_append.mp hlater with hlater | hlater
  · exact hafter later hlater
  · rw [List.mem_singleton.mp hlater]
    exact hpasses

/-- The key holds what was written last. -/
theorem mostRecent_of_plain (h : plain writes wipes history k = some v) :
    MostRecent writes wipes history k v := by
  induction history using List.reverseRecOn generalizing v with
  | nil => cases h
  | append_singleton history e ih =>
    rw [plain_append] at h
    cases hwrites : writes e k with
    | some w =>
      rw [apply_of_writes hwrites] at h
      refine ⟨history, e, [], rfl, hwrites.trans h, ?_⟩
      intro later hlater
      cases hlater
    | none =>
      cases hwipes : wipes e k with
      | true =>
        rw [apply_of_wipes hwrites hwipes] at h
        cases h
      | false =>
        rw [apply_of_passes ⟨hwrites, hwipes⟩] at h
        exact (ih h).passes ⟨hwrites, hwipes⟩

theorem plain_of_mostRecent (h : MostRecent writes wipes history k v) :
    plain writes wipes history k = some v := by
  obtain ⟨before, e, after, rfl, hwrites, hafter⟩ := h
  induction after using List.reverseRecOn with
  | nil =>
    rw [plain_append]
    exact apply_of_writes hwrites
  | append_singleton after later ih =>
    have hpasses := hafter later (by simp)
    have hbefore := ih fun other hother => hafter other (List.mem_append_left _ hother)
    rw [← List.cons_append, ← List.append_assoc, plain_append, apply_of_passes hpasses]
    exact hbefore

end Lobster.Latest
