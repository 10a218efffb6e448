import LobsterProxy.Base.Emitter

/-! Two state machines that stay related and emit outputs that read the same, over
arbitrary types of states and events. -/

namespace Lobster.Emitter
variable {σ τ ε φ α β : Type} {R : σ → τ → Prop} {read : ε → φ}

/-- From related states the two steps lead to related states, and what they emit reads the same. -/
def Twins (R : σ → τ → Prop) (read : ε → φ) (f : Emitter σ ε) (g : Emitter τ ε) : Prop :=
  ∀ s t, R s t → R (f s).1 (g t).1 ∧ (f s).2.map read = (g t).2.map read

def skip : Emitter σ ε := fun s => (s, [])

theorem Twins.andThen {f f' : Emitter σ ε} {g g' : Emitter τ ε} (h : Twins R read f g)
    (h' : Twins R read f' g') : Twins R read (f.andThen f') (g.andThen g') := by
  intro s t hst
  obtain ⟨hfirst, hout⟩ := h s t hst
  obtain ⟨hsecond, hout'⟩ := h' _ _ hfirst
  refine ⟨hsecond, ?_⟩
  unfold Emitter.andThen
  rw [List.map_append, List.map_append, hout, hout']

theorem twins_forEach_map {f : α → Emitter σ ε} {g : β → Emitter τ ε} {image : α → β}
    (h : ∀ a, Twins R read (f a) (g (image a))) (as : List α) :
    Twins R read (forEach f as) (forEach g (as.map image)) := by
  induction as with
  | nil => exact fun s t hst => ⟨hst, rfl⟩
  | cons a as ih => exact (h a).andThen ih

theorem twins_forEach {f : α → Emitter σ ε} {g : α → Emitter τ ε}
    (h : ∀ a, Twins R read (f a) (g a)) (as : List α) :
    Twins R read (forEach f as) (forEach g as) := by
  have himage (a : α) : Twins R read (f a) (g (id a)) := h a
  have hmap := twins_forEach_map himage as
  rwa [List.map_id] at hmap

theorem twins_forEach_filter {f : α → Emitter σ ε} {g : α → Emitter τ ε} {p : α → Bool}
    (h : ∀ a, p a = true → Twins R read (f a) (g a))
    (hskip : ∀ a, p a = false → Twins R read (f a) skip) (as : List α) :
    Twins R read (forEach f as) (forEach g (as.filter p)) := by
  induction as with
  | nil => exact fun s t hst => ⟨hst, rfl⟩
  | cons a as ih =>
    cases hp : p a with
    | true =>
      rw [List.filter_cons_of_pos hp]
      exact (h a hp).andThen ih
    | false =>
      rw [List.filter_cons_of_neg (by rw [hp]; exact Bool.false_ne_true)]
      have hstep := (hskip a hp).andThen ih
      intro s t hst
      exact hstep s t hst

theorem twins_silent {u : σ → σ} {v : τ → τ} (h : ∀ s t, R s t → R (u s) (v t)) :
    Twins R read (silent u : Emitter σ ε) (silent v) := fun s t hst => ⟨h s t hst, rfl⟩

end Lobster.Emitter
