import Mathlib.Data.List.Basic

/-! State machines that append to an output, and traces that obey a local rule,
over arbitrary types of states and events. -/

namespace Lobster

abbrev Emitter (σ ε : Type) := σ → σ × List ε

namespace Emitter
variable {σ ε α : Type}

def silent (f : σ → σ) : Emitter σ ε := fun s => (f s, [])

def andThen (f g : Emitter σ ε) : Emitter σ ε := fun s =>
  let first := f s
  let second := g first.1
  (second.1, first.2 ++ second.2)

def forEach (f : α → Emitter σ ε) : List α → Emitter σ ε
  | [] => fun s => (s, [])
  | a :: as => (f a).andThen (forEach f as)

/-- From a state and a past output that satisfy `pre`, the step leads to a state and
an output that satisfy `post`. -/
def Leads (pre post : σ → List ε → Prop) (f : Emitter σ ε) : Prop :=
  ∀ s out, pre s out → post (f s).1 (out ++ (f s).2)

def Keeps (inv : σ → List ε → Prop) (f : Emitter σ ε) : Prop := Leads inv inv f

variable {pre mid post inv : σ → List ε → Prop} {f g : Emitter σ ε}

theorem leads_silent {u : σ → σ} (h : ∀ s out, pre s out → post (u s) out) :
    Leads pre post (silent u : Emitter σ ε) := by
  intro s out hs
  rw [silent, List.append_nil]
  exact h s out hs

theorem Leads.andThen (hf : Leads pre mid f) (hg : Leads mid post g) :
    Leads pre post (f.andThen g) := by
  intro s out hs
  have hmid := hg _ _ (hf s out hs)
  rw [List.append_assoc] at hmid
  exact hmid

theorem Leads.imp {pre' post' : σ → List ε → Prop} (h : Leads pre post f)
    (hpre : ∀ s out, pre' s out → pre s out) (hpost : ∀ s out, post s out → post' s out) :
    Leads pre' post' f := fun s out hs => hpost _ _ (h s out (hpre s out hs))

theorem Leads.and {pre' post' : σ → List ε → Prop} (h : Leads pre post f)
    (h' : Leads pre' post' f) :
    Leads (fun s out => pre s out ∧ pre' s out) (fun s out => post s out ∧ post' s out) f :=
  fun s out hs => ⟨h s out hs.1, h' s out hs.2⟩

theorem keeps_forEach {f : α → Emitter σ ε} {as : List α} (h : ∀ a ∈ as, Keeps inv (f a)) :
    Keeps inv (forEach f as) := by
  induction as with
  | nil =>
    intro s out hs
    rw [forEach, List.append_nil]
    exact hs
  | cons a as ih =>
    exact (h a List.mem_cons_self).andThen (ih fun b hb => h b (List.mem_cons_of_mem a hb))

/-- `seen` is what has been fed so far: each input adds `g a` to it. -/
theorem leads_forEach {β : Type} {seen : List β → σ → List ε → Prop} {g : α → List β}
    {f : α → Emitter σ ε} (h : ∀ past a, Leads (seen past) (seen (past ++ g a)) (f a)) (as : List α)
    (past : List β) : Leads (seen past) (seen (past ++ as.flatMap g)) (forEach f as) := by
  induction as generalizing past with
  | nil =>
    intro s out hs
    rw [List.flatMap_nil, List.append_nil, forEach, List.append_nil]
    exact hs
  | cons a as ih =>
    rw [List.flatMap_cons, ← List.append_assoc]
    exact (h past a).andThen (ih (past ++ g a))

theorem forEach_append (f : α → Emitter σ ε) (as bs : List α) :
    forEach f (as ++ bs) = (forEach f as).andThen (forEach f bs) := by
  induction as with
  | nil => rfl
  | cons a as ih =>
    funext s
    rw [List.cons_append, forEach, ih, forEach]
    simp only [andThen, List.append_assoc]

theorem forEach_snoc (f : α → Emitter σ ε) (as : List α) (a : α) :
    forEach f (as ++ [a]) = (forEach f as).andThen (f a) := by
  rw [forEach_append]
  funext s
  simp only [forEach, andThen, List.append_nil]

theorem forEach_frame {π : Type} {field : σ → π} {f : α → Emitter σ ε}
    (h : ∀ a s, field (f a s).1 = field s) (as : List α) (s : σ) :
    field (forEach f as s).1 = field s := by
  induction as generalizing s with
  | nil => rfl
  | cons a as ih =>
    have hrest := ih (f a s).1
    rw [h a s] at hrest
    exact hrest

section Alike
variable {β : Type} {view : σ → β}

/-- From states that look alike the two steps lead to states that look alike. -/
def Alike (view : σ → β) (f g : Emitter σ ε) : Prop :=
  ∀ s t, view s = view t → view (f s).1 = view (g t).1

variable {f f' g g' : Emitter σ ε}

theorem Alike.andThen (h : Alike view f g) (h' : Alike view f' g') :
    Alike view (f.andThen f') (g.andThen g') := fun s t hst => h' _ _ (h s t hst)

theorem alike_forEach {f g : α → Emitter σ ε} (h : ∀ a, Alike view (f a) (g a)) (as : List α) :
    Alike view (forEach f as) (forEach g as) := by
  induction as with
  | nil => exact fun s t hst => hst
  | cons a as ih => exact (h a).andThen ih

theorem alike_of_view {view : σ → σ} (hf : ∀ s, view (f s).1 = view (g (view s)).1)
    (hg : ∀ s, view (g s).1 = view (g (view s)).1) : Alike view f g := by
  intro s t hst
  calc view (f s).1 = view (g (view s)).1 := hf s
    _ = view (g (view t)).1 := by rw [hst]
    _ = view (g t).1 := (hg t).symm

end Alike

end Emitter

namespace Trace
variable {ε : Type} {allowed : List ε → ε → Prop}

/-- Every event is one that `allowed` lets follow the events before it. -/
def Legal (allowed : List ε → ε → Prop) (t : List ε) : Prop :=
  ∀ pre e post, t = pre ++ e :: post → allowed pre e

theorem legal_nil : Legal allowed [] := fun pre e post ht =>
  absurd ht.symm (List.append_ne_nil_of_right_ne_nil pre (List.cons_ne_nil e post))

theorem Legal.snoc {t : List ε} {e : ε} (h : Legal allowed t) (he : allowed t e) :
    Legal allowed (t ++ [e]) := by
  intro pre e' post ht
  rcases List.eq_nil_or_concat post with hpost | ⟨post', last, hpost⟩
  · rw [hpost] at ht
    obtain ⟨hpre, he'⟩ := List.append_inj' ht rfl
    rw [← hpre, ← (List.cons.inj he').1]
    exact he
  · rw [hpost, List.concat_eq_append, ← List.cons_append, ← List.append_assoc] at ht
    exact h pre e' post' (List.append_inj' ht rfl).1

theorem Legal.of_append {t u : List ε} (h : Legal allowed (t ++ u)) : Legal allowed t :=
  fun pre e post ht => h pre e (post ++ u) (by rw [ht, List.append_assoc, List.cons_append])

theorem legal_snoc_iff {t : List ε} {e : ε} :
    Legal allowed (t ++ [e]) ↔ Legal allowed t ∧ allowed t e := by
  constructor
  · intro h
    exact ⟨h.of_append, h t e [] rfl⟩
  · rintro ⟨h, he⟩
    exact h.snoc he

section Opened
variable {opens needs : ε → Bool} {e : ε} {t : List ε}

def Opened (opens needs : ε → Bool) (t : List ε) : Prop :=
  Legal (fun past e => needs e = true → past.any opens = true) t

theorem opened_cons (hopens : opens e = true) (hneeds : needs e = false) (t : List ε) :
    Opened opens needs (e :: t) := by
  intro pre e' post ht hneeds'
  cases pre with
  | nil =>
    obtain ⟨rfl, -⟩ := List.cons.inj ht
    rw [hneeds] at hneeds'
    cases hneeds'
  | cons first pre =>
    obtain ⟨rfl, -⟩ := List.cons.inj ht
    rw [List.any_cons, hopens, Bool.true_or]

theorem not_opened_cons (hneeds : needs e = true) (t : List ε) : ¬ Opened opens needs (e :: t) := by
  intro h
  have hnone := h [] e t rfl hneeds
  cases hnone

end Opened

section Written
variable {select select' : ε → Option String}

/-- The strings that the selected events carry, end to end. -/
def written (select : ε → Option String) : List ε → String
  | [] => ""
  | e :: t => (select e).getD "" ++ written select t

@[simp] theorem written_nil : written select [] = "" := rfl

theorem written_cons (e : ε) (t : List ε) :
    written select (e :: t) = (select e).getD "" ++ written select t := rfl

@[simp] theorem written_append (t u : List ε) :
    written select (t ++ u) = written select t ++ written select u := by
  induction t with
  | nil => simp
  | cons e t ih => rw [List.cons_append, written_cons, written_cons, ih, String.append_assoc]

@[simp] theorem written_singleton (e : ε) : written select [e] = (select e).getD "" := by
  rw [written_cons, written_nil, String.append_empty]

theorem written_congr {t : List ε} (h : ∀ e ∈ t, select e = select' e) :
    written select t = written select' t := by
  induction t with
  | nil => rfl
  | cons e t ih =>
    rw [written_cons, written_cons, h e List.mem_cons_self,
      ih fun e' he' => h e' (List.mem_cons_of_mem e he')]

theorem written_eq_empty {t : List ε} (h : ∀ e ∈ t, select e = none) : written select t = "" := by
  induction t with
  | nil => rfl
  | cons e t ih =>
    rw [written_cons, h e List.mem_cons_self, ih fun e' he' => h e' (List.mem_cons_of_mem e he')]
    rfl

theorem written_eq_empty_iff {t : List ε} :
    written select t = "" ↔ ∀ e ∈ t, (select e).getD "" = "" := by
  induction t with
  | nil => simp
  | cons e t ih =>
    rw [written_cons, List.forall_mem_cons, ← ih]
    constructor
    · intro h
      have hlist := congrArg String.toList h
      rw [String.toList_append] at hlist
      obtain ⟨hfirst, hrest⟩ := List.append_eq_nil_iff.mp hlist
      exact ⟨String.toList_inj.mp hfirst, String.toList_inj.mp hrest⟩
    · rintro ⟨hfirst, hrest⟩
      rw [hfirst, hrest]
      rfl

theorem written_flatMap {α : Type} {g : α → List ε} {read : α → Option String} {as : List α}
    (h : ∀ a ∈ as, written select (g a) = (read a).getD "") :
    written select (as.flatMap g) = written read as := by
  induction as with
  | nil => rfl
  | cons a as ih =>
    rw [List.flatMap_cons, written_append, written_cons, h a List.mem_cons_self,
      ih fun b hb => h b (List.mem_cons_of_mem a hb)]

theorem written_filterMap_some {α : Type} (read : α → Option String) (as : List α) :
    written some (as.filterMap read) = written read as := by
  induction as with
  | nil => rfl
  | cons a as ih =>
    rw [List.filterMap_cons, written_cons]
    cases hread : read a with
    | none => simpa using ih
    | some text => simp [written_cons, ih]

end Written

end Trace
end Lobster
