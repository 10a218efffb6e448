import Mathlib.Data.List.Basic

/-! Runs of a step function over a list of inputs: what every step keeps, conditions on
the states that the steps start from, and a clock that does not go back. Loops, whose turns
go on or leave. -/

namespace Lobster.Runs
variable {σ ι : Type}

section Run
variable (step : ι → σ → σ)

def run (inputs : List ι) (s : σ) : σ := inputs.foldl (fun s input => step input s) s

/-- Every step starts from a state that meets the condition. -/
def Meets (cond : ι → σ → Prop) : List ι → σ → Prop
  | [], _ => True
  | input :: rest, s => cond input s ∧ Meets cond rest (step input s)

instance decidableMeets (cond : ι → σ → Prop) [∀ input s, Decidable (cond input s)]
    (inputs : List ι) (s : σ) : Decidable (Meets step cond inputs s) :=
  match inputs with
  | [] => .isTrue trivial
  | input :: rest =>
    let _ := decidableMeets cond rest (step input s)
    inferInstanceAs (Decidable (_ ∧ _))

variable {step} {cond cond' : ι → σ → Prop} {inputs more : List ι} {s : σ}

@[simp] theorem run_nil : run step [] s = s := rfl

@[simp] theorem run_cons (input : ι) :
    run step (input :: inputs) s = run step inputs (step input s) :=
  rfl

theorem run_append : run step (inputs ++ more) s = run step more (run step inputs s) :=
  List.foldl_append

/-- A state that tells all of its inputs, when each step tells one more. -/
theorem run_accumulates (told : List ι → σ)
    (h : ∀ inputs input, step input (told inputs) = told (inputs ++ [input]))
    (inputs more : List ι) : run step more (told inputs) = told (inputs ++ more) := by
  induction more generalizing inputs with
  | nil => rw [run_nil, List.append_nil]
  | cons input more ih => rw [run_cons, h, ih, List.append_assoc, List.singleton_append]

theorem meets_append : Meets step cond (inputs ++ more) s ↔
    Meets step cond inputs s ∧ Meets step cond more (run step inputs s) := by
  induction inputs generalizing s with
  | nil => exact ⟨fun h => ⟨trivial, h⟩, And.right⟩
  | cons input inputs ih => exact (and_congr_right fun _ => ih).trans (and_assoc).symm

theorem Meets.imp (h : Meets step cond inputs s) (himp : ∀ input s, cond input s → cond' input s) :
    Meets step cond' inputs s := by
  induction inputs generalizing s with
  | nil => trivial
  | cons input inputs ih => exact ⟨himp input s h.1, ih h.2⟩

theorem meets_of_forall (h : ∀ input ∈ inputs, ∀ s, cond input s) : Meets step cond inputs s := by
  induction inputs generalizing s with
  | nil => trivial
  | cons input inputs ih =>
    obtain ⟨hfirst, hrest⟩ := List.forall_mem_cons.mp h
    exact ⟨hfirst s, ih hrest⟩

theorem run_invariant (inv : σ → Prop)
    (hstep : ∀ input s, inv s → cond input s → inv (step input s)) (hs : inv s)
    (h : Meets step cond inputs s) : inv (run step inputs s) := by
  induction inputs generalizing s with
  | nil => exact hs
  | cons input inputs ih => exact ih (hstep input s hs h.1) h.2

theorem run_keeps (inv : σ → Prop) (hstep : ∀ input s, inv s → inv (step input s)) (hs : inv s) :
    inv (run step inputs s) :=
  run_invariant inv (fun input s h _ => hstep input s h) hs (meets_of_forall fun _ _ _ => trivial)

end Run

section Clock
variable (time : ι → Nat)

/-- The clock starts at `now` and never goes back. -/
def Chronological : Nat → List ι → Prop
  | _, [] => True
  | now, input :: rest => now ≤ time input ∧ Chronological (time input) rest

instance decidableChronological (now : Nat) (inputs : List ι) :
    Decidable (Chronological time now inputs) :=
  match inputs with
  | [] => .isTrue trivial
  | input :: rest =>
    let _ := decidableChronological (time input) rest
    inferInstanceAs (Decidable (_ ∧ _))

def clock (now : Nat) (inputs : List ι) : Nat := inputs.foldl (fun _ input => time input) now

variable {time} {step : ι → σ → σ} {cond : ι → σ → Prop} {inputs more : List ι} {s : σ} {now : Nat}

theorem chronological_append : Chronological time now (inputs ++ more) ↔
    Chronological time now inputs ∧ Chronological time (clock time now inputs) more := by
  induction inputs generalizing now with
  | nil => exact ⟨fun h => ⟨trivial, h⟩, And.right⟩
  | cons input inputs ih => exact (and_congr_right fun _ => ih).trans (and_assoc).symm

/-- An invariant that speaks of the time. -/
theorem run_timed (inv : Nat → σ → Prop)
    (hstep : ∀ input s now, inv now s → now ≤ time input → cond input s →
      inv (time input) (step input s))
    (hs : inv now s) (hclock : Chronological time now inputs) (h : Meets step cond inputs s) :
    inv (clock time now inputs) (run step inputs s) := by
  induction inputs generalizing now s with
  | nil => exact hs
  | cons input inputs ih => exact ih (hstep input s now hs hclock.1 h.1) hclock.2 h.2

theorem run_timed_keeps (inv : Nat → σ → Prop)
    (hstep : ∀ input s now, inv now s → now ≤ time input → inv (time input) (step input s))
    (hs : inv now s) (hclock : Chronological time now inputs) :
    inv (clock time now inputs) (run step inputs s) :=
  run_timed inv (fun input s now h hnow _ => hstep input s now h hnow) hs hclock
    (meets_of_forall fun _ _ _ => trivial)

end Clock

section Loop
variable (turn : σ → Option σ)

/-- The loop leaves after so many turns, in the state where no turn goes on. -/
inductive Leaves : Nat → σ → σ → Prop
  | exit {s : σ} (h : turn s = none) : Leaves 0 s s
  | next {turns : Nat} {s t out : σ} (h : turn s = some t) (rest : Leaves turns t out) : Leaves
      (turns + 1) s out

variable {turn} {turns : Nat} {s out : σ}

theorem Leaves.exits (h : Leaves turn turns s out) : turn out = none := by
  induction h with
  | exit h => exact h
  | next _ _ ih => exact ih

end Loop

end Lobster.Runs
