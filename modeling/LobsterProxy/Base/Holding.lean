import Mathlib.Data.List.Basic
import Mathlib.Tactic.SplitIfs

/-! A queue that passes some values on at once and holds others back until a
release, over an arbitrary type of values. -/

namespace Lobster

inductive Arrival (α : Type) where
  | pass (a : α)
  | hold (a : α)
  | release (follow : List α)

namespace Arrival
variable {α : Type}

def contents : Arrival α → List α
  | pass a => [a]
  | hold a => [a]
  | release follow => follow

def isHold : Arrival α → Bool
  | hold _ => true
  | _ => false

def isPass : Arrival α → Bool
  | pass _ => true
  | _ => false

def holdingAfter (holding : Bool) : Arrival α → Bool
  | pass _ => holding
  | hold _ => true
  | release _ => false

end Arrival

namespace Holding
open Arrival
variable {α : Type}

def flush (held : List α) : List (List α) := if held.isEmpty then [] else [held]

/-- The groups of values in the order they leave, the rest of `held` at the end. -/
def deliver : List α → List (Arrival α) → List (List α)
  | held, [] => flush held
  | held, .pass a :: rest => [a] :: deliver held rest
  | held, .hold a :: rest => deliver (held ++ [a]) rest
  | held, .release follow :: rest => flush held ++ (follow.map fun a => [a]) ++ deliver [] rest

def holding (before : Bool) (t : List (Arrival α)) : Bool := t.foldl holdingAfter before

def QuietFrom (held : Bool) (t : List (Arrival α)) : Prop :=
  ∀ pre a post, t = pre ++ .pass a :: post → holding held pre = false

def NoPassWhileHeld (t : List (Arrival α)) : Prop := QuietFrom false t

def epochs : Nat → List (Arrival α) → List Nat
  | _, [] => []
  | n, .hold _ :: rest => n :: epochs n rest
  | n, .pass _ :: rest => epochs (n + 1) rest
  | n, .release _ :: rest => epochs (n + 1) rest

/-- The position of the group of each value that satisfies `p`, in order. -/
def groupsOf (p : α → Bool) : Nat → List (List α) → List Nat
  | _, [] => []
  | n, group :: rest => List.replicate (group.filter p).length n ++ groupsOf p (n + 1) rest

/-- `p` tells the held values from all others. -/
def Separates (p : α → Bool) (arrival : Arrival α) : Prop :=
  ∀ a ∈ arrival.contents, p a = arrival.isHold

@[simp] theorem flush_nil : flush ([] : List α) = [] := rfl

@[simp] theorem flush_cons (a : α) (held : List α) : flush (a :: held) = [a :: held] := rfl

@[simp] theorem flatten_flush (held : List α) : (flush held).flatten = held := by
  cases held <;> simp

theorem flatten_singletons (follow : List α) : (follow.map fun a => [a]).flatten = follow := by
  induction follow with
  | nil => rfl
  | cons a follow ih =>
    rw [List.map_cons, List.flatten_cons, ih]
    rfl

theorem QuietFrom.tail {held : Bool} {arrival : Arrival α} {t : List (Arrival α)}
    (h : QuietFrom held (arrival :: t)) : QuietFrom (arrival.holdingAfter held) t :=
  fun pre a post ht => h (arrival :: pre) a post (by rw [ht, List.cons_append])

theorem QuietFrom.head {held : Bool} {a : α} {t : List (Arrival α)}
    (h : QuietFrom held (pass a :: t)) : held = false := h [] a t rfl

theorem quietFrom_nil (held : Bool) : QuietFrom held ([] : List (Arrival α)) :=
  fun pre a post ht => absurd (congrArg List.length ht) (by simp)

theorem quietFrom_cons {held : Bool} {arrival : Arrival α} {t : List (Arrival α)}
    (hpass : arrival.isPass = true → held = false) (h : QuietFrom (arrival.holdingAfter held) t) :
    QuietFrom held (arrival :: t) := by
  intro pre a post ht
  cases pre with
  | nil =>
    obtain ⟨harrival, -⟩ := List.cons.inj ht
    exact hpass (by rw [harrival]; rfl)
  | cons b pre =>
    obtain ⟨hb, hrest⟩ := List.cons.inj ht
    subst hb
    exact h pre a post hrest

/-- Values leave in the order they came, when nothing passes the held ones. -/
theorem flatten_deliver {t : List (Arrival α)} {held : List α} (h : QuietFrom (!held.isEmpty) t) :
    (deliver held t).flatten = held ++ t.flatMap contents := by
  induction t generalizing held with
  | nil => simp [deliver]
  | cons arrival t ih =>
    cases arrival with
    | pass a =>
      have hnil : held = [] := by simpa using h.head
      subst hnil
      rw [deliver, List.flatten_cons, @ih [] h.tail, List.flatMap_cons]
      rfl
    | hold a =>
      have htail : QuietFrom (!(held ++ [a]).isEmpty) t := by
        rw [show (!(held ++ [a]).isEmpty) = true by simp]
        exact h.tail
      rw [deliver, ih htail, List.flatMap_cons, List.append_assoc]
      rfl
    | release follow =>
      rw [deliver, List.flatten_append, List.flatten_append, flatten_flush, flatten_singletons,
        @ih [] h.tail, List.flatMap_cons, List.append_assoc]
      rfl

theorem quietFrom_of_flatten_deliver {p : α → Bool} {t : List (Arrival α)} {held : List α}
    (hp : ∀ arrival ∈ t, Separates p arrival) (hheld : ∀ a ∈ held, p a = true)
    (h : (deliver held t).flatten = held ++ t.flatMap contents) : QuietFrom (!held.isEmpty) t := by
  induction t generalizing held with
  | nil => exact quietFrom_nil _
  | cons arrival t ih =>
    have hrest := fun b hb => hp b (List.mem_cons_of_mem _ hb)
    have harrival := hp arrival List.mem_cons_self
    cases arrival with
    | pass a =>
      have hnil : held = [] := by
        cases held with
        | nil => rfl
        | cons b held =>
          rw [deliver, List.flatten_cons] at h
          obtain ⟨hab, -⟩ := List.cons.inj h
          have ha : p a = false := harrival a (List.mem_singleton_self a)
          rw [hab, hheld b List.mem_cons_self] at ha
          cases ha
      subst hnil
      rw [deliver, List.flatten_cons, List.flatMap_cons] at h
      exact quietFrom_cons (fun _ => rfl) (ih hrest hheld (List.cons.inj h).2)
    | hold a =>
      rw [deliver, List.flatMap_cons] at h
      have hheld' : ∀ b ∈ held ++ [a], p b = true := List.forall_mem_append.mpr ⟨hheld, harrival⟩
      have hquiet := ih hrest hheld' (by rw [h, List.append_assoc]; rfl)
      rw [show (!(held ++ [a]).isEmpty) = true by simp] at hquiet
      exact quietFrom_cons nofun hquiet
    | release follow =>
      rw [deliver, List.flatten_append, List.flatten_append, flatten_flush, flatten_singletons,
        List.flatMap_cons, List.append_assoc] at h
      have htail := List.append_cancel_left (List.append_cancel_left h)
      exact quietFrom_cons nofun (@ih [] hrest nofun htail)

theorem groupsOf_append (p : α → Bool) (n : Nat) (gs hs : List (List α)) :
    groupsOf p n (gs ++ hs) = groupsOf p n gs ++ groupsOf p (n + gs.length) hs := by
  induction gs generalizing n with
  | nil => rfl
  | cons g gs ih =>
    rw [List.cons_append, groupsOf, groupsOf, ih, List.append_assoc, List.length_cons,
      Nat.add_right_comm, Nat.add_assoc]

theorem le_of_mem_groupsOf {p : α → Bool} {n m : Nat} {gs : List (List α)}
    (h : m ∈ groupsOf p n gs) : n ≤ m := by
  induction gs generalizing n with
  | nil => cases h
  | cons g gs ih =>
    rcases List.mem_append.mp h with h | h
    · exact Nat.le_of_eq (List.eq_of_mem_replicate h).symm
    · exact Nat.le_of_succ_le (ih h)

theorem groupsOf_singletons {p : α → Bool} (n : Nat) {follow : List α}
    (h : ∀ a ∈ follow, p a = false) :
    groupsOf p n (follow.map fun a => [a]) = [] := by
  induction follow generalizing n with
  | nil => rfl
  | cons a follow ih =>
    rw [List.map_cons, groupsOf, ih _ fun b hb => h b (List.mem_cons_of_mem _ hb),
      List.filter_cons_of_neg (by simp [h a List.mem_cons_self])]
    rfl

theorem groupsOf_held {p : α → Bool} (n : Nat) {held : List α} (h : ∀ a ∈ held, p a = true) :
    groupsOf p n (flush held) = List.replicate held.length n := by
  cases held with
  | nil => rfl
  | cons a held =>
    rw [flush_cons, groupsOf, List.filter_eq_self.mpr h]
    exact List.append_nil _

/-- Values that leave in one group came in one epoch, when nothing passes the held ones. -/
theorem epochs_eq_map_groupsOf {p : α → Bool} {t : List (Arrival α)} {held : List α} (n m : Nat)
    (hp : ∀ arrival ∈ t, Separates p arrival) (hheld : ∀ a ∈ held, p a = true)
    (h : QuietFrom (!held.isEmpty) t) :
    ∃ f : Nat → Nat,
      List.replicate held.length n ++ epochs n t = (groupsOf p m (deliver held t)).map f := by
  induction t generalizing held n m with
  | nil =>
    refine ⟨fun _ => n, ?_⟩
    rw [deliver, groupsOf_held m hheld, List.map_replicate, epochs, List.append_nil]
  | cons arrival t ih =>
    have hrest := fun b hb => hp b (List.mem_cons_of_mem _ hb)
    have harrival := hp arrival List.mem_cons_self
    cases arrival with
    | pass a =>
      have hnil : held = [] := by simpa using h.head
      subst hnil
      obtain ⟨f, hf⟩ := @ih [] (n + 1) (m + 1) hrest nofun h.tail
      have ha : p a = false := harrival a (List.mem_singleton_self a)
      refine ⟨f, ?_⟩
      rw [deliver, groupsOf, List.filter_cons_of_neg (by simp [ha])]
      exact hf
    | hold a =>
      have hheld' : ∀ b ∈ held ++ [a], p b = true := List.forall_mem_append.mpr ⟨hheld, harrival⟩
      have htail : QuietFrom (!(held ++ [a]).isEmpty) t := by
        rw [show (!(held ++ [a]).isEmpty) = true by simp]
        exact h.tail
      obtain ⟨f, hf⟩ := ih n m hrest hheld' htail
      refine ⟨f, ?_⟩
      rw [deliver, ← hf, List.length_append, List.replicate_add, List.append_assoc]
      rfl
    | release follow =>
      obtain ⟨f, hf⟩ := @ih [] (n + 1) (m + (flush held).length + follow.length) hrest nofun h.tail
      rw [List.length_nil, List.replicate_zero, List.nil_append] at hf
      have hfollow : ∀ a ∈ follow, p a = false := harrival
      rw [deliver, List.append_assoc, groupsOf_append, groupsOf_append, groupsOf_held m hheld,
        groupsOf_singletons _ hfollow, List.nil_append, List.length_map, epochs, hf]
      cases held with
      | nil => exact ⟨f, rfl⟩
      | cons b held =>
        -- the flushed group alone has position `m`: whatever follows stands further on
        refine ⟨fun k => if k = m then n else f k, ?_⟩
        rw [List.map_append, List.map_replicate, if_pos rfl]
        congr 1
        refine List.map_congr_left fun k hk => ?_
        have hle := le_of_mem_groupsOf hk
        rw [flush_cons, List.length_singleton] at hle
        rw [if_neg (by omega)]

end Holding
end Lobster
