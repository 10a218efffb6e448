import LobsterProxy.Base.Runs
import Mathlib.Logic.Function.Basic

/-! Calls around a gate. A call looks at the shared data, waits for the gate and looks once
more behind it; who is still inside then sends a request and updates the data with the
answer. Calls interleave in any order, and one may be given up at any point. -/

namespace Lobster.Gate
open Runs

variable {δ τ ρ α ω : Type}

/-- What a call does with the data: either look may settle it, else its request goes out. -/
structure Protocol (δ τ ρ α ω : Type) where
  enter : δ → τ → Option ω
  recheck : δ → τ → Except ω ρ
  finish : δ → α → δ × ω

inductive Phase where
  | away
  | waiting
  | inside
  | done
  deriving DecidableEq

/-- What is seen of the calls; a call that returns leaves the data and the time behind. -/
inductive Entry (δ τ ρ ω : Type) where
  | requested (i : Nat) (request : ρ)
  | returned (i : Nat) (result : ω) (answered : Bool) (now : τ) (data : δ)

inductive Event (τ α : Type) where
  | call (i : Nat) (now : τ)
  | acquire (i : Nat) (now : τ)
  | answer (i : Nat) (now : τ) (answer : α)
  | abandon (i : Nat) (now : τ)

def Event.now : Event τ α → τ
  | call _ now => now
  | acquire _ now => now
  | answer _ now _ => now
  | abandon _ now => now

structure State (δ τ ρ ω : Type) where
  data : δ
  holder : Option Nat
  phase : Nat → Phase
  log : List (Entry δ τ ρ ω)

namespace Entry

def isRequested : Entry δ τ ρ ω → Bool
  | requested .. => true
  | returned .. => false

def result : Entry δ τ ρ ω → Option ω
  | requested .. => none
  | returned _ result _ _ _ => some result

def isAnswered (success : ω → Bool) : Entry δ τ ρ ω → Bool
  | returned _ result true _ _ => success result
  | _ => false

/-- The call returned this result, and sent no request of its own. -/
def IsSettled (same : ω) : Entry δ τ ρ ω → Prop
  | requested .. => False
  | returned _ result answered _ _ => result = same ∧ answered = false

/-- The call returns a result that is accepted on fresh data only. -/
def IsSound (accepted : ω → Prop) (fresh : δ → τ → Prop) : Entry δ τ ρ ω → Prop
  | requested .. => True
  | returned _ result _ now data => accepted result → fresh data now

end Entry

namespace State

def idle (data : δ) : State δ τ ρ ω := ⟨data, none, fun _ => .away, []⟩

def leave (i : Nat) (result : ω) (answered : Bool) (now : τ) (s : State δ τ ρ ω) : State δ τ ρ ω :=
  { s with
    phase := Function.update s.phase i .done
    log := s.log ++ [.returned i result answered now s.data] }

end State

variable (p : Protocol δ τ ρ α ω)

def perform : Event τ α → State δ τ ρ ω → State δ τ ρ ω
  | .call i now, s =>
    if s.phase i = .away then
      match p.enter s.data now with
      | some result => s.leave i result false now
      | none => { s with phase := Function.update s.phase i .waiting }
    else s
  | .acquire i now, s =>
    if s.phase i = .waiting ∧ s.holder = none then
      match p.recheck s.data now with
      -- settled behind the gate, the call does not keep it
      | .error result => s.leave i result false now
      | .ok request => { s with
          holder := some i
          phase := Function.update s.phase i .inside
          log := s.log ++ [.requested i request] }
    else s
  | .answer i now answer, s =>
    if s.holder = some i then
      let finished := p.finish s.data answer
      { s with data := finished.1, holder := none }.leave i finished.2 true now
    else s
  -- a request under way is given up with its call
  | .abandon i _, s => { s with
      holder := if s.holder = some i then none else s.holder
      phase := Function.update s.phase i .done }

def after (data : δ) (events : List (Event τ α)) : State δ τ ρ ω :=
  run (perform p) events (.idle data)

variable {p} {event : Event τ α} {events : List (Event τ α)} {s : State δ τ ρ ω}

/-- What one event can do: nothing that is seen, settle a call at one of its looks, send a
request from behind the gate, or bring its answer. -/
theorem perform_cases (p : Protocol δ τ ρ α ω) (event : Event τ α) (s : State δ τ ρ ω) :
    ((perform p event s).log = s.log ∧ (perform p event s).data = s.data ∧
      ((perform p event s).holder = s.holder ∨ (perform p event s).holder = none)) ∨
    (∃ i result, (p.enter s.data event.now = some result ∨
      p.recheck s.data event.now = .error result) ∧
      (perform p event s).log = s.log ++ [.returned i result false event.now s.data] ∧
      (perform p event s).data = s.data ∧ (perform p event s).holder = s.holder) ∨
    (∃ i now request, event = .acquire i now ∧ s.phase i = .waiting ∧ s.holder = none ∧
      p.recheck s.data now = .ok request ∧ (perform p event s).log =
        s.log ++ [.requested i request] ∧
      (perform p event s).data = s.data ∧ (perform p event s).holder = some i) ∨
    ∃ i now answer, event = .answer i now answer ∧ s.holder = some i ∧
      (perform p event s).log = s.log ++
        [.returned i (p.finish s.data answer).2 true now (p.finish s.data answer).1] ∧
      (perform p event s).data = (p.finish s.data answer).1 ∧
      (perform p event s).holder = none := by
  cases event with
  | call i now =>
    by_cases haway : s.phase i = .away
    · cases hlook : p.enter s.data now with
      | none => exact .inl (by simp [perform, haway, hlook])
      | some result =>
        exact .inr (.inl ⟨i, result, .inl hlook,
          by simp [perform, haway, hlook, State.leave, Event.now]⟩)
    · exact .inl (by simp [perform, haway])
  | acquire i now =>
    by_cases hready : s.phase i = .waiting ∧ s.holder = none
    · cases hlook : p.recheck s.data now with
      | error result =>
        exact .inr (.inl ⟨i, result, .inr hlook,
          by simp [perform, hready, hlook, State.leave, Event.now]⟩)
      | ok request =>
        exact .inr (.inr (.inl ⟨i, now, request, rfl, hready.1, hready.2, hlook,
          by simp [perform, hready, hlook]⟩))
    · exact .inl (by simp [perform, hready])
  | answer i now answer =>
    by_cases hholder : s.holder = some i
    · exact .inr (.inr (.inr ⟨i, now, answer, rfl, hholder,
        by simp [perform, hholder, State.leave]⟩))
    · exact .inl (by simp [perform, hholder])
  | abandon i now =>
    refine .inl ⟨rfl, rfl, ?_⟩
    by_cases hholder : s.holder = some i
    · exact .inr (if_pos hholder)
    · exact .inl (if_neg hholder)

theorem log_prefix_perform : s.log <+: (perform p event s).log := by
  rcases perform_cases p event s with ⟨hlog, -⟩ | ⟨_, _, -, hlog, -⟩ |
    ⟨_, _, _, -, -, -, -, hlog, -⟩ | ⟨_, _, _, -, -, hlog, -⟩
  · exact hlog ▸ List.prefix_rfl
  · exact hlog ▸ List.prefix_append ..
  · exact hlog ▸ List.prefix_append ..
  · exact hlog ▸ List.prefix_append ..

theorem log_prefix_run : s.log <+: (run (perform p) events s).log := by
  induction events generalizing s with
  | nil => exact List.prefix_rfl
  | cons event events ih => exact log_prefix_perform.trans ih

theorem log_run_cons {entry : Entry δ τ ρ ω} {entries : List (Entry δ τ ρ ω)}
    (hlog : (perform p event s).log = s.log ++ [entry])
    (hentries : (run (perform p) events (perform p event s)).log =
      (perform p event s).log ++ entries) :
    (run (perform p) (event :: events) s).log = s.log ++ entry :: entries := by
  rw [run_cons, hentries, hlog, List.append_assoc, List.singleton_append]

section Single
variable {success : ω → Bool}

/-- One request at most succeeds, and none goes out after it. -/
structure Single (success : ω → Bool) (log : List (Entry δ τ ρ ω)) : Prop where
  once : log.countP (Entry.isAnswered success) ≤ 1
  last : log.Pairwise fun earlier later => earlier.isAnswered success = true →
    later.isRequested = false

/-- No request goes out from here once one has succeeded. -/
def Unanswered (p : Protocol δ τ ρ α ω) (success : ω → Bool) : Event τ α → State δ τ ρ ω → Prop
  | .acquire i now, s =>
    s.phase i = .waiting → s.holder = none → (p.recheck s.data now).toBool = true →
      s.log.countP (Entry.isAnswered success) = 0
  | _, _ => True

variable {log more : List (Entry δ τ ρ ω)} {entry : Entry δ τ ρ ω}

theorem Single.of_prefix (h : Single success more) (hgrown : log <+: more) : Single success log :=
  ⟨Nat.le_trans hgrown.sublist.countP_le h.once, h.last.sublist hgrown.sublist⟩

theorem Single.snoc (h : Single success log)
    (hrequested : entry.isRequested = true → log.countP (Entry.isAnswered success) = 0)
    (hanswered : entry.isAnswered success = true → log.countP (Entry.isAnswered success) = 0) :
    Single success (log ++ [entry]) := by
  constructor
  · rw [List.countP_append, List.countP_singleton]
    split_ifs with hentry
    · exact (hanswered hentry) ▸ Nat.le_refl 1
    · exact h.once
  · refine List.pairwise_append.mpr
      ⟨h.last, List.pairwise_singleton _ _, fun earlier hearlier later hlater hsuccess => ?_⟩
    rw [List.mem_singleton.mp hlater]
    refine Bool.eq_false_iff.mpr fun hentry => ?_
    exact List.countP_eq_zero.mp (hrequested hentry) earlier hearlier hsuccess

theorem Single.unanswered (h : Single success (perform p event s).log) :
    Unanswered p success event s := by
  cases event with
  | acquire i now =>
    intro hwaiting hfree hrequest
    cases hlook : p.recheck s.data now with
    | error result =>
      rw [hlook] at hrequest
      cases hrequest
    | ok request =>
      have hlog : (perform p (.acquire i now) s).log = s.log ++ [.requested i request] := by
        simp [perform, hwaiting, hfree, hlook]
      rw [hlog] at h
      refine List.countP_eq_zero.mpr fun entry hentry hsuccess => ?_
      exact Bool.false_ne_true
        ((List.pairwise_append.mp h.last).2.2 entry hentry _ (List.mem_singleton_self _)
        hsuccess).symm
  | call | answer | abandon => trivial

/-- Who is behind the gate has nothing to fear of the past. -/
structure Guarded (success : ω → Bool) (s : State δ τ ρ ω) : Prop where
  single : Single success s.log
  pending : s.holder ≠ none → s.log.countP (Entry.isAnswered success) = 0

theorem Guarded.perform (h : Guarded success s) (hevent : Unanswered p success event s) :
    Guarded success (perform p event s) := by
  rcases perform_cases p event s with ⟨hlog, -, hholder⟩ | ⟨i, result, -, hlog, -, hholder⟩ |
    ⟨i, now, request, rfl, hwaiting, hfree, hlook, hlog, -, hholder⟩ | ⟨i, now, answer, -, hinside,
    hlog, -, hholder⟩
  · refine ⟨hlog ▸ h.single, fun hinside => ?_⟩
    rw [hlog]
    rcases hholder with hsame | hleft
    · exact h.pending (hsame ▸ hinside)
    · exact absurd hleft hinside
  · refine ⟨?_, fun hinside => ?_⟩
    · rw [hlog]
      exact h.single.snoc nofun nofun
    · rw [hlog, List.countP_append, h.pending (hholder ▸ hinside)]
      rfl
  · have hnone := hevent hwaiting hfree (by rw [hlook]; rfl)
    refine ⟨?_, fun _ => ?_⟩
    · rw [hlog]
      exact h.single.snoc (fun _ => hnone) nofun
    · rw [hlog, List.countP_append, hnone]
      rfl
  · have hnone := h.pending (hinside ▸ Option.some_ne_none i)
    refine ⟨?_, fun hstill => absurd hholder hstill⟩
    rw [hlog]
    exact h.single.snoc nofun fun _ => hnone

/-- A gate alone keeps the requests apart. One success is all there is exactly if nobody goes
on from the gate after it. -/
theorem single_iff (data : δ) (events : List (Event τ α)) :
    Single success (after p data events).log ↔
    Meets (perform p) (Unanswered p success) events (.idle data) := by
  constructor
  · suffices hmeets : ∀ s, Single success (run (Gate.perform p) events s).log →
        Meets (Gate.perform p) (Unanswered p success) events s from hmeets _
    induction events with
    | nil => exact fun _ _ => trivial
    | cons event events ih =>
      intro s h
      -- what is single in the end was so after each event
      have hgrown :
          (Gate.perform p event s).log <+:
          (run (Gate.perform p) events (Gate.perform p event s)).log :=
        log_prefix_run
      exact ⟨(h.of_prefix hgrown).unanswered, ih _ h⟩
  · intro h
    have hidle : Guarded success (State.idle data : State δ τ ρ ω) :=
      ⟨⟨Nat.zero_le 1, List.Pairwise.nil⟩, fun hinside => absurd rfl hinside⟩
    have hguarded := run_invariant (Guarded success) (fun event s h hevent => h.perform hevent)
      hidle h
    exact hguarded.single

end Single

section DoubleChecked
variable {fresh : δ → τ → Prop} {same : ω} {success : ω → Bool}

/-- Both looks settle a call if the data is fresh, with a result that nothing else gives. -/
structure DoubleChecked (p : Protocol δ τ ρ α ω) (fresh : δ → τ → Prop) (same : ω)
    (success : ω → Bool) : Prop where
  enter : ∀ data now, fresh data now → p.enter data now = some same
  recheck : ∀ data now, fresh data now → p.recheck data now = .error same
  looked : ∀ data now result, p.enter data now = some result ∨ p.recheck data now = .error result →
    success result = false ∧ (result = same → fresh data now)
  finish : ∀ data answer, (p.finish data answer).2 ≠ same

def Brings (p : Protocol δ τ ρ α ω) (success : ω → Bool) : Event τ α → State δ τ ρ ω → Prop
  | .answer i _ answer, s => s.holder = some i ∧ success (p.finish s.data answer).2 = true
  | _, _ => False

def Lasting (p : Protocol δ τ ρ α ω) (fresh : δ → τ → Prop) (success : ω → Bool) :
    List (Event τ α) → State δ τ ρ ω → Prop
  | [], _ => True
  | event :: rest, s =>
    (Brings p success event s → ∀ later ∈ event :: rest, fresh (perform p event s).data later.now) ∧
      Lasting p fresh success rest (perform p event s)

section Decide
variable [∀ data now, Decidable (fresh data now)]

instance decidableBrings (event : Event τ α) (s : State δ τ ρ ω) :
    Decidable (Brings p success event s) :=
  match event with
  | .answer _ _ _ => inferInstanceAs (Decidable (_ ∧ _))
  | .call _ _ => .isFalse id
  | .acquire _ _ => .isFalse id
  | .abandon _ _ => .isFalse id

instance decidableLasting (events : List (Event τ α)) (s : State δ τ ρ ω) :
    Decidable (Lasting p fresh success events s) :=
  match events with
  | [] => .isTrue trivial
  | _ :: rest =>
    let _ := decidableLasting rest
    inferInstanceAs (Decidable (_ ∧ _))

end Decide

/-- After a success calls return without a request, and what is accepted is fresh. -/
structure Wave (fresh : δ → τ → Prop) (same : ω) (success : ω → Bool) (log : List (Entry δ τ ρ ω)) :
    Prop where
  followers : log.Pairwise fun earlier later => earlier.isAnswered success = true →
    later.IsSettled same
  sound : ∀ entry ∈ log, entry.IsSound (fun result => result = same ∨ success result = true) fresh

theorem Entry.IsSettled.not_isAnswered {entry : Entry δ τ ρ ω} (h : entry.IsSettled same) :
    ¬ entry.isAnswered success = true := by
  cases entry with
  | requested => exact h.elim
  | returned i result answered now data =>
    obtain ⟨-, rfl⟩ := h
    exact Bool.false_ne_true

theorem Wave.once {log : List (Entry δ τ ρ ω)} (h : Wave fresh same success log) :
    log.countP (Entry.isAnswered success) ≤ 1 := by
  obtain ⟨h, -⟩ := h
  induction log with
  | nil => exact Nat.zero_le 1
  | cons entry log ih =>
    obtain ⟨hfirst, hrest⟩ := List.pairwise_cons.mp h
    rw [List.countP_cons]
    split_ifs with hentry
    · have hnone : log.countP (Entry.isAnswered success) = 0 :=
        List.countP_eq_zero.mpr fun later hlater => (hfirst later hlater hentry).not_isAnswered
      omega
    · exact ih hrest

theorem run_fresh (hp : DoubleChecked p fresh same success) (hfree : s.holder = none)
    (hfresh : ∀ event ∈ events, fresh s.data event.now) :
    ∃ entries, (run (perform p) events s).log = s.log ++ entries ∧ ∀ entry ∈ entries,
      entry.IsSettled same ∧ entry.IsSound (fun result => result = same ∨ success result = true)
        fresh := by
  induction events generalizing s with
  | nil => exact ⟨[], (List.append_nil _).symm, List.forall_mem_nil _⟩
  | cons event events ih =>
    obtain ⟨hnow, hlater⟩ := List.forall_mem_cons.mp hfresh
    rcases perform_cases p event s with ⟨hlog, hdata, hholder⟩ |
      ⟨i, result, hlook, hlog, hdata, hholder⟩ | ⟨i, now, request, rfl, -, -, hlook, -⟩ |
      ⟨i, now, answer, -, hinside, -⟩
    · obtain ⟨entries, hentries, hsettled⟩ := ih (hholder.elim (·.trans hfree) id) (hdata ▸ hlater)
      exact ⟨entries, hlog ▸ hentries, hsettled⟩
    · have hsame : result = same := by
        rcases hlook with hlook | hlook
        · exact Option.some.inj (hlook.symm.trans (hp.enter _ _ hnow))
        · exact Except.error.inj (hlook.symm.trans (hp.recheck _ _ hnow))
      obtain ⟨entries, hentries, hsettled⟩ := ih (hholder.trans hfree) (hdata ▸ hlater)
      refine ⟨_ :: entries, log_run_cons hlog hentries, ?_⟩
      exact List.forall_mem_cons.mpr ⟨⟨⟨hsame, rfl⟩, fun _ => hnow⟩, hsettled⟩
    · exact absurd (hlook.symm.trans (hp.recheck _ _ hnow)) nofun
    · exact absurd (hinside.symm.trans hfree) nofun

theorem run_wave (hp : DoubleChecked p fresh same success)
    (hlasting : Lasting p fresh success events s) :
    ∃ entries, (run (perform p) events s).log = s.log ++ entries ∧
      Wave fresh same success entries := by
  induction events generalizing s with
  | nil => exact ⟨[], (List.append_nil _).symm, List.Pairwise.nil, List.forall_mem_nil _⟩
  | cons event events ih =>
    obtain ⟨hlasts, hrest⟩ := hlasting
    -- an entry that is no success
    have hcons : ∀ entry, (perform p event s).log = s.log ++ [entry] →
        entry.isAnswered success = false →
        entry.IsSound (fun result => result = same ∨ success result = true) fresh →
        ∃ entries, (run (perform p) (event :: events) s).log = s.log ++ entries ∧
        Wave fresh same success entries := by
      intro entry hlog hunanswered hsound
      obtain ⟨entries, hentries, hwave⟩ := ih hrest
      refine ⟨entry :: entries, log_run_cons hlog hentries, ?_,
        List.forall_mem_cons.mpr ⟨hsound, hwave.sound⟩⟩
      exact List.pairwise_cons.mpr ⟨fun _ _ h => absurd h (Bool.eq_false_iff.mp hunanswered),
        hwave.followers⟩
    rcases perform_cases p event s with ⟨hlog, -⟩ | ⟨i, result, hlook, hlog, -⟩ |
      ⟨i, now, request, -, -, -, -, hlog, -⟩ | ⟨i, now, answer, rfl, hinside, hlog, hdata, hholder⟩
    · obtain ⟨entries, hentries, hwave⟩ := ih hrest
      exact ⟨entries, hlog ▸ hentries, hwave⟩
    · obtain ⟨hunsuccessful, hsame⟩ := hp.looked _ _ _ hlook
      exact hcons _ hlog rfl fun h => hsame (h.resolve_right (Bool.eq_false_iff.mp hunsuccessful))
    · exact hcons _ hlog rfl trivial
    · cases hsuccess : success (p.finish s.data answer).2 with
      | false =>
        refine hcons _ hlog hsuccess fun h => ?_
        exact absurd (h.resolve_right (Bool.eq_false_iff.mp hsuccess)) (hp.finish _ _)
      | true =>
        -- from here on the data is fresh and the gate is free
        have hfresh := hlasts ⟨hinside, hsuccess⟩
        obtain ⟨hnow, hlater⟩ := List.forall_mem_cons.mp hfresh
        obtain ⟨entries, hentries, hsettled⟩ := run_fresh hp hholder hlater
        refine ⟨_ :: entries, log_run_cons hlog hentries, ?_, ?_⟩
        · refine List.pairwise_cons.mpr ⟨fun later hmem _ => (hsettled later hmem).1, ?_⟩
          refine List.pairwise_of_forall_mem_list fun earlier hearlier _ _ h => ?_
          exact absurd h (hsettled earlier hearlier).1.not_isAnswered
        · exact List.forall_mem_cons.mpr
            ⟨fun _ => hdata ▸ hnow, fun entry hmem => (hsettled entry hmem).2⟩

/-- Calls that look twice share one success. -/
theorem wave_of_lasting (hp : DoubleChecked p fresh same success) {data : δ}
    (hlasting : Lasting p fresh success events (.idle data)) :
    Wave fresh same success (after p data events).log := by
  obtain ⟨entries, hentries, hwave⟩ := run_wave hp hlasting
  exact hentries ▸ hwave

end DoubleChecked

end Lobster.Gate
