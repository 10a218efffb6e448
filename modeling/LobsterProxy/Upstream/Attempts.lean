import LobsterProxy.Upstream.Failover
import LobsterProxy.Upstream.Operations

/-! How often a generation call asks: the failover counter and the one refresh bound its
turns, as long as the counter can pass the number of accounts. -/

namespace Lobster.Upstream
open PoolState Pool Call

/-- A turn of the loop, with what others do to the pool before its pick and while its request
is under way. -/
structure Round where
  turn : Turn
  before : Pool → Pool
  during : Pool → Pool

namespace Round

def alone (turn : Turn) : Round := ⟨turn, id, id⟩

def Shrinks (round : Round) : Prop :=
  ∀ pool, (round.before pool).entries.length ≤ pool.entries.length ∧
    (round.during pool).entries.length ≤ pool.entries.length

theorem shrinks_alone (turn : Turn) : (alone turn).Shrinks := fun _ => ⟨le_rfl, le_rfl⟩

end Round

structure Tally where
  requests : Nat
  refreshes : Nat
  ended : Bool

section Attempts
variable (serde : Serde) (generation : Generation)

namespace Call

/-- The account of the round and the pool that its pick leaves. -/
def found (round : Round) (call : Call) : Option Credential × Pool :=
  { call with pool := round.before call.pool }.select generation round.turn

def attempt (round : Round) (call : Call) : Next :=
  let found := call.found generation round
  match found.1 with
  | none => noCredential generation round.turn found.2
  | some credential =>
    respond serde generation round.turn credential { call with pool := round.during found.2 }

def sends (round : Round) (call : Call) : Bool := (call.found generation round).1.isSome

def forces (round : Round) (call : Call) : Bool :=
  call.sends generation round && round.turn.answer.isUnauthorized && call.retried401Account.isNone

end Call

/-- The loop over the rounds that the world has in store. -/
def tally : List Round → Call → Tally
  | [], _ => ⟨0, 0, false⟩
  | round :: rest, call =>
    let later : Tally := match call.attempt serde generation round with
      | .done _ _ => ⟨0, 0, true⟩
      | .again call' => tally rest call'
    ⟨later.requests + (call.sends generation round).toNat,
      later.refreshes + (call.forces generation round).toNat,
      later.ended⟩

/-- The call comes to an end, after a request for each account and two more at most, and one
forced refresh. -/
def Frugal (rounds : Nat → Round) (pool : Pool) : Prop :=
  ∃ k, let all := tally serde generation ((List.range k).map rounds) (.new pool)
    all.ended = true ∧ all.requests ≤ max pool.entries.length 1 + 2 ∧ all.refreshes ≤ 1

end Attempts

section Loop
variable {serde : Serde} {generation : Generation} {turn : Turn} {round : Round}
    {rounds : List Round} {call call' : Call}

theorem attempt_alone (serde : Serde) (generation : Generation) (turn : Turn) (call : Call) :
    call.attempt serde generation (.alone turn) = call.step serde generation turn := rfl

/-- Where nobody else uses the pool, the rounds are the turns of `generate`. -/
theorem tally_alone (serde : Serde) (generation : Generation) (turns : List Turn) (call : Call) :
    let run := generate serde generation turns call
    let all := tally serde generation (turns.map .alone) call
    all.requests = run.visits.countP (fun v => (v.request generation).isSome) ∧
      all.ended = run.ending.isSome := by
  induction turns generalizing call with
  | nil => exact ⟨rfl, rfl⟩
  | cons turn turns ih =>
    dsimp only
    unfold generate
    rw [List.map_cons, tally, attempt_alone]
    have hsends : call.sends generation (.alone turn) =
        ((⟨call, turn⟩ : Visit).request generation).isSome := rfl
    cases hstep : call.step serde generation turn with
    | done pool outcome =>
      dsimp only
      rw [hsends, List.countP_singleton, Nat.zero_add]
      refine ⟨?_, rfl⟩
      cases ((⟨call, turn⟩ : Visit).request generation).isSome <;> rfl
    | again call' =>
      obtain ⟨hrequests, hended⟩ := ih call'
      dsimp only
      rw [hsends, List.countP_cons, hrequests, hended]
      refine ⟨?_, rfl⟩
      cases ((⟨call, turn⟩ : Visit).request generation).isSome <;> rfl

theorem length_entries_select (generation : Generation) (turn : Turn) (call : Call) :
    (call.select generation turn).2.entries.length ≤ call.pool.entries.length := by
  unfold select
  split
  · rfl
  · rw [entries_pick]
    exact List.length_filter_le _ _

theorem again_attempt (hround : round.Shrinks)
    (h : call.attempt serde generation round = .again call') :
    call'.pool.entries.length ≤ call.pool.entries.length ∧
      ((call'.failoverCount = (call.failoverCount + 1) % 2 ^ 32 ∧
        call'.failoverCount ≤ maxFailovers call'.pool ∧
          call'.retried401Account = call.retried401Account ∧ call.forces generation round = false) ∨
        (call'.failoverCount = call.failoverCount ∧ call.retried401Account = none ∧
          call'.retried401Account.isSome = true)) := by
  have hpicked :=
    (length_entries_select generation round.turn { call with pool := round.before call.pool }).trans
    (hround call.pool).1
  unfold attempt found at h
  unfold forces sends found
  dsimp only at h
  split at h
  · exact absurd h noCredential_ne_again
  · next credential hselected =>
    have hduring := ((hround _).2.trans hpicked)
    cases again_respond h with
    | failover hburns hburnt hcount hbudget hretried =>
      have hanswer : round.turn.answer.isUnauthorized = false := by
        rw [Bool.eq_false_iff]
        intro hunauthorized
        exact not_burns_of_unauthorized serde hunauthorized hburns
      refine ⟨?_, .inl ⟨hcount, Nat.not_lt.mp hbudget, hretried, ?_⟩⟩
      · rw [hburnt.entries]
        exact hduring
      · simp [hanswer]
    | refreshed hanswer hfirst accessToken refreshToken hrefresh hpool hcount hretried =>
      refine ⟨?_, .inr ⟨hcount, hfirst, by rw [hretried]; rfl⟩⟩
      rw [hpool]
      simpa [Pool.applyRefresh] using hduring

theorem forces_le (generation : Generation) (round : Round) (call : Call) :
    (call.forces generation round).toNat ≤ call.retried401Account.isNone.toNat := by
  unfold forces
  cases call.retried401Account.isNone with
  | false => simp
  | true => exact Bool.toNat_le _

/-- The requests that a call may still send, and one for the refresh. -/
def budget (n : Nat) (call : Call) : Nat :=
  max n 1 + 1 - call.failoverCount + call.retried401Account.isNone.toNat

theorem budget_attempt {n : Nat} (hn : n < 2 ^ 32 - 1) (hentries : call.pool.entries.length ≤ n)
    (hcount : call.failoverCount ≤ max n 1) (hround : round.Shrinks)
    (h : call.attempt serde generation round = .again call') :
    call'.pool.entries.length ≤ n ∧ call'.failoverCount ≤ max n 1 ∧
    budget n call' + 1 = budget n call ∧
      (call.forces generation round).toNat + call'.retried401Account.isNone.toNat ≤
        call.retried401Account.isNone.toNat := by
  have hforces := forces_le generation round call
  obtain ⟨hshrunk, ⟨hnext, hbudget, hretried, hnone⟩ | ⟨hnext, hfirst, hsecond⟩⟩ :=
    again_attempt hround h
  · have hmax : maxFailovers call'.pool ≤ max n 1 := by
      unfold maxFailovers
      rw [Nat.mod_eq_of_lt (by omega)]
      omega
    have hcounted : call'.failoverCount = call.failoverCount + 1 := by
      rw [hnext, Nat.mod_eq_of_lt (by omega)]
    refine ⟨by omega, by omega, ?_, ?_⟩
    · unfold budget
      rw [hretried]
      omega
    · rw [hretried, hnone]
      simp
  · have hdone : call'.retried401Account.isNone = false := by simpa using hsecond
    have hfree : call.retried401Account.isNone = true := by simp [hfirst]
    rw [hdone, hfree]
    rw [hfree] at hforces
    refine ⟨by omega, by omega, ?_, by simpa using hforces⟩
    unfold budget
    rw [hnext, hdone, hfree]
    simp

/-- A call keeps to its budget, and is over when the rounds have used it up. -/
theorem tally_le_budget {n : Nat} (hn : n < 2 ^ 32 - 1) (hentries : call.pool.entries.length ≤ n)
    (hcount : call.failoverCount ≤ max n 1) (hrounds : ∀ round ∈ rounds, round.Shrinks) :
    (tally serde generation rounds call).requests ≤ budget n call ∧
      (tally serde generation rounds call).refreshes ≤ call.retried401Account.isNone.toNat ∧
        (budget n call ≤ rounds.length → (tally serde generation rounds call).ended = true) := by
  have hpositive : 0 < budget n call := by
    unfold budget
    omega
  induction rounds generalizing call with
  | nil =>
    refine ⟨Nat.zero_le _, Nat.zero_le _, ?_⟩
    intro hlength
    rw [List.length_nil] at hlength
    omega
  | cons round rounds ih =>
    obtain ⟨hround, hrest⟩ := List.forall_mem_cons.mp hrounds
    have hsends : (call.sends generation round).toNat ≤ 1 := Bool.toNat_le _
    have hforces := forces_le generation round call
    rw [tally]
    cases hattempt : call.attempt serde generation round with
    | done pool outcome =>
      dsimp only
      refine ⟨by omega, by omega, ?_⟩
      intro
      rfl
    | again call' =>
      obtain ⟨hless, hlow, hbudget, hrefresh⟩ := budget_attempt hn hentries hcount hround hattempt
      have hleft : 0 < budget n call' := by
        unfold budget
        omega
      obtain ⟨hrequests, hrefreshes, hended⟩ := ih hless hlow hrest hleft
      dsimp only
      refine ⟨by omega, by omega, ?_⟩
      intro hlength
      rw [List.length_cons] at hlength
      exact hended (by omega)

theorem frugal_of_lt {pool : Pool} {rounds : Nat → Round} (hn : pool.entries.length < 2 ^ 32 - 1)
    (hrounds : ∀ i, (rounds i).Shrinks) : Frugal serde generation rounds pool := by
  have hstart : budget pool.entries.length (.new pool) = max pool.entries.length 1 + 2 := rfl
  have hall :
      ∀ round ∈ (List.range (budget pool.entries.length (.new pool))).map rounds,
      round.Shrinks := by
    intro round hround
    obtain ⟨i, -, rfl⟩ := List.mem_map.mp hround
    exact hrounds i
  obtain ⟨hrequests, hrefreshes, hended⟩ :=
    tally_le_budget hn (le_refl (Call.new pool).pool.entries.length) (Nat.zero_le _) hall
  refine ⟨budget pool.entries.length (.new pool), hended ?_, ?_, hrefreshes⟩
  · simp
  · rw [hstart] at hrequests ⊢
    exact hrequests

end Loop

section Endless
variable {serde : Serde} {generation : Generation} {call call' : Call} {name : String}

/-- A retry finds the refreshed account, in a pool that the counter cannot pass. -/
structure Stuck (name : String) (call : Call) : Prop where
  retried : call.retried401Account = some name
  found : (call.pool.credentialBySafeName name).isSome = true
  full : maxFailovers call.pool = 2 ^ 32 - 1

def limited : Round := .alone ⟨fun _ => true, 0, .response 429 [], 0, 0, .error ""⟩

/-- One more answer that the account is limited, and the same account is asked again. -/
theorem attempt_stuck (serde : Serde) (generation : Generation) (h : Stuck name call) :
    ∃ call', call.attempt serde generation limited = .again call' ∧ Stuck name call' := by
  obtain ⟨credential, hcredential⟩ := Option.isSome_iff_exists.mp h.found
  have hfound : call.found generation limited = (some credential, call.pool) := by
    unfold found select limited
    dsimp only [Round.alone, id]
    rw [h.retried, Option.bind_some, hcredential]
  have hattempt : call.attempt serde generation limited = failover generation limited.turn
      (call.pool.noteStatus 0 credential 429 generation.model) call := by
    unfold attempt
    rw [hfound]
    rfl
  have hburnt : Burnt 0 generation.model credential call.pool
      (call.pool.noteStatus 0 credential 429 generation.model) := burnt_noteStatus call.pool
  have hentries := hburnt.entries
  refine ⟨_, hattempt.trans (if_neg ?_), h.retried, ?_, ?_⟩
  · unfold maxFailovers
    rw [hentries]
    have hfull := h.full
    unfold maxFailovers at hfull
    rw [hfull]
    have hwraps := Nat.mod_lt (call.failoverCount + 1) (show 0 < 2 ^ 32 by decide)
    dsimp only
    omega
  · unfold credentialBySafeName
    rw [hentries]
    exact h.found
  · unfold maxFailovers
    rw [hentries]
    exact h.full

theorem not_ended_of_stuck (serde : Serde) (generation : Generation) (h : Stuck name call)
    (k : Nat) :
    (tally serde generation (List.replicate k limited) call).ended = false := by
  induction k generalizing call with
  | zero => rfl
  | succ k ih =>
    obtain ⟨call', hattempt, hstuck⟩ := attempt_stuck serde generation h
    rw [List.replicate_succ, tally, hattempt]
    exact ih hstuck

variable {before : Pool → Pool} {pool : Pool}

def rejected (before : Pool → Pool) : Round :=
  ⟨⟨fun _ => true, 0, .response 401 [], 0, 0, .ok ("tok-2", "rt-2")⟩, before, id⟩

theorem attempt_rejected (serde : Serde) (generation : Generation)
    (hfresh : (before pool).state = .initial) (hfull : (before pool).entries.length = 2 ^ 32 - 1) :
    ∃ call' name, (Call.new pool).attempt serde generation (rejected before) = .again call' ∧
      Stuck name call' := by
  have hsome : (before pool).entries ≠ [] := by
    intro hnil
    rw [hnil] at hfull
    cases hfull
  obtain ⟨first, hfirst⟩ := List.exists_mem_of_ne_nil _ hsome
  have husable : (before pool).Usable 0 generation.model (fun _ => true) first := by
    refine ⟨hfirst, rfl, ?_⟩
    rw [hfresh]
    rfl
  have hpick : ((before pool).pick 0 generation.sessionFp generation.model fun _ => true).1.isSome =
      true :=
    pick_isSome husable
  have hentries :=
    entries_pick 0 generation.sessionFp generation.model (fun _ => true) (before pool)
  rw [List.filter_true] at hentries
  have hselect : (Call.new pool).found generation (rejected before) =
      (before pool).pick 0 generation.sessionFp generation.model fun _ => true :=
        select_of_none generation _ rfl
  obtain ⟨credential, hcredential⟩ := Option.isSome_iff_exists.mp hpick
  have hmem := (pick_usable hcredential).1
  rw [← hselect] at hcredential hentries
  generalize hpicked : ((Call.new pool).found generation (rejected before)).2 = picked at hentries
  have hattempt : (Call.new pool).attempt serde generation (rejected before) =
      .again ⟨picked.applyRefresh credential.uid "tok-2" "rt-2", 0, true,
      some credential.safeName⟩ := by
    unfold attempt
    dsimp only
    rw [hcredential, hpicked]
    rfl
  refine ⟨_, credential.safeName, hattempt, rfl, ?_, ?_⟩
  · unfold credentialBySafeName Pool.applyRefresh
    rw [hentries, List.find?_isSome]
    refine ⟨_, List.mem_map_of_mem hmem, ?_⟩
    split_ifs <;> simp
  · unfold maxFailovers Pool.applyRefresh
    rw [hentries, List.length_map, hfull]
    rfl

theorem not_frugal_of_full (serde : Serde) (generation : Generation)
    (hfresh : (before pool).state = .initial) (hfull : (before pool).entries.length = 2 ^ 32 - 1) :
    ¬ Frugal serde generation (fun i => if i = 0 then rejected before else limited) pool := by
  rintro ⟨k, hended, -⟩
  cases k with
  | zero => cases hended
  | succ k =>
    obtain ⟨call', name, hattempt, hstuck⟩ := attempt_rejected serde generation hfresh hfull
    have hrounds : ((List.range (k + 1)).map fun i => if i = 0 then rejected before else limited) =
        rejected before :: List.replicate k limited := by
      rw [List.range_succ_eq_map, List.map_cons, List.map_map, if_pos rfl]
      congr 1
      rw [List.eq_replicate_iff]
      simp
    rw [hrounds, tally, hattempt] at hended
    rw [not_ended_of_stuck serde generation hstuck k] at hended
    cases hended

def account (i : Nat) : Credential := ⟨s!"u{i}", s!"acct-{i}", s!"{i}.json", "tok", "rt"⟩

def accounts (n : Nat) : Pool := ⟨(List.range n).map account, ⟨3600, 1000, 60, 3600, 60⟩, .initial⟩

/-- For the pools of a size every call is frugal if and only if the counter can pass that size. -/
theorem frugal_iff (n : Nat) :
    (∀ (serde : Serde) (generation : Generation) (pool : Pool) (rounds : Nat → Round),
      pool.entries.length = n →
      (∀ i, (rounds i).Shrinks) → Frugal serde generation rounds pool) ↔ n < 2 ^ 32 - 1 := by
  constructor
  · intro h
    by_contra hn
    have hlength : (accounts n).entries.length = n := by simp [accounts]
    have hfull : ((accounts n).entries.take (2 ^ 32 - 1)).length = 2 ^ 32 - 1 := by
      rw [List.length_take, hlength]
      exact Nat.min_eq_left (Nat.not_lt.mp hn)
    let trim (pool : Pool) : Pool := { pool with entries := pool.entries.take (2 ^ 32 - 1) }
    have hfresh : (trim (accounts n)).state = .initial := rfl
    refine not_frugal_of_full .emptyObject hello hfresh hfull ?_
    refine h _ _ _ _ hlength ?_
    intro i pool
    split_ifs
    · exact ⟨List.length_take_le' .., le_rfl⟩
    · exact ⟨le_rfl, le_rfl⟩
  · rintro hn serde generation pool rounds rfl hrounds
    exact frugal_of_lt hn hrounds

/-- The counter wraps around before it passes a pool that it cannot pass. -/
theorem not_frugal_full :
    ¬ ∀ (serde : Serde) (generation : Generation) (pool : Pool) (rounds : Nat → Round),
    (∀ i, (rounds i).Shrinks) → Frugal serde generation rounds pool := by
  intro h
  have hlength : (accounts (2 ^ 32 - 1)).entries.length = 2 ^ 32 - 1 := by
    unfold accounts
    rw [List.length_map, List.length_range]
  have hfresh : (id (accounts (2 ^ 32 - 1))).state = .initial := rfl
  refine not_frugal_of_full .emptyObject hello hfresh hlength ?_
  refine h _ _ _ _ ?_
  intro i
  split_ifs <;> exact Round.shrinks_alone _

end Endless

end Lobster.Upstream
