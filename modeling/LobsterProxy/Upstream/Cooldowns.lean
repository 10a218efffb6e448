import LobsterProxy.Upstream.Renewals

/-! Cooldowns run their time: whatever operations follow, an account that stays in the pool
under its id is not picked before the deadline that was set for it. The deadline is kept under
the id, and a refresh that changes the id leaves it behind. -/

namespace Lobster.Upstream
open PoolState Pool

/-- What a cooldown keeps from being picked: the account, or the account for one model. -/
inductive Ban where
  | account (kind : CoolKind)
  | model (model : String)
  deriving DecidableEq

namespace Ban

def Covers (model : String) : Ban → Prop
  | account _ => True
  | .model cooled => cooled = model

def secs (limits : LimitConfig) : Ban → Nat
  | account .hardCredit => limits.hardCreditCooldownSecs
  | account _ => limits.credCooldownSecs
  | model _ => max limits.modelCooldownSecs 1

end Ban

namespace PoolState

def deadline (id : String) (state : PoolState) : Ban → Option Nat
  | .account kind => state.failUntil.lookup (id, kind)
  | .model model => state.modelFail.lookup (id, model)

variable {id model : String} {state state' : PoolState} {ban : Ban} {now end' : Nat}

theorem deadline_congr (h : state'.cooldowns = state.cooldowns) :
    state'.deadline id ban = state.deadline id ban := by
  obtain ⟨hfail, hmodel⟩ := Prod.mk.inj h
  cases ban with
  | account kind => exact congrArg (AList.lookup (id, kind)) hfail
  | model model => exact congrArg (AList.lookup (id, model)) hmodel

theorem not_healthy_of_deadline (h : state.deadline id ban = some end') (hcovers : ban.Covers model)
    (hnow : now < end') : state.healthy now model id = false := by
  cases ban with
  | account kind => exact Cools.of_failUntil h now hnow
  | model cooled =>
    cases hcovers
    exact Cools.of_modelFail h now hnow

theorem deadline_retainAccounts {keep : String → Bool} (h : keep id = true) :
    (state.retainAccounts keep).deadline id ban = state.deadline id ban := by
  cases ban with
  | account kind => exact HashMap.lookup_retain_of_keep (fun _ => h) state.failUntil
  | model model => exact HashMap.lookup_retain_of_keep (fun _ => h) state.modelFail

end PoolState

inductive Operation.Imposes (credential : Credential) (pool : Pool) : Operation → Ban → Prop where
  | unauthorized (status : Nat) (model : String) (h : status = 401 ∨ status = 403) :
      Imposes credential pool (.noteStatus credential status model) (.account .errThreshold)
  | rateLimited (model : String) : Imposes credential pool (.noteStatus credential 429 model)
      (.model model)
  | outOfCredits : Imposes credential pool (.noteHardCredit credential) (.account .hardCredit)
  | thirdError (h : 2 ≤ (pool.state.errCounts.lookup credential.uid).getD 0) :
      Imposes credential pool (.noteErrorThreshold credential) (.account .errThreshold)

section Steps
variable {now : Nat} {pool : Pool} {credential : Credential} {id : String} {ban : Ban}

/-- A cooldown that is set anew has its full time before it. -/
def Renewed (now : Nat) (id : String) (ban : Ban) (pool pool' : Pool) : Prop :=
  pool'.state.deadline id ban = pool.state.deadline id ban ∨
    pool'.state.deadline id ban = some (now + fromSecs (ban.secs pool.limits))

theorem renewed_coolDown {kind : CoolKind} {secs : Nat}
    (hsecs : secs = (Ban.account kind).secs pool.limits) :
    Renewed now id ban pool (pool.coolDown now credential kind secs) := by
  subst hsecs
  cases ban with
  | model model => exact .inl rfl
  | account other =>
    by_cases hkey : (id, other) = (credential.uid, kind)
    · obtain ⟨rfl, rfl⟩ := Prod.mk.inj hkey
      exact .inr (AList.lookup_insert _)
    · exact .inl (AList.lookup_insert_ne hkey)

theorem renewed_noteStatus (status : Nat) (model : String) :
    Renewed now id ban pool (pool.noteStatus now credential status model) := by
  rcases noteStatus_cases now credential status model pool with ⟨-, h⟩ | ⟨-, keys, h⟩ | h <;> rw [h]
  · exact renewed_coolDown rfl
  · -- to unbind the sessions moves no deadline
    generalize hmarked : pool.state.modelFail.insert (credential.uid, model) _ = marked
    have hstate : (removeAll keys { pool.state with modelFail := marked }).deadline id ban =
        PoolState.deadline id { pool.state with modelFail := marked } ban :=
      deadline_congr (cooldowns_congr (accounts_removeAll keys _))
    cases ban with
    | account kind => exact .inl hstate
    | model other =>
      subst hmarked
      by_cases hkey : (id, other) = (credential.uid, model)
      · obtain ⟨rfl, rfl⟩ := Prod.mk.inj hkey
        exact .inr (hstate.trans (AList.lookup_insert _))
      · exact .inl (hstate.trans (AList.lookup_insert_ne hkey))
  · exact .inl rfl

theorem renewed_prune {present : String → Bool} (hmem : credential ∈ pool.entries)
    (hpresent : present credential.path = true) :
    Renewed now credential.uid ban pool (pool.prune present) := by
  refine .inl ?_
  by_cases hall : ∀ c ∈ pool.entries, present c.path = true
  · rw [prune_of_present hall]
  · rw [prune_of_absent hall]
    refine (deadline_congr (cooldowns_congr (accounts_removeAll _ _))).trans ?_
    refine deadline_retainAccounts ?_
    rw [List.any_eq_true]
    exact ⟨credential, List.mem_filter.mpr ⟨hmem, hpresent⟩, decide_eq_true rfl⟩

/-- What an operation does to the cooldowns of an account whose file is there. -/
theorem renewed_perform (moment : Moment) (hmem : credential ∈ pool.entries)
    (hpresent : moment.present credential.path = true) :
    Renewed moment.now credential.uid ban pool (moment.perform pool) := by
  obtain ⟨now, present, read, operation⟩ := moment
  cases operation with
  | pick sessionFp model =>
    exact .inl (deadline_congr (cooldowns_pick now sessionFp model present pool))
  | noteStatus c status model => exact renewed_noteStatus status model
  | noteHardCredit c => exact renewed_coolDown rfl
  | noteErrorThreshold c =>
    show Renewed now credential.uid ban pool (pool.noteErrorThreshold now c)
    rcases noteErrorThreshold_cases now c pool with ⟨-, h⟩ | ⟨-, h⟩ <;> rw [h]
    · show Renewed now credential.uid ban pool
        (pool.coolDown now c .errThreshold pool.limits.credCooldownSecs)
      exact renewed_coolDown rfl
    · exact .inl rfl
  | noteSuccess c => exact .inl rfl
  | setCredits id credits => exact .inl rfl
  | prune => exact renewed_prune hmem hpresent
  | loadFiles paths => exact .inl rfl

theorem deadline_imposes {operation : Operation} (h : operation.Imposes credential pool ban)
    (now : Nat) (present : String → Bool) (read : String → Option Credential) :
    (operation.perform now present read pool).state.deadline credential.uid ban =
      some (now + fromSecs (ban.secs pool.limits)) := by
  cases h with
  | unauthorized status model hstatus =>
    show (pool.noteStatus now credential status model).state.deadline _ _ = _
    rw [noteStatus, if_pos hstatus]
    exact AList.lookup_insert _
  | rateLimited model =>
    show (pool.noteStatus now credential 429 model).state.modelFail.lookup (credential.uid, model) =
      _
    rw [(Prod.mk.inj (cooldowns_noteStatus_429 now model pool)).2]
    exact AList.lookup_insert _
  | outOfCredits => exact AList.lookup_insert _
  | thirdError hcount =>
    show (pool.noteErrorThreshold now credential).state.deadline _ _ = _
    rcases noteErrorThreshold_cases now credential pool with ⟨-, h⟩ | ⟨hlt, -⟩
    · rw [h]
      exact AList.lookup_insert _
    · exact absurd hcount (Nat.not_le.mpr hlt)

end Steps

/-- The account is in the pool and its cooldown ends no earlier than `deadline`. -/
structure Cooling (limits : LimitConfig) (path uid : String) (ban : Ban) (deadline now : Nat)
    (pool : Pool) :
    Prop where
  config : pool.limits = limits
  files : OnePerFile pool.entries
  entry : pool.HasAccount path uid
  stands : ∃ actual, pool.state.deadline uid ban = some actual ∧ deadline ≤ actual
  due : deadline ≤ now + fromSecs (ban.secs limits)

variable {limits : LimitConfig} {path uid : String} {ban : Ban} {deadline now : Nat} {pool : Pool}

theorem Cooling.perform {event : PoolEvent} (h : Cooling limits path uid ban deadline now pool)
    (hnow : now ≤ event.now) (hfinds : event.Finds path) (hkeeps : event.Keeps path uid) :
    Cooling limits path uid ban deadline event.now (event.perform pool) := by
  have hdue : deadline ≤ event.now + fromSecs (ban.secs limits) :=
    h.due.trans (Nat.add_le_add_right hnow _)
  refine ⟨(limits_event event pool).trans h.config, h.files.perform event,
    h.entry.perform hfinds hkeeps, ?_, hdue⟩
  cases event with
  | renewal now renewed data => exact h.stands
  | operation moment =>
    obtain ⟨c, hmem, rfl, rfl⟩ := h.entry
    rcases @renewed_perform _ _ ban moment hmem hfinds with hkept | hrenewed
    · show ∃ actual, (moment.perform pool).state.deadline c.uid ban = some actual ∧
        deadline ≤ actual
      rw [hkept]
      exact h.stands
    · rw [h.config] at hrenewed
      exact ⟨_, hrenewed, hdue⟩

theorem Cooling.not_picked (h : Cooling limits path uid ban deadline now pool) {later : Nat}
    (hlater : later < deadline) {model : String} (hcovers : ban.Covers model)
    {sessionFp : Option String} {present : String → Bool} {picked : Credential}
    (hpicked : (pool.pick later sessionFp model present).1 = some picked) : picked.path ≠ path := by
  intro hpath
  obtain ⟨c, hmem, hfile, huid⟩ := h.entry
  obtain ⟨hpickedMem, -, hhealthy⟩ := pick_usable hpicked
  have hsame : picked = c := h.files.eq_of_path hpickedMem hmem (hpath.trans hfile.symm)
  obtain ⟨actual, hactual, hle⟩ := h.stands
  rw [hsame, huid,
    not_healthy_of_deadline hactual hcovers (Nat.lt_of_lt_of_le hlater hle)] at hhealthy
  cases hhealthy

/-- An account that an operation cools is not picked before its cooldown is over, whatever is
done before and after, as long as its file stays there and no refresh gives it another id. -/
theorem cooldown_runs_its_time (limits : LimitConfig) (credential : Credential) (ban : Ban)
    (before between : List PoolEvent) (note : Moment)
    (hclock : Runs.Chronological PoolEvent.now 0 (before ++ .operation note :: between))
    (hentry : credential ∈ (Pool.live limits before).entries)
    (hnote : note.operation.Imposes credential (Pool.live limits before) ban)
    (hpresent : ∀ event ∈ PoolEvent.operation note :: between, event.Finds credential.path)
    (hkeeps : ∀ event ∈ between, event.Keeps credential.path credential.uid) :
    ∀ now < note.now + fromSecs (ban.secs limits), ∀ model, ban.Covers model →
      ∀ sessionFp present picked,
        ((Pool.live limits (before ++ .operation note :: between)).pick
          now sessionFp model present).1 = some picked →
        picked.path ≠ credential.path := by
  obtain ⟨hfound, hbetween⟩ := List.forall_mem_cons.mp hpresent
  have hlimits := limits_live limits before
  have hdeadline := deadline_imposes hnote note.now note.present note.read
  rw [hlimits] at hdeadline
  -- from the note on the cooldown stands
  have hcooling : Cooling limits credential.path credential.uid ban
      (note.now + fromSecs (ban.secs limits)) note.now
      (note.perform (Pool.live limits before)) :=
    ⟨(limits_perform note _).trans hlimits,
      (onePerFile_live limits before).perform (.operation note),
      ⟨credential, mem_entries_perform note hentry hfound, rfl, rfl⟩, ⟨_, hdeadline, Nat.le_refl _⟩,
      Nat.le_refl _⟩
  have hmeets : Runs.Meets PoolEvent.perform
      (fun event _ => event.Finds credential.path ∧ event.Keeps credential.path credential.uid)
      between (note.perform (Pool.live limits before)) :=
    Runs.meets_of_forall fun event hmem _ => ⟨hbetween event hmem, hkeeps event hmem⟩
  have hend := Runs.run_timed
    (Cooling limits credential.path credential.uid ban (note.now + fromSecs (ban.secs limits)))
    (fun event _ _ h hnow hp => h.perform hnow hp.1 hp.2) hcooling
    (Runs.chronological_append.mp hclock).2.2 hmeets
  intro now hnow model hcovers sessionFp present picked hpicked
  rw [Pool.live, Runs.run_append] at hpicked
  exact hend.not_picked hnow hcovers hpicked

def loadedAnn : List PoolEvent := [.operation (seconds 0 (.loadFiles [ann.path]))]

def sameId : CredentialData := { bothIdsRenewed with uid := ann.uid }

theorem cooldown_runs_its_time_outOfCredits :
    ((Pool.live smallLimits (loadedAnn ++ .operation (seconds 1 (.noteHardCredit ann)) ::
      [.renewal (fromSecs 2) ann.path sameId,
        .operation (seconds 3 (.pick (some "first") "m"))])).pick
        (fromSecs 3600) (some "first") "m" fun _ => true).1 ≠ some (ann.renew sameId) := by
  intro hpicked
  refine cooldown_runs_its_time smallLimits ann (.account .hardCredit) loadedAnn _
    (seconds 1 (.noteHardCredit ann))
    (by decide +kernel) (by decide +kernel) .outOfCredits ?_ ?_ (fromSecs 3600)
      (by decide +kernel) "m" trivial
    (some "first") (fun _ => true) _ hpicked rfl
  · simp [seconds, PoolEvent.Finds]
  · simp [PoolEvent.Keeps, sameId]

/-- A refresh of a file with two ids ends the cooldown of its account. -/
theorem cooldown_ends_at_refresh : ¬ ∀ (limits : LimitConfig) (credential : Credential) (ban : Ban)
    (before between : List PoolEvent) (note : Moment),
    Runs.Chronological PoolEvent.now 0 (before ++ .operation note :: between) →
    credential ∈ (Pool.live limits before).entries →
    note.operation.Imposes credential (Pool.live limits before) ban →
    (∀ event ∈ PoolEvent.operation note :: between, event.Finds credential.path) →
    ∀ now < note.now + fromSecs (ban.secs limits), ∀ model, ban.Covers model →
      ∀ sessionFp present picked,
        ((Pool.live limits (before ++ .operation note :: between)).pick
          now sessionFp model present).1 = some picked →
        picked.path ≠ credential.path := by
  intro h
  have hpicked :
      ((Pool.live smallLimits (loadedAnn ++ .operation (seconds 1 (.noteHardCredit ann)) ::
      [.renewal (fromSecs 2) ann.path bothIdsRenewed])).pick (fromSecs 3) none "m"
        fun _ => true).1 =
      some annRenewed := by
    have hrenewed :
        Pool.live smallLimits (loadedAnn ++ .operation (seconds 1 (.noteHardCredit ann)) ::
        [.renewal (fromSecs 2) ann.path bothIdsRenewed]) =
        { (seconds 1 (.noteHardCredit ann)).perform (Pool.live smallLimits loadedAnn) with
          entries := [ann.renew bothIdsRenewed] } := rfl
    rw [hrenewed, renew_bothIds]
    decide +kernel
  exact h smallLimits ann (.account .hardCredit) loadedAnn
    [.renewal (fromSecs 2) ann.path bothIdsRenewed]
    (seconds 1 (.noteHardCredit ann)) (by decide +kernel) (by decide +kernel) .outOfCredits
    (by simp [seconds, PoolEvent.Finds]) (fromSecs 3) (by decide +kernel) "m" trivial none
      (fun _ => true) _ hpicked rfl

end Lobster.Upstream
