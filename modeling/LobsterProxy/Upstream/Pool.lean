import LobsterProxy.Base.Json
import Mathlib.Data.List.AList
import Mathlib.Data.List.Sort
import Mathlib.Tactic.SplitIfs

/-! The account pool: credits-based selection, sticky sessions and cooldowns. An
instant is a number of nanoseconds, and the clock is read once in an operation. -/

namespace Lobster.Upstream

abbrev HashMap (κ ν : Type) := AList fun _ : κ => ν

def HashMap.retain {κ ν : Type} (keep : κ → ν → Bool) (map : HashMap κ ν) : HashMap κ ν :=
  ⟨map.entries.filter fun e => keep e.1 e.2, map.nodupKeys.sublist List.filter_sublist⟩

def fromSecs (secs : Nat) : Nat := secs * 10 ^ 9

structure Credential where
  uid : String
  safeName : String
  path : String
  accessToken : String
  refreshToken : String
  deriving DecidableEq, Repr

inductive CoolKind where
  | hardCredit
  | softRate
  | errThreshold
  deriving DecidableEq, Repr

structure LimitConfig where
  stickyTtlSecs : Nat
  stickyMax : Nat
  credCooldownSecs : Nat
  hardCreditCooldownSecs : Nat
  modelCooldownSecs : Nat

structure PoolState where
  credits : HashMap String Int
  failUntil : HashMap (String × CoolKind) Nat
  modelFail : HashMap (String × String) Nat
  /-- Session to account and last touch. -/
  sticky : HashMap String (String × Nat)
  stickyOrder : List String
  rr : Nat
  errCounts : HashMap String Nat

structure Pool where
  entries : List Credential
  limits : LimitConfig
  state : PoolState

namespace PoolState

def initial : PoolState := ⟨∅, ∅, ∅, ∅, [], 0, ∅⟩

/-- Drops what is known of the accounts that are not kept. -/
def retainAccounts (keep : String → Bool) (state : PoolState) : PoolState :=
  { state with
    credits := state.credits.retain fun id _ => keep id
    failUntil := state.failUntil.retain fun (id, _) _ => keep id
    modelFail := state.modelFail.retain fun (id, _) _ => keep id
    errCounts := state.errCounts.retain fun id _ => keep id }

def globallyHealthy (now : Nat) (id : String) (state : PoolState) : Bool :=
  state.failUntil.entries.all fun ⟨(owner, _), deadline⟩ => owner ≠ id || deadline ≤ now

def modelHealthy (now : Nat) (id model : String) (state : PoolState) : Bool :=
  (state.modelFail.lookup (id, model)).all fun deadline => deadline ≤ now

def healthy (now : Nat) (model id : String) (state : PoolState) : Bool :=
  state.globallyHealthy now id && state.modelHealthy now id model

def removeSticky (fp : String) (state : PoolState) : PoolState :=
  { state with
    sticky := state.sticky.erase fp
    stickyOrder := state.stickyOrder.filter fun key => key ≠ fp }

def moveStickyToBack (fp : String) (state : PoolState) : PoolState :=
  { state with stickyOrder := (state.stickyOrder.filter fun key => key ≠ fp) ++ [fp] }

def bindSticky (now : Nat) (fp id : String) (max : Nat) (state : PoolState) : PoolState :=
  let state :=
    if fp ∉ state.sticky ∧ max ≤ state.sticky.keys.length then
      match state.stickyOrder.head? with
      | some oldest => state.removeSticky oldest
      | none => state
    else state
  { state with
    sticky := state.sticky.insert fp (id, now)
    stickyOrder := state.stickyOrder ++ [fp] }

/-- Every round but the last removes the front of the order, so its length suffices as
the number of rounds. -/
def evictFrom (limits : LimitConfig) (now : Nat) : Nat → PoolState → PoolState
  | 0, state => state
  | rounds + 1, state =>
    match state.stickyOrder.head? with
    | none => state
    | some key =>
      -- a key without a binding counts as expired
      let expired := (state.sticky.lookup key).all fun (_, touched) =>
        fromSecs limits.stickyTtlSecs < now - touched
      if expired ∨ limits.stickyMax < state.sticky.keys.length then
        evictFrom limits now rounds (state.removeSticky key)
      else state

def removeAll (keys : List String) (state : PoolState) : PoolState :=
  keys.foldl (fun state key => state.removeSticky key) state

def boundTo (owner : String → Bool) (state : PoolState) : List String :=
  (state.sticky.entries.filter fun ⟨_, id, _⟩ => owner id).map Sigma.fst

def evictSticky (limits : LimitConfig) (now : Nat) (state : PoolState) : PoolState :=
  evictFrom limits now state.stickyOrder.length state

end PoolState

namespace Pool
open PoolState

def new (limits : LimitConfig) : Pool := ⟨[], limits, .initial⟩

section Files
variable (present : String → Bool)

/-- A file that is known by its path, or holds a known account, is passed over. -/
def loadFile (read : String → Option Credential) (path : String) (entries : List Credential) :
    List Credential :=
  if !present path || entries.any (fun c => c.path = path) then entries
  else match read path with
    | none => entries
    | some credential =>
      if entries.any (fun c => c.uid = credential.uid) then entries
      else entries ++ [{ credential with path := path }]

/-- `read` makes the credential of a file that can be read and parsed. -/
def loadFiles (read : String → Option Credential) (paths : List String) (pool : Pool) : Pool :=
  { pool with
    entries := paths.foldl (fun entries path => loadFile present read path entries) pool.entries }

/-- Drops the entries without a file. What is known of their accounts goes only when this
finds one itself. -/
def prune (pool : Pool) : Pool :=
  let entries := pool.entries.filter fun c => present c.path
  let known (id : String) : Bool := entries.any fun c => c.uid = id
  if entries.length = pool.entries.length then { pool with entries := entries }
  else
    let state := pool.state.retainAccounts known
    { pool with entries := entries, state := state.removeAll (state.boundTo fun id => !known id) }

end Files

def credentialBySafeName (safeName : String) (pool : Pool) : Option Credential :=
  pool.entries.find? fun c => c.safeName = safeName

section Pick
variable (now : Nat) (sessionFp : Option String) (model : String)

/-- The account that the session is bound to, while it is healthy. -/
def pickSticky (pool : Pool) : Option Credential × PoolState :=
  match sessionFp with
  | none => (none, pool.state)
  | some fp =>
    match pool.state.sticky.lookup fp with
    | none => (none, pool.state)
    | some (id, _) =>
      match pool.entries.find? fun c => c.uid = id with
      | none => (none, pool.state.removeSticky fp)
      | some credential =>
        if pool.state.healthy now model id then
          (some credential,
            { pool.state with sticky := pool.state.sticky.insert fp (id, now) }.moveStickyToBack fp)
        else (none, pool.state.removeSticky fp)

/-- Highest known credits first; unknown credits last. -/
def rank (pool : Pool) (credential : Credential) : Int :=
  (pool.state.credits.lookup credential.uid).getD (-1)

def candidates (pool : Pool) : List Credential :=
  pool.entries.filter fun c => pool.state.healthy now model c.uid

/-- The healthy accounts of the highest rank, in the order of the entries. -/
def topRank (pool : Pool) : List Credential :=
  -- the sort is stable
  let ranked := ((pool.candidates now model).map fun c => (pool.rank c, c)).insertionSort
    fun a b => b.1 ≤ a.1
  match ranked with
  | [] => []
  | (topCredits, _) :: _ => (ranked.filter fun a => a.1 = topCredits).map Prod.snd

def pickRanked (pool : Pool) : Option Credential × PoolState :=
  let top := pool.topRank now model
  match top[pool.state.rr % top.length]? with
  | none => (none, pool.state)
  | some credential =>
    let state := { pool.state with rr := (pool.state.rr + 1) % 2 ^ 64 }
    (some credential, match sessionFp with
      | some fp => state.bindSticky now fp credential.uid pool.limits.stickyMax
      | none => state)

/-- Entries without a file and outlived bindings are dropped. -/
def tidy (present : String → Bool) (pool : Pool) : Pool :=
  { pool with
    entries := pool.entries.filter fun c => present c.path
    state := pool.state.evictSticky pool.limits now }

/-- `present` says which credential files are there. -/
def pick (present : String → Bool) (pool : Pool) : Option Credential × Pool :=
  let pool := pool.tidy now present
  match pool.pickSticky now sessionFp model with
  | (some credential, state) => (some credential, { pool with state := state })
  | (none, state) =>
    let picked := { pool with state := state }.pickRanked now sessionFp model
    (picked.1, { pool with state := picked.2 })

end Pick

section Notes
variable (now : Nat) (credential : Credential)

def setCredits (id : String) (credits : Int) (pool : Pool) : Pool :=
  { pool with state := { pool.state with credits := pool.state.credits.insert id credits } }

def coolDown (kind : CoolKind) (secs : Nat) (pool : Pool) : Pool :=
  { pool with state := { pool.state with
    failUntil := pool.state.failUntil.insert (credential.uid, kind) (now + fromSecs secs) } }

/-- 401 and 403 cool the whole account, 429 cools it for the model. -/
def noteStatus (status : Nat) (model : String) (pool : Pool) : Pool :=
  if status = 401 ∨ status = 403 then
    pool.coolDown now credential .errThreshold pool.limits.credCooldownSecs
  else if status = 429 then
    let state := { pool.state with
      modelFail := pool.state.modelFail.insert (credential.uid, model)
        (now + fromSecs (max pool.limits.modelCooldownSecs 1)) }
    -- the sessions of the account go, whatever model they use
    let affected :=
      (state.sticky.entries.filter fun ⟨_, id, _⟩ => id = credential.uid).map Sigma.fst
    { pool with state := affected.foldl (fun state key => state.removeSticky key) state }
  else pool

def noteHardCredit (pool : Pool) : Pool :=
  pool.coolDown now credential .hardCredit pool.limits.hardCreditCooldownSecs

def noteErrorThreshold (pool : Pool) : Pool :=
  let count := (pool.state.errCounts.lookup credential.uid).getD 0 + 1
  let setCount (count : Nat) (pool : Pool) : Pool := { pool with state := { pool.state with
    errCounts := pool.state.errCounts.insert credential.uid count } }
  if 3 ≤ count then
    setCount 0 (pool.coolDown now credential .errThreshold pool.limits.credCooldownSecs)
  else setCount count pool

def noteSuccess (pool : Pool) : Pool :=
  { pool with
    state := { pool.state with errCounts := pool.state.errCounts.insert credential.uid 0 } }

/-- The earliest end of the model's cooldowns in epoch seconds, if every globally healthy account
has one. The source adds in 64 bits, which hold the sum for clocks and cooldowns below `2 ^ 62`
seconds. -/
def allCooledUntil (nowSecs : Int) (model : String) (pool : Pool) : Option Int :=
  let healthy := pool.entries.filter fun c => pool.state.globallyHealthy now c.uid
  let untils := healthy.filterMap fun c => (pool.state.modelFail.lookup (c.uid, model)).map
    fun deadline => nowSecs + ((deadline - now) / 10 ^ 9 : Nat)
  if healthy.isEmpty ∨ untils.length < healthy.length then none else untils.min?

end Notes

end Pool

section Cooldowns
open PoolState Pool

namespace PoolState
variable {state state' : PoolState}

def cooldowns (state : PoolState) :
    HashMap (String × CoolKind) Nat × HashMap (String × String) Nat :=
      (state.failUntil, state.modelFail)

theorem healthy_congr (h : state.cooldowns = state'.cooldowns) (now : Nat) (model id : String) :
    state.healthy now model id = state'.healthy now model id := by
  obtain ⟨hfail, hmodel⟩ := Prod.mk.injEq _ _ _ _ ▸ h
  unfold healthy globallyHealthy modelHealthy
  rw [hfail, hmodel]

/-- What is kept by account apart from the bindings. -/
def accounts (state : PoolState) : HashMap String Int × HashMap (String × CoolKind) Nat ×
    HashMap (String × String) Nat × HashMap String Nat :=
  (state.credits, state.failUntil, state.modelFail, state.errCounts)

theorem cooldowns_congr (h : state'.accounts = state.accounts) :
    state'.cooldowns = state.cooldowns := by
  obtain ⟨-, hrest⟩ := Prod.mk.inj h
  obtain ⟨hfail, hrest⟩ := Prod.mk.inj hrest
  exact Prod.ext hfail (Prod.mk.inj hrest).1

def unsticky (state : PoolState) : (HashMap String Int × HashMap (String × CoolKind) Nat ×
    HashMap (String × String) Nat × HashMap String Nat) × Nat := (state.accounts, state.rr)

theorem accounts_congr (h : state'.unsticky = state.unsticky) : state'.accounts = state.accounts :=
  congrArg Prod.fst h

theorem rr_congr (h : state'.unsticky = state.unsticky) : state'.rr = state.rr :=
  congrArg Prod.snd h

theorem unsticky_removeAll (keys : List String) (state : PoolState) :
    (state.removeAll keys).unsticky = state.unsticky := by
  induction keys generalizing state with
  | nil => rfl
  | cons key keys ih => exact ih _

theorem accounts_removeAll (keys : List String) (state : PoolState) :
    (state.removeAll keys).accounts = state.accounts :=
      accounts_congr (unsticky_removeAll keys state)

theorem unsticky_evictFrom (limits : LimitConfig) (now rounds : Nat) (state : PoolState) :
    (state.evictFrom limits now rounds).unsticky = state.unsticky := by
  induction rounds generalizing state with
  | zero => rfl
  | succ rounds ih =>
    unfold evictFrom
    cases state.stickyOrder.head? with
    | none => rfl
    | some key =>
      dsimp only
      split_ifs
      · exact ih _
      · rfl

theorem unsticky_bindSticky (now : Nat) (fp id : String) (max : Nat) (state : PoolState) :
    (state.bindSticky now fp id max).unsticky = state.unsticky := by
  unfold bindSticky
  split_ifs
  · cases state.stickyOrder.head? <;> rfl
  · rfl

end PoolState

namespace Pool
variable {now : Nat} {sessionFp : Option String} {model : String} {present : String → Bool}
  {pool : Pool} {credential : Credential}

/-- The file is there and no cooldown stands against the account. -/
def Usable (now : Nat) (model : String) (present : String → Bool) (pool : Pool)
    (credential : Credential) : Prop :=
  credential ∈ pool.entries ∧ present credential.path = true ∧
    pool.state.healthy now model credential.uid = true

theorem unsticky_pickSticky (now : Nat) (sessionFp : Option String) (model : String) (pool : Pool) :
    (pool.pickSticky now sessionFp model).2.unsticky = pool.state.unsticky := by
  unfold pickSticky
  split
  · rfl
  · split
    · rfl
    · split
      · rfl
      · split_ifs <;> rfl

theorem accounts_pickRanked (now : Nat) (sessionFp : Option String) (model : String) (pool : Pool) :
    (pool.pickRanked now sessionFp model).2.accounts = pool.state.accounts := by
  unfold pickRanked
  dsimp only
  split
  · rfl
  · cases sessionFp with
    | none => rfl
    | some fp => exact (accounts_congr (unsticky_bindSticky now fp _ _ _)).trans rfl

theorem unsticky_tidy (now : Nat) (present : String → Bool) (pool : Pool) :
    (pool.tidy now present).state.unsticky = pool.state.unsticky := unsticky_evictFrom ..

theorem accounts_tidy (now : Nat) (present : String → Bool) (pool : Pool) :
    (pool.tidy now present).state.accounts = pool.state.accounts :=
      accounts_congr (unsticky_tidy ..)

theorem unsticky_of_pickSticky {picked : Option Credential} {state : PoolState}
    (h : (pool.tidy now present).pickSticky now sessionFp model = (picked, state)) :
    state.unsticky = pool.state.unsticky := by
  have hstate := unsticky_pickSticky now sessionFp model (pool.tidy now present)
  rw [h, unsticky_tidy] at hstate
  exact hstate

theorem accounts_pick (now : Nat) (sessionFp : Option String) (model : String)
    (present : String → Bool) (pool : Pool) :
    (pool.pick now sessionFp model present).2.state.accounts = pool.state.accounts := by
  unfold pick
  dsimp only
  split
  · next state hpicked => exact accounts_congr (unsticky_of_pickSticky hpicked)
  · next state hpicked =>
    exact (accounts_pickRanked ..).trans (accounts_congr (unsticky_of_pickSticky hpicked))

theorem cooldowns_pick (now : Nat) (sessionFp : Option String) (model : String)
    (present : String → Bool) (pool : Pool) :
    (pool.pick now sessionFp model present).2.state.cooldowns = pool.state.cooldowns :=
  cooldowns_congr (accounts_pick ..)

theorem limits_pick (now : Nat) (sessionFp : Option String) (model : String)
    (present : String → Bool) (pool : Pool) :
    (pool.pick now sessionFp model present).2.limits = pool.limits := by
  unfold pick
  dsimp only
  split <;> rfl

theorem usable_of_tidy (h : credential ∈ (pool.tidy now present).entries)
    (hhealthy : (pool.tidy now present).state.healthy now model credential.uid = true) :
    pool.Usable now model present credential := by
  obtain ⟨hmem, hpresent⟩ := List.mem_filter.mp h
  rw [healthy_congr (cooldowns_congr (accounts_tidy now present pool))] at hhealthy
  exact ⟨hmem, hpresent, hhealthy⟩

theorem pickSticky_eq_some {state : PoolState}
    (h : pool.pickSticky now sessionFp model = (some credential, state)) :
    credential ∈ pool.entries ∧ pool.state.healthy now model credential.uid = true := by
  unfold pickSticky at h
  split at h
  · cases h
  · split at h
    · cases h
    · split at h
      · cases h
      · next hfound =>
        split_ifs at h with hhealthy
        · cases h
          refine ⟨List.mem_of_find?_eq_some hfound, ?_⟩
          have huid := List.find?_some hfound
          rw [decide_eq_true_iff] at huid
          rw [huid]
          exact hhealthy
        · cases h

theorem mem_topRank (h : credential ∈ pool.topRank now model) :
    credential ∈ pool.entries ∧ pool.state.healthy now model credential.uid = true := by
  unfold topRank at h
  dsimp only at h
  split at h
  · cases h
  · next hranked =>
    obtain ⟨⟨rank, c⟩, hmem, rfl⟩ := List.mem_map.mp h
    have hcandidate := (List.mem_insertionSort _).mp (List.mem_of_mem_filter hmem)
    obtain ⟨c, hc, heq⟩ := List.mem_map.mp hcandidate
    cases heq
    obtain ⟨hentry, hhealthy⟩ := List.mem_filter.mp hc
    exact ⟨hentry, hhealthy⟩

theorem topRank_ne_nil (hmem : credential ∈ pool.entries)
    (hhealthy : pool.state.healthy now model credential.uid = true) :
    pool.topRank now model ≠ [] := by
  have hcandidate : (pool.rank credential, credential) ∈
      ((pool.candidates now model).map fun c => (pool.rank c, c)).insertionSort
        fun a b => b.1 ≤ a.1 :=
    (List.mem_insertionSort _).mpr (List.mem_map_of_mem (List.mem_filter.mpr ⟨hmem, hhealthy⟩))
  unfold topRank
  dsimp only
  split
  · next hnil =>
    rw [hnil] at hcandidate
    cases hcandidate
  · next hranked =>
    rw [hranked]
    exact List.ne_nil_of_mem (List.mem_map_of_mem
      (List.mem_filter.mpr ⟨List.mem_cons_self, decide_eq_true rfl⟩))

theorem pickRanked_fst (now : Nat) (sessionFp : Option String) (model : String) (pool : Pool) :
    (pool.pickRanked now sessionFp model).1 =
      (pool.topRank now model)[pool.state.rr % (pool.topRank now model).length]? := by
  unfold pickRanked
  dsimp only
  split
  · next hnone => exact hnone.symm
  · next hsome => exact hsome.symm

theorem healthy_of_pickSticky {picked : Option Credential} {state : PoolState}
    (h : (pool.tidy now present).pickSticky now sessionFp model = (picked, state)) (id : String) :
    state.healthy now model id = pool.state.healthy now model id :=
  healthy_congr (cooldowns_congr (accounts_congr (unsticky_of_pickSticky h))) now model id

theorem pick_usable (h : (pool.pick now sessionFp model present).1 = some credential) :
    pool.Usable now model present credential := by
  unfold pick at h
  dsimp only at h
  split at h
  · next hpicked =>
    obtain ⟨hmem, hhealthy⟩ := pickSticky_eq_some hpicked
    cases h
    exact usable_of_tidy hmem hhealthy
  · next state hpicked =>
    rw [pickRanked_fst] at h
    obtain ⟨hmem, hhealthy⟩ := mem_topRank (List.mem_of_getElem? h)
    obtain ⟨hentry, hpresent⟩ := List.mem_filter.mp hmem
    exact ⟨hentry, hpresent, (healthy_of_pickSticky hpicked credential.uid).symm.trans hhealthy⟩

theorem pick_isSome (h : pool.Usable now model present credential) :
    (pool.pick now sessionFp model present).1.isSome = true := by
  obtain ⟨hmem, hpresent, hhealthy⟩ := h
  unfold pick
  dsimp only
  split
  · rfl
  · next state hpicked =>
    have hentry : credential ∈ (pool.tidy now present).entries :=
      List.mem_filter.mpr ⟨hmem, hpresent⟩
    have htop : ({ pool.tidy now present with state := state } : Pool).topRank now model ≠ [] :=
      topRank_ne_nil hentry ((healthy_of_pickSticky hpicked credential.uid).trans hhealthy)
    rw [pickRanked_fst, List.getElem?_eq_getElem (Nat.mod_lt _ (List.length_pos_iff.mpr htop))]
    rfl

end Pool

section Cools
variable {now : Nat} {model id : String} {deadline : Nat} {credential : Credential} {pool : Pool}
  {state : PoolState}

theorem globallyHealthy_iff : state.globallyHealthy now id = true ↔
    ∀ kind deadline, state.failUntil.lookup (id, kind) = some deadline → deadline ≤ now := by
  unfold globallyHealthy
  rw [List.all_eq_true]
  constructor
  · intro h kind deadline hlookup
    simpa using h ⟨(id, kind), deadline⟩ (AList.mem_lookup_iff.mp hlookup)
  · rintro h ⟨⟨owner, kind⟩, deadline⟩ hmem
    by_cases howner : owner = id
    · subst howner
      simpa using h kind deadline (AList.mem_lookup_iff.mpr hmem)
    · simp [howner]

theorem modelHealthy_iff : state.modelHealthy now id model = true ↔
    ∀ deadline, state.modelFail.lookup (id, model) = some deadline → deadline ≤ now := by
  unfold modelHealthy
  cases state.modelFail.lookup (id, model) <;> simp

/-- No clock before the deadline sees the account healthy. -/
def Cools (model id : String) (deadline : Nat) (state : PoolState) : Prop :=
  ∀ now < deadline, state.healthy now model id = false

theorem Cools.of_failUntil {kind : CoolKind}
    (h : state.failUntil.lookup (id, kind) = some deadline) : Cools model id deadline state := by
  intro now hnow
  have hglobal : ¬ state.globallyHealthy now id = true := fun hglobal =>
    absurd (globallyHealthy_iff.mp hglobal kind deadline h) (Nat.not_le.mpr hnow)
  unfold healthy
  rw [Bool.eq_false_iff.mpr hglobal, Bool.false_and]

theorem Cools.of_modelFail (h : state.modelFail.lookup (id, model) = some deadline) :
    Cools model id deadline state := by
  intro now hnow
  have hmodel : ¬ state.modelHealthy now id model = true := fun hmodel =>
    absurd (modelHealthy_iff.mp hmodel deadline h) (Nat.not_le.mpr hnow)
  unfold healthy
  rw [Bool.eq_false_iff.mpr hmodel, Bool.and_false]

theorem Cools.congr {state' : PoolState} (h : Cools model id deadline state)
    (hcooldowns : state'.cooldowns = state.cooldowns) : Cools model id deadline state' := by
  intro now hnow
  rw [healthy_congr hcooldowns, h now hnow]

theorem Cools.mono {deadline' : Nat} (h : Cools model id deadline state)
    (hle : deadline' ≤ deadline) :
    Cools model id deadline' state := fun now hnow => h now (Nat.lt_of_lt_of_le hnow hle)

theorem healthy_of_lookup {state' : PoolState}
    (hfail : ∀ kind, state'.failUntil.lookup (id, kind) = state.failUntil.lookup (id, kind))
    (hmodel : state'.modelFail.lookup (id, model) = state.modelFail.lookup (id, model)) :
    state'.healthy now model id = state.healthy now model id := by
  have hglobal : state'.globallyHealthy now id = state.globallyHealthy now id := by
    rw [Bool.eq_iff_iff, globallyHealthy_iff, globallyHealthy_iff]
    simp only [hfail]
  unfold healthy modelHealthy
  rw [hglobal, hmodel]

theorem healthy_coolDown (hne : id ≠ credential.uid) (now' : Nat) (kind : CoolKind) (secs : Nat) :
    (pool.coolDown now' credential kind secs).state.healthy now model id =
      pool.state.healthy now model id := by
  refine healthy_of_lookup (fun kind' => ?_) rfl
  refine AList.lookup_insert_ne fun h => hne ?_
  exact congrArg Prod.fst h

theorem cools_coolDown (kind : CoolKind) (secs : Nat) :
    Cools model credential.uid (now + fromSecs secs)
      (pool.coolDown now credential kind secs).state :=
  .of_failUntil (AList.lookup_insert _)

theorem cooldowns_noteStatus_429 (now : Nat) (model : String) (pool : Pool) :
    (pool.noteStatus now credential 429 model).state.cooldowns = (pool.state.failUntil,
      pool.state.modelFail.insert (credential.uid, model)
        (now + fromSecs (max pool.limits.modelCooldownSecs 1))) := by
  unfold noteStatus
  rw [if_neg (by decide), if_pos rfl]
  exact cooldowns_congr (accounts_removeAll _ _)

theorem healthy_noteStatus_429 (hne : id ≠ credential.uid) (now' : Nat) :
    (pool.noteStatus now' credential 429 model).state.healthy now model id =
      pool.state.healthy now model id := by
  obtain ⟨hfail, hmodel⟩ := Prod.mk.injEq _ _ _ _ ▸ cooldowns_noteStatus_429 now' model pool
  refine healthy_of_lookup (fun kind => by rw [hfail]) ?_
  rw [hmodel]
  exact AList.lookup_insert_ne fun h => hne (congrArg Prod.fst h)

theorem cools_noteStatus_429 : Cools model credential.uid
    (now + fromSecs (max pool.limits.modelCooldownSecs 1))
    (pool.noteStatus now credential 429 model).state := by
  obtain ⟨-, hmodel⟩ := Prod.mk.injEq _ _ _ _ ▸ cooldowns_noteStatus_429 now model pool
  refine .of_modelFail ?_
  rw [hmodel]
  exact AList.lookup_insert _

end Cools
end Cooldowns

end Lobster.Upstream
