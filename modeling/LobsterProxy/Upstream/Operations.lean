import LobsterProxy.Base.Runs
import LobsterProxy.Upstream.Pool

/-! Runs of pool operations: who calls them is left open, each reads the clock and finds
the credential files as they are at its moment. -/

namespace Lobster.Upstream
open PoolState

inductive Operation where
  | pick (sessionFp : Option String) (model : String)
  | noteStatus (credential : Credential) (status : Nat) (model : String)
  | noteHardCredit (credential : Credential)
  | noteErrorThreshold (credential : Credential)
  | noteSuccess (credential : Credential)
  | setCredits (id : String) (credits : Int)
  | prune
  | loadFiles (paths : List String)

structure Moment where
  now : Nat
  present : String → Bool
  /-- The credential of a file that can be read and parsed. -/
  read : String → Option Credential
  operation : Operation

def Operation.perform (now : Nat) (present : String → Bool) (read : String → Option Credential)
    (pool : Pool) : Operation → Pool
  | pick sessionFp model => (pool.pick now sessionFp model present).2
  | noteStatus credential status model => pool.noteStatus now credential status model
  | noteHardCredit credential => pool.noteHardCredit now credential
  | noteErrorThreshold credential => pool.noteErrorThreshold now credential
  | noteSuccess credential => pool.noteSuccess credential
  | setCredits id credits => pool.setCredits id credits
  | prune => pool.prune present
  | loadFiles paths => pool.loadFiles present read paths

def Moment.perform (moment : Moment) (pool : Pool) : Pool :=
  moment.operation.perform moment.now moment.present moment.read pool

/-- Operations at moments in order, from the start of the clock on. -/
def Moment.Chronological (moments : List Moment) : Prop := Runs.Chronological Moment.now 0 moments

instance (moments : List Moment) : Decidable (Moment.Chronological moments) :=
  inferInstanceAs (Decidable (Runs.Chronological Moment.now 0 moments))

def Pool.after (limits : LimitConfig) (moments : List Moment) : Pool :=
  Runs.run Moment.perform moments (.new limits)

theorem HashMap.lookup_retain {κ ν : Type} [DecidableEq κ] (keep : κ → ν → Bool)
    (map : HashMap κ ν) (key : κ) :
    (map.retain keep).lookup key = (map.lookup key).filter (keep key) := by
  refine Option.ext fun value => ?_
  rw [Option.filter_eq_some_iff]
  refine AList.mem_lookup_iff.trans (List.mem_filter.trans ?_)
  exact and_congr_left' AList.mem_lookup_iff.symm

theorem HashMap.lookup_retain_of_keep {κ ν : Type} [DecidableEq κ] {keep : κ → ν → Bool} {key : κ}
    (h : ∀ value, keep key value = true) (map : HashMap κ ν) :
    (map.retain keep).lookup key = map.lookup key := by
  rw [lookup_retain]
  cases map.lookup key with
  | none => rfl
  | some value => exact Option.filter_some_pos (h value)

section Frames
variable {now : Nat} {present : String → Bool} {read : String → Option Credential} {pool : Pool}
  {credential : Credential}

namespace PoolState

def bindings (state : PoolState) : HashMap String (String × Nat) × List String :=
  (state.sticky, state.stickyOrder)

end PoolState

namespace Pool

/-- The two ways of a pick: it stays with the bound account, or it ranks the accounts once
no binding of the session is left. -/
inductive Picked (now : Nat) (sessionFp : Option String) (model : String) (pool : Pool) :
    Option Credential → PoolState → Prop where
  | sticky (fp id : String) (touched : Nat) (credential : Credential) (hfp : sessionFp = some fp)
      (hbound : pool.state.sticky.lookup fp = some (id, touched)) (hmem : credential ∈ pool.entries)
      (huid : credential.uid = id) (hhealthy : pool.state.healthy now model id = true) :
      Picked now sessionFp model pool (some credential)
        ({ pool.state with sticky := pool.state.sticky.insert fp (id, now) }.moveStickyToBack fp)
  | ranked (state : PoolState)
      (hstate : state = pool.state ∨ ∃ fp, sessionFp = some fp ∧ state = pool.state.removeSticky fp)
      (hunbound : ∀ fp, sessionFp = some fp → fp ∉ state.sticky) :
      Picked now sessionFp model pool
        ({ pool with state := state }.pickRanked now sessionFp model).1
        ({ pool with state := state }.pickRanked now sessionFp model).2

theorem pick_cases (now : Nat) (sessionFp : Option String) (model : String)
    (present : String → Bool) (pool : Pool) : ∃ state, (pool.pick now sessionFp model present).2 =
        { pool.tidy now present with state := state } ∧
      Picked now sessionFp model (pool.tidy now present) (pool.pick now sessionFp model present).1
        state := by
  unfold pick
  generalize pool.tidy now present = tidied
  dsimp only
  cases sessionFp with
  | none => exact ⟨_, rfl, .ranked tidied.state (.inl rfl) nofun⟩
  | some fp =>
    have hfp {state : PoolState} (h : fp ∉ state.sticky) :
        ∀ other, some fp = some other → other ∉ state.sticky := by
      rintro _ ⟨rfl⟩
      exact h
    have hremoved : fp ∉ (tidied.state.removeSticky fp).sticky :=
      fun hmem => (AList.mem_erase.mp hmem).1 rfl
    -- a binding that does not hold is removed before the ranking
    have hgone : Picked now (some fp) model tidied
        ({ tidied with state := tidied.state.removeSticky fp }.pickRanked now (some fp) model).1
        ({ tidied with state := tidied.state.removeSticky fp }.pickRanked now (some fp) model).2 :=
      .ranked (tidied.state.removeSticky fp) (.inr ⟨fp, rfl, rfl⟩) (hfp hremoved)
    unfold pickSticky
    dsimp only
    cases hbound : tidied.state.sticky.lookup fp with
    | none => exact ⟨_, rfl, .ranked tidied.state (.inl rfl) (hfp (AList.lookup_eq_none.mp hbound))⟩
    | some binding =>
      obtain ⟨id, touched⟩ := binding
      dsimp only
      cases hfound : tidied.entries.find? fun c => c.uid = id with
      | none => exact ⟨_, rfl, hgone⟩
      | some credential =>
        dsimp only
        by_cases hhealthy : tidied.state.healthy now model id = true
        · rw [if_pos hhealthy]
          exact ⟨_, rfl, .sticky fp id touched credential rfl hbound
            (List.mem_of_find?_eq_some hfound)
            (by simpa using List.find?_some hfound) hhealthy⟩
        · rw [if_neg hhealthy]
          exact ⟨_, rfl, hgone⟩

theorem pickRanked_cases (now : Nat) (sessionFp : Option String) (model : String) (pool : Pool) :
    pool.pickRanked now sessionFp model = (none, pool.state) ∨
      ∃ credential ∈ pool.entries, pool.state.healthy now model credential.uid = true ∧
        (pool.pickRanked now sessionFp model).1 = some credential ∧
        (pool.pickRanked now sessionFp model).2 =
          let state := { pool.state with rr := (pool.state.rr + 1) % 2 ^ 64 }
          match sessionFp with
          | some fp => state.bindSticky now fp credential.uid pool.limits.stickyMax
          | none => state := by
  unfold pickRanked
  dsimp only
  split
  · exact .inl rfl
  · next credential hpicked =>
    obtain ⟨hmem, hhealthy⟩ := mem_topRank (List.mem_of_getElem? hpicked)
    exact .inr ⟨credential, hmem, hhealthy, rfl, rfl⟩

theorem prune_of_present (h : ∀ c ∈ pool.entries, present c.path = true) :
    pool.prune present = pool := by
  have hentries : pool.entries.filter (fun c => present c.path) = pool.entries :=
    List.filter_eq_self.mpr h
  unfold prune
  dsimp only
  rw [hentries, if_pos rfl]

theorem prune_of_absent (h : ¬ ∀ c ∈ pool.entries, present c.path = true) : pool.prune present =
    let entries := pool.entries.filter fun c => present c.path
    let known (id : String) : Bool := entries.any fun c => c.uid = id
    let state := pool.state.retainAccounts known
    { pool with
      entries := entries
      state := state.removeAll (state.boundTo fun id => !known id) } := by
  have hlength : (pool.entries.filter fun c => present c.path).length ≠ pool.entries.length :=
    fun heq => h (List.filter_eq_self.mp (List.filter_sublist.eq_of_length heq))
  unfold prune
  dsimp only
  rw [if_neg hlength]

theorem entries_prune (present : String → Bool) (pool : Pool) :
    (pool.prune present).entries = pool.entries.filter fun c => present c.path := by
  unfold prune
  dsimp only
  split_ifs <;> rfl

theorem entries_pick (now : Nat) (sessionFp : Option String) (model : String)
    (present : String → Bool) (pool : Pool) :
    (pool.pick now sessionFp model present).2.entries =
      pool.entries.filter fun c => present c.path := by
  obtain ⟨state, hstate, -⟩ := pick_cases now sessionFp model present pool
  rw [hstate]
  rfl

theorem noteStatus_cases (now : Nat) (credential : Credential) (status : Nat) (model : String)
    (pool : Pool) :
    (status = 401 ∨ status = 403) ∧ pool.noteStatus now credential status model =
        pool.coolDown now credential .errThreshold pool.limits.credCooldownSecs ∨
      status = 429 ∧ (∃ keys, pool.noteStatus now credential status model = { pool with
        state := PoolState.removeAll keys { pool.state with
          modelFail := pool.state.modelFail.insert (credential.uid, model)
            (now + fromSecs (max pool.limits.modelCooldownSecs 1)) } }) ∨
      pool.noteStatus now credential status model = pool := by
  unfold noteStatus
  split_ifs with hunauthorized hlimited
  · exact .inl ⟨hunauthorized, rfl⟩
  · exact .inr (.inl ⟨hlimited, _, rfl⟩)
  · exact .inr (.inr rfl)

theorem noteErrorThreshold_cases (now : Nat) (credential : Credential) (pool : Pool) :
    let count := (pool.state.errCounts.lookup credential.uid).getD 0
    2 ≤ count ∧ pool.noteErrorThreshold now credential =
        (pool.coolDown now credential .errThreshold pool.limits.credCooldownSecs).noteSuccess
          credential ∨
      count < 2 ∧ pool.noteErrorThreshold now credential = { pool with state := { pool.state with
        errCounts := pool.state.errCounts.insert credential.uid (count + 1) } } := by
  intro count
  unfold noteErrorThreshold
  dsimp only
  split_ifs with hthird
  · exact .inl ⟨Nat.le_of_succ_le_succ hthird, rfl⟩
  · exact .inr ⟨Nat.lt_of_succ_lt_succ (Nat.not_le.mp hthird), rfl⟩

theorem mem_foldl_loadFile {entries : List Credential} (h : credential ∈ entries)
    (paths : List String) :
    credential ∈ paths.foldl (fun entries path => loadFile present read path entries) entries := by
  induction paths generalizing entries with
  | nil => exact h
  | cons path paths ih =>
    refine ih ?_
    dsimp only [loadFile]
    split_ifs
    · exact h
    · cases read path with
      | none => exact h
      | some loaded =>
        dsimp only
        split_ifs
        · exact h
        · exact List.mem_append_left _ h

end Pool

def Operation.remaining (present : String → Bool) (read : String → Option Credential)
    (entries : List Credential) : Operation → List Credential
  | pick _ _ | prune => entries.filter fun c => present c.path
  | loadFiles paths =>
    paths.foldl (fun entries path => Pool.loadFile present read path entries) entries
  | noteStatus _ _ _ | noteHardCredit _ | noteErrorThreshold _ | noteSuccess _ | setCredits _ _ =>
    entries

theorem entries_perform (moment : Moment) (pool : Pool) : (moment.perform pool).entries =
    moment.operation.remaining moment.present moment.read pool.entries := by
  obtain ⟨now, present, read, operation⟩ := moment
  cases operation with
  | pick sessionFp model => exact Pool.entries_pick now sessionFp model present pool
  | noteStatus c status model =>
    show (pool.noteStatus now c status model).entries = pool.entries
    rcases Pool.noteStatus_cases now c status model pool with ⟨-, h⟩ | ⟨-, keys, h⟩ | h <;>
      exact (congrArg Pool.entries h).trans rfl
  | noteErrorThreshold c =>
    show (pool.noteErrorThreshold now c).entries = pool.entries
    rcases Pool.noteErrorThreshold_cases now c pool with ⟨-, h⟩ | ⟨-, h⟩ <;>
      exact (congrArg Pool.entries h).trans rfl
  | prune => exact Pool.entries_prune present pool
  | noteHardCredit _ => rfl
  | noteSuccess _ => rfl
  | setCredits _ _ => rfl
  | loadFiles _ => rfl

/-- An account stays in the pool while its file is there. -/
theorem mem_entries_perform (moment : Moment) (h : credential ∈ pool.entries)
    (hpresent : moment.present credential.path = true) :
    credential ∈ (moment.perform pool).entries := by
  have hkept : credential ∈ pool.entries.filter fun c => moment.present c.path :=
    List.mem_filter.mpr ⟨h, hpresent⟩
  rw [entries_perform]
  cases moment.operation with
  | pick sessionFp model => exact hkept
  | prune => exact hkept
  | loadFiles paths => exact Pool.mem_foldl_loadFile h paths
  | _ => exact h

theorem limits_perform (moment : Moment) (pool : Pool) :
    (moment.perform pool).limits = pool.limits := by
  obtain ⟨now, present, read, operation⟩ := moment
  cases operation with
  | pick sessionFp model => exact Pool.limits_pick now sessionFp model present pool
  | noteStatus c status model =>
    show (pool.noteStatus now c status model).limits = pool.limits
    rcases Pool.noteStatus_cases now c status model pool with ⟨-, h'⟩ | ⟨-, keys, h'⟩ | h' <;>
      exact (congrArg Pool.limits h').trans rfl
  | noteErrorThreshold c =>
    show (pool.noteErrorThreshold now c).limits = pool.limits
    rcases Pool.noteErrorThreshold_cases now c pool with ⟨-, h'⟩ | ⟨-, h'⟩ <;>
      exact (congrArg Pool.limits h').trans rfl
  | prune =>
    show (pool.prune present).limits = pool.limits
    by_cases hpresent : ∀ c ∈ pool.entries, present c.path = true
    · rw [Pool.prune_of_present hpresent]
    · rw [Pool.prune_of_absent hpresent]
  | noteHardCredit _ => rfl
  | noteSuccess _ => rfl
  | setCredits _ _ => rfl
  | loadFiles _ => rfl

end Frames

def ann : Credential := ⟨"1001", "ann-file", "/home/ann/credential.json", "tok-1", "rt-1"⟩

/-- The operation of a moment at which every file is there, and read as the account. -/
def seconds (secs : Nat) (operation : Operation) : Moment :=
  ⟨fromSecs secs, fun _ => true, fun _ => some ann, operation⟩

def smallLimits : LimitConfig := ⟨60, 2, 60, 3600, 60⟩

end Lobster.Upstream
