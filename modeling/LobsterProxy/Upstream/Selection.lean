import LobsterProxy.Upstream.Stickiness

/-! Whom a pick returns: the account of the session's binding, else one of the usable
accounts with the most credits. -/

namespace Lobster.Upstream
open PoolState

namespace Pool
variable {limits : LimitConfig} {now : Nat} {present : String → Bool}
    {read : String → Option Credential}
  {sessionFp : Option String} {model : String} {pool : Pool} {credential other : Credential}

section Distinct
variable {entries entries' : List Credential}

/-- No two entries are of one account. -/
def Distinct (entries : List Credential) : Prop := (entries.map Credential.uid).Nodup

theorem Distinct.sublist (h : Distinct entries) (hsub : entries'.Sublist entries) :
    Distinct entries' :=
  List.Nodup.sublist (hsub.map Credential.uid) h

theorem Distinct.eq_of_uid (h : Distinct entries) (hmem : credential ∈ entries)
    (hother : other ∈ entries) (huid : credential.uid = other.uid) : credential = other :=
  List.inj_on_of_nodup_map h hmem hother huid

theorem Distinct.push (h : Distinct entries) (hnew : ∀ c ∈ entries, c.uid ≠ credential.uid) :
    Distinct (entries ++ [credential]) := by
  unfold Distinct
  rw [List.map_append]
  refine List.nodup_append.mpr ⟨h, List.nodup_singleton _, ?_⟩
  intro uid huid uid' huid'
  obtain ⟨c, hc, rfl⟩ := List.mem_map.mp huid
  obtain rfl := List.mem_singleton.mp huid'
  exact hnew c hc

theorem Distinct.loadFile (h : Distinct entries) (path : String) :
    Distinct (loadFile present read path entries) := by
  unfold Pool.loadFile
  split_ifs
  · exact h
  · cases read path with
    | none => exact h
    | some loaded =>
      dsimp only
      split_ifs with hknown
      · exact h
      · refine h.push fun c hc huid => hknown ?_
        exact List.any_eq_true.mpr ⟨c, hc, decide_eq_true huid⟩

theorem Distinct.loadFiles (h : Distinct entries) (paths : List String) :
    Distinct
      (paths.foldl (fun entries path => Pool.loadFile present read path entries) entries) := by
  induction paths generalizing entries with
  | nil => exact h
  | cons path paths ih => exact ih (h.loadFile path)

theorem Distinct.perform (moment : Moment) (h : Distinct pool.entries) :
    Distinct (moment.perform pool).entries := by
  rw [entries_perform]
  cases moment.operation with
  | pick sessionFp model => exact h.sublist List.filter_sublist
  | prune => exact h.sublist List.filter_sublist
  | loadFiles paths => exact h.loadFiles paths
  | _ => exact h

theorem distinct_after (limits : LimitConfig) (moments : List Moment) :
    Distinct (Pool.after limits moments).entries :=
  Runs.run_keeps (fun pool : Pool => Distinct pool.entries) (fun moment _ h => h.perform moment)
    (show Distinct (Pool.new limits).entries from List.nodup_nil)

end Distinct

section Ranks

theorem rank_le_of_mem_topRank (hcredential : credential ∈ pool.topRank now model)
    (hmem : other ∈ pool.entries) (hhealthy : pool.state.healthy now model other.uid = true) :
    pool.rank other ≤ pool.rank credential := by
  have hsorted := List.pairwise_insertionSort (fun a b : Int × Credential => b.1 ≤ a.1)
    ((pool.candidates now model).map fun c => (pool.rank c, c))
  have hother : (pool.rank other, other) ∈ ((pool.candidates now model).map fun c =>
      (pool.rank c, c)).insertionSort fun a b => b.1 ≤ a.1 :=
    (List.mem_insertionSort _).mpr (List.mem_map_of_mem (List.mem_filter.mpr ⟨hmem, hhealthy⟩))
  unfold topRank at hcredential
  dsimp only at hcredential
  split at hcredential
  · cases hcredential
  · next top first rest hranked =>
    rw [hranked] at hsorted hother
    have hbest : pool.rank other ≤ top := by
      rcases List.mem_cons.mp hother with hfirst | hrest
      · exact (Prod.mk.inj hfirst).1.le
      · exact (List.pairwise_cons.mp hsorted).1 _ hrest
    obtain ⟨⟨credits, c⟩, hc, rfl⟩ := List.mem_map.mp hcredential
    obtain ⟨hc, htop⟩ := List.mem_filter.mp hc
    have hcandidate := (List.mem_insertionSort _).mp hc
    obtain ⟨c, -, heq⟩ := List.mem_map.mp hcandidate
    cases heq
    exact hbest.trans_eq (of_decide_eq_true htop).symm

theorem rank_congr {pool' : Pool} (h : pool'.state.accounts = pool.state.accounts) :
    pool'.rank credential = pool.rank credential := by
  unfold rank
  rw [(Prod.mk.inj h).1]

end Ranks

/-- The session is bound to the account: the eviction leaves the binding, which has not
outlived its time. -/
def Holds (now : Nat) (present : String → Bool) (pool : Pool) (fp : String)
    (credential : Credential) : Prop :=
  ∃ touched, (pool.tidy now present).state.sticky.lookup fp = some (credential.uid, touched) ∧
    now - touched ≤ fromSecs pool.limits.stickyTtlSecs

theorem usable_tidy_iff : pool.Usable now model present credential ↔
    credential ∈ (pool.tidy now present).entries ∧
      (pool.tidy now present).state.healthy now model credential.uid = true := by
  rw [healthy_congr (cooldowns_congr (accounts_tidy now present pool))]
  show _ ↔ credential ∈ pool.entries.filter _ ∧ _
  rw [List.mem_filter, and_assoc]
  rfl

theorem pick_eq_none_iff : (pool.pick now sessionFp model present).1 = none ↔
    ∀ credential, ¬ pool.Usable now model present credential := by
  constructor
  · intro hnone credential husable
    have hsome : (pool.pick now sessionFp model present).1.isSome = true := pick_isSome husable
    rw [hnone] at hsome
    cases hsome
  · intro hnobody
    cases hpicked : (pool.pick now sessionFp model present).1 with
    | none => rfl
    | some credential => exact absurd (pick_usable hpicked) (hnobody credential)

theorem pick_of_holds (hdistinct : Distinct pool.entries) {fp : String}
    (hheld : pool.Holds now present fp credential)
      (husable : pool.Usable now model present credential) :
    (pool.pick now (some fp) model present).1 = some credential := by
  obtain ⟨touched, hlookup, -⟩ := hheld
  obtain ⟨hmem, hhealthy⟩ := usable_tidy_iff.mp husable
  have hfound : (pool.tidy now present).entries.find? (fun c => c.uid = credential.uid) =
      some credential := by
    cases hfind : (pool.tidy now present).entries.find? fun c => c.uid = credential.uid with
    | none => exact absurd (decide_eq_true rfl) (List.find?_eq_none.mp hfind credential hmem)
    | some c =>
      have huid : c.uid = credential.uid := by simpa using List.find?_some hfind
      have htidied : Distinct (pool.tidy now present).entries :=
        hdistinct.sublist List.filter_sublist
      rw [htidied.eq_of_uid (List.mem_of_find?_eq_some hfind) hmem huid]
  have hsticky : ((pool.tidy now present).pickSticky now (some fp) model).1 = some credential := by
    unfold pickSticky
    dsimp only
    rw [hlookup]
    dsimp only
    rw [hfound]
    dsimp only
    rw [if_pos hhealthy]
  unfold pick
  dsimp only
  split
  · next hpicked =>
    rw [hpicked] at hsticky
    exact hsticky
  · next hpicked =>
    rw [hpicked] at hsticky
    cases hsticky

theorem rank_le_of_pick (htracked : Tracked limits now pool)
    (hpicked : (pool.pick now sessionFp model present).1 = some credential)
    (hfree : ∀ fp, sessionFp = some fp → ∀ bound, pool.Usable now model present bound →
      ¬ pool.Holds now present fp bound)
    (hother : pool.Usable now model present other) : pool.rank other ≤ pool.rank credential := by
  obtain ⟨state, -, hcases⟩ := pick_cases now sessionFp model present pool
  rw [hpicked] at hcases
  generalize hresult : some credential = result at hcases
  cases hcases with
  -- a binding that is left has not outlived its time
  | sticky fp id touched c hfp hbound hmem huid hhealthy =>
    subst huid
    obtain ⟨horderly, hevicted⟩ := evicted_tidy htracked present
    have hlive : fp ∈ (pool.tidy now present).state.sticky :=
      AList.lookup_isSome.mp (by rw [hbound]; rfl)
    have hfresh := hevicted.fresh fp ((horderly.lists.mem fp).mpr hlive)
    rw [touched_of_lookup hbound, ← htracked.config] at hfresh
    exact absurd ⟨touched, hbound, hfresh⟩ (hfree fp hfp c (usable_tidy_iff.mpr ⟨hmem, hhealthy⟩))
  | ranked state hstate hunbound =>
    have haccounts : state.accounts = (pool.tidy now present).state.accounts := by
      rcases hstate with rfl | ⟨fp, -, rfl⟩ <;> rfl
    have hsame : state.accounts = pool.state.accounts := haccounts.trans (accounts_tidy ..)
    rw [pickRanked_fst] at hresult
    obtain ⟨hmem, hhealthy⟩ := usable_tidy_iff.mp hother
    rw [healthy_congr (cooldowns_congr haccounts.symm)] at hhealthy
    have hle := rank_le_of_mem_topRank (List.mem_of_getElem? hresult.symm) hmem hhealthy
    have hrank (c : Credential) : { pool.tidy now present with state := state }.rank c =
      pool.rank c :=
      rank_congr hsame
    rw [hrank, hrank] at hle
    exact hle

theorem lookup_bindSticky (now : Nat) (fp id : String) (max : Nat) (state : PoolState) :
    (state.bindSticky now fp id max).sticky.lookup fp = some (id, now) := by
  unfold PoolState.bindSticky
  exact AList.lookup_insert _

theorem lookup_of_pick {fp : String}
    (hpicked : (pool.pick now (some fp) model present).1 = some credential) :
    (pool.pick now (some fp) model present).2.state.sticky.lookup fp =
      some (credential.uid, now) := by
  obtain ⟨state, hstate, hcases⟩ := pick_cases now (some fp) model present pool
  rw [hstate]
  rw [hpicked] at hcases
  generalize hresult : some credential = result at hcases
  cases hcases with
  | sticky fp' id touched c hfp hbound hmem huid hhealthy =>
    cases hfp
    cases hresult
    subst huid
    exact AList.lookup_insert _
  | ranked state hstate hunbound =>
    rcases pickRanked_cases now (some fp) model { pool.tidy now present with state := state } with
      hnone | ⟨c, -, -, hsome, hranked⟩
    · rw [hnone] at hresult
      cases hresult
    · rw [hsome] at hresult
      cases hresult
      dsimp only
      rw [hranked]
      exact lookup_bindSticky ..

/-- A pick finds nobody only when nobody is usable, it stays with the account that the
session holds, it prefers the most credits otherwise, and it binds the session. -/
theorem pick_selects (limits : LimitConfig) (moments : List Moment)
    (hclock : Moment.Chronological moments) (now : Nat)
    (hnow : Runs.clock Moment.now 0 moments ≤ now) (present : String → Bool)
    (sessionFp : Option String) (model : String) :
    let pool := Pool.after limits moments
    let picked := pool.pick now sessionFp model present
    (picked.1 = none ↔ ∀ credential, ¬ pool.Usable now model present credential) ∧
    (∀ fp, sessionFp = some fp → ∀ credential, pool.Usable now model present credential →
      pool.Holds now present fp credential → picked.1 = some credential) ∧
    ∀ credential, picked.1 = some credential →
      pool.Usable now model present credential ∧
      ((∀ fp, sessionFp = some fp → ∀ bound, pool.Usable now model present bound →
          ¬ pool.Holds now present fp bound) →
        ∀ other, pool.Usable now model present other → pool.rank other ≤ pool.rank credential) ∧
      ∀ fp, sessionFp = some fp → picked.2.state.sticky.lookup fp = some (credential.uid, now) := by
  intro pool picked
  obtain ⟨hlimits, horderly, hbounded⟩ := tracked_after limits hclock
  have htracked : Tracked limits now pool := ⟨hlimits, horderly.mono hnow, hbounded⟩
  refine ⟨pick_eq_none_iff, ?_, fun credential hpicked => ⟨pick_usable hpicked, ?_, ?_⟩⟩
  · rintro fp rfl credential husable hheld
    exact pick_of_holds (distinct_after limits moments) hheld husable
  · exact fun hfree other hother => rank_le_of_pick htracked hpicked hfree hother
  · rintro fp rfl
    exact lookup_of_pick hpicked

theorem pick_selects_sessions :
    ((Pool.after smallLimits sessions).pick (fromSecs 5) (some "first") "m" fun _ => true).1 =
      some ann :=
  (pick_selects smallLimits sessions (by decide +kernel) (fromSecs 5) (by decide +kernel)
    (fun _ => true)
    (some "first") "m").2.1 "first" rfl ann ⟨by decide +kernel, rfl, by decide +kernel⟩
    ⟨fromSecs 3, by decide +kernel, by decide +kernel⟩

end Pool
end Lobster.Upstream
