import LobsterProxy.Base.Recency
import LobsterProxy.Upstream.Operations

/-! Sticky sessions: the map of the bindings and the queue of its keys stay in step, so
that eviction from the front leaves no binding that has outlived its time. -/

namespace Lobster.Upstream
open Recency

namespace PoolState

def touched (state : PoolState) (fp : String) : Nat :=
  ((state.sticky.lookup fp).map Prod.snd).getD 0

/-- The queue lists the bound sessions in the order in which they were last touched. -/
structure Orderly (now : Nat) (state : PoolState) : Prop where
  lists : Lists state.stickyOrder (· ∈ state.sticky)
  sorted : Sorted state.stickyOrder state.touched
  past : ∀ fp, state.touched fp ≤ now

structure Evicted (limits : LimitConfig) (now : Nat) (state : PoolState) : Prop where
  fresh : ∀ fp ∈ state.stickyOrder, now - state.touched fp ≤ fromSecs limits.stickyTtlSecs
  bounded : state.stickyOrder.length ≤ limits.stickyMax

variable {limits : LimitConfig} {now now' : Nat} {state state' : PoolState} {fp id : String}

theorem touched_of_lookup {touched : Nat} (h : state.sticky.lookup fp = some (id, touched)) :
    state.touched fp = touched := by
  unfold PoolState.touched
  rw [h]
  rfl

theorem touched_removeSticky (fp other : String) (state : PoolState) :
    (state.removeSticky fp).touched other = if other = fp then 0 else state.touched other := by
  unfold touched removeSticky
  dsimp only
  split_ifs with h
  · rw [h, AList.lookup_erase]
    rfl
  · rw [AList.lookup_erase_ne h]

theorem orderly_initial (now : Nat) : Orderly now initial where
  lists := ⟨List.nodup_nil, fun fp => iff_of_false List.not_mem_nil (AList.notMem_empty fp)⟩
  sorted := List.Pairwise.nil
  past _ := Nat.zero_le now

theorem Orderly.mono (h : Orderly now state) (hle : now ≤ now') : Orderly now' state :=
  ⟨h.lists, h.sorted, fun fp => (h.past fp).trans hle⟩

theorem Orderly.congr (h : Orderly now state) (hbindings : state'.bindings = state.bindings) :
    Orderly now state' := by
  obtain ⟨hsticky, horder⟩ := Prod.mk.inj hbindings
  have htouched : state'.touched = state.touched := by
    funext fp
    unfold touched
    rw [hsticky]
  obtain ⟨hlists, hsorted, hpast⟩ := h
  constructor
  · rw [horder, hsticky]
    exact hlists
  · rw [horder, htouched]
    exact hsorted
  · rw [htouched]
    exact hpast

theorem Orderly.length (h : Orderly now state) :
    state.sticky.keys.length = state.stickyOrder.length :=
  (h.lists.length_eq ⟨state.sticky.keys_nodup, fun _ => AList.mem_keys.symm⟩).symm

theorem Orderly.removeSticky (h : Orderly now state) (fp : String) :
    Orderly now (state.removeSticky fp) where
  lists := (h.lists.remove fp).congr fun _ => AList.mem_erase
  sorted := by
    refine (h.sorted.sublist List.filter_sublist).congr fun other hother => ?_
    rw [touched_removeSticky, if_neg (of_decide_eq_true (List.mem_filter.mp hother).2)]
  past other := by
    rw [touched_removeSticky]
    split_ifs
    · exact Nat.zero_le now
    · exact h.past other

theorem Orderly.removeAll (h : Orderly now state) (keys : List String) :
    Orderly now (state.removeAll keys) := by
  induction keys generalizing state with
  | nil => exact h
  | cons key keys ih => exact ih (h.removeSticky key)

theorem touched_insert (fp other id : String) (now : Nat) (state : PoolState)
    (order : List String) :
    touched { state with sticky := state.sticky.insert fp (id, now), stickyOrder := order } other =
      if other = fp then now else state.touched other := by
  unfold touched
  dsimp only
  split_ifs with h
  · rw [h, AList.lookup_insert]
    rfl
  · rw [AList.lookup_insert_ne h]

theorem Orderly.touch (h : Orderly now state) (id : String) {order : List String}
    (hsub : order.Sublist state.stickyOrder) (hfp : fp ∉ order)
    (hlists : Lists (order ++ [fp]) fun key => key = fp ∨ key ∈ state.sticky) :
    Orderly now { state with
      sticky := state.sticky.insert fp (id, now)
      stickyOrder := order ++ [fp] } where
  lists := hlists.congr fun _ => AList.mem_insert _
  sorted := by
    have hne {key : String} (hkey : key ∈ order) : key ≠ fp := by
      rintro rfl
      exact hfp hkey
    refine Sorted.push ((h.sorted.sublist hsub).congr fun key hkey => ?_) fun key hkey => ?_
    · rw [touched_insert, if_neg (hne hkey)]
    · rw [touched_insert, touched_insert, if_neg (hne hkey), if_pos rfl]
      exact h.past key
  past key := by
    rw [touched_insert]
    split_ifs
    · exact Nat.le_refl now
    · exact h.past key

theorem Orderly.moveStickyToBack (h : Orderly now state) (hbound : fp ∈ state.sticky)
    (id : String) :
    Orderly now
      ({ state with sticky := state.sticky.insert fp (id, now) }.moveStickyToBack fp) := by
  refine h.touch id List.filter_sublist (by simp) ((h.lists.moveToBack hbound).congr fun key => ?_)
  refine ⟨?_, .inr⟩
  rintro (rfl | hkey)
  · exact hbound
  · exact hkey

theorem Orderly.bindSticky (h : Orderly now state) (hnew : fp ∉ state.sticky) (id : String)
    (max : Nat) :
    Orderly now (state.bindSticky now fp id max) := by
  -- the oldest binding may have gone before
  have hpush {state : PoolState} (h : Orderly now state) (hnew : fp ∉ state.sticky) :
      Orderly now { state with
        sticky := state.sticky.insert fp (id, now)
        stickyOrder := state.stickyOrder ++ [fp] } :=
    h.touch id (List.Sublist.refl _) (fun hmem => hnew ((h.lists.mem fp).mp hmem))
      (h.lists.push hnew)
  unfold PoolState.bindSticky
  split_ifs
  · cases state.stickyOrder.head? with
    | none => exact hpush h hnew
    | some oldest =>
      exact hpush (h.removeSticky oldest) fun hmem => hnew (AList.mem_erase.mp hmem).2
  · exact hpush h hnew

theorem Orderly.length_bindSticky (h : Orderly now state) (hnew : fp ∉ state.sticky) (id : String)
    {most : Nat} (hmost : state.stickyOrder.length ≤ most) :
    (state.bindSticky now fp id most).stickyOrder.length ≤ max 1 most := by
  have hlength (state : PoolState) : (state.stickyOrder ++ [fp]).length =
      state.stickyOrder.length + 1 :=
    List.length_append
  unfold PoolState.bindSticky
  split_ifs with hfull
  · cases horder : state.stickyOrder with
    | nil =>
      show (state.stickyOrder ++ [fp]).length ≤ _
      rw [horder]
      exact Nat.le_max_left 1 most
    -- the new binding takes the place of the oldest
    | cons oldest rest =>
      show ((state.removeSticky oldest).stickyOrder ++ [fp]).length ≤ _
      have hshorter : (state.removeSticky oldest).stickyOrder.length < state.stickyOrder.length :=
        length_filter_lt (horder ▸ List.mem_cons_self)
      rw [hlength]
      exact (Nat.le_trans hshorter hmost).trans (Nat.le_max_right 1 most)
  · show (state.stickyOrder ++ [fp]).length ≤ _
    rw [hlength]
    have hroom : ¬ most ≤ state.stickyOrder.length := fun hle => hfull ⟨hnew, h.length ▸ hle⟩
    exact (Nat.succ_le_of_lt (Nat.not_le.mp hroom)).trans (Nat.le_max_right 1 most)

theorem length_removeSticky_le (fp : String) (state : PoolState) :
    (state.removeSticky fp).stickyOrder.length ≤ state.stickyOrder.length :=
      List.length_filter_le ..

theorem length_removeAll_le (keys : List String) (state : PoolState) :
    (state.removeAll keys).stickyOrder.length ≤ state.stickyOrder.length := by
  induction keys generalizing state with
  | nil => exact Nat.le_refl _
  | cons key keys ih => exact (ih _).trans (length_removeSticky_le key state)

theorem length_moveStickyToBack_le (hfp : fp ∈ state.stickyOrder) :
    (state.moveStickyToBack fp).stickyOrder.length ≤ state.stickyOrder.length := by
  show ((state.stickyOrder.filter fun key => key ≠ fp) ++ [fp]).length ≤ _
  rw [List.length_append]
  exact length_filter_lt hfp

theorem Orderly.evicted (h : Orderly now state)
    (hbounded : state.sticky.keys.length ≤ limits.stickyMax)
    (hfront :
      ∀ key ∈ state.stickyOrder.head?, now - state.touched key ≤ fromSecs limits.stickyTtlSecs) :
    Evicted limits now state := by
  refine ⟨fun fp hfp => ?_, h.length ▸ hbounded⟩
  cases horder : state.stickyOrder with
  | nil =>
    rw [horder] at hfp
    cases hfp
  | cons key rest =>
    have hkey := hfront key (by rw [horder]; rfl)
    rw [horder] at hfp
    rcases List.mem_cons.mp hfp with rfl | hrest
    · exact hkey
    · have hle : state.touched key ≤ state.touched fp :=
        (List.pairwise_cons.mp (horder ▸ h.sorted)).1 fp hrest
      exact (Nat.sub_le_sub_left hle now).trans hkey

theorem le_of_not_expired {binding : String × Nat} {ttl : Nat}
    (h : ¬ ((some binding).all fun (_, touched) => ttl < now - touched) = true) :
    now - binding.2 ≤ ttl :=
  Nat.not_lt.mp fun hlt => h (decide_eq_true hlt)

theorem Orderly.evictFrom (h : Orderly now state) {rounds : Nat}
    (hrounds : state.stickyOrder.length ≤ rounds) :
    Orderly now (state.evictFrom limits now rounds) ∧
    Evicted limits now (state.evictFrom limits now rounds) := by
  induction rounds generalizing state with
  | zero =>
    have hnil : state.stickyOrder = [] := List.eq_nil_of_length_eq_zero (Nat.le_zero.mp hrounds)
    refine ⟨h, fun fp hfp => ?_, ?_⟩
    · rw [PoolState.evictFrom, hnil] at hfp
      cases hfp
    · rw [PoolState.evictFrom, hnil]
      exact Nat.zero_le _
  | succ rounds ih =>
    unfold PoolState.evictFrom
    cases hhead : state.stickyOrder.head? with
    | none =>
      refine ⟨h, h.evicted ?_ (by simp [hhead])⟩
      rw [h.length, List.head?_eq_none_iff.mp hhead]
      exact Nat.zero_le _
    | some key =>
      have hkey : key ∈ state.stickyOrder := List.mem_of_mem_head? hhead
      dsimp only
      split_ifs with hevict
      · exact ih (h.removeSticky key) (Nat.le_of_lt_succ ((length_filter_lt hkey).trans_le hrounds))
      · obtain ⟨hfresh, hbounded⟩ := not_or.mp hevict
        refine ⟨h, h.evicted (Nat.not_lt.mp hbounded) fun front hfront => ?_⟩
        obtain rfl : key = front := Option.some.inj (hhead.symm.trans hfront)
        -- the front is bound, so that the look-up has an answer
        cases hlookup : state.sticky.lookup key with
        | none => exact absurd ((h.lists.mem key).mp hkey) (AList.lookup_eq_none.mp hlookup)
        | some binding =>
          obtain ⟨id, touched⟩ := binding
          rw [hlookup] at hfresh
          rw [touched_of_lookup hlookup]
          exact le_of_not_expired hfresh

end PoolState

namespace Pool
open PoolState
variable {limits : LimitConfig} {now now' : Nat} {present : String → Bool} {pool pool' : Pool}

/-- What every operation keeps of the bindings. -/
structure Tracked (limits : LimitConfig) (now : Nat) (pool : Pool) : Prop where
  config : pool.limits = limits
  orderly : Orderly now pool.state
  bounded : pool.state.stickyOrder.length ≤ max 1 limits.stickyMax

theorem Tracked.congr (h : Tracked limits now pool) (hlimits : pool'.limits = pool.limits)
    (hbindings : pool'.state.bindings = pool.state.bindings) : Tracked limits now pool' where
  config := hlimits.trans h.config
  orderly := h.orderly.congr hbindings
  bounded := by
    rw [(Prod.mk.inj hbindings).2]
    exact h.bounded

theorem Tracked.removeAll (h : Tracked limits now pool) (keys : List String) :
    Tracked limits now { pool with state := pool.state.removeAll keys } :=
  ⟨h.config, h.orderly.removeAll keys, (length_removeAll_le keys pool.state).trans h.bounded⟩

theorem evicted_tidy (h : Tracked limits now pool) (present : String → Bool) :
    Orderly now (pool.tidy now present).state ∧
    Evicted limits now (pool.tidy now present).state := by
  rw [← h.config]
  exact h.orderly.evictFrom (Nat.le_refl _)

theorem Tracked.pick (h : Tracked limits now pool) (sessionFp : Option String) (model : String) :
    Tracked limits now (pool.pick now sessionFp model present).2 := by
  obtain ⟨horderly, hevicted⟩ := evicted_tidy h present
  obtain ⟨state, hstate, hpicked⟩ := pick_cases now sessionFp model present pool
  have hlimits : (pool.tidy now present).limits = limits := h.config
  rw [hstate]
  generalize (pool.pick now sessionFp model present).1 = picked at hpicked
  generalize pool.tidy now present = tidied at hpicked horderly hevicted hlimits
  suffices Orderly now state ∧ state.stickyOrder.length ≤ max 1 limits.stickyMax from
    ⟨hlimits, this.1, this.2⟩
  have hroom : limits.stickyMax ≤ max 1 limits.stickyMax := Nat.le_max_right ..
  cases hpicked with
  | sticky fp id touched credential hfp hbound hmem huid hhealthy =>
    have hlive : fp ∈ tidied.state.sticky :=
      AList.lookup_isSome.mp (by rw [hbound]; rfl)
    refine ⟨horderly.moveStickyToBack hlive id, ?_⟩
    have hlength := length_moveStickyToBack_le ((horderly.lists.mem fp).mpr hlive)
    exact hlength.trans (hevicted.bounded.trans hroom)
  | ranked state hbefore hunbound =>
    obtain ⟨horderly, hbounded⟩ : Orderly now state ∧
        state.stickyOrder.length ≤ limits.stickyMax := by
      rcases hbefore with rfl | ⟨fp, -, rfl⟩
      · exact ⟨horderly, hevicted.bounded⟩
      · exact ⟨horderly.removeSticky fp, (length_removeSticky_le fp _).trans hevicted.bounded⟩
    rcases pickRanked_cases now sessionFp model { tidied with state := state } with
      hnone | ⟨credential, -, -, -, hranked⟩
    · rw [hnone]
      exact ⟨horderly, hbounded.trans hroom⟩
    · rw [hranked]
      have hturned : Orderly now { state with rr := (state.rr + 1) % 2 ^ 64 } := horderly.congr rfl
      cases sessionFp with
      | none => exact ⟨hturned, hbounded.trans hroom⟩
      | some fp =>
        have hnew := hunbound fp rfl
        rw [← hlimits] at hbounded ⊢
        exact ⟨hturned.bindSticky hnew _ _, hturned.length_bindSticky hnew _ hbounded⟩

theorem Tracked.noteStatus (h : Tracked limits now pool) (credential : Credential) (status : Nat)
    (model : String) : Tracked limits now (pool.noteStatus now credential status model) := by
  rcases noteStatus_cases now credential status model pool with ⟨-, h'⟩ | ⟨-, keys, h'⟩ | h' <;>
    rw [h']
  · exact h.congr rfl rfl
  · have hmarked : Tracked limits now { pool with state := { pool.state with
        modelFail := pool.state.modelFail.insert (credential.uid, model)
          (now + fromSecs (max pool.limits.modelCooldownSecs 1)) } } := h.congr rfl rfl
    exact hmarked.removeAll keys
  · exact h

theorem Tracked.prune (h : Tracked limits now pool) (present : String → Bool) :
    Tracked limits now (pool.prune present) := by
  by_cases hpresent : ∀ c ∈ pool.entries, present c.path = true
  · rw [prune_of_present hpresent]
    exact h
  · rw [prune_of_absent hpresent]
    have hretained : Tracked limits now { pool with
        entries := pool.entries.filter fun c => present c.path
        state := pool.state.retainAccounts fun id =>
          (pool.entries.filter fun c => present c.path).any fun c => c.uid = id } := h.congr rfl rfl
    exact hretained.removeAll _

theorem Tracked.perform (moment : Moment) (h : Tracked limits now pool) (hnow : now ≤ moment.now) :
    Tracked limits moment.now (moment.perform pool) := by
  replace h : Tracked limits moment.now pool := ⟨h.config, h.orderly.mono hnow, h.bounded⟩
  obtain ⟨now, present, read, operation⟩ := moment
  cases operation with
  | pick sessionFp model => exact h.pick sessionFp model
  | noteStatus credential status model => exact h.noteStatus credential status model
  | noteHardCredit credential => exact h.congr rfl rfl
  | noteErrorThreshold credential =>
    show Tracked limits now (pool.noteErrorThreshold now credential)
    rcases noteErrorThreshold_cases now credential pool with ⟨-, h'⟩ | ⟨-, h'⟩ <;> rw [h'] <;>
      exact h.congr rfl rfl
  | noteSuccess credential => exact h.congr rfl rfl
  | setCredits id credits => exact h.congr rfl rfl
  | prune => exact h.prune present
  | loadFiles paths => exact h.congr rfl rfl

theorem tracked_after (limits : LimitConfig) {moments : List Moment}
    (hclock : Moment.Chronological moments) :
    Tracked limits (Runs.clock Moment.now 0 moments) (Pool.after limits moments) :=
  Runs.run_timed_keeps (Tracked limits) (fun moment _ _ h hnow => h.perform moment hnow)
    ⟨rfl, orderly_initial 0, Nat.zero_le _⟩ hclock

/-- Whatever the operations are, the queue lists the bound sessions, each of them once, in
the order in which they were last touched; there are no more of them than configured; and
none that has outlived its time is left behind by the eviction. -/
theorem bindings_after (limits : LimitConfig) (moments : List Moment)
    (hclock : Moment.Chronological moments) :
    let pool := Pool.after limits moments
    pool.state.stickyOrder.Nodup ∧ (∀ fp, fp ∈ pool.state.stickyOrder ↔ fp ∈ pool.state.sticky) ∧
    (pool.state.stickyOrder.Pairwise fun fp fp' => ∀ id touched id' touched',
      pool.state.sticky.lookup fp = some (id, touched) →
      pool.state.sticky.lookup fp' = some (id', touched') → touched ≤ touched') ∧
    pool.state.sticky.keys.length ≤ max 1 limits.stickyMax ∧
    ∀ now present, Runs.clock Moment.now 0 moments ≤ now → ∀ fp id touched,
      (pool.tidy now present).state.sticky.lookup fp = some (id, touched) →
      now - touched ≤ fromSecs limits.stickyTtlSecs := by
  intro pool
  obtain ⟨hlimits, horderly, hbounded⟩ := tracked_after limits hclock
  refine ⟨horderly.lists.nodup, horderly.lists.mem, ?_, horderly.length ▸ hbounded, ?_⟩
  · refine horderly.sorted.imp fun {fp fp'} hle id touched id' touched' h h' => ?_
    rw [touched_of_lookup h, touched_of_lookup h'] at hle
    exact hle
  · intro now present hnow fp id touched hlookup
    have htracked : Tracked limits now pool := ⟨hlimits, horderly.mono hnow, hbounded⟩
    obtain ⟨horderly, hevicted⟩ := evicted_tidy htracked present
    have hfp : fp ∈ (pool.tidy now present).state.sticky :=
      AList.lookup_isSome.mp (by rw [hlookup]; rfl)
    have hfresh := hevicted.fresh fp ((horderly.lists.mem fp).mpr hfp)
    rw [touched_of_lookup hlookup] at hfresh
    exact hfresh

def sessions : List Moment :=
  [seconds 0 (.loadFiles [ann.path]), seconds 1 (.pick (some "first") "m"),
    seconds 2 (.pick (some "second") "m"), seconds 3 (.pick (some "first") "m"),
    seconds 4 (.pick (some "third") "m")]

theorem bindings_after_sessions :
    (Pool.after smallLimits sessions).state.stickyOrder = ["first", "third"] ∧
      (Pool.after smallLimits sessions).state.sticky.keys.length ≤ max 1 smallLimits.stickyMax :=
  ⟨by decide +kernel, (bindings_after smallLimits sessions (by decide +kernel)).2.2.2.1⟩

end Pool
end Lobster.Upstream
