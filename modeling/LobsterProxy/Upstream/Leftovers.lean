import LobsterProxy.Upstream.Renewals

/-! What the pool remembers of accounts that are gone. A pick drops the entries without a
file and leaves their records, and so does a refresh that gives an entry another id; a prune
clears records only if it drops an entry itself. -/

namespace Lobster.Upstream
open PoolState Pool

namespace PoolState

def Records (id : String) (state : PoolState) : Prop :=
  id ∈ state.credits ∨ (∃ kind, (id, kind) ∈ state.failUntil) ∨
    (∃ model, (id, model) ∈ state.modelFail) ∨ id ∈ state.errCounts

/-- A session is bound to the account. -/
def Owns (id : String) (state : PoolState) : Prop :=
  ∃ fp touched, state.sticky.lookup fp = some (id, touched)

def Mentions (id : String) (state : PoolState) : Prop := state.Records id ∨ state.Owns id

def BoundFrom (before state : PoolState) : Prop :=
  ∀ fp binding, state.sticky.lookup fp = some binding → before.sticky.lookup fp = some binding

variable {id : String} {before state state' : PoolState}

theorem records_congr (h : state'.accounts = state.accounts) :
    state'.Records id ↔ state.Records id := by
  obtain ⟨hcredits, hrest⟩ := Prod.mk.inj h
  obtain ⟨hfail, hrest⟩ := Prod.mk.inj hrest
  obtain ⟨hmodel, herrs⟩ := Prod.mk.inj hrest
  unfold Records
  rw [hcredits, hfail, hmodel, herrs]

theorem BoundFrom.owns (h : BoundFrom before state) (howns : state.Owns id) : before.Owns id := by
  obtain ⟨fp, touched, hlookup⟩ := howns
  exact ⟨fp, touched, h fp _ hlookup⟩

theorem boundFrom_self (state : PoolState) : BoundFrom state state := fun _ _ hlookup => hlookup

theorem boundFrom_removeSticky (fp : String) (state : PoolState) :
    BoundFrom state (state.removeSticky fp) := by
  intro other binding hlookup
  by_cases hfp : other = fp
  · subst hfp
    exact absurd ((AList.lookup_erase _ _).symm.trans hlookup) nofun
  · exact (AList.lookup_erase_ne hfp).symm.trans hlookup

theorem BoundFrom.trans (h : BoundFrom before state) (h' : BoundFrom state state') :
    BoundFrom before state' :=
  fun fp binding hlookup => h fp binding (h' fp binding hlookup)

theorem boundFrom_removeAll (keys : List String) (state : PoolState) :
    BoundFrom state (state.removeAll keys) := by
  induction keys generalizing state with
  | nil => exact boundFrom_self _
  | cons key keys ih => exact (boundFrom_removeSticky key state).trans (ih _)

theorem lookup_removeAll {fp : String} {keys : List String} {binding : String × Nat}
    (h : (state.removeAll keys).sticky.lookup fp = some binding) : fp ∉ keys := by
  induction keys generalizing state with
  | nil => exact List.not_mem_nil
  | cons key keys ih =>
    refine List.not_mem_cons_of_ne_of_not_mem ?_ (ih h)
    rintro rfl
    have hgone := boundFrom_removeAll keys _ fp binding h
    exact absurd ((AList.lookup_erase _ _).symm.trans hgone) nofun

theorem boundFrom_evictFrom (limits : LimitConfig) (now rounds : Nat) (state : PoolState) :
    BoundFrom state (state.evictFrom limits now rounds) := by
  induction rounds generalizing state with
  | zero => exact boundFrom_self _
  | succ rounds ih =>
    unfold evictFrom
    cases state.stickyOrder.head? with
    | none => exact boundFrom_self _
    | some key =>
      dsimp only
      split_ifs
      · exact (boundFrom_removeSticky key state).trans (ih _)
      · exact boundFrom_self _

theorem owns_insert {fp owner : String} {touched : Nat} (hfrom : BoundFrom before state)
    (h : Owns id { state with sticky := state.sticky.insert fp (owner, touched) }) :
    id = owner ∨ before.Owns id := by
  obtain ⟨other, at', hlookup⟩ := h
  by_cases hfp : other = fp
  · subst hfp
    cases (AList.lookup_insert _).symm.trans hlookup
    exact .inl rfl
  · exact .inr ⟨other, at', hfrom _ _ ((AList.lookup_insert_ne hfp).symm.trans hlookup)⟩

theorem owns_bindSticky {fp owner : String} {now most : Nat}
    (h : (state.bindSticky now fp owner most).Owns id) :
    id = owner ∨ state.Owns id := by
  unfold bindSticky at h
  split_ifs at h
  · cases hhead : state.stickyOrder.head? with
    | none =>
      rw [hhead] at h
      exact owns_insert (boundFrom_self _) h
    | some oldest =>
      rw [hhead] at h
      exact owns_insert (boundFrom_removeSticky oldest state) h
  · exact owns_insert (boundFrom_self _) h

end PoolState

namespace Pool

def Knows (id : String) (pool : Pool) : Prop := ∃ c ∈ pool.entries, c.uid = id

def Clean (pool : Pool) : Prop := ∀ id, pool.state.Mentions id → pool.Knows id

theorem mentions_pick {id : String} {now : Nat} {sessionFp : Option String} {model : String}
    {present : String → Bool} {pool : Pool}
      (h : (pool.pick now sessionFp model present).2.state.Mentions id) :
    pool.state.Mentions id ∨ pool.Knows id := by
  rcases h with hrecords | howns
  · exact .inl (.inl ((records_congr (accounts_pick ..)).mp hrecords))
  -- the records are as before, so that the bindings are all that matters
  obtain ⟨state, hstate, hpicked⟩ := pick_cases now sessionFp model present pool
  rw [hstate] at howns
  replace howns : state.Owns id := howns
  have hfrom : BoundFrom pool.state (pool.tidy now present).state :=
    boundFrom_evictFrom pool.limits now _ pool.state
  have hentries (c : Credential) (hc : c ∈ (pool.tidy now present).entries) : pool.Knows c.uid :=
    ⟨c, List.mem_of_mem_filter hc, rfl⟩
  generalize (pool.pick now sessionFp model present).1 = picked at hpicked
  generalize pool.tidy now present = tidied at hpicked hfrom hentries
  suffices tidied.state.Owns id ∨ ∃ c ∈ tidied.entries, id = c.uid by
    rcases this with howns | ⟨c, hc, rfl⟩
    · exact .inl (.inr (hfrom.owns howns))
    · exact .inr (hentries c hc)
  cases hpicked with
  | sticky fp owner touched credential hfp hbound hmem huid hhealthy =>
    rcases owns_insert (boundFrom_self _) howns with rfl | hbefore
    · exact .inr ⟨credential, hmem, huid.symm⟩
    · exact .inl hbefore
  | ranked state hbefore hunbound =>
    have hbound : BoundFrom tidied.state state := by
      rcases hbefore with rfl | ⟨fp, -, rfl⟩
      · exact boundFrom_self _
      · exact boundFrom_removeSticky fp tidied.state
    rcases pickRanked_cases now sessionFp model { tidied with state := state } with
      hnone | ⟨credential, hmem, -, -, hranked⟩
    · rw [hnone] at howns
      exact .inl (hbound.owns howns)
    · rw [hranked] at howns
      cases sessionFp with
      | none => exact .inl (hbound.owns howns)
      | some fp =>
        rcases owns_bindSticky howns with hid | howns
        · exact .inr ⟨credential, hmem, hid⟩
        · exact .inl (hbound.owns howns)

theorem mentions_of_records {id : String} {owner : Prop} {state state' : PoolState}
    (h : state'.Mentions id) (hfrom : BoundFrom state state')
    (hrecords : state'.Records id → state.Records id ∨ owner) :
    state.Mentions id ∨ owner := by
  rcases h with h | h
  · exact (hrecords h).imp_left .inl
  · exact .inl (.inr (hfrom.owns h))

theorem mentions_coolDown {id : String} {now : Nat} {credential : Credential} {kind : CoolKind}
    {secs : Nat} {pool : Pool} (h : (pool.coolDown now credential kind secs).state.Mentions id) :
    pool.state.Mentions id ∨ id = credential.uid := by
  refine mentions_of_records h (boundFrom_self _) ?_
  rintro (hcredits | ⟨kind', hfail⟩ | hmodel | herrs)
  · exact .inl (.inl hcredits)
  · rcases (AList.mem_insert _).mp hfail with hkey | hfail
    · exact .inr (congrArg Prod.fst hkey)
    · exact .inl (.inr (.inl ⟨kind', hfail⟩))
  · exact .inl (.inr (.inr (.inl hmodel)))
  · exact .inl (.inr (.inr (.inr herrs)))

theorem mentions_setErrors {id owner : String} {count : Nat} {state : PoolState}
    (h : Mentions id { state with errCounts := state.errCounts.insert owner count }) :
    state.Mentions id ∨ id = owner := by
  refine mentions_of_records h (boundFrom_self _) ?_
  rintro (hcredits | hfail | hmodel | herrs)
  · exact .inl (.inl hcredits)
  · exact .inl (.inr (.inl hfail))
  · exact .inl (.inr (.inr (.inl hmodel)))
  · exact ((AList.mem_insert _).mp herrs).symm.imp_left fun herrs => .inr (.inr (.inr herrs))

theorem mentions_setCredits {id owner : String} {credits : Int} {pool : Pool}
    (h : (pool.setCredits owner credits).state.Mentions id) :
    pool.state.Mentions id ∨ id = owner := by
  refine mentions_of_records h (boundFrom_self _) ?_
  rintro (hcredits | hothers)
  · exact ((AList.mem_insert _).mp hcredits).symm.imp_left .inl
  · exact .inl (.inr hothers)

theorem mentions_noteStatus {id : String} {now : Nat} {credential : Credential} {status : Nat}
    {model : String} {pool : Pool}
    (h : (pool.noteStatus now credential status model).state.Mentions id) :
    pool.state.Mentions id ∨ id = credential.uid := by
  rcases noteStatus_cases now credential status model pool with ⟨-, h'⟩ | ⟨-, keys, h'⟩ | h' <;>
    rw [h'] at h
  · exact mentions_coolDown h
  · refine mentions_of_records h (boundFrom_removeAll keys _) fun hrecords => ?_
    rcases (records_congr (accounts_removeAll keys _)).mp hrecords with
      hcredits | hfail | ⟨other, hmodel⟩ | herrs
    · exact .inl (.inl hcredits)
    · exact .inl (.inr (.inl hfail))
    · rcases (AList.mem_insert _).mp hmodel with hkey | hmodel
      · exact .inr (congrArg Prod.fst hkey)
      · exact .inl (.inr (.inr (.inl ⟨other, hmodel⟩)))
    · exact .inl (.inr (.inr (.inr herrs)))
  · exact .inl h

theorem mentions_noteErrorThreshold {id : String} {now : Nat} {credential : Credential}
    {pool : Pool} (h : (pool.noteErrorThreshold now credential).state.Mentions id) :
    pool.state.Mentions id ∨ id = credential.uid := by
  rcases noteErrorThreshold_cases now credential pool with ⟨-, h'⟩ | ⟨-, h'⟩ <;> rw [h'] at h
  · rcases mentions_setErrors h with h | hid
    · exact mentions_coolDown h
    · exact .inr hid
  · exact mentions_setErrors h

end Pool

theorem HashMap.mem_retain {κ ν : Type} [DecidableEq κ] {keep : κ → ν → Bool} {map : HashMap κ ν}
    {key : κ} (h : key ∈ map.retain keep) : key ∈ map ∧ ∃ value, keep key value = true := by
  obtain ⟨value, hvalue⟩ := Option.isSome_iff_exists.mp (AList.lookup_isSome.mpr h)
  rw [lookup_retain, Option.filter_eq_some_iff] at hvalue
  exact ⟨AList.lookup_isSome.mp (hvalue.1 ▸ rfl), value, hvalue.2⟩

theorem PoolState.records_retainAccounts {id : String} {keep : String → Bool} {state : PoolState}
    (h : (state.retainAccounts keep).Records id) : state.Records id ∧ keep id = true := by
  rcases h with h | ⟨kind, h⟩ | ⟨model, h⟩ | h <;> obtain ⟨hmem, _, hkeep⟩ := HashMap.mem_retain h
  · exact ⟨.inl hmem, hkeep⟩
  · exact ⟨.inr (.inl ⟨kind, hmem⟩), hkeep⟩
  · exact ⟨.inr (.inr (.inl ⟨model, hmem⟩)), hkeep⟩
  · exact ⟨.inr (.inr (.inr hmem)), hkeep⟩

namespace Pool
variable {pool : Pool} {present : String → Bool}

theorem clean_prune_of_absent (h : ¬ ∀ c ∈ pool.entries, present c.path = true) :
    (pool.prune present).Clean := by
  intro id hmentions
  have hknows
      (hkept : ((pool.entries.filter fun c => present c.path).any fun c => c.uid = id) = true) :
      (pool.prune present).Knows id := by
    obtain ⟨c, hmem, huid⟩ := List.any_eq_true.mp hkept
    rw [Knows, entries_prune]
    exact ⟨c, hmem, of_decide_eq_true huid⟩
  refine hknows ?_
  rw [prune_of_absent h] at hmentions
  rcases hmentions with hrecords | ⟨fp, touched, hlookup⟩
  · exact (records_retainAccounts ((records_congr (accounts_removeAll _ _)).mp hrecords)).2
  · -- a session that is still bound was not among those of the unknown accounts
    by_contra hunknown
    refine lookup_removeAll hlookup
      (List.mem_map.mpr ⟨⟨fp, id, touched⟩, List.mem_filter.mpr ⟨?_, ?_⟩, rfl⟩)
    · exact AList.mem_lookup_iff.mp (boundFrom_removeAll _ _ fp _ hlookup)
    · exact congrArg not (Bool.eq_false_iff.mpr hunknown)

end Pool

/-- The operation speaks of an account of the pool. -/
def Operation.Proper (pool : Pool) : Operation → Prop
  | noteStatus credential _ _ => pool.Knows credential.uid
  | noteHardCredit credential => pool.Knows credential.uid
  | noteErrorThreshold credential => pool.Knows credential.uid
  | noteSuccess credential => pool.Knows credential.uid
  | setCredits id _ => pool.Knows id
  | pick _ _ | prune | loadFiles _ => True

/-- The pool, and the accounts that picks have dropped, or refreshes have replaced, since the last
prune that dropped one itself. -/
structure Watched where
  pool : Pool
  dropped : List String

def Moment.watch (moment : Moment) (watched : Watched) : Watched where
  pool := moment.perform watched.pool
  dropped := match moment.operation with
    | .pick _ _ => watched.dropped ++
        (watched.pool.entries.filter fun c => !moment.present c.path).map Credential.uid
    | .prune =>
      if watched.pool.entries.all fun c => moment.present c.path then watched.dropped else []
    | _ => watched.dropped

namespace PoolEvent

def watch (event : PoolEvent) (watched : Watched) : Watched :=
  match event with
  | operation moment => moment.watch watched
  | renewal _ path data =>
    ⟨watched.pool.renew path data, watched.dropped ++
      (watched.pool.entries.filter fun c => c.path = path && c.uid ≠ data.uid).map Credential.uid⟩

/-- An operation speaks of an account of the pool. -/
def Proper : PoolEvent → Pool → Prop
  | operation moment, pool => moment.operation.Proper pool
  | renewal _ _ _, _ => True

end PoolEvent

def Watched.after (limits : LimitConfig) (events : List PoolEvent) : Watched :=
  Runs.run PoolEvent.watch events ⟨.new limits, []⟩

/-- Everything that is recorded belongs to an account of the pool or to a dropped one. -/
def Watched.Accounted (watched : Watched) : Prop :=
  ∀ id, watched.pool.state.Mentions id → watched.pool.Knows id ∨ id ∈ watched.dropped

theorem Pool.Knows.perform {id : String} {pool : Pool} (moment : Moment) (h : pool.Knows id) :
    (moment.perform pool).Knows id ∨
      id ∈ (pool.entries.filter fun c => !moment.present c.path).map Credential.uid := by
  obtain ⟨c, hmem, rfl⟩ := h
  cases hpresent : moment.present c.path with
  | true => exact .inl ⟨c, mem_entries_perform moment hmem hpresent, rfl⟩
  | false => exact .inr (List.mem_map_of_mem (List.mem_filter.mpr ⟨hmem, congrArg not hpresent⟩))

theorem Watched.Accounted.watch (moment : Moment) {watched : Watched} (h : watched.Accounted)
    (hproper : moment.operation.Proper watched.pool) : (moment.watch watched).Accounted := by
  obtain ⟨now, present, read, operation⟩ := moment
  obtain ⟨pool, dropped⟩ := watched
  -- the operations that drop no entry
  have hsame {pool' : Pool} {id owner : String} (howner : pool.Knows owner)
      (hentries : pool'.entries = pool.entries)
      (hmentions : pool.state.Mentions id ∨ id = owner) : pool'.Knows id ∨ id ∈ dropped := by
    unfold Knows
    rw [hentries]
    rcases hmentions with hmentions | rfl
    · exact h id hmentions
    · exact .inl howner
  intro id hmentions
  cases operation with
  | pick sessionFp model =>
    have hbefore : pool.Knows id ∨ id ∈ dropped := (mentions_pick hmentions).elim (h id) .inl
    rcases hbefore with hknows | hdropped
    · exact (hknows.perform ⟨now, present, read, .pick sessionFp model⟩).imp_right
        (List.mem_append_right _)
    · exact .inr (List.mem_append_left _ hdropped)
  | noteStatus credential status model =>
    refine hsame hproper ?_ (mentions_noteStatus hmentions)
    show (pool.noteStatus now credential status model).entries = pool.entries
    rcases noteStatus_cases now credential status model pool with ⟨-, h'⟩ | ⟨-, keys, h'⟩ | h' <;>
      exact (congrArg Pool.entries h').trans rfl
  | noteHardCredit credential => exact hsame hproper rfl (mentions_coolDown hmentions)
  | noteErrorThreshold credential =>
    refine hsame hproper ?_ (mentions_noteErrorThreshold hmentions)
    show (pool.noteErrorThreshold now credential).entries = pool.entries
    rcases noteErrorThreshold_cases now credential pool with ⟨-, h'⟩ | ⟨-, h'⟩ <;>
      exact (congrArg Pool.entries h').trans rfl
  | noteSuccess credential => exact hsame hproper rfl (mentions_setErrors hmentions)
  | setCredits owner credits => exact hsame hproper rfl (mentions_setCredits hmentions)
  | prune =>
    by_cases hpresent : ∀ c ∈ pool.entries, present c.path = true
    · show (pool.prune present).Knows id ∨ id ∈ if _ then dropped else []
      replace hmentions : (pool.prune present).state.Mentions id := hmentions
      rw [if_pos (List.all_eq_true.mpr hpresent), prune_of_present hpresent]
      rw [prune_of_present hpresent] at hmentions
      exact h id hmentions
    · exact .inl (clean_prune_of_absent hpresent id hmentions)
  | loadFiles paths =>
    refine (h id hmentions).imp_left ?_
    rintro ⟨c, hmem, huid⟩
    exact ⟨c, mem_foldl_loadFile hmem paths, huid⟩

theorem Watched.Accounted.renew {path : String} {data : CredentialData} {watched : Watched}
    (h : watched.Accounted) (now : Nat) :
    ((PoolEvent.renewal now path data).watch watched).Accounted := by
  obtain ⟨pool, dropped⟩ := watched
  intro id hmentions
  rcases h id hmentions with ⟨c, hmem, rfl⟩ | hdropped
  · by_cases hreplaced : c.path = path ∧ c.uid ≠ data.uid
    · refine .inr (List.mem_append_right _ (List.mem_map_of_mem (List.mem_filter.mpr ⟨hmem, ?_⟩)))
      simpa using hreplaced
    · refine .inl ⟨_, List.mem_map_of_mem hmem, ?_⟩
      split_ifs with hpath
      · exact (not_not.mp fun hne => hreplaced ⟨hpath, hne⟩).symm
      · rfl
  · exact .inr (List.mem_append_left _ hdropped)

theorem Watched.Accounted.event (event : PoolEvent) {watched : Watched} (h : watched.Accounted)
    (hproper : event.Proper watched.pool) : (event.watch watched).Accounted := by
  cases event with
  | operation moment => exact h.watch moment hproper
  | renewal now path data => exact h.renew now

theorem pool_watch (event : PoolEvent) (watched : Watched) :
    (event.watch watched).pool = event.perform watched.pool := by
  cases event <;> rfl

theorem Watched.pool_after (limits : LimitConfig) (events : List PoolEvent) :
    (Watched.after limits events).pool = Pool.live limits events := by
  suffices ∀ watched, (Runs.run PoolEvent.watch events watched).pool =
      Runs.run PoolEvent.perform events watched.pool from this ⟨.new limits, []⟩
  induction events with
  | nil => exact fun _ => rfl
  | cons event events ih =>
    exact fun watched => (ih (event.watch watched)).trans (by rw [pool_watch]; rfl)

theorem Watched.accounted_after {limits : LimitConfig} {events : List PoolEvent}
    (hproper : Runs.Meets PoolEvent.perform PoolEvent.Proper events (.new limits)) :
    (Watched.after limits events).Accounted := by
  suffices ∀ watched : Watched, watched.Accounted →
      Runs.Meets PoolEvent.perform PoolEvent.Proper events watched.pool →
      (Runs.run PoolEvent.watch events watched).Accounted by
    refine this ⟨.new limits, []⟩ ?_ hproper
    rintro id ((h | ⟨kind, h⟩ | ⟨model, h⟩ | h) | ⟨fp, touched, h⟩)
    · exact absurd h (AList.notMem_empty id)
    · exact absurd h (AList.notMem_empty (id, kind))
    · exact absurd h (AList.notMem_empty (id, model))
    · exact absurd h (AList.notMem_empty id)
    · cases h
  clear hproper
  induction events with
  | nil => exact fun _ h _ => h
  | cons event events ih =>
    intro watched h hproper
    refine ih _ (h.event event hproper.1) ?_
    rw [pool_watch]
    exact hproper.2

/-- After a prune everything that is recorded belongs to an account of the pool, exactly if
the prune drops an entry itself, or nothing is recorded of an account that is missing and
that a pick has dropped or a refresh has replaced since the last prune that did. -/
theorem prune_clean_iff (limits : LimitConfig) (events : List PoolEvent) (present : String → Bool)
    (hproper : Runs.Meets PoolEvent.perform PoolEvent.Proper events (.new limits)) :
    let pool := Pool.live limits events
    (pool.prune present).Clean ↔ (∃ c ∈ pool.entries, present c.path = false) ∨
      ∀ id ∈ (Watched.after limits events).dropped, pool.state.Mentions id → pool.Knows id := by
  intro pool
  by_cases hpresent : ∀ c ∈ pool.entries, present c.path = true
  · rw [prune_of_present hpresent]
    have haccounted := Watched.accounted_after hproper
    unfold Watched.Accounted at haccounted
    rw [Watched.pool_after] at haccounted
    constructor
    · exact fun hclean => .inr fun id _ => hclean id
    · rintro (⟨c, hmem, habsent⟩ | hdropped) id hmentions
      · rw [hpresent c hmem] at habsent
        cases habsent
      · exact (haccounted id hmentions).elim (fun hknows => hknows)
          fun hid => hdropped id hid hmentions
  · refine iff_of_true (clean_prune_of_absent hpresent) (.inl ?_)
    obtain ⟨c, hc⟩ := not_forall.mp hpresent
    obtain ⟨hmem, habsent⟩ := Classical.not_imp.mp hc
    exact ⟨c, hmem, Bool.eq_false_iff.mpr habsent⟩

/-- The file of an account with known credits is gone at a pick. -/
def removals : List PoolEvent :=
  [.operation (seconds 0 (.loadFiles [ann.path])), .operation (seconds 1 (.setCredits ann.uid 7)),
    .operation { seconds 2 (.pick none "m") with present := fun _ => false }]

theorem meets_removals :
    Runs.Meets PoolEvent.perform PoolEvent.Proper removals (.new smallLimits) :=
  ⟨trivial, ⟨ann, by decide +kernel, rfl⟩, trivial, trivial⟩

theorem prune_clean_iff_removals : let pool := Pool.live smallLimits removals
    (pool.prune fun _ => false).Clean ↔ (∃ c ∈ pool.entries, false = false) ∨
      ∀ id ∈ (Watched.after smallLimits removals).dropped, pool.state.Mentions id → pool.Knows id :=
  prune_clean_iff smallLimits removals (fun _ => false) meets_removals

theorem prune_leaves_records :
    ¬ ∀ (limits : LimitConfig) (events : List PoolEvent) (present : String → Bool),
    Runs.Meets PoolEvent.perform PoolEvent.Proper events (.new limits) →
      ((Pool.live limits events).prune present).Clean := by
  intro h
  have hrecorded :
      ann.uid ∈ ((Pool.live smallLimits removals).prune fun _ => false).state.credits := by
    decide +kernel
  obtain ⟨c, hmem, -⟩ :=
    h smallLimits removals (fun _ => false) meets_removals ann.uid (.inl (.inl hrecorded))
  have hentries : ((Pool.live smallLimits removals).prune fun _ => false).entries = [] := by
    decide +kernel
  rw [hentries] at hmem
  cases hmem

/-- The credits of an account whose file has two ids are left behind by its refresh. -/
example : let pool := (Pool.live smallLimits [.operation (seconds 0 (.loadFiles [ann.path])),
      .operation (seconds 1 (.setCredits ann.uid 7)),
        .renewal (fromSecs 2) ann.path bothIdsRenewed]).prune fun _ => true
    pool.entries = [annRenewed] ∧ pool.state.credits.lookup "1001" = some 7 :=
  ⟨congrArg (fun c => [c]) renew_bothIds, rfl⟩

end Lobster.Upstream
