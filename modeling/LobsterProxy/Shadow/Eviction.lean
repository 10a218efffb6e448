import LobsterProxy.Shadow.Bounds

/-! Eviction under pressure. The queue has the sessions in the order in which they came,
which is that of their last uses while a session is used again only as the newest one. -/

namespace Lobster.Shadow
open Recency

namespace ReasoningShadowStore
variable {store : ReasoningShadowStore} {hash : String → Fin (2 ^ 64)} {session : String}

theorem session?_countActive (store : ReasoningShadowStore) (name : String) :
    store.countActive.session? name = store.session? name := rfl

theorem lru_removeAll_sublist (names : List String) (store : ReasoningShadowStore) :
    (names.foldl removeSession store).inner.lru.Sublist store.inner.lru := by
  refine keeps_removeAll (fun after => after.inner.lru.Sublist store.inner.lru)
    (fun after name h => ?_) names
    (List.Sublist.refl _)
  rw [lru_removeSession]
  exact List.filter_sublist.trans h

theorem session?_removeAll (names : List String) (store : ReasoningShadowStore) (name : String) :
    (names.foldl removeSession store).session? name = if name ∈ names then
      none else store.session? name := by
  induction names generalizing store with
  | nil => rfl
  | cons first names ih =>
    rw [List.foldl_cons, ih, session?_removeSession]
    by_cases hfirst : first = name
    · simp [hfirst]
    · simp [hfirst, Ne.symm hfirst]

theorem lru_evictWhile_suffix (exceeds : ReasoningShadowStore → Bool) (turns : Nat)
    (hnodup : store.inner.lru.Nodup) :
    (evictWhile exceeds turns store).inner.lru <:+ store.inner.lru := by
  induction turns generalizing store with
  | zero => exact List.suffix_refl _
  | succ turns ih =>
    unfold evictWhile
    split_ifs
    · cases hlru : store.inner.lru with
      | nil =>
        show store.inner.lru <:+ []
        simp [hlru]
      | cons victim rest =>
        obtain ⟨hnew, hrest⟩ := List.nodup_cons.mp (hlru ▸ hnodup)
        have hremoved : (store.removeSession victim).inner.lru = rest := by
          rw [lru_removeSession, hlru, List.filter_cons_of_neg (by simp)]
          exact List.filter_eq_self.mpr fun name hname =>
            decide_eq_true fun heq => hnew (heq ▸ hname)
        have hevicted := ih (hremoved ▸ hrest)
        rw [hremoved] at hevicted
        exact hevicted.trans (List.suffix_cons victim rest)
    · exact List.suffix_refl _

theorem lru_evictAll_suffix (exceeds : ReasoningShadowStore → Bool)
    (hnodup : store.inner.lru.Nodup) :
    (evictAll exceeds store).inner.lru <:+ store.inner.lru := lru_evictWhile_suffix exceeds _ hnodup

theorem orderly_evictAll (exceeds : ReasoningShadowStore → Bool) (h : store.Orderly) :
    (evictAll exceeds store).Orderly :=
      keeps_evictAll Orderly (fun _ name h => orderly_removeSession h name) exceeds h

theorem orderly_removeAll (names : List String) (h : store.Orderly) :
    (names.foldl removeSession store).Orderly :=
  keeps_removeAll Orderly (fun _ name h => orderly_removeSession h name) names h

theorem lru_enforceLimits_suffix (checked : Nat) (h : store.Orderly) :
    (enforceLimits checked store).inner.lru <:+
    ((expiredSessions checked store).foldl removeSession store).inner.lru := by
  have hremoved := orderly_removeAll (expiredSessions checked store) h
  have hbytes := orderly_evictAll overBytes hremoved
  exact (lru_evictAll_suffix overSessions hbytes.queue.nodup).trans
    (lru_evictAll_suffix overBytes hremoved.queue.nodup)

theorem lru_enforceLimits_sublist (checked : Nat) (h : store.Orderly) :
    (enforceLimits checked store).inner.lru.Sublist store.inner.lru :=
  (lru_enforceLimits_suffix checked h).sublist.trans (lru_removeAll_sublist _ store)

/-- Behind the sessions that have expired, what goes stands in front of what stays. -/
theorem enforceLimits_order (checked : Nat) (h : store.Orderly) {uses : List (Option String)}
    (hordered : store.inner.lru.Pairwise (NotAfter uses)) {victim kept : String}
    (hvictim : (store.session? victim).isSome = true)
      (hfresh : victim ∉ expiredSessions checked store)
    (hgone : (enforceLimits checked store).session? victim = none)
    (hkept : ((enforceLimits checked store).session? kept).isSome = true) :
    NotAfter uses victim kept := by
  have hremoved := orderly_removeAll (expiredSessions checked store) h
  have hbytes := orderly_evictAll overBytes hremoved
  have hsettled : (enforceLimits checked store).Orderly := orderly_evictAll overSessions hbytes
  obtain ⟨gone, hsplit⟩ := lru_enforceLimits_suffix checked h
  have hlisted :
      victim ∈ ((expiredSessions checked store).foldl removeSession store).inner.lru := by
    rw [hremoved.queue.mem, session?_removeAll, if_neg hfresh]
    exact hvictim
  have hordered := hordered.sublist (lru_removeAll_sublist (expiredSessions checked store) store)
  rw [← hsplit] at hordered hlisted
  rcases List.mem_append.mp hlisted with hmem | hmem
  · exact (List.pairwise_append.mp hordered).2.2 victim hmem kept
      ((hsettled.queue.mem kept).mpr hkept)
  · have hstays := (hsettled.queue.mem victim).mp hmem
    rw [hgone] at hstays
    cases hstays

theorem putSession_order (hash : String → Fin (2 ^ 64)) (h : store.Orderly)
    {uses : List (Option String)} (hordered : store.inner.lru.Pairwise (NotAfter uses))
    (hnewest : session ∈ store.inner.lru → store.inner.lru.getLast? = some session) (now : Nat)
    (ids : List String) (reasoning : String) :
    (putSession hash now session ids reasoning store).inner.lru.Pairwise
      (NotAfter (uses ++ [some session])) := by
  rw [lru_putSession]
  split_ifs with hknown
  · exact pairwise_notAfter_newest hordered h.queue.nodup hnewest
  · exact pairwise_notAfter_use hordered fun hmem => hknown ((h.queue.mem session).mp hmem)

theorem lru_restore (hash : String → Fin (2 ^ 64)) (now : Nat) (session : String)
    (ids : List String) (store : ReasoningShadowStore) :
    (restore hash now session ids store).2.inner.lru = store.inner.lru := by
  apply keeps_restore (fun after => after.inner.lru = store.inner.lru)
  · intro after hinner _
    rw [hinner]
  · intro state key _
    rfl

end ReasoningShadowStore

namespace Operation
open ReasoningShadowStore
variable {hash : String → Fin (2 ^ 64)} {operation : Operation} {s : ReasoningShadowStore}

def used (hash : String → Fin (2 ^ 64)) (s : ReasoningShadowStore) : Operation → Option String
  | store _ _ session ids reasoning =>
    if reasoning = "" ∨ ids = [] ∨ s.limits.maxEntryBytes < reasoning.utf8ByteSize then none
    else some session
  | restore now session ids =>
    if (s.restore hash now session ids).1.isSome then some session else none
  | clearSession _ => none
  -- a lookup that finds something is counted
  | restoreInto clock body session =>
    if s.metrics.restores < (s.restoreInto hash clock body session).2.metrics.restores then
      some session
    else none

def uses (hash : String → Fin (2 ^ 64)) :
    List Operation → ReasoningShadowStore → List (Option String)
  | [], _ => []
  | operation :: rest, s => operation.used hash s :: uses hash rest (operation.perform hash s)

/-- The limits take the one session, which has not expired, and leave the other. -/
def Yields (hash : String → Fin (2 ^ 64)) (s : ReasoningShadowStore) (operation : Operation)
    (victim kept : String) : Prop :=
  match operation with
  | store now checked session ids reasoning =>
    let put := putSession hash now session ids reasoning s
    (store now checked session ids reasoning).used hash s = some session ∧
      (put.session? victim).isSome = true ∧ victim ∉ expiredSessions checked put ∧
      (s.store hash now checked session ids reasoning).session? victim = none ∧
      ((s.store hash now checked session ids reasoning).session? kept).isSome = true
  | _ => False

/-- A session that is in the queue is used only as the newest one. -/
def UsesNewest (hash : String → Fin (2 ^ 64)) (operation : Operation) (s : ReasoningShadowStore) :
    Prop :=
  ∀ session ∈ operation.used hash s, session ∈ s.inner.lru → s.inner.lru.getLast? = some session

instance (operation : Operation) (s : ReasoningShadowStore) :
    Decidable (operation.UsesNewest hash s) :=
  inferInstanceAs (Decidable (∀ session ∈ operation.used hash s, _ → _))

theorem uses_append (operations more : List Operation) (s : ReasoningShadowStore) :
    uses hash (operations ++ more) s = uses hash operations s ++
      uses hash more (performAll hash operations s) := by
  induction operations generalizing s with
  | nil => rfl
  | cons operation operations ih =>
    show _ :: uses hash (operations ++ more) _ = _ :: (_ ++ _)
    rw [ih]
    rfl

theorem used_store {now checked : Nat} {session name : String} {ids : List String}
    {reasoning : String} (h : (store now checked session ids reasoning).used hash s = some name) :
    session = name := by
  unfold used at h
  dsimp only at h
  split_ifs at h
  exact Option.some.inj h

theorem store_of_used {now checked : Nat} {session : String} {ids : List String}
    {reasoning : String}
    (h : (store now checked session ids reasoning).used hash s = some session) :
    reasoning.utf8ByteSize ≤ s.limits.maxEntryBytes ∧
    s.store hash now checked session ids reasoning =
      countActive (enforceLimits checked (putSession hash now session ids reasoning s)) := by
  unfold used at h
  dsimp only at h
  split_ifs at h with hskipped
  obtain ⟨hreasoning, hrest⟩ := not_or.mp hskipped
  obtain ⟨hids, hfits⟩ := not_or.mp hrest
  unfold ReasoningShadowStore.store
  rw [if_neg (not_or.mpr ⟨hreasoning, hids⟩), if_neg hfits]
  exact ⟨Nat.not_lt.mp hfits, rfl⟩

theorem lru_store_of_unused {now checked : Nat} {session : String} {ids : List String}
    {reasoning : String} (h : (store now checked session ids reasoning).used hash s = none) :
    (s.store hash now checked session ids reasoning).inner.lru = s.inner.lru := by
  unfold used at h
  dsimp only at h
  split_ifs at h with hskipped
  unfold ReasoningShadowStore.store
  split_ifs with hnothing hoversized
  · rfl
  · rfl
  · exact absurd hskipped (not_or.mpr ⟨fun h => hnothing (.inl h),
      not_or.mpr ⟨fun h => hnothing (.inr h), hoversized⟩⟩)

structure InOrder (uses : List (Option String)) (s : ReasoningShadowStore) :
    Prop extends s.Settled where
  ordered : s.inner.lru.Pairwise (NotAfter uses)

theorem inOrder_of_lru {uses : List (Option String)} {s' : ReasoningShadowStore}
    (h : InOrder uses s) (hsettled : s'.Settled) (hlru : s'.inner.lru = s.inner.lru)
    {use : Option String}
    (hnewest : ∀ session ∈ use, session ∈ s.inner.lru → s.inner.lru.getLast? = some session) :
    InOrder (uses ++ [use]) s' := by
  refine ⟨hsettled, ?_⟩
  rw [hlru]
  cases use with
  | none => exact pairwise_notAfter_pass h.ordered
  | some session => exact pairwise_notAfter_newest h.ordered h.queue.nodup (hnewest session rfl)

theorem inOrder_perform {uses : List (Option String)} (h : InOrder uses s)
    (hnewest : operation.UsesNewest hash s) :
    InOrder (uses ++ [operation.used hash s]) (operation.perform hash s) := by
  have hsettled : (operation.perform hash s).Settled := settled_perform operation h.toSettled
  cases operation with
  | store now checked session ids reasoning =>
    cases hused : (store now checked session ids reasoning).used hash s with
    | none =>
      refine inOrder_of_lru h hsettled (lru_store_of_unused hused) ?_
      exact nofun
    | some used =>
      obtain rfl := used_store hused
      obtain ⟨hfits, hstore⟩ := store_of_used hused
      have hput :=
        putSession_order hash h.toOrderly h.ordered (hnewest session hused) now ids reasoning
      refine ⟨hsettled, hput.sublist ?_⟩
      show (s.store hash now checked session ids reasoning).inner.lru.Sublist _
      rw [hstore]
      exact lru_enforceLimits_sublist checked (orderly_putSession h.toOrderly hfits)
  | restore now session ids =>
    exact inOrder_of_lru h hsettled (lru_restore hash now session ids s) hnewest
  | clearSession session =>
    have hsublist : (s.clearSession session).inner.lru.Sublist s.inner.lru := by
      refine keeps_clearSession (fun after => after.inner.lru.Sublist s.inner.lru)
        (fun after name hafter => ?_) session
        (List.Sublist.refl _)
      rw [lru_removeSession]
      exact List.filter_sublist.trans hafter
    exact ⟨hsettled, pairwise_notAfter_pass (h.ordered.sublist hsublist)⟩
  | restoreInto clock body session =>
    refine inOrder_of_lru h hsettled ?_ hnewest
    exact keeps_restoreInto (fun after => after.inner.lru = s.inner.lru)
      (fun index ids after hafter => (lru_restore hash (clock index) session ids after).trans
        hafter) body rfl

theorem inOrder_performAll (hash : String → Fin (2 ^ 64)) (limits : ShadowLimits)
    (operations : List Operation)
    (hnewest : Runs.Meets (fun operation s => operation.perform hash s) (UsesNewest hash) operations
      (.new limits)) :
    InOrder (uses hash operations (.new limits)) (performAll hash operations (.new limits)) := by
  induction operations using List.reverseRecOn with
  | nil => exact ⟨⟨orderly_new limits, Nat.zero_le _⟩, List.Pairwise.nil⟩
  | append_singleton operations operation ih =>
    obtain ⟨hbefore, hlast, -⟩ := Runs.meets_append.mp hnewest
    have hstep : InOrder (uses hash operations (.new limits) ++
        [operation.used hash (performAll hash operations (.new limits))])
        (operation.perform hash (performAll hash operations (.new limits))) :=
          inOrder_perform (ih hbefore) hlast
    rw [uses_append]
    unfold performAll at hstep ⊢
    rw [List.foldl_append]
    exact hstep

theorem notAfter_of_yields {earlier : List (Option String)} (h : InOrder earlier s)
    (hnewest : operation.UsesNewest hash s) {victim kept : String}
      (hyields : operation.Yields hash s victim kept) :
    NotAfter (earlier ++ [operation.used hash s]) victim kept := by
  cases operation with
  | store now checked session ids reasoning =>
    obtain ⟨hused, hvictim, hfresh, hgone, hkept⟩ := hyields
    obtain ⟨hfits, hstore⟩ := store_of_used hused
    rw [hstore, session?_countActive] at hgone hkept
    have hput :=
      putSession_order hash h.toOrderly h.ordered (hnewest session hused) now ids reasoning
    rw [hused]
    have horderly : (putSession hash now session ids reasoning s).Orderly :=
      orderly_putSession h.toOrderly hfits
    exact enforceLimits_order checked horderly hput hvictim hfresh hgone hkept
  | restore now session ids => exact hyields.elim
  | clearSession session => exact hyields.elim
  | restoreInto clock body session => exact hyields.elim

/-- While each session is used only as the newest one, what the limits take was used no
later than what they leave. -/
theorem evicts_least_recent (hash : String → Fin (2 ^ 64)) (limits : ShadowLimits)
    (operations : List Operation)
    (hnewest : Runs.Meets (fun operation s => operation.perform hash s) (UsesNewest hash) operations
      (.new limits)) :
    ∀ done operation, done ++ [operation] <+: operations → ∀ victim kept,
      operation.Yields hash (performAll hash done (.new limits)) victim kept →
        NotAfter (uses hash (done ++ [operation]) (.new limits)) victim kept := by
  rintro done operation ⟨rest, rfl⟩ victim kept hyields
  obtain ⟨hdone, hlast, -⟩ := Runs.meets_append.mp (Runs.meets_append.mp hnewest).1
  have hinOrder := inOrder_performAll hash limits done hdone
  rw [uses_append]
  exact notAfter_of_yields hinOrder hlast hyields

section Cases

def threeSessions : List Operation :=
  [store 0 0 "a" ["x"] "why", store 1 1 "b" ["x"] "why", store 2 2 "c" ["x"] "why"]

theorem evicts_least_recent_threeSessions :
    NotAfter (uses lengthHash threeSessions (.new smallLimits)) "a" "b" :=
  evicts_least_recent lengthHash smallLimits threeSessions (by decide +kernel)
    (threeSessions.take 2)
    (store 2 2 "c" ["x"] "why") (List.prefix_refl threeSessions) "a" "b"
    ⟨by decide +kernel, by decide +kernel, by decide +kernel, by decide +kernel, by decide +kernel⟩

/-- The session that was restored from last goes, since it came first. -/
theorem not_evicts_least_recent :
    let done := [store 0 0 "a" ["x"] "why", store 1 1 "b" ["x"] "why", restore 2 "a" ["x"]]
    let operation := store 3 3 "c" ["x"] "why"
    uses lengthHash (done ++ [operation]) (.new smallLimits) =
      [some "a", some "b", some "a", some "c"] ∧
      operation.Yields lengthHash (performAll lengthHash done (.new smallLimits)) "a" "b" ∧
      ¬ NotAfter (uses lengthHash (done ++ [operation]) (.new smallLimits)) "a" "b" := by
  intro done operation
  have huses : uses lengthHash (done ++ [operation]) (.new smallLimits) =
      [some "a", some "b", some "a", some "c"] := by decide +kernel
  refine ⟨huses,
    ⟨by decide +kernel, by decide +kernel, by decide +kernel, by decide +kernel, by decide +kernel⟩,
    ?_⟩
  rw [huses]
  intro h
  obtain ⟨j, hj, hused⟩ := h 2 rfl
  obtain ⟨hlt, -⟩ := List.getElem?_eq_some_iff.mp hused
  have hplace : j = 2 ∨ j = 3 := by
    simp only [List.length_cons, List.length_nil] at hlt
    omega
  rcases hplace with rfl | rfl <;> simp at hused

end Cases

end Operation
end Lobster.Shadow
