import LobsterProxy.Base.Recency
import LobsterProxy.Shadow.Accounting
import LobsterProxy.Shadow.Recall
import Mathlib.Algebra.Order.BigOperators.Group.List

/-! The limits of the shadow store hold after every call: sessions, bytes in total, bytes of
an entry. The queue behind the evictions lists the sessions, and the evictions end. -/

namespace Lobster.Shadow
open Recency

namespace ReasoningShadowStore
variable {hash : String → Fin (2 ^ 64)} {store : ReasoningShadowStore} {session : String}
    {ids : List String}
  {reasoning : String} {now checked : Nat}

section Removals

@[simp] theorem sessions_removeSession (store : ReasoningShadowStore) (name : String) :
    (store.removeSession name).inner.sessions = store.inner.sessions.remove name := by
  unfold removeSession
  cases hfind : store.session? name with
  | none =>
    have hnone : store.inner.sessions.remove name = store.inner.sessions :=
      SortedMap.remove_of_find?_eq_none hfind
    rw [hnone]
    rfl
  | some state => rfl

@[simp] theorem lru_removeSession (store : ReasoningShadowStore) (name : String) :
    (store.removeSession name).inner.lru = store.inner.lru.filter fun other => other ≠ name := by
  unfold removeSession
  cases store.session? name <;> rfl

@[simp] theorem limits_removeSession (store : ReasoningShadowStore) (name : String) :
    (store.removeSession name).limits = store.limits := by
  unfold removeSession
  cases store.session? name <;> rfl

@[simp] theorem totalBytes_removeSession (store : ReasoningShadowStore) (name : String) :
    (store.removeSession name).inner.totalBytes =
      store.inner.totalBytes - ((store.session? name).map SessionState.bytes).getD 0 := by
  unfold removeSession
  cases store.session? name <;> rfl

theorem keeps_clearSession (inv : ReasoningShadowStore → Prop)
    (h : ∀ store name, inv store → inv (store.removeSession name)) (name : String)
      (hstore : inv store) :
    inv (store.clearSession name) := by
  have hremoved := h store name hstore
  unfold removeSession at hremoved
  unfold clearSession
  cases hfind : store.session? name with
  | none => exact hstore
  | some state =>
    rw [hfind] at hremoved
    exact hremoved

end Removals

section Evictions

def evictTurn (exceeds : ReasoningShadowStore → Bool) (store : ReasoningShadowStore) :
    Option ReasoningShadowStore :=
  if exceeds store then store.inner.lru.head?.map store.removeSession else none

theorem leaves_evictWhile (exceeds : ReasoningShadowStore → Bool) {turns : Nat}
    (h : store.inner.lru.length ≤ turns) :
    ∃ n ≤ store.inner.lru.length, Runs.Leaves (evictTurn exceeds) n store
      (evictWhile exceeds turns store) := by
  induction turns generalizing store with
  | zero =>
    have hempty : store.inner.lru = [] := List.length_eq_zero_iff.mp (Nat.le_zero.mp h)
    refine ⟨0, Nat.zero_le _, .exit ?_⟩
    simp [evictTurn, hempty]
  | succ turns ih =>
    unfold evictWhile
    split_ifs with hexceeds
    · cases hlru : store.inner.lru with
      | nil => exact ⟨0, le_refl _, .exit (by simp [evictTurn, hlru])⟩
      | cons victim rest =>
        have hshorter : (store.removeSession victim).inner.lru.length < store.inner.lru.length := by
          rw [lru_removeSession]
          apply length_filter_lt
          rw [hlru]
          exact List.mem_cons_self
        have hturn : evictTurn exceeds store = some (store.removeSession victim) := by
          simp [evictTurn, hexceeds, hlru]
        obtain ⟨n, hn, hleaves⟩ := ih (Nat.le_of_lt_succ (hshorter.trans_le h))
        refine ⟨n + 1, ?_, .next hturn hleaves⟩
        rw [← hlru]
        exact hn.trans_lt hshorter
    · exact ⟨0, Nat.zero_le _, .exit (by simp [evictTurn, hexceeds])⟩

/-- The loop ends after at most one turn for each session in the queue. -/
theorem leaves_evictAll (exceeds : ReasoningShadowStore → Bool) (store : ReasoningShadowStore) :
    ∃ n ≤ store.inner.lru.length, Runs.Leaves (evictTurn exceeds) n store
      (evictAll exceeds store) :=
  leaves_evictWhile exceeds (le_refl _)

theorem exits_evictAll (exceeds : ReasoningShadowStore → Bool) (store : ReasoningShadowStore) :
    exceeds (evictAll exceeds store) = false ∨ (evictAll exceeds store).inner.lru = [] := by
  obtain ⟨n, -, hleaves⟩ := leaves_evictAll exceeds store
  have hexit := hleaves.exits
  unfold evictTurn at hexit
  split_ifs at hexit with hexceeds
  · right
    simpa using hexit
  · left
    simpa using hexceeds

end Evictions

section Orderly

/-- The queue lists the sessions, and no entry is longer than the limit. -/
structure Orderly (store : ReasoningShadowStore) : Prop where
  queue : Lists store.inner.lru fun name => (store.session? name).isSome = true
  fits : ∀ name state, store.session? name = some state →
    ∀ key entry, state.entries.find? key = some entry →
    entry.reasoning.utf8ByteSize ≤ store.limits.maxEntryBytes

theorem orderly_new (limits : ShadowLimits) : (new limits).Orderly where
  queue := ⟨List.nodup_nil, fun name => by simp [new, session?]⟩
  fits := fun name state h => by simp [new, session?] at h

theorem Orderly.congr {store' : ReasoningShadowStore} (h : store.Orderly)
    (hinner : store'.inner = store.inner) (hlimits : store'.limits = store.limits) :
    store'.Orderly := by
  obtain ⟨hqueue, hfits⟩ := h
  constructor
  · unfold session? at hqueue ⊢
    rw [hinner]
    exact hqueue
  · unfold session? at hfits ⊢
    rw [hinner, hlimits]
    exact hfits

theorem orderly_removeSession (h : store.Orderly) (name : String) :
    (store.removeSession name).Orderly := by
  constructor
  · rw [lru_removeSession]
    refine (h.queue.remove name).congr fun other => ?_
    rw [session?_removeSession]
    by_cases hname : name = other
    · simp [hname]
    · simp [hname, Ne.symm hname]
  · intro other state hstate key entry hentry
    rw [session?_removeSession] at hstate
    split_ifs at hstate
    rw [limits_removeSession]
    exact h.fits other state hstate key entry hentry

theorem session?_putSession (hash : String → Fin (2 ^ 64)) (now : Nat) (session : String)
    (ids : List String) (reasoning : String) (store : ReasoningShadowStore) (name : String) :
    (putSession hash now session ids reasoning store).session? name =
      if session = name then some ⟨addEntries hash session ids ⟨reasoning, now⟩
          ((store.session? session).getD ⟨.empty, 0⟩).entries,
        saturatingAdd ((store.session? session).getD ⟨.empty, 0⟩).bytes
          (saturatingMul reasoning.utf8ByteSize ids.length)⟩
      else store.session? name :=
  SortedMap.find?_insert store.inner.sessions session name _

theorem lru_putSession (hash : String → Fin (2 ^ 64)) (now : Nat) (session : String)
    (ids : List String) (reasoning : String) (store : ReasoningShadowStore) :
    (putSession hash now session ids reasoning store).inner.lru =
      if (store.session? session).isSome then store.inner.lru
      else store.inner.lru ++ [session] :=
  rfl

theorem orderly_putSession (h : store.Orderly)
    (hfits : reasoning.utf8ByteSize ≤ store.limits.maxEntryBytes) :
    (putSession hash now session ids reasoning store).Orderly := by
  constructor
  · have hlive (name : String) :
        ((putSession hash now session ids reasoning store).session? name).isSome = true ↔
        name = session ∨ (store.session? name).isSome = true := by
      rw [session?_putSession]
      by_cases hname : session = name
      · simp [hname]
      · simp [hname, Ne.symm hname]
    rw [lru_putSession]
    split_ifs with hknown
    · refine h.queue.congr fun name => (hlive name).trans ⟨fun hname => ?_, .inr⟩
      rcases hname with rfl | hname
      · exact hknown
      · exact hname
    · exact (h.queue.push hknown).congr hlive
  · intro name state hstate key entry hentry
    rw [session?_putSession] at hstate
    split_ifs at hstate with hname
    · cases hstate
      rw [find?_addEntries] at hentry
      split_ifs at hentry
      · cases hentry
        exact hfits
      · cases hold : store.session? session with
        | none =>
          rw [hold] at hentry
          cases hentry
        | some old =>
          rw [hold] at hentry
          exact h.fits session old hold key entry hentry
    · exact h.fits name state hstate key entry hentry

theorem Orderly.length_lru (h : store.Orderly) :
    store.inner.lru.length = store.inner.sessions.entries.length := by
  have hkeys : Lists store.inner.sessions.keys fun name => (store.session? name).isSome = true :=
    ⟨SortedMap.keys_nodup _, fun _ => SortedMap.mem_keys⟩
  rw [h.queue.length_eq hkeys]
  exact List.length_map _

theorem session?_removeEntry (session : String) (state : SessionState) (key : ShadowKey)
    (store : ReasoningShadowStore) (name : String) :
    (removeEntry session state key store).session? name =
      if session = name then some { state with entries := state.entries.remove key }
        else store.session? name :=
  SortedMap.find?_insert store.inner.sessions session name _

theorem orderly_removeEntry {state : SessionState} (h : store.Orderly)
    (hfind : store.session? session = some state) (key : ShadowKey) :
    (removeEntry session state key store).Orderly := by
  constructor
  · refine h.queue.congr fun name => ?_
    rw [session?_removeEntry]
    split_ifs with hname
    · rw [← hname, hfind]
      simp
    · exact Iff.rfl
  · intro name other hother key' entry hentry
    rw [session?_removeEntry] at hother
    split_ifs at hother with hname
    · cases hother
      rw [SortedMap.find?_remove] at hentry
      split_ifs at hentry
      exact h.fits session state hfind key' entry hentry
    · exact h.fits name other hother key' entry hentry

theorem entries_eq_nil (hempty : store.inner.lru = []) (h : store.Orderly) :
    store.inner.sessions.entries = [] := by
  rw [List.eq_nil_iff_forall_not_mem]
  rintro ⟨name, state⟩ hmem
  have hlive : (store.session? name).isSome = true := by
    unfold session?
    rw [SortedMap.mem_entries.mp hmem]
    rfl
  have hlisted := (h.queue.mem name).mpr hlive
  rw [hempty] at hlisted
  exact List.not_mem_nil hlisted

end Orderly
section Covered

/-- The counts cover the entries: a session's bytes its own, the total those of the sessions. -/
structure Covered (store : ReasoningShadowStore) : Prop where
  total : store.inner.totalBytes = store.inner.sessions.weight SessionState.bytes
  own : ∀ name state, store.session? name = some state → state.ownBytes ≤ state.bytes

theorem covered_new (limits : ShadowLimits) : (new limits).Covered where
  total := rfl
  own := fun name state h => by simp [new, session?] at h

theorem Covered.congr {store' : ReasoningShadowStore} (h : store.Covered)
    (hinner : store'.inner = store.inner) :
    store'.Covered := by
  obtain ⟨htotal, hown⟩ := h
  constructor
  · rw [hinner]
    exact htotal
  · unfold session? at hown ⊢
    rw [hinner]
    exact hown

theorem Covered.ownBytes_le (h : store.Covered) :
    store.inner.sessions.weight SessionState.ownBytes ≤ store.inner.totalBytes := by
  rw [h.total]
  apply List.sum_le_sum
  intro state hstate
  obtain ⟨name, hname⟩ := SortedMap.mem_values.mp hstate
  exact h.own name state hname

theorem covered_removeSession (h : store.Covered) (name : String) :
    (store.removeSession name).Covered := by
  constructor
  · rw [totalBytes_removeSession, sessions_removeSession, h.total]
    have hweight := SortedMap.weight_remove SessionState.bytes store.inner.sessions name
    unfold session?
    omega
  · intro other state hstate
    rw [session?_removeSession] at hstate
    split_ifs at hstate
    exact h.own other state hstate

theorem weight_addEntries_le (hash : String → Fin (2 ^ 64)) (f : ShadowEntry → Nat)
    (session : String) (ids : List String) (entry : ShadowEntry)
    (entries : SortedMap ShadowKey ShadowEntry) :
    (addEntries hash session ids entry entries).weight f ≤ entries.weight f +
      f entry * ids.length := by
  induction ids generalizing entries with
  | nil => exact Nat.le_add_right _ _
  | cons id ids ih =>
    have hinsert : (entries.insert (keyOf hash session id) entry).weight f ≤
        f entry + entries.weight f := by
      have hremoved := SortedMap.weight_remove f entries (keyOf hash session id)
      rw [SortedMap.weight_insert]
      omega
    have hrest := ih (entries.insert (keyOf hash session id) entry)
    rw [List.length_cons, Nat.mul_succ]
    unfold addEntries at hrest ⊢
    rw [List.foldl_cons]
    omega

theorem bytes_le_total (h : store.Covered) (session : String) :
    ((store.session? session).getD ⟨.empty, 0⟩).bytes ≤ store.inner.totalBytes := by
  have hweight := SortedMap.weight_remove SessionState.bytes store.inner.sessions session
  rw [h.total, hweight]
  unfold session?
  cases store.inner.sessions.find? session with
  | none => exact Nat.zero_le _
  | some state => exact Nat.le_add_right _ _

theorem covered_putSession (h : store.Covered)
    (hroom : store.inner.totalBytes + reasoning.utf8ByteSize * ids.length ≤ usizeMax) :
    (putSession hash now session ids reasoning store).Covered := by
  have hbytes := bytes_le_total h session
  have hadded : saturatingMul reasoning.utf8ByteSize ids.length =
      reasoning.utf8ByteSize * ids.length :=
    Nat.min_eq_left ((Nat.le_add_left _ _).trans hroom)
  have hsum := saturatingAdd_of_le ((Nat.add_le_add_right hbytes _).trans hroom)
  have hsession := session?_putSession hash now session ids reasoning store
  have hold : ((store.session? session).map SessionState.bytes).getD 0 =
      ((store.session? session).getD ⟨.empty, 0⟩).bytes ∧
      ((store.session? session).getD ⟨.empty, 0⟩).ownBytes ≤
      ((store.session? session).getD ⟨.empty, 0⟩).bytes := by
    cases hfind : store.session? session with
    | none => exact ⟨rfl, le_refl _⟩
    | some old => exact ⟨rfl, h.own session old hfind⟩
  rw [hadded, hsum] at hsession
  constructor
  · have hweight := SortedMap.weight_remove SessionState.bytes store.inner.sessions session
    have hinsert := SortedMap.weight_insert SessionState.bytes store.inner.sessions session
      ⟨addEntries hash session ids ⟨reasoning, now⟩
        ((store.session? session).getD ⟨.empty, 0⟩).entries,
        ((store.session? session).getD ⟨.empty, 0⟩).bytes + reasoning.utf8ByteSize * ids.length⟩
    have htotal := h.total
    have hknown := hold.1
    unfold session? at hinsert hknown hsum
    unfold putSession session?
    dsimp only at hinsert ⊢
    rw [hadded, saturatingAdd_of_le hroom, hsum]
    omega
  · intro name state hstate
    rw [hsession] at hstate
    split_ifs at hstate with hname
    · cases hstate
      have hentries :=
        weight_addEntries_le hash (fun entry => entry.reasoning.utf8ByteSize) session ids
        ⟨reasoning, now⟩ ((store.session? session).getD ⟨.empty, 0⟩).entries
      have howned := hold.2
      unfold SessionState.ownBytes at howned ⊢
      dsimp only at hentries ⊢
      omega
    · exact h.own name state hstate

theorem covered_removeEntry {state : SessionState} (h : store.Covered)
    (hfind : store.session? session = some state) (key : ShadowKey) :
    (removeEntry session state key store).Covered := by
  constructor
  · have hweight := SortedMap.weight_remove SessionState.bytes store.inner.sessions session
    have hinsert := SortedMap.weight_insert SessionState.bytes store.inner.sessions session
      { state with entries := state.entries.remove key }
    have htotal := h.total
    rw [show store.inner.sessions.find? session = some state from hfind] at hweight
    unfold removeEntry
    dsimp only [Option.map_some, Option.getD_some] at hweight hinsert ⊢
    omega
  · intro name other hother
    rw [session?_removeEntry] at hother
    split_ifs at hother
    · cases hother
      have hown := h.own session state hfind
      have hweight :=
        SortedMap.weight_remove (fun entry : ShadowEntry => entry.reasoning.utf8ByteSize)
        state.entries key
      unfold SessionState.ownBytes at hown ⊢
      dsimp only
      omega
    · exact h.own name other hother

end Covered

section Limits

/-- In order, with no more sessions than the limit. -/
structure Settled (store : ReasoningShadowStore) : Prop extends store.Orderly where
  sessions : store.inner.sessions.entries.length ≤ store.limits.maxSessions

/-- The limits hold of what is in the store. -/
structure Bounded (store : ReasoningShadowStore) : Prop extends store.Settled where
  total : store.inner.sessions.weight SessionState.ownBytes ≤ store.limits.maxTotalBytes

/-- The counts are right, and the total is within its limit. -/
structure Counted (store : ReasoningShadowStore) : Prop extends store.Covered where
  within : store.inner.totalBytes ≤ store.limits.maxTotalBytes

theorem Settled.bounded (h : store.Settled) (hcounted : store.Counted) : store.Bounded :=
  ⟨h, hcounted.ownBytes_le.trans hcounted.within⟩

theorem length_remove_le (sessions : SortedMap String SessionState) (name : String) :
    (sessions.remove name).entries.length ≤ sessions.entries.length :=
  (List.kerase_sublist name sessions.entries).length_le

theorem settled_removeSession (h : store.Settled) (name : String) :
    (store.removeSession name).Settled where
  toOrderly := orderly_removeSession h.toOrderly name
  sessions := by
    rw [sessions_removeSession, limits_removeSession]
    exact (length_remove_le _ name).trans h.sessions

theorem counted_removeSession (h : store.Counted) (name : String) :
    (store.removeSession name).Counted where
  toCovered := covered_removeSession h.toCovered name
  within := by
    rw [totalBytes_removeSession, limits_removeSession]
    exact (Nat.sub_le _ _).trans h.within

/-- The loop stops within the limit, or at the empty queue, which stands for no sessions. -/
theorem settled_evictAll (h : store.Orderly) : (evictAll overSessions store).Settled := by
  have horder :=
    keeps_evictAll Orderly (fun _ name hs => orderly_removeSession hs name) overSessions h
  refine ⟨horder, ?_⟩
  rcases exits_evictAll overSessions store with hexit | hempty
  · exact Nat.not_lt.mp (of_decide_eq_false hexit)
  · rw [entries_eq_nil hempty horder]
    exact Nat.zero_le _

theorem counted_evictAll (horder : store.Orderly) (h : store.Covered) :
    (evictAll overBytes store).Counted := by
  have horder :=
    keeps_evictAll Orderly (fun _ name hs => orderly_removeSession hs name) overBytes horder
  have hcovered :=
    keeps_evictAll Covered (fun _ name hs => covered_removeSession hs name) overBytes h
  refine ⟨hcovered, ?_⟩
  rcases exits_evictAll overBytes store with hexit | hempty
  · exact Nat.not_lt.mp (of_decide_eq_false hexit)
  · have hnone : (evictAll overBytes store).inner.totalBytes = 0 := by
      rw [hcovered.total]
      unfold SortedMap.weight SortedMap.values
      rw [entries_eq_nil hempty horder]
      rfl
    rw [hnone]
    exact Nat.zero_le _

theorem settled_enforceLimits (now : Nat) (h : store.Orderly) :
    (enforceLimits now store).Settled := by
  have hexpired := keeps_removeAll Orderly (fun _ name hs => orderly_removeSession hs name)
    (expiredSessions now store) h
  have hbytes :=
    keeps_evictAll Orderly (fun _ name hs => orderly_removeSession hs name) overBytes hexpired
  exact settled_evictAll hbytes

theorem counted_enforceLimits (now : Nat) (horder : store.Orderly) (h : store.Covered) :
    (enforceLimits now store).Counted := by
  have horder := keeps_removeAll Orderly (fun _ name hs => orderly_removeSession hs name)
    (expiredSessions now store) horder
  have hcovered := keeps_removeAll Covered (fun _ name hs => covered_removeSession hs name)
    (expiredSessions now store) h
  exact keeps_evictAll Counted (fun _ name hs => counted_removeSession hs name) overSessions
    (counted_evictAll horder hcovered)

theorem Settled.congr {store' : ReasoningShadowStore} (h : store.Settled)
    (hinner : store'.inner = store.inner) (hlimits : store'.limits = store.limits) :
    store'.Settled := by
  refine ⟨h.toOrderly.congr hinner hlimits, ?_⟩
  rw [hinner, hlimits]
  exact h.sessions

theorem Counted.congr {store' : ReasoningShadowStore} (h : store.Counted)
    (hinner : store'.inner = store.inner) (hlimits : store'.limits = store.limits) :
    store'.Counted := by
  refine ⟨h.toCovered.congr hinner, ?_⟩
  rw [hinner, hlimits]
  exact h.within

theorem Settled.countActive (h : store.Settled) : store.countActive.Settled := h.congr rfl rfl

theorem Counted.countActive (h : store.Counted) : store.countActive.Counted := h.congr rfl rfl

end Limits

section Calls

theorem settled_store (h : store.Settled) :
    (ReasoningShadowStore.store hash now checked session ids reasoning store).Settled := by
  unfold ReasoningShadowStore.store
  split_ifs with hnothing hoversized
  · exact h
  · exact h.congr rfl rfl
  · have hput : (putSession hash now session ids reasoning store).Orderly :=
      orderly_putSession h.toOrderly (Nat.not_lt.mp hoversized)
    exact (settled_enforceLimits checked hput).countActive

theorem counted_store (horder : store.Orderly) (h : store.Counted)
    (hroom : reasoning ≠ "" → ids ≠ [] → reasoning.utf8ByteSize ≤ store.limits.maxEntryBytes →
      store.inner.totalBytes + reasoning.utf8ByteSize * ids.length ≤ usizeMax) :
    (ReasoningShadowStore.store hash now checked session ids reasoning store).Counted := by
  unfold ReasoningShadowStore.store
  split_ifs with hnothing hoversized
  · exact h
  · exact h.congr rfl rfl
  · obtain ⟨hreasoning, hids⟩ := not_or.mp hnothing
    have hfits := Nat.not_lt.mp hoversized
    have hput : (putSession hash now session ids reasoning store).Orderly :=
      orderly_putSession horder hfits
    have hcovered : (putSession hash now session ids reasoning store).Covered :=
      covered_putSession h.toCovered (hroom hreasoning hids hfits)
    exact (counted_enforceLimits checked hput hcovered).countActive

theorem settled_restore (h : store.Settled) : (restore hash now session ids store).2.Settled := by
  apply keeps_restore Settled
  · intro store' hinner hlimits
    exact h.congr hinner hlimits
  · intro state key hfind
    have horder := orderly_removeEntry h.toOrderly hfind key
    refine Settled.congr ⟨horder, ?_⟩ rfl rfl
    -- the queue is as long as it was
    rw [← horder.length_lru]
    exact h.length_lru.trans_le h.sessions

theorem counted_restore (h : store.Counted) : (restore hash now session ids store).2.Counted := by
  apply keeps_restore Counted
  · intro store' hinner hlimits
    exact h.congr hinner hlimits
  · intro state key hfind
    exact Counted.congr ⟨covered_removeEntry h.toCovered hfind key, h.within⟩ rfl rfl

end Calls
end ReasoningShadowStore

namespace Operation
open ReasoningShadowStore
variable {hash : String → Fin (2 ^ 64)} {operation : Operation} {s : ReasoningShadowStore}

/-- A call that does not take the count of bytes to where it saturates. -/
def Uncapped (operation : Operation) (s : ReasoningShadowStore) : Prop :=
  match operation with
  | store _ _ _ ids reasoning =>
    reasoning ≠ "" → ids ≠ [] → reasoning.utf8ByteSize ≤ s.limits.maxEntryBytes →
      s.inner.totalBytes + reasoning.utf8ByteSize * ids.length ≤ usizeMax
  | _ => True

instance (operation : Operation) (s : ReasoningShadowStore) : Decidable (operation.Uncapped s) :=
  match operation with
  | store _ _ _ _ _ => inferInstanceAs (Decidable (_ → _ → _ → _ ≤ _))
  | restore _ _ _ => .isTrue trivial
  | clearSession _ => .isTrue trivial
  | restoreInto _ _ _ => .isTrue trivial

theorem settled_perform (operation : Operation) (h : s.Settled) :
    (operation.perform hash s).Settled := by
  cases operation with
  | store now checked session ids reasoning => exact settled_store h
  | restore now session ids => exact settled_restore h
  | clearSession session =>
    exact keeps_clearSession Settled (fun _ name hs => settled_removeSession hs name) session h
  | restoreInto clock body session =>
    exact keeps_restoreInto Settled (fun _ _ _ hs => settled_restore hs) body h

theorem counted_perform (hsettled : s.Settled) (h : s.Counted) (huncapped : operation.Uncapped s) :
    (operation.perform hash s).Counted := by
  cases operation with
  | store now checked session ids reasoning => exact counted_store hsettled.toOrderly h huncapped
  | restore now session ids => exact counted_restore h
  | clearSession session =>
    exact keeps_clearSession Counted (fun _ name hs => counted_removeSession hs name) session h
  | restoreInto clock body session =>
    exact keeps_restoreInto Counted (fun _ _ _ hs => counted_restore hs) body h

theorem limits_perform (operation : Operation) (s : ReasoningShadowStore) :
    (operation.perform hash s).limits = s.limits := by
  cases operation with
  | store now checked session ids reasoning =>
    exact limits_store hash now checked session ids reasoning s
  | restore now session ids => exact limits_restore hash now session ids s
  | clearSession session =>
    exact keeps_clearSession (fun s' => s'.limits = s.limits)
      (fun s' name hs => (limits_removeSession s' name).trans hs) session rfl
  | restoreInto clock body session =>
    exact keeps_restoreInto (fun s' => s'.limits = s.limits)
      (fun index ids s' hs => (limits_restore hash (clock index) session ids s').trans hs) body rfl

theorem limits_performAll (hash : String → Fin (2 ^ 64)) (operations : List Operation)
    (s : ReasoningShadowStore) :
    (performAll hash operations s).limits = s.limits :=
  Runs.run_keeps (fun s' => s'.limits = s.limits)
    (fun operation s' hs => (limits_perform operation s').trans hs) rfl

/-- The queue and the limits other than that on all bytes hold after any calls. -/
theorem settled_performAll (hash : String → Fin (2 ^ 64)) (limits : ShadowLimits)
    (operations : List Operation) :
    (performAll hash operations (.new limits)).Settled :=
  Runs.run_keeps Settled (fun operation _ h => settled_perform operation h)
    ⟨orderly_new limits, Nat.zero_le _⟩

/-- The limits hold after every call while the count of bytes does not saturate, and the
eviction loops end wherever they start. -/
theorem bounded_performAll (hash : String → Fin (2 ^ 64)) (limits : ShadowLimits)
    (operations : List Operation)
    (huncapped : Runs.Meets (fun operation s => operation.perform hash s) Uncapped operations
      (.new limits)) :
    (∀ done, done <+: operations →
      (performAll hash done (.new limits)).limits = limits ∧
      (performAll hash done (.new limits)).Bounded) ∧
    ∀ s, ∀ exceeds ∈ [overBytes, overSessions],
      ∃ n ≤ s.inner.lru.length, Runs.Leaves (evictTurn exceeds) n s (evictAll exceeds s) := by
  refine ⟨?_, fun s exceeds _ => leaves_evictAll exceeds s⟩
  rintro done ⟨rest, rfl⟩
  have hboth := Runs.run_invariant (fun s => s.Settled ∧ s.Counted)
    (fun operation s h hmeets => ⟨settled_perform operation h.1, counted_perform h.1 h.2 hmeets⟩)
    ⟨⟨orderly_new limits, Nat.zero_le _⟩, covered_new limits, Nat.zero_le _⟩
    (Runs.meets_append.mp huncapped).1
  exact ⟨limits_performAll hash done _, hboth.1.bounded hboth.2⟩

section Cases

theorem bounded_performAll_twoCalls :
    let operations := [store 0 0 "s" ["a", "bb"] "why", restore 100 "s" ["bb"], clearSession "t"]
    (∀ done, done <+: operations → (performAll lengthHash done (.new smallLimits)).limits =
      smallLimits ∧
        (performAll lengthHash done (.new smallLimits)).Bounded) ∧
      ∀ s, ∀ exceeds ∈ [overBytes, overSessions],
        ∃ n ≤ s.inner.lru.length, Runs.Leaves (evictTurn exceeds) n s (evictAll exceeds s) :=
  bounded_performAll lengthHash smallLimits _ (by decide +kernel)

theorem evictWhile_of_not {exceeds : ReasoningShadowStore → Bool} (h : exceeds s = false)
    (turns : Nat) :
    evictWhile exceeds turns s = s := by
  cases turns with
  | zero => rfl
  | succ turns => rw [evictWhile, h, if_neg Bool.false_ne_true]

theorem evictAll_of_not {exceeds : ReasoningShadowStore → Bool} (h : exceeds s = false) :
    evictAll exceeds s = s :=
  evictWhile_of_not h _

theorem evictAll_once {exceeds : ReasoningShadowStore → Bool} {victim : String}
    {rest : List String} (hlru : s.inner.lru = victim :: rest) (hexceeds : exceeds s = true)
    (hfits : exceeds (s.removeSession victim) = false) :
    evictAll exceeds s = s.removeSession victim := by
  unfold evictAll
  rw [hlru, List.length_cons, evictWhile, hexceeds, if_pos rfl, hlru]
  exact evictWhile_of_not hfits _

def Alive (s : ReasoningShadowStore) : Prop :=
  ∀ name state, s.session? name = some state → state.entries.entries ≠ []

theorem expiredSessions_zero (h : Alive s) : expiredSessions 0 s = [] := by
  unfold expiredSessions
  rw [List.map_eq_nil_iff, List.filter_eq_nil_iff]
  rintro ⟨name, state⟩ hmem hall
  have hentries := h name state (SortedMap.mem_entries.mp hmem)
  obtain ⟨⟨key, entry⟩, rest, hcons⟩ := List.exists_cons_of_ne_nil hentries
  have hexpired := List.all_eq_true.mp hall entry (by
    unfold SortedMap.values
    rw [hcons]
    exact List.mem_cons_self)
  simp [expired] at hexpired

theorem alive_putSession (hash : String → Fin (2 ^ 64)) (session : String) {ids : List String}
    (h : Alive s) (hids : ids ≠ []) (reasoning : String) :
    Alive (putSession hash 0 session ids reasoning s) := by
  intro name state hstate
  rw [session?_putSession] at hstate
  split_ifs at hstate
  · cases hstate
    obtain ⟨id, rest, rfl⟩ := List.exists_cons_of_ne_nil hids
    apply SortedMap.entries_ne_nil_of_find? (k := keyOf hash session id)
    rw [find?_addEntries, if_pos (by simp)]
  · exact h name state hstate

def tightLimits : ShadowLimits := ⟨8, 2, 2 ^ 33, 60⟩

def doubled (n : Nat) : String := (fun text => text ++ text)^[n] "y"

theorem utf8ByteSize_doubled (n : Nat) : (doubled n).utf8ByteSize = 2 ^ n := by
  induction n with
  | zero => rfl
  | succ n ih =>
    unfold doubled at ih ⊢
    rw [Function.iterate_succ_apply', String.utf8ByteSize_append, ih, Nat.pow_succ, Nat.mul_two]

def twoBytes : ReasoningShadowStore :=
  performAll lengthHash [store 0 0 "b" ["x"] "y", store 0 0 "o" ["x"] "y"] (.new tightLimits)

theorem settled_twoBytes : twoBytes.Settled := settled_performAll lengthHash tightLimits _

theorem limits_twoBytes : twoBytes.limits = tightLimits := limits_performAll lengthHash _ _

theorem alive_twoBytes : Alive twoBytes := by
  have hentries : ∀ e ∈ twoBytes.inner.sessions.entries, e.2.entries.entries ≠ [] := by
    decide +kernel
  intro name state hstate
  exact hentries ⟨name, state⟩ (SortedMap.mem_entries.mpr hstate)

theorem store_zero (hash : String → Fin (2 ^ 64)) (session : String) {ids : List String}
    {reasoning : String}
    (halive : Alive s) (hreasoning : reasoning ≠ "") (hids : ids ≠ [])
      (hfits : reasoning.utf8ByteSize ≤ s.limits.maxEntryBytes) :
    s.store hash 0 0 session ids reasoning =
      countActive
        (evictAll overSessions
        (evictAll overBytes (putSession hash 0 session ids reasoning s))) := by
  unfold ReasoningShadowStore.store enforceLimits
  rw [if_neg (not_or.mpr ⟨hreasoning, hids⟩), if_neg (Nat.not_lt.mpr hfits),
    expiredSessions_zero (alive_putSession hash session halive hids reasoning)]
  rfl

section Saturated
variable {blob : String} {ids : List String} (hblob : blob.utf8ByteSize = 2 ^ 33)
    (hids : ids.length = 2 ^ 31)
include hblob hids

theorem store_saturated :
    let s := twoBytes.store lengthHash 0 0 "b" ids blob
    s.inner.lru = ["o"] ∧ s.inner.totalBytes = 0 ∧ s.session? "o" = twoBytes.session? "o" ∧
      Alive s := by
  have hfound :
      twoBytes.session? "b" = some ⟨addEntries lengthHash "b" ["x"] ⟨"y", 0⟩ .empty, 1⟩ := by
    decide +kernel
  have hblob' : blob ≠ "" := by
    rintro rfl
    simp at hblob
  have hids' : ids ≠ [] := by
    rintro rfl
    simp at hids
  have hadded : saturatingMul blob.utf8ByteSize ids.length = usizeMax := by
    rw [hblob, hids]
    decide +kernel
  have hstore := store_zero lengthHash "b" alive_twoBytes hblob' hids'
    (by rw [hblob]; decide +kernel)
  have halive := alive_putSession lengthHash "b" alive_twoBytes hids' blob
  have hother := session?_putSession lengthHash 0 "b" ids blob twoBytes "o"
  generalize hput : putSession lengthHash 0 "b" ids blob twoBytes = put at hstore halive hother
  have horder : put.Orderly := by
    rw [← hput]
    exact orderly_putSession settled_twoBytes.toOrderly (by rw [hblob]; decide +kernel)
  have hlru : put.inner.lru = ["b", "o"] := by
    have hold : twoBytes.inner.lru = ["b", "o"] := by decide +kernel
    rw [← hput, lru_putSession, hfound, hold]
    rfl
  have htotal : put.inner.totalBytes = usizeMax := by
    rw [← hput]
    unfold putSession
    dsimp only
    rw [hadded]
    decide +kernel
  have hown : ((put.session? "b").map SessionState.bytes).getD 0 = usizeMax := by
    rw [← hput, session?_putSession, if_pos rfl, hfound, hadded]
    show saturatingAdd 1 usizeMax = usizeMax
    decide +kernel
  have hlimits : put.limits = tightLimits := by
    rw [← hput]
    rfl
  have hexceeds : overBytes put = true := by
    unfold overBytes
    rw [hlimits, htotal]
    decide +kernel
  have hnothing : (put.removeSession "b").inner.totalBytes = 0 := by
    rw [totalBytes_removeSession, htotal, hown, Nat.sub_self]
  have hfits : overBytes (put.removeSession "b") = false := by
    unfold overBytes
    rw [hnothing]
    rfl
  have hqueue : (put.removeSession "b").inner.lru = ["o"] := by
    rw [lru_removeSession, hlru]
    decide
  have hsessions : overSessions (put.removeSession "b") = false := by
    unfold overSessions
    rw [← (orderly_removeSession horder "b").length_lru, hqueue, limits_removeSession, hlimits]
    decide +kernel
  rw [hstore, evictAll_once hlru hexceeds hfits, evictAll_of_not hsessions]
  refine ⟨hqueue, hnothing, ?_, fun name state hstate => ?_⟩
  · show (put.removeSession "b").session? "o" = _
    rw [session?_removeSession, if_neg (by decide), hother, if_neg (by decide)]
  · have hstate : (put.removeSession "b").session? name = some state := hstate
    rw [session?_removeSession] at hstate
    split_ifs at hstate
    exact halive name state hstate

/-- The session that stayed is no longer counted, and another one comes on top of it. -/
theorem not_bounded_saturated :
    ¬ (performAll lengthHash [store 0 0 "b" ["x"] "y", store 0 0 "o" ["x"] "y",
      store 0 0 "b" ids blob,
      store 0 0 "c" ["x"] "zz"] (.new tightLimits)).Bounded := by
  intro hbounded
  have hother :
      twoBytes.session? "o" = some ⟨addEntries lengthHash "o" ["x"] ⟨"y", 0⟩ .empty, 1⟩ := by
    decide +kernel
  have hlimits : (twoBytes.store lengthHash 0 0 "b" ids blob).limits = tightLimits :=
    (limits_perform (store 0 0 "b" ids blob) twoBytes).trans limits_twoBytes
  have horder : (twoBytes.store lengthHash 0 0 "b" ids blob).Orderly :=
    (settled_perform (store 0 0 "b" ids blob) settled_twoBytes).toOrderly
  obtain ⟨hlru, htotal, hsession, halive⟩ := store_saturated hblob hids
  have hbounded :
      ((twoBytes.store lengthHash 0 0 "b" ids blob).store lengthHash 0 0 "c" ["x"] "zz").Bounded :=
        hbounded
  generalize twoBytes.store lengthHash 0 0 "b" ids blob = s at *
  have hstore :=
    store_zero lengthHash "c" halive (show "zz" ≠ "" by decide) (show ["x"] ≠ [] by decide)
    (by rw [hlimits]; decide +kernel)
  have hnew : s.session? "c" = none := by
    rw [← Option.not_isSome_iff_eq_none, ← horder.queue.mem, hlru]
    decide
  have hkept := session?_putSession lengthHash 0 "c" ["x"] "zz" s
  have hqueue := lru_putSession lengthHash 0 "c" ["x"] "zz" s
  have hlive : (putSession lengthHash 0 "c" ["x"] "zz" s).Orderly := orderly_putSession horder
    (by rw [hlimits]; decide +kernel)
  have hcount : (putSession lengthHash 0 "c" ["x"] "zz" s).inner.totalBytes = 2 := by
    unfold putSession
    dsimp only
    rw [htotal]
    decide +kernel
  have hsame : (putSession lengthHash 0 "c" ["x"] "zz" s).limits = tightLimits := hlimits
  rw [hnew] at hkept hqueue
  generalize putSession lengthHash 0 "c" ["x"] "zz" s = put at *
  have hbytes : overBytes put = false := by
    unfold overBytes
    rw [hsame, hcount]
    decide +kernel
  have hsessions : overSessions put = false := by
    unfold overSessions
    rw [← hlive.length_lru, hqueue, hlru, hsame]
    decide +kernel
  rw [evictAll_of_not hbytes, evictAll_of_not hsessions] at hstore
  rw [hstore] at hbounded
  have htwo : put.inner.sessions.weight SessionState.ownBytes ≤ 2 := by
    have hle := hbounded.total
    rw [show put.countActive.limits = tightLimits from hsame] at hle
    exact hle
  have hfirst := hkept "o"
  have hsecond := hkept "c"
  rw [if_neg (by decide), hsession, hother] at hfirst
  rw [if_pos rfl] at hsecond
  have hweight := SortedMap.add_le_weight SessionState.ownBytes (by decide) hfirst hsecond
  have honly : SessionState.ownBytes ⟨addEntries lengthHash "o" ["x"] ⟨"y", 0⟩ .empty, 1⟩ = 1 := by
    decide +kernel
  have hadded : (addEntries lengthHash "c" ["x"] ⟨"zz", 0⟩ .empty).weight
      (fun entry => entry.reasoning.utf8ByteSize) = 2 := by decide +kernel
  rw [honly] at hweight
  unfold SessionState.ownBytes at hweight htwo
  dsimp only [Option.getD_none] at hweight
  rw [hadded] at hweight
  omega

end Saturated

theorem performAll_not_bounded :
    ¬ ∀ (hash : String → Fin (2 ^ 64)) (limits : ShadowLimits) (operations : List Operation),
      (∀ operation ∈ operations, ∀ clock body session, operation ≠ restoreInto clock body session) →
        (performAll hash operations (.new limits)).Bounded := by
  intro h
  refine not_bounded_saturated (utf8ByteSize_doubled 33)
    (List.length_replicate (n := 2 ^ 31) (a := "x")) ?_
  apply h
  simp only [List.mem_cons, List.not_mem_nil, or_false, forall_eq_or_imp, forall_eq, ne_eq,
    reduceCtorEq, not_false_eq_true, implies_true, and_self]

end Cases

end Operation
end Lobster.Shadow
