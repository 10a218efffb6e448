import LobsterProxy.Base.Runs
import LobsterProxy.Shadow.Sessions

/-! The accounts of the shadow store: bytes by session, bytes in total, live entries. They
are exact while no entry is replaced, outlived or cleared. -/

namespace Lobster.Shadow

def SessionState.ownBytes (state : SessionState) : Nat :=
  state.entries.weight fun entry => entry.reasoning.utf8ByteSize

namespace ReasoningShadowStore
variable {hash : String → Fin (2 ^ 64)} {store : ReasoningShadowStore} {session : String}
    {ids : List String}
  {reasoning : String} {now checked : Nat}

/-- Both byte counts are those of the entries. -/
structure BytesExact (store : ReasoningShadowStore) : Prop where
  total : store.inner.totalBytes = store.inner.sessions.weight SessionState.ownBytes
  own : ∀ name state, store.session? name = some state → state.bytes = state.ownBytes

structure Exact (store : ReasoningShadowStore) : Prop where
  bytes : store.BytesExact
  active : store.metrics.activeEntries = store.entryCount

theorem exact_new (limits : ShadowLimits) : Exact (new limits) := ⟨⟨rfl, nofun⟩, rfl⟩

theorem BytesExact.congr {store' : ReasoningShadowStore} (h : store.BytesExact)
    (hsessions : store'.inner.sessions = store.inner.sessions)
    (htotal : store'.inner.totalBytes = store.inner.totalBytes) : store'.BytesExact := by
  refine ⟨by rw [htotal, hsessions]; exact h.total, fun name state hfind => h.own name state ?_⟩
  rw [← hfind]
  exact congrArg (SortedMap.find? · name) hsessions.symm

section Evictions

theorem bytesExact_dropSession {state : SessionState} (h : store.BytesExact)
    (hfind : store.session? session = some state) :
    (dropSession session state store).BytesExact := by
  constructor
  · show store.inner.totalBytes - state.bytes = (store.inner.sessions.remove session).weight _
    have hweight := SortedMap.weight_remove SessionState.ownBytes store.inner.sessions session
    rw [show store.inner.sessions.find? session = some state from hfind, ← h.total] at hweight
    rw [hweight, h.own session state hfind]
    exact Nat.add_sub_cancel_left ..
  · intro name other hother
    have hfound : (store.inner.sessions.remove session).find? name = some other := hother
    rw [SortedMap.find?_remove] at hfound
    split_ifs at hfound
    exact h.own name other hfound

theorem bytesExact_removeSession (h : store.BytesExact) (name : String) :
    (store.removeSession name).BytesExact := by
  unfold removeSession
  cases hfind : store.session? name with
  | none => exact h.congr rfl rfl
  | some state => exact (bytesExact_dropSession h hfind).congr rfl rfl

theorem bytesExact_enforceLimits (now : Nat) (h : store.BytesExact) :
    (enforceLimits now store).BytesExact :=
  keeps_enforceLimits BytesExact (fun _ name hs => bytesExact_removeSession hs name) now h

end Evictions

section Calls

/-- The ids make as many keys, and none of these is in the entries yet. -/
def Fresh (hash : String → Fin (2 ^ 64)) (session : String) (ids : List String)
    (entries : SortedMap ShadowKey ShadowEntry) : Prop :=
  (ids.map (keyOf hash session)).Nodup ∧ ∀ id ∈ ids, entries.find? (keyOf hash session id) = none

theorem weight_addEntries (f : ShadowEntry → Nat) (entry : ShadowEntry)
    {entries : SortedMap ShadowKey ShadowEntry} (h : Fresh hash session ids entries) :
    (addEntries hash session ids entry entries).weight f =
      entries.weight f + f entry * ids.length := by
  induction ids generalizing entries with
  | nil => exact (Nat.add_zero _).symm
  | cons id ids ih =>
    obtain ⟨hnodup, hnew⟩ := h
    obtain ⟨hid, hids⟩ := List.forall_mem_cons.mp hnew
    obtain ⟨hnot, hnodup⟩ := List.nodup_cons.mp hnodup
    have hfresh : Fresh hash session ids (entries.insert (keyOf hash session id) entry) := by
      refine ⟨hnodup, fun other hother => ?_⟩
      rw [SortedMap.find?_insert_ne]
      · exact hids other hother
      · intro hkey
        exact hnot (hkey ▸ List.mem_map_of_mem hother)
    have hinsert : (entries.insert (keyOf hash session id) entry).weight f =
        f entry + entries.weight f := by
      rw [SortedMap.weight_insert, SortedMap.remove_of_find?_eq_none hid]
    refine (ih hfresh).trans ?_
    rw [hinsert, List.length_cons, Nat.mul_succ]
    omega

/-- What is counted for the blob is what is added, in the session and in total. -/
def Counts (hash : String → Fin (2 ^ 64)) (session : String) (ids : List String)
    (reasoning : String) (store : ReasoningShadowStore) : Prop :=
  Fresh hash session ids (((store.session? session).map SessionState.entries).getD .empty) ∧
    store.inner.totalBytes + reasoning.utf8ByteSize * ids.length ≤ usizeMax

theorem own_le_total (h : store.BytesExact) (session : String) :
    ((store.session? session).getD ⟨.empty, 0⟩).bytes ≤ store.inner.totalBytes := by
  cases hfind : store.session? session with
  | none => exact Nat.zero_le _
  | some state =>
    have hweight := SortedMap.weight_remove SessionState.ownBytes store.inner.sessions session
    rw [show store.inner.sessions.find? session = some state from hfind, ← h.total] at hweight
    rw [hweight]
    exact (h.own session state hfind).le.trans (Nat.le_add_right _ _)

theorem saturatingAdd_of_le {a b : Nat} (h : a + b ≤ usizeMax) : saturatingAdd a b = a + b :=
  Nat.min_eq_left h

theorem bytesExact_putSession (h : store.BytesExact)
    (hcounts : Counts hash session ids reasoning store) (now : Nat) :
    (putSession hash now session ids reasoning store).BytesExact := by
  obtain ⟨hfresh, hroom⟩ := hcounts
  have hbytes := own_le_total h session
  have hweight := SortedMap.weight_remove SessionState.ownBytes store.inner.sessions session
  generalize hstate : (store.session? session).getD ⟨.empty, 0⟩ = state at hbytes
  have hown : state.bytes = state.ownBytes ∧
      ((store.session? session).map SessionState.ownBytes).getD 0 = state.ownBytes ∧
      ((store.session? session).map SessionState.entries).getD .empty = state.entries := by
    subst hstate
    cases hfind : store.session? session with
    | none => exact ⟨rfl, rfl, rfl⟩
    | some found => exact ⟨h.own session found hfind, rfl, rfl⟩
  obtain ⟨hown, hold, hentries⟩ := hown
  rw [hentries] at hfresh
  rw [show ((store.inner.sessions.find? session).map SessionState.ownBytes).getD 0 =
    _ from hold] at hweight
  have hadded : saturatingMul reasoning.utf8ByteSize ids.length =
      reasoning.utf8ByteSize * ids.length :=
    Nat.min_eq_left ((Nat.le_add_left _ _).trans hroom)
  have hnew :
      SessionState.ownBytes ⟨addEntries hash session ids ⟨reasoning, now⟩ state.entries, 0⟩ =
      state.ownBytes + reasoning.utf8ByteSize * ids.length := weight_addEntries _ _ hfresh
  have hsum := saturatingAdd_of_le ((Nat.add_le_add_right hbytes _).trans hroom)
  constructor
  · show saturatingAdd store.inner.totalBytes _ = (store.inner.sessions.insert session _).weight _
    rw [hadded, saturatingAdd_of_le hroom, SortedMap.weight_insert, hstate, h.total, hweight]
    refine Eq.trans ?_ (congrArg (· + _) hnew.symm)
    exact Nat.add_right_comm ..
  · intro name other hother
    have hfound : (store.inner.sessions.insert session _).find? name = some other := hother
    rw [SortedMap.find?_insert, hstate, hadded] at hfound
    split_ifs at hfound
    · cases hfound
      exact (hsum.trans (congrArg (· + _) hown)).trans hnew.symm
    · exact h.own name other hfound

theorem exact_countActive (h : store.BytesExact) : store.countActive.Exact := ⟨h.congr rfl rfl, rfl⟩

theorem exact_store (h : store.Exact)
    (hcounts : reasoning ≠ "" → ids ≠ [] → reasoning.utf8ByteSize ≤ store.limits.maxEntryBytes →
      Counts hash session ids reasoning store) :
    (ReasoningShadowStore.store hash now checked session ids reasoning store).Exact := by
  unfold ReasoningShadowStore.store
  split_ifs with hnothing hoversized
  · exact h
  · exact ⟨h.bytes.congr rfl rfl, h.active⟩
  · obtain ⟨hreasoning, hids⟩ := not_or.mp hnothing
    have hput :=
      bytesExact_putSession h.bytes (hcounts hreasoning hids (Nat.not_lt.mp hoversized)) now
    exact exact_countActive (bytesExact_enforceLimits checked hput)

/-- The entry that a lookup finds has not outlived its time. -/
def FindsFresh (hash : String → Fin (2 ^ 64)) (now : Nat) (session : String) (ids : List String)
    (store : ReasoningShadowStore) : Prop :=
  ∀ found ∈ (store.session? session).bind fun state => firstEntry hash session state ids,
    expired store.limits now found.2 = false

theorem exact_restore (h : store.Exact) (hfresh : FindsFresh hash now session ids store) :
    (restore hash now session ids store).2.Exact := by
  unfold restore
  split_ifs
  · exact h
  · cases hfind : store.session? session with
    | none => exact h
    | some state =>
      dsimp only
      cases hfirst : firstEntry hash session state ids with
      | none => exact ⟨h.bytes.congr rfl rfl, h.active⟩
      | some found =>
        -- an outlived entry would go without its bytes
        have hlive : expired store.limits now found.2 = false :=
          hfresh found (by rw [hfind]; exact hfirst)
        dsimp only
        rw [hlive, if_neg Bool.false_ne_true]
        exact ⟨h.bytes.congr rfl rfl, h.active⟩

theorem exact_clearSession (h : store.Exact)
    (hempty : ∀ state ∈ store.session? session, state.entries.entries = []) :
    (store.clearSession session).Exact := by
  unfold clearSession
  cases hfind : store.session? session with
  | none => exact h
  | some state =>
    refine ⟨(bytesExact_dropSession h.bytes hfind).congr rfl rfl, ?_⟩
    have hcount :=
      SortedMap.weight_remove (fun state : SessionState => state.entries.entries.length)
      store.inner.sessions session
    rw [show store.inner.sessions.find? session = some state from hfind] at hcount
    refine (h.active.trans hcount).trans ?_
    show state.entries.entries.length + _ = _
    rw [hempty state hfind, List.length_nil, Nat.zero_add]
    rfl

end Calls
end ReasoningShadowStore

namespace Operation
open ReasoningShadowStore
variable (hash : String → Fin (2 ^ 64))

/-- A call of `store`, `restore` or `clearSession` that leaves the accounts alone or adds to
them what it keeps. -/
def Booked (operation : Operation) (s : ReasoningShadowStore) : Prop :=
  match operation with
  | store _ _ session ids reasoning => reasoning ≠ "" → ids ≠ [] →
      reasoning.utf8ByteSize ≤ s.limits.maxEntryBytes → Counts hash session ids reasoning s
  | restore now session ids => FindsFresh hash now session ids s
  | clearSession session => ∀ state ∈ s.session? session, state.entries.entries = []
  | restoreInto _ _ _ => False

instance (operation : Operation) (s : ReasoningShadowStore) : Decidable (operation.Booked hash s) :=
  match operation with
  | store _ _ _ _ _ => inferInstanceAs (Decidable (_ → _ → _ → (_ ∧ _) ∧ _))
  | restore _ _ _ => inferInstanceAs (Decidable (∀ found ∈ _, _ = false))
  | clearSession _ => inferInstanceAs (Decidable (∀ state ∈ _, _ = []))
  | restoreInto _ _ _ => .isFalse id

variable {hash} {operation : Operation} {s : ReasoningShadowStore}

theorem exact_perform (h : s.Exact) (hbooked : operation.Booked hash s) :
    (operation.perform hash s).Exact := by
  cases operation with
  | store now checked session ids reasoning => exact exact_store h hbooked
  | restore now session ids => exact exact_restore h hbooked
  | clearSession session => exact exact_clearSession h hbooked
  | restoreInto clock body session => cases hbooked

/-- The accounts stay exact while no call stores an id anew or twice, finds an outlived
entry, or clears a session with entries. -/
theorem exact_performAll (hash : String → Fin (2 ^ 64)) (limits : ShadowLimits)
    (operations : List Operation)
    (hbooked : Runs.Meets (fun operation s => operation.perform hash s) (Booked hash) operations
      (.new limits)) :
    ∀ done, done <+: operations → (performAll hash done (.new limits)).Exact := by
  rintro done ⟨rest, rfl⟩
  exact Runs.run_invariant Exact (fun _ _ h hbooked => exact_perform h hbooked) (exact_new limits)
    (Runs.meets_append.mp hbooked).1

section Cases

def lengthHash (id : String) : Fin (2 ^ 64) :=
  ⟨id.length % 2 ^ 64, Nat.mod_lt _ (Nat.two_pow_pos 64)⟩

def smallLimits : ShadowLimits := ⟨2, 100, 10, 60⟩

theorem exact_performAll_twoCalls :
    let operations := [store 0 0 "s" ["a", "bb"] "why", restore 1 "s" ["bb"], clearSession "t"]
    (performAll lengthHash operations (.new smallLimits)).Exact :=
  exact_performAll lengthHash smallLimits _ (by decide +kernel) _ (List.prefix_refl _)

/-- One id stored twice is counted twice. -/
theorem performAll_not_exact :
    ¬ ∀ (hash : String → Fin (2 ^ 64)) (limits : ShadowLimits) (operations : List Operation),
    (∀ operation ∈ operations, ∀ clock body session, operation ≠ restoreInto clock body session) →
      (performAll hash operations (.new limits)).Exact := by
  intro h
  have hexact :=
    h lengthHash smallLimits [store 0 0 "s" ["a"] "why", store 1 1 "s" ["a"] "why"] (by simp)
  exact absurd hexact.bytes.total (by decide +kernel)

end Cases

end Operation
end Lobster.Shadow
