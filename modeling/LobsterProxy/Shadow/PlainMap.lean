import LobsterProxy.Base.Latest
import LobsterProxy.Shadow.Bounds

/-! The shadow store against a plain map from session and tool-call id to what was stored
last: it forgets, but never has anything else. -/

namespace Lobster.Shadow
open ReasoningShadowStore

def ShadowLimits.keeps (limits : ShadowLimits) (reasoning : String) : Bool :=
  reasoning ≠ "" && reasoning.utf8ByteSize ≤ limits.maxEntryBytes

namespace Operation

/-- What a call of `store` writes for a session's id, when its reasoning is kept. -/
def writes (kept : String → Bool) : Operation → String × String → Option ShadowEntry
  | store now _ session ids reasoning, (s, id) =>
    if session = s ∧ id ∈ ids ∧ kept reasoning then some ⟨reasoning, now⟩ else none
  | _, _ => none

def wipes : Operation → String × String → Bool
  | clearSession session, (s, _) => session = s
  | _, _ => false

def storedIds : Operation → List String
  | store _ _ _ ids _ => ids
  | _ => []

def CollisionFree (hash : String → Fin (2 ^ 64)) (ids : List String) : Prop :=
  ∀ a ∈ ids, ∀ b ∈ ids, hash a = hash b → a = b

instance (hash : String → Fin (2 ^ 64)) (ids : List String) : Decidable (CollisionFree hash ids) :=
  inferInstanceAs (Decidable (∀ a ∈ ids, ∀ b ∈ ids, _ → _))

variable {hash : String → Fin (2 ^ 64)} {limits : ShadowLimits} {s s' : ReasoningShadowStore}
  {m : String × String → Option ShadowEntry} {used : List String} {operation : Operation}

/-- What the store has for an id of those in use, the map has too. -/
structure Refines (hash : String → Fin (2 ^ 64)) (limits : ShadowLimits) (used : List String)
    (s : ReasoningShadowStore) (m : String × String → Option ShadowEntry) : Prop where
  limits : s.limits = limits
  entry : ∀ session, ∀ id ∈ used, ∀ entry,
    entryOf? hash session id s = some entry → m (session, id) = some entry

section Entries
variable {session id : String} {ids : List String} {entry : ShadowEntry} {now checked : Nat}
    {reasoning : String}

theorem entryOf?_of_spares (hspares : Spares session s s')
    (h : entryOf? hash session id s' = some entry) :
    entryOf? hash session id s = some entry := by
  unfold entryOf? at h ⊢
  rcases hspares.session with hsame | hgone
  · rw [← hsame]
    exact h
  · rw [hgone] at h
    cases h

theorem entryOf?_putSession (hash : String → Fin (2 ^ 64)) (now : Nat) (session : String)
    (ids : List String) (reasoning : String) (s : ReasoningShadowStore) (id : String) :
    entryOf? hash session id (putSession hash now session ids reasoning s) =
      if keyOf hash session id ∈ ids.map (keyOf hash session) then some ⟨reasoning, now⟩
      else entryOf? hash session id s := by
  unfold entryOf?
  rw [session?_putSession, if_pos rfl, Option.bind_some, find?_addEntries]
  split_ifs with hkey
  · rfl
  · cases s.session? session with
    | none => rfl
    | some state => rfl

theorem mem_of_keyOf (hcoll : CollisionFree hash used) (hids : ∀ id ∈ ids, id ∈ used)
    (hid : id ∈ used) (h : keyOf hash session id ∈ ids.map (keyOf hash session)) : id ∈ ids := by
  obtain ⟨other, hother, hkey⟩ := List.mem_map.mp h
  have hhash : hash other = hash id := congrArg ShadowKey.toolCall hkey
  rw [← hcoll other (hids other hother) id hid hhash]
  exact hother

theorem entryOf?_store (hcoll : CollisionFree hash used) (hids : ∀ id ∈ ids, id ∈ used)
    (hid : id ∈ used)
    (h : entryOf? hash session id (s.store hash now checked session ids reasoning) = some entry) :
    (id ∈ ids ∧ s.limits.keeps reasoning = true ∧ entry = ⟨reasoning, now⟩) ∨
      (¬ (id ∈ ids ∧ s.limits.keeps reasoning = true) ∧
        entryOf? hash session id s = some entry) := by
  unfold ReasoningShadowStore.store at h
  split_ifs at h with hnothing hoversized
  · right
    refine ⟨fun hkept => ?_, h⟩
    rcases hnothing with hempty | hnone
    · simp [ShadowLimits.keeps, hempty] at hkept
    · rw [hnone] at hkept
      exact List.not_mem_nil hkept.1
  · right
    refine ⟨fun hkept => ?_, h⟩
    have hfits := (Bool.and_eq_true_iff.mp hkept.2).2
    exact Nat.not_le.mpr hoversized (of_decide_eq_true hfits)
  · have hput : entryOf? hash session id (putSession hash now session ids reasoning s) =
        some entry :=
      entryOf?_of_spares
        ((spares_enforceLimits session checked _).trans (spares_countActive session _)) h
    rw [entryOf?_putSession] at hput
    have hkeeps : s.limits.keeps reasoning = true := by
      simp [ShadowLimits.keeps, (not_or.mp hnothing).1, Nat.not_lt.mp hoversized]
    split_ifs at hput with hkey
    · left
      exact ⟨mem_of_keyOf hcoll hids hid hkey, hkeeps, (Option.some.inj hput).symm⟩
    · right
      refine ⟨fun hkept => hkey ?_, hput⟩
      exact List.mem_map_of_mem hkept.1

theorem entryOf?_of_restore {looked : List String}
    (h : entryOf? hash session id (ReasoningShadowStore.restore hash now session looked s).2 =
      some entry) :
    entryOf? hash session id s = some entry := by
  revert h
  apply keeps_restore
    (fun s' => entryOf? hash session id s' = some entry → entryOf? hash session id s = some entry)
  · intro s' hinner _ h
    unfold entryOf? session? at h ⊢
    rw [hinner] at h
    exact h
  · intro state key hfind h
    have hremoved : entryOf? hash session id (removeEntry session state key s) = some entry := h
    unfold entryOf? at hremoved ⊢
    rw [session?_removeEntry, if_pos rfl, Option.bind_some, SortedMap.find?_remove] at hremoved
    split_ifs at hremoved
    rw [hfind]
    exact hremoved

end Entries

section Step

theorem passes_of_ne {kept : String → Bool} {session : String} (h : operation.session ≠ session)
    (id : String) :
    Latest.Passes (writes kept) wipes (session, id) operation := by
  cases operation with
  | store now checked other ids reasoning =>
    have hne : other ≠ session := h
    simp [Latest.Passes, writes, wipes, hne]
  | clearSession other =>
    have hne : other ≠ session := h
    simp [Latest.Passes, writes, wipes, hne]
  | restore now other ids => exact ⟨rfl, rfl⟩
  | restoreInto clock body other => exact ⟨rfl, rfl⟩

theorem session?_clearSession (s : ReasoningShadowStore) (session : String) :
    (s.clearSession session).session? session = none := by
  unfold ReasoningShadowStore.clearSession
  cases hfind : s.session? session with
  | none => exact hfind
  | some state =>
    show (s.inner.sessions.remove session).find? session = none
    rw [SortedMap.find?_remove, if_pos rfl]

/-- Whatever is done, the store has nothing that the plain map has not. -/
theorem refines_perform (hcoll : CollisionFree hash used)
    (hids : ∀ id ∈ operation.storedIds, id ∈ used) (h : Refines hash limits used s m) :
    Refines hash limits used (operation.perform hash s)
      (Latest.apply (writes limits.keeps) wipes m operation) := by
  refine ⟨(limits_perform operation s).trans h.limits, fun session id hid entry hentry => ?_⟩
  by_cases hsession : operation.session = session
  · cases operation with
    | store now checked other ids reasoning =>
      obtain rfl : other = session := hsession
      have hids : ∀ id ∈ ids, id ∈ used := hids
      have hcases := entryOf?_store hcoll hids hid hentry
      rw [h.limits] at hcases
      rcases hcases with ⟨hmem, hkept, rfl⟩ | ⟨hnot, hold⟩
      · apply Latest.apply_of_writes
        simp [writes, hmem, hkept]
      · rw [Latest.apply_of_passes]
        · exact h.entry other id hid entry hold
        · refine ⟨?_, rfl⟩
          simp only [writes, true_and]
          exact if_neg hnot
    | restore now other ids =>
      obtain rfl : other = session := hsession
      rw [Latest.apply_of_passes ⟨rfl, rfl⟩]
      exact h.entry other id hid entry (entryOf?_of_restore hentry)
    | clearSession other =>
      obtain rfl : other = session := hsession
      have hgone : entryOf? hash other id (s.clearSession other) = some entry := hentry
      unfold entryOf? at hgone
      rw [session?_clearSession] at hgone
      cases hgone
    | restoreInto clock body other =>
      obtain rfl : other = session := hsession
      rw [Latest.apply_of_passes ⟨rfl, rfl⟩]
      have hkept : entryOf? hash other id (s.restoreInto hash clock body other).2 = some entry →
          entryOf? hash other id s = some entry :=
        keeps_restoreInto
          (fun s' => entryOf? hash other id s' = some entry → entryOf? hash other id s = some entry)
          (fun _ _ _ hs hlater => hs (entryOf?_of_restore hlater)) body fun hsame => hsame
      exact h.entry other id hid entry (hkept hentry)
  · rw [Latest.apply_of_passes (passes_of_ne hsession id)]
    exact h.entry session id hid entry (entryOf?_of_spares (spares_perform hash hsession s) hentry)

end Step

section Runs
variable {history : List Operation} {session : String} {ids : List String} {now : Nat}
    {reasoning : String}

theorem refines_performAll (limits : ShadowLimits) (hcoll : CollisionFree hash used)
    (hids : ∀ operation ∈ history, ∀ id ∈ operation.storedIds, id ∈ used) :
    Refines hash limits used (performAll hash history (.new limits))
      (Latest.plain (writes limits.keeps) wipes history) := by
  induction history using List.reverseRecOn with
  | nil =>
    refine ⟨rfl, fun session id _ entry hentry => ?_⟩
    cases hentry
  | append_singleton history operation ih =>
    have hbefore := ih fun earlier hearlier => hids earlier (List.mem_append_left _ hearlier)
    rw [Latest.plain_append, performAll, List.foldl_append]
    exact refines_perform hcoll (hids operation (by simp)) hbefore

theorem restore_eq_some (h : (s.restore hash now session ids).1 = some reasoning) :
    ∃ id created, ids.find? (fun id => (entryOf? hash session id s).isSome) = some id ∧
      entryOf? hash session id s = some ⟨reasoning, created⟩ ∧ now - created ≤ s.limits.ttl := by
  unfold ReasoningShadowStore.restore at h
  split_ifs at h
  cases hstate : s.session? session with
  | none => simp [hstate] at h
  | some state =>
    cases hfirst : firstEntry hash session state ids with
    | none => simp [hstate, hfirst] at h
    | some found =>
      simp only [hstate, hfirst] at h
      split_ifs at h with hexpired
      have hentry (id : String) : entryOf? hash session id s =
          state.entries.find? (keyOf hash session id) := by
        unfold entryOf?
        rw [hstate, Option.bind_some]
      obtain ⟨skipped, id, rest, hsplit, hfound, hskipped⟩ := List.findSome?_eq_some_iff.mp hfirst
      obtain ⟨entry, hfind, rfl⟩ := Option.map_eq_some_iff.mp hfound
      refine ⟨id, entry.created, ?_, ?_, ?_⟩
      · rw [List.find?_eq_some_iff_append]
        refine ⟨by rw [hentry, hfind]; rfl, skipped, rest, hsplit, fun other hother => ?_⟩
        have hnone := Option.map_eq_none_iff.mp (hskipped other hother)
        simp [hentry, hnone]
      · rw [hentry, hfind, ← Option.some.inj h]
      · simpa [expired] using hexpired

theorem restore_congr (hlimits : s'.limits = s.limits)
    (hsession : s'.session? session = s.session? session) (now : Nat) (ids : List String) :
    (s'.restore hash now session ids).1 = (s.restore hash now session ids).1 := by
  unfold ReasoningShadowStore.restore
  rw [hlimits, hsession]
  split_ifs
  · rfl
  · cases s.session? session with
    | none => rfl
    | some state =>
      dsimp only
      cases firstEntry hash session state ids with
      | none => rfl
      | some found =>
        dsimp only
        split_ifs <;> rfl

theorem restore_of_none (hsession : s.session? session = none) (now : Nat) (ids : List String) :
    (s.restore hash now session ids).1 = none := by
  unfold ReasoningShadowStore.restore
  rw [hsession]
  split_ifs <;> rfl

/-- What is restored was kept last for the first id with an entry, was not cleared since and
has not expired; a call for another session changes no lookup, or takes the session out. -/
theorem restore_most_recent (hash : String → Fin (2 ^ 64)) (limits : ShadowLimits)
    (history : List Operation) (session : String) (ids : List String) (now : Nat)
    (hcoll : CollisionFree hash (ids ++ history.flatMap storedIds)) :
    let s := performAll hash history (.new limits)
    (∀ reasoning, (s.restore hash now session ids).1 = some reasoning →
      ∃ id created, ids.find? (fun id => (entryOf? hash session id s).isSome) = some id ∧
        Latest.MostRecent (writes limits.keeps) wipes history (session, id) ⟨reasoning, created⟩ ∧
        now - created ≤ limits.ttl) ∧
    ∀ operation : Operation, operation.session ≠ session →
      let s' := operation.perform hash s
      (∀ now ids, (s'.restore hash now session ids).1 = (s.restore hash now session ids).1) ∨
        (s'.session? session = none ∧ ∀ now ids, (s'.restore hash now session ids).1 = none) := by
  intro s
  have hrefines : Refines hash limits (ids ++ history.flatMap storedIds) s
      (Latest.plain (writes limits.keeps) wipes history) := by
    apply refines_performAll limits hcoll
    intro operation hoperation id hid
    exact List.mem_append_right _ (List.mem_flatMap.mpr ⟨operation, hoperation, hid⟩)
  constructor
  · intro reasoning hrestore
    obtain ⟨id, created, hfirst, hentry, hfresh⟩ := restore_eq_some hrestore
    have hused : id ∈ ids ++ history.flatMap storedIds :=
      List.mem_append_left _ (List.mem_of_find?_eq_some hfirst)
    refine ⟨id, created, hfirst, ?_, ?_⟩
    · apply Latest.mostRecent_of_plain
      exact hrefines.entry session id hused _ hentry
    · rw [← hrefines.limits]
      exact hfresh
  · intro operation hother
    have hspares := spares_perform hash hother s
    rcases hspares.session with hsame | hgone
    · left
      exact restore_congr hspares.limits hsame
    · right
      exact ⟨hgone, restore_of_none hgone⟩

end Runs

section Cases

theorem restore_most_recent_why :
    let history :=
      [store 0 0 "s" ["a", "bb"] "why", store 1 1 "t" ["a"] "other",
        store 2 2 "s" ["a"] "too long to be kept"]
    let s := performAll lengthHash history (.new smallLimits)
    ∃ id created, ["ccc", "a"].find? (fun id => (entryOf? lengthHash "s" id s).isSome) = some id ∧
      Latest.MostRecent (writes smallLimits.keeps) wipes history ("s", id) ⟨"why", created⟩ ∧
      3 - created ≤ smallLimits.ttl :=
  (restore_most_recent lengthHash smallLimits _ "s" ["ccc", "a"] 3 (by decide +kernel)).1 "why"
    (by decide +kernel)

/-- Reasoning that is too long is skipped, and the older one comes back. -/
theorem restore_not_most_recent :
    ¬ ∀ (hash : String → Fin (2 ^ 64)) (limits : ShadowLimits) (history : List Operation)
      (session : String) (ids : List String) (now : Nat),
      CollisionFree hash (ids ++ history.flatMap storedIds) →
      let s := performAll hash history (.new limits)
      ∀ reasoning, (s.restore hash now session ids).1 = some reasoning →
        ∃ id created, ids.find? (fun id => (entryOf? hash session id s).isSome) = some id ∧
          Latest.MostRecent (writes fun _ => true) wipes history (session, id)
            ⟨reasoning, created⟩ ∧
          now - created ≤ limits.ttl := by
  intro h
  obtain ⟨id, created, hfirst, hrecent, -⟩ := h lengthHash smallLimits
    [store 0 0 "s" ["a"] "why", store 1 1 "s" ["a"] "too long to be kept"] "s" ["a"] 2
      (by decide +kernel)
    "why" (by decide +kernel)
  obtain rfl : id = "a" := List.mem_singleton.mp (List.mem_of_find?_eq_some hfirst)
  have hlast := Latest.plain_of_mostRecent hrecent
  have hplain : Latest.plain (writes fun _ => true) wipes
      [store 0 0 "s" ["a"] "why", store 1 1 "s" ["a"] "too long to be kept"] ("s", "a") =
        some ⟨"too long to be kept", 1⟩ := by decide +kernel
  rw [hplain] at hlast
  have hreasoning : "too long to be kept" = "why" :=
    congrArg ShadowEntry.reasoning (Option.some.inj hlast)
  exact absurd hreasoning (by decide)

end Cases

end Operation
end Lobster.Shadow
