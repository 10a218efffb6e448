import LobsterProxy.Shadow.Store

/-! Sessions of the shadow store apart from each other: whatever is done for one session,
another stays as it is or goes as a whole. -/

namespace Lobster.Shadow
open Deepseek

section Fading
variable {α : Type} {a b c : Option α}

def Fades (before after : Option α) : Prop := after = before ∨ after = none

theorem fades_refl (a : Option α) : Fades a a := .inl rfl

theorem Fades.trans (hab : Fades a b) (hbc : Fades b c) : Fades a c := by
  rcases hbc with rfl | rfl
  · exact hab
  · exact .inr rfl

theorem Fades.eq_of_isSome (h : Fades a b) (hb : b.isSome = true) : b = a := by
  rcases h with h | rfl
  · exact h
  · cases hb

end Fading

/-- A step after which the session is as it was, or evicted. -/
structure Spares (session : String) (before after : ReasoningShadowStore) : Prop where
  limits : after.limits = before.limits
  session : Fades (before.session? session) (after.session? session)

namespace Spares
variable {session : String} {a b c : ReasoningShadowStore}

theorem refl (session : String) (store : ReasoningShadowStore) : Spares session store store :=
  ⟨rfl, fades_refl _⟩

theorem trans (hab : Spares session a b) (hbc : Spares session b c) : Spares session a c :=
  ⟨hbc.limits.trans hab.limits, hab.session.trans hbc.session⟩

end Spares

namespace ReasoningShadowStore
variable {session other : String} {store : ReasoningShadowStore}

section Evictions

theorem session?_removeSession (store : ReasoningShadowStore) (name session : String) :
    (store.removeSession name).session? session = if name = session then
      none else store.session? session := by
  unfold removeSession
  cases hfind : store.session? name with
  | none =>
    show store.session? session = _
    split_ifs with h
    · rw [← h, hfind]
    · rfl
  | some state => exact SortedMap.find?_remove store.inner.sessions name session

theorem spares_removeSession (session : String) (store : ReasoningShadowStore) (name : String) :
    Spares session store (store.removeSession name) where
  limits := by
    unfold removeSession
    cases store.session? name <;> rfl
  session := by
    rw [session?_removeSession]
    split_ifs
    · exact .inr rfl
    · exact fades_refl _

section Keeping
variable (inv : ReasoningShadowStore → Prop)
    (h : ∀ store name, inv store → inv (store.removeSession name))
include h

theorem keeps_removeAll (names : List String) (hstore : inv store) :
    inv (names.foldl removeSession store) := by
  induction names generalizing store with
  | nil => exact hstore
  | cons name names ih => exact ih (h store name hstore)

theorem keeps_evictWhile (exceeds : ReasoningShadowStore → Bool) (turns : Nat)
    (hstore : inv store) :
    inv (evictWhile exceeds turns store) := by
  induction turns generalizing store with
  | zero => exact hstore
  | succ turns ih =>
    unfold evictWhile
    split_ifs
    · cases store.inner.lru.head? with
      | none => exact hstore
      | some victim => exact ih (h store victim hstore)
    · exact hstore

theorem keeps_evictAll (exceeds : ReasoningShadowStore → Bool) (hstore : inv store) :
    inv (evictAll exceeds store) :=
  keeps_evictWhile inv h exceeds _ hstore

theorem keeps_enforceLimits (now : Nat) (hstore : inv store) : inv (enforceLimits now store) := by
  have hexpired := keeps_removeAll inv h (expiredSessions now store) hstore
  have hbytes := keeps_evictAll inv h overBytes hexpired
  exact keeps_evictAll inv h overSessions hbytes

end Keeping

theorem spares_enforceLimits (session : String) (now : Nat) (store : ReasoningShadowStore) :
    Spares session store (enforceLimits now store) :=
  by
  have hremoved (s : ReasoningShadowStore) (name : String) (hs : Spares session store s) :
      Spares session store (s.removeSession name) := hs.trans (spares_removeSession session s name)
  exact keeps_enforceLimits (Spares session store) hremoved now (Spares.refl session store)

end Evictions

section Operations
variable (hash : String → Fin (2 ^ 64))

theorem spares_countActive (session : String) (store : ReasoningShadowStore) :
    Spares session store store.countActive := ⟨rfl, fades_refl _⟩

theorem session?_putSession_ne (h : other ≠ session) (now : Nat) (ids : List String)
    (reasoning : String) (store : ReasoningShadowStore) :
    (putSession hash now other ids reasoning store).session? session = store.session? session :=
  SortedMap.find?_insert_ne _ _ h

theorem spares_store (h : other ≠ session) (now checked : Nat) (ids : List String)
    (reasoning : String) (store : ReasoningShadowStore) :
    Spares session store
      (ReasoningShadowStore.store hash now checked other ids reasoning store) := by
  have hput : Spares session store (putSession hash now other ids reasoning store) :=
    ⟨rfl, .inl (session?_putSession_ne hash h now ids reasoning store)⟩
  unfold ReasoningShadowStore.store
  split_ifs
  · exact Spares.refl session store
  · exact ⟨rfl, fades_refl _⟩
  · exact hput.trans ((spares_enforceLimits session checked _).trans (spares_countActive session _))

theorem spares_clearSession (store : ReasoningShadowStore) (h : other ≠ session) :
    Spares session store (store.clearSession other) := by
  unfold clearSession
  cases store.session? other with
  | none => exact Spares.refl session store
  | some state =>
    refine ⟨rfl, .inl ?_⟩
    show (store.inner.sessions.remove other).find? session = _
    rw [SortedMap.find?_remove, if_neg h]
    rfl

theorem spares_restore (h : other ≠ session) (now : Nat) (ids : List String)
    (store : ReasoningShadowStore) : Spares session store (restore hash now other ids store).2 := by
  unfold restore
  split_ifs
  · exact Spares.refl session store
  · cases store.session? other with
    | none => exact Spares.refl session store
    | some state =>
      dsimp only
      cases firstEntry hash other state ids with
      | none => exact ⟨rfl, fades_refl _⟩
      | some found =>
        dsimp only
        split_ifs
        · exact ⟨rfl, .inl (SortedMap.find?_insert_ne _ _ h)⟩
        · exact ⟨rfl, fades_refl _⟩

section Bodies
variable {hash} {clock : Nat → Nat} {inv : ReasoningShadowStore → Prop}

theorem keeps_restoreMessages
    (h : ∀ index ids store, inv store → inv (restore hash (clock index) session ids store).2)
    (index : Nat) (messages : List Json) {store : ReasoningShadowStore} (hstore : inv store) :
    inv (restoreMessages hash clock session index messages store).2 := by
  have hmessage (index : Nat) (message : Json) (store : ReasoningShadowStore) (hstore : inv store) :
      inv (restoreMessage hash (clock index) session message store).2 := by
    unfold restoreMessage
    split_ifs
    · cases (message.get? "tool_calls").bind Json.asArray with
      | none => exact hstore
      | some calls => exact h index (callIds calls) store hstore
    · exact hstore
  induction messages generalizing index store with
  | nil => exact hstore
  | cons message rest ih => exact ih (index + 1) (hmessage index message store hstore)

theorem keeps_restoreInto (inv : ReasoningShadowStore → Prop)
    (h : ∀ index ids store, inv store → inv (restore hash (clock index) session ids store).2)
    (body : Fields) {store : ReasoningShadowStore} (hstore : inv store) :
    inv (restoreInto hash clock body session store).2 := by
  unfold restoreInto
  cases (body.get? "messages").bind Json.asArray with
  | none => exact hstore
  | some messages => exact keeps_restoreMessages h _ _ hstore

end Bodies

theorem spares_restoreInto (h : other ≠ session) (clock : Nat → Nat) (body : Fields)
    (store : ReasoningShadowStore) :
    Spares session store (restoreInto hash clock body other store).2 :=
  keeps_restoreInto (Spares session store)
    (fun index ids _ hspares => hspares.trans (spares_restore hash h (clock index) ids _))
    body (Spares.refl session store)

end Operations

end ReasoningShadowStore

/-- A call on the store, with the instants it reads. -/
inductive Operation where
  | store (now checked : Nat) (session : String) (toolCallIds : List String) (reasoning : String)
  | restore (now : Nat) (session : String) (toolCallIds : List String)
  | clearSession (session : String)
  | restoreInto (clock : Nat → Nat) (body : Fields) (session : String)

namespace Operation
variable (hash : String → Fin (2 ^ 64))

def session : Operation → String
  | store _ _ session _ _ => session
  | restore _ session _ => session
  | clearSession session => session
  | restoreInto _ _ session => session

def perform (s : ReasoningShadowStore) : Operation → ReasoningShadowStore
  | store now checked session ids reasoning => s.store hash now checked session ids reasoning
  | restore now session ids => (s.restore hash now session ids).2
  | clearSession session => s.clearSession session
  | restoreInto clock body session => (s.restoreInto hash clock body session).2

def performAll (operations : List Operation) (s : ReasoningShadowStore) : ReasoningShadowStore :=
  operations.foldl (perform hash) s

theorem spares_perform {session : String} {operation : Operation} (h : operation.session ≠ session)
    (s : ReasoningShadowStore) : Spares session s (operation.perform hash s) := by
  cases operation with
  | store now checked other ids reasoning =>
    exact ReasoningShadowStore.spares_store hash h now checked ids reasoning s
  | restore now other ids => exact ReasoningShadowStore.spares_restore hash h now ids s
  | clearSession other => exact ReasoningShadowStore.spares_clearSession s h
  | restoreInto clock body other =>
    exact ReasoningShadowStore.spares_restoreInto hash h clock body s

theorem spares_performAll {session : String} {operations : List Operation}
    (h : ∀ operation ∈ operations, operation.session ≠ session) (s : ReasoningShadowStore) :
    Spares session s (performAll hash operations s) := by
  induction operations generalizing s with
  | nil => exact Spares.refl session s
  | cons operation operations ih =>
    obtain ⟨hfirst, hrest⟩ := List.forall_mem_cons.mp h
    exact (spares_perform hash hfirst s).trans (ih hrest _)

end Operation
end Lobster.Shadow
