import LobsterProxy.Shadow.Sessions

/-! What a session has stored comes back: under each of its tool-call ids, and onto the
messages of a body, while it has not expired. -/

namespace Lobster.Shadow
open Deepseek

namespace ReasoningShadowStore
variable {hash : String → Fin (2 ^ 64)} {session : String} {ids : List String} {entry : ShadowEntry}
  {store : ReasoningShadowStore}

def entryOf? (hash : String → Fin (2 ^ 64)) (session id : String) (store : ReasoningShadowStore) :
    Option ShadowEntry :=
  (store.session? session).bind fun state => state.entries.find? (keyOf hash session id)

def Holding (hash : String → Fin (2 ^ 64)) (session : String) (ids : List String)
    (entry : ShadowEntry) (store : ReasoningShadowStore) : Prop :=
  ∀ id ∈ ids, entryOf? hash session id store = some entry

theorem Holding.spared {after : ReasoningShadowStore} (h : Holding hash session ids entry store)
    (hspares : Spares session store after) (hkept : (after.session? session).isSome = true) :
    Holding hash session ids entry after := by
  intro id hid
  unfold entryOf?
  rw [hspares.session.eq_of_isSome hkept]
  exact h id hid

section Storing

theorem find?_addEntries (hash : String → Fin (2 ^ 64)) (session : String) (ids : List String)
    (entry : ShadowEntry) (entries : SortedMap ShadowKey ShadowEntry) (key : ShadowKey) :
    (addEntries hash session ids entry entries).find? key =
      if key ∈ ids.map (keyOf hash session) then some entry else entries.find? key := by
  unfold addEntries
  induction ids generalizing entries with
  | nil => rfl
  | cons id ids ih =>
    rw [List.foldl_cons, ih, SortedMap.find?_insert]
    by_cases hkey : keyOf hash session id = key
    · simp [hkey]
    · simp [hkey, Ne.symm hkey]

theorem holding_putSession (hash : String → Fin (2 ^ 64)) (now : Nat) (session : String)
    (ids : List String) (reasoning : String) (store : ReasoningShadowStore) :
    Holding hash session ids ⟨reasoning, now⟩
      (putSession hash now session ids reasoning store) := by
  intro id hid
  have hfind := SortedMap.find?_insert_self store.inner.sessions session
    ⟨addEntries hash session ids ⟨reasoning, now⟩
      ((store.session? session).getD ⟨.empty, 0⟩).entries,
      saturatingAdd ((store.session? session).getD ⟨.empty, 0⟩).bytes
        (saturatingMul reasoning.utf8ByteSize ids.length)⟩
  unfold entryOf? session? putSession
  rw [hfind, Option.bind_some, find?_addEntries, if_pos (List.mem_map_of_mem hid)]

theorem holding_store (hash : String → Fin (2 ^ 64)) {now checked : Nat} {reasoning : String}
    (hreasoning : reasoning ≠ "") (hids : ids ≠ [])
    (hfits : reasoning.utf8ByteSize ≤ store.limits.maxEntryBytes)
    (hkept :
      ((store.store hash now checked session ids reasoning).session? session).isSome = true) :
    Holding hash session ids ⟨reasoning, now⟩
      (store.store hash now checked session ids reasoning) := by
  have hput := holding_putSession hash now session ids reasoning store
  have hspares := (spares_enforceLimits session checked
    (putSession hash now session ids reasoning store)).trans (spares_countActive session _)
  unfold ReasoningShadowStore.store at hkept ⊢
  rw [if_neg (by simp [hreasoning, hids]), if_neg (Nat.not_lt.mpr hfits)] at hkept ⊢
  exact hput.spared hspares hkept

theorem limits_store (hash : String → Fin (2 ^ 64)) (now checked : Nat) (session : String)
    (ids : List String) (reasoning : String) (store : ReasoningShadowStore) :
    (store.store hash now checked session ids reasoning).limits = store.limits := by
  unfold ReasoningShadowStore.store
  split_ifs
  · rfl
  · rfl
  · exact ((spares_enforceLimits session checked _).trans (spares_countActive session _)).limits

end Storing

section Restoring

theorem firstEntry_eq_some {state : SessionState} {found : ShadowKey × ShadowEntry}
    (h : firstEntry hash session state ids = some found) :
    ∃ id ∈ ids, found.1 = keyOf hash session id ∧ state.entries.find? found.1 = some found.2 := by
  obtain ⟨id, hid, hentry⟩ := List.exists_of_findSome?_eq_some h
  obtain ⟨entry, hfind, rfl⟩ := Option.map_eq_some_iff.mp hentry
  exact ⟨id, hid, rfl, hfind⟩

theorem restore_of_holding {now : Nat} (h : Holding hash session ids entry store) (hids : ids ≠ [])
    (hfresh : expired store.limits now entry = false) :
    restore hash now session ids store = (some entry.reasoning, store.countRestore) := by
  obtain ⟨id, rest, rfl⟩ := List.exists_cons_of_ne_nil hids
  have hid := h id List.mem_cons_self
  unfold restore
  rw [if_neg hids]
  unfold entryOf? at hid
  cases hstate : store.session? session with
  | none =>
    rw [hstate] at hid
    cases hid
  | some state =>
    rw [hstate, Option.bind_some] at hid
    have hfirst : firstEntry hash session state (id :: rest) =
        some (keyOf hash session id, entry) := by
      unfold firstEntry
      rw [List.findSome?_cons, hid]
      rfl
    dsimp only
    rw [hfirst]
    dsimp only
    rw [hfresh, if_neg Bool.false_ne_true]

theorem entryOf?_restore {now : Nat} {id : String}
    (hentry : entryOf? hash session id store = some entry)
    (hfresh : expired store.limits now entry = false) (ids : List String) :
    entryOf? hash session id (restore hash now session ids store).2 = some entry := by
  unfold restore
  split_ifs
  · exact hentry
  · cases hstate : store.session? session with
    | none => exact hentry
    | some state =>
      dsimp only
      cases hfirst : firstEntry hash session state ids with
      | none => exact hentry
      | some found =>
        obtain ⟨key, other⟩ := found
        dsimp only
        split_ifs with hexpired
        · obtain ⟨-, -, -, hfind⟩ := firstEntry_eq_some hfirst
          have hown : state.entries.find? (keyOf hash session id) = some entry := by
            unfold entryOf? at hentry
            rw [hstate] at hentry
            exact hentry
          have hne : key ≠ keyOf hash session id := by
            rintro rfl
            rw [hown] at hfind
            cases hfind
            rw [hfresh] at hexpired
            cases hexpired
          show ((store.inner.sessions.insert session _).find? session).bind _ = _
          rw [SortedMap.find?_insert_self, Option.bind_some, SortedMap.find?_remove, if_neg hne]
          exact hown
        · exact hentry

theorem keeps_restore {now : Nat} (inv : ReasoningShadowStore → Prop)
    (hcount : ∀ store' : ReasoningShadowStore, store'.inner = store.inner →
      store'.limits = store.limits → inv store')
    (hremove : ∀ state key, store.session? session = some state →
      inv (removeEntry session state key store).countMiss) :
    inv (restore hash now session ids store).2 := by
  unfold restore
  split_ifs
  · exact hcount _ rfl rfl
  · cases hfind : store.session? session with
    | none => exact hcount _ rfl rfl
    | some state =>
      dsimp only
      cases firstEntry hash session state ids with
      | none => exact hcount _ rfl rfl
      | some found =>
        dsimp only
        split_ifs
        · exact hremove state found.1 hfind
        · exact hcount _ rfl rfl

theorem limits_restore (hash : String → Fin (2 ^ 64)) (now : Nat) (session : String)
    (ids : List String) (store : ReasoningShadowStore) :
    (restore hash now session ids store).2.limits = store.limits := by
  apply keeps_restore (fun store' => store'.limits = store.limits)
  · intro store' _ hlimits
    exact hlimits
  · intro state key _
    rfl

end Restoring

section Bodies
variable {clock : Nat → Nat}

/-- Under its limits, the store has the entry for all of the ids. -/
structure Retains (hash : String → Fin (2 ^ 64)) (limits : ShadowLimits) (session : String)
    (ids : List String) (entry : ShadowEntry) (store : ReasoningShadowStore) : Prop where
  limits : store.limits = limits
  holding : Holding hash session ids entry store

/-- What was stored is retained through whatever spares the session. -/
theorem retains_store (hash : String → Fin (2 ^ 64)) {now checked : Nat} {reasoning : String}
    {later : ReasoningShadowStore} (hreasoning : reasoning ≠ "") (hids : ids ≠ [])
    (hfits : reasoning.utf8ByteSize ≤ store.limits.maxEntryBytes)
    (hspares : Spares session (store.store hash now checked session ids reasoning) later)
    (hkept : (later.session? session).isSome = true) :
    Retains hash store.limits session ids ⟨reasoning, now⟩ later where
  limits := hspares.limits.trans (limits_store hash now checked session ids reasoning store)
  holding := by
    have hstored :
        ((store.store hash now checked session ids reasoning).session? session).isSome = true := by
      rw [← hspares.session.eq_of_isSome hkept]
      exact hkept
    exact (holding_store hash hreasoning hids hfits hstored).spared hspares hkept

theorem Retains.restore {limits : ShadowLimits} {now : Nat}
    (h : Retains hash limits session ids entry store) (hfresh : expired limits now entry = false)
    (others : List String) :
    Retains hash limits session ids entry (restore hash now session others store).2 where
  limits := (limits_restore hash now session others store).trans h.limits
  holding :=
    fun id hid => entryOf?_restore (h.holding id hid) (by rw [h.limits]; exact hfresh) others

theorem get?_setReasoning_ne (message : Json) (reasoning : String) {key : String}
    (h : "reasoning_content" ≠ key) :
    (message.set "reasoning_content" (.str reasoning)).get? key = message.get? key := by
  cases message with
  | obj fields => exact Fields.get?_insert_ne fields _ h
  | _ => rfl

theorem role_setReasoning (message : Json) (reasoning : String) :
    (message.set "reasoning_content" (.str reasoning)).getStr? "role" = message.getStr? "role" := by
  unfold Json.getStr?
  rw [get?_setReasoning_ne message reasoning (by decide)]

theorem role_restoreMessage (hash : String → Fin (2 ^ 64)) (now : Nat) (session : String)
    (message : Json) (store : ReasoningShadowStore) :
    (restoreMessage hash now session message store).1.getStr? "role" = message.getStr? "role" := by
  unfold restoreMessage
  split_ifs
  · cases (message.get? "tool_calls").bind Json.asArray with
    | none => rfl
    | some calls =>
      dsimp only
      cases (restore hash now session (callIds calls) store).1 with
      | none => rfl
      | some reasoning => exact role_setReasoning message reasoning
  · rfl

theorem restoreMessages_append (hash : String → Fin (2 ^ 64)) (clock : Nat → Nat) (session : String)
    (index : Nat) (before after : List Json) (store : ReasoningShadowStore) :
    let first := restoreMessages hash clock session index before store
    let rest := restoreMessages hash clock session (index + before.length) after first.2
    restoreMessages hash clock session index (before ++ after) store =
      (first.1 ++ rest.1, rest.2) := by
  induction before generalizing index store with
  | nil => rfl
  | cons message before ih =>
    dsimp only
    rw [List.cons_append, restoreMessages]
    dsimp only
    rw [ih, restoreMessages, List.length_cons, Nat.add_right_comm, Nat.add_assoc]
    rfl

theorem isUserMessage_restoreMessages (hash : String → Fin (2 ^ 64)) (clock : Nat → Nat)
    (session : String) (index : Nat) (messages : List Json) (store : ReasoningShadowStore) :
    (restoreMessages hash clock session index messages store).1.map isUserMessage =
      messages.map isUserMessage := by
  induction messages generalizing index store with
  | nil => rfl
  | cons message rest ih =>
    rw [restoreMessages]
    dsimp only
    rw [List.map_cons, ih, List.map_cons]
    unfold isUserMessage
    rw [role_restoreMessage]

theorem restoreMessages_others {messages : List Json}
    (h : ∀ m ∈ messages, isAssistantMessage m = false) (index : Nat)
    (store : ReasoningShadowStore) :
    restoreMessages hash clock session index messages store = (messages, store) := by
  induction messages generalizing index with
  | nil => rfl
  | cons message rest ih =>
    obtain ⟨hmessage, hrest⟩ := List.forall_mem_cons.mp h
    have hkept : restoreMessage hash (clock index) session message store = (message, store) := by
      unfold restoreMessage
      rw [hmessage, Bool.false_and, if_neg Bool.false_ne_true]
    rw [restoreMessages, hkept]
    dsimp only
    rw [ih hrest]

def recalled (reasoning : String) (message : Json) : Json :=
  if (message.get? "reasoning_content").isSome then message
  else message.set "reasoning_content" (.str reasoning)

theorem role_recalled (reasoning : String) (message : Json) :
    (recalled reasoning message).getStr? "role" = message.getStr? "role" := by
  unfold recalled
  split_ifs
  · rfl
  · exact role_setReasoning message reasoning

theorem restoreMessage_turn {now : Nat} {message : Json} {calls : List Json}
    (hrole : isAssistantMessage message = true)
      (hcalls : message.get? "tool_calls" = some (.arr calls))
    (hids : callIds calls ≠ []) (h : Holding hash session (callIds calls) entry store)
    (hfresh : expired store.limits now entry = false) :
    (restoreMessage hash now session message store).1 = recalled entry.reasoning message := by
  unfold restoreMessage recalled
  rw [hrole, hcalls, Bool.true_and, Option.bind_some, Json.asArray_arr]
  cases message.get? "reasoning_content" with
  | some own => rfl
  | none =>
    dsimp only
    rw [restore_of_holding h hids hfresh]
    rfl

theorem restoreMessages_turn {message : Json} {calls after : List Json}
    (hrole : isAssistantMessage message = true)
      (hcalls : message.get? "tool_calls" = some (.arr calls))
    (hids : callIds calls ≠ []) (hafter : ∀ m ∈ after, isAssistantMessage m = false) (index : Nat)
    (h : Holding hash session (callIds calls) entry store)
    (hfresh : expired store.limits (clock index) entry = false) :
    (restoreMessages hash clock session index (message :: after) store).1 =
      recalled entry.reasoning message :: after := by
  rw [restoreMessages]
  show (restoreMessage hash (clock index) session message store).1 ::
    (restoreMessages hash clock session (index + 1) after _).1 = _
  rw [restoreMessages_others hafter, restoreMessage_turn hrole hcalls hids h hfresh]

/-- A turn of the epoch whose calls the session holds has its reasoning in the restored body. -/
theorem restoreInto_turn {body : Fields} {before after calls : List Json} {message : Json}
    {limits : ShadowLimits}
    (hmessages : body.get? "messages" = some (.arr (before ++ message :: after)))
    (hboundary : reasoningEpochBoundary (before ++ message :: after) ≤ before.length)
    (hrole : isAssistantMessage message = true)
      (hcalls : message.get? "tool_calls" = some (.arr calls))
    (hids : callIds calls ≠ []) (hafter : ∀ m ∈ after, isAssistantMessage m = false)
    (h : Retains hash limits session (callIds calls) entry store)
    (hfresh : ∀ index, expired limits (clock index) entry = false) :
    ∃ restored, restored.map isUserMessage = before.map isUserMessage ∧
      (restoreInto hash clock body session store).1.get? "messages" =
        some (.arr (restored ++ recalled entry.reasoning message :: after)) := by
  generalize hb : reasoningEpochBoundary (before ++ message :: after) = boundary at hboundary
  have hretains : Retains hash limits session (callIds calls) entry
      (restoreMessages hash clock session boundary (before.drop boundary) store).2 :=
    keeps_restoreMessages (fun index others s hs => hs.restore (hfresh index) others) boundary _ h
  refine ⟨before.take boundary ++
    (restoreMessages hash clock session boundary (before.drop boundary) store).1, ?_, ?_⟩
  · rw [List.map_append, isUserMessage_restoreMessages, ← List.map_append, List.take_append_drop]
  · unfold restoreInto
    rw [hmessages, Option.bind_some, Json.asArray_arr]
    dsimp only
    rw [Fields.get?_insert_self, hb, List.take_append_of_le_length hboundary,
      List.drop_append_of_le_length hboundary, restoreMessages_append]
    dsimp only
    rw [restoreMessages_turn hrole hcalls hids hafter _ hretains.holding
      (by rw [hretains.limits]; exact hfresh _), List.append_assoc]

end Bodies

end ReasoningShadowStore
end Lobster.Shadow
