import LobsterProxy.Server.Shadowing
import LobsterProxy.Session
import LobsterProxy.Shadow.PlainMap

/-! Requests of both front ends over one shadow store, in any order: what a request is given
back was left by an answer to the same client session. -/

namespace Lobster.Shadow
open ReasoningShadowStore

namespace ReasoningShadowStore
variable {hash : String → Fin (2 ^ 64)} {session : String} {store : ReasoningShadowStore}
    {entry : ShadowEntry}

theorem restore_eq_some {now : Nat} {ids : List String} {reasoning : String}
    (h : (restore hash now session ids store).1 = some reasoning) :
    ∃ id ∈ ids, ∃ entry, entryOf? hash session id store = some entry ∧ entry.reasoning = reasoning ∧
      expired store.limits now entry = false := by
  unfold restore at h
  split_ifs at h
  cases hstate : store.session? session with
  | none =>
    rw [hstate] at h
    cases h
  | some state =>
    rw [hstate] at h
    dsimp only at h
    cases hfirst : firstEntry hash session state ids with
    | none =>
      rw [hfirst] at h
      cases h
    | some found =>
      rw [hfirst] at h
      dsimp only at h
      split_ifs at h with hexpired
      obtain ⟨id, hid, hkey, hfind⟩ := firstEntry_eq_some hfirst
      refine ⟨id, hid, found.2, ?_, Option.some.inj h, Bool.eq_false_iff.mpr hexpired⟩
      unfold entryOf?
      rw [hstate, Option.bind_some, ← hkey]
      exact hfind

def messageIds (message : Json) : List String :=
  ((message.get? "tool_calls").bind Json.asArray).elim [] callIds

/-- What a restored message is: itself, or with the reasoning of an entry that the store has
for one of its calls. -/
def Recalled (hash : String → Fin (2 ^ 64)) (session : String) (store : ReasoningShadowStore)
    (message after : Json) :
    Prop :=
  after = message ∨
  ∃ id ∈ messageIds message, ∃ entry, entryOf? hash session id store = some entry ∧
    after = message.set "reasoning_content" (.str entry.reasoning)

theorem Recalled.mono {later : ReasoningShadowStore} {message after : Json}
    (h : Recalled hash session later message after)
    (hentry : ∀ id entry, entryOf? hash session id later = some entry →
      entryOf? hash session id store = some entry) :
    Recalled hash session store message after := by
  rcases h with hsame | ⟨id, hid, entry, hfound, hafter⟩
  · exact .inl hsame
  · exact .inr ⟨id, hid, entry, hentry id entry hfound, hafter⟩

theorem recalled_restoreMessage (hash : String → Fin (2 ^ 64)) (now : Nat) (session : String)
    (message : Json) (store : ReasoningShadowStore) :
    Recalled hash session store message (restoreMessage hash now session message store).1 := by
  unfold restoreMessage
  split_ifs
  · cases hcalls : (message.get? "tool_calls").bind Json.asArray with
    | none => exact .inl rfl
    | some calls =>
      dsimp only
      cases hrestore : (restore hash now session (callIds calls) store).1 with
      | none => exact .inl rfl
      | some reasoning =>
        obtain ⟨id, hid, entry, hentry, rfl, -⟩ := restore_eq_some hrestore
        refine .inr ⟨id, ?_, entry, hentry, rfl⟩
        unfold messageIds
        rw [hcalls]
        exact hid
  · exact .inl rfl

theorem entryOf?_of_restoreMessage {now : Nat} {message : Json} {id : String}
    (h : entryOf? hash session id (restoreMessage hash now session message store).2 = some entry) :
    entryOf? hash session id store = some entry := by
  unfold restoreMessage at h
  split_ifs at h
  · cases hcalls : (message.get? "tool_calls").bind Json.asArray with
    | none =>
      rw [hcalls] at h
      exact h
    | some calls =>
      rw [hcalls] at h
      exact Operation.entryOf?_of_restore h
  · exact h

theorem recalled_restoreMessages (hash : String → Fin (2 ^ 64)) (clock : Nat → Nat)
    (session : String) (index : Nat) (messages : List Json) (store : ReasoningShadowStore) :
    List.Forall₂ (Recalled hash session store) messages
      (restoreMessages hash clock session index messages store).1 := by
  induction messages generalizing index store with
  | nil => exact .nil
  | cons message rest ih =>
    rw [restoreMessages]
    dsimp only
    refine .cons (recalled_restoreMessage hash (clock index) session message store) ?_
    refine (ih (index + 1) _).imp fun _ _ h => ?_
    exact h.mono fun _ _ => entryOf?_of_restoreMessage

theorem recalled_restoreInto (hash : String → Fin (2 ^ 64)) (clock : Nat → Nat) {body : Fields}
    {messages : List Json}
    (hmessages : body.get? "messages" = some (.arr messages)) (session : String)
      (store : ReasoningShadowStore) :
    ∃ restored, (restoreInto hash clock body session store).1 =
      body.insert "messages" (.arr restored) ∧
      List.Forall₂ (Recalled hash session store) messages restored := by
  have hkept (messages : List Json) :
      List.Forall₂ (Recalled hash session store) messages messages :=
    List.forall₂_same.mpr fun _ _ => .inl rfl
  unfold restoreInto
  rw [hmessages, Option.bind_some, Json.asArray_arr]
  dsimp only
  refine ⟨_, rfl, ?_⟩
  generalize Deepseek.reasoningEpochBoundary messages = boundary
  have hsplit := List.rel_append (hkept (messages.take boundary))
    (recalled_restoreMessages hash clock session boundary (messages.drop boundary) store)
  simp only [List.take_append_drop] at hsplit
  exact hsplit

end ReasoningShadowStore

namespace Operation
variable {hash : String → Fin (2 ^ 64)} {session : String} {id : String} {entry : ShadowEntry}

def Left (hash : String → Fin (2 ^ 64)) (history : List Operation) (session id : String)
    (entry : ShadowEntry) : Prop :=
  ∃ checked ids, store entry.created checked session ids entry.reasoning ∈ history ∧
  ∃ other ∈ ids, hash other = hash id

theorem entryOf?_of_store {now checked : Nat} {ids : List String} {reasoning : String}
    {s : ReasoningShadowStore}
    (h : entryOf? hash session id (s.store hash now checked session ids reasoning) = some entry) :
    entry = ⟨reasoning, now⟩ ∧ (∃ other ∈ ids, hash other = hash id) ∨
    entryOf? hash session id s = some entry := by
  unfold ReasoningShadowStore.store at h
  split_ifs at h
  · exact .inr h
  · exact .inr h
  · have hput : entryOf? hash session id (putSession hash now session ids reasoning s) =
        some entry :=
      entryOf?_of_spares
        ((spares_enforceLimits session checked _).trans (spares_countActive session _)) h
    rw [entryOf?_putSession] at hput
    split_ifs at hput with hkey
    · obtain ⟨other, hother, hsame⟩ := List.mem_map.mp hkey
      exact .inl ⟨(Option.some.inj hput).symm, other, hother, congrArg ShadowKey.toolCall hsame⟩
    · exact .inr hput

/-- What a session has after a call, the call has stored or the session had before. -/
theorem entryOf?_of_perform {operation : Operation} {s : ReasoningShadowStore}
    (h : entryOf? hash session id (operation.perform hash s) = some entry) :
    Left hash [operation] session id entry ∨ entryOf? hash session id s = some entry := by
  by_cases hsession : operation.session = session
  · subst hsession
    cases operation with
    | store now checked session ids reasoning =>
      rcases entryOf?_of_store h with ⟨rfl, hid⟩ | hbefore
      · exact .inl ⟨checked, ids, List.mem_singleton_self _, hid⟩
      · exact .inr hbefore
    | restore now session ids => exact .inr (entryOf?_of_restore h)
    | clearSession session =>
      have hgone : entryOf? hash session id (s.clearSession session) = some entry := h
      unfold entryOf? at hgone
      rw [session?_clearSession] at hgone
      cases hgone
    | restoreInto clock body session =>
      have hkept : entryOf? hash session id (s.restoreInto hash clock body session).2 = some entry →
          entryOf? hash session id s = some entry :=
        keeps_restoreInto
          (fun later => entryOf? hash session id later = some entry →
          entryOf? hash session id s = some entry)
          (fun _ _ _ hs hlater => hs (entryOf?_of_restore hlater)) body fun hsame => hsame
      exact .inr (hkept h)
  · exact .inr (entryOf?_of_spares (spares_perform hash hsession s) h)

/-- Every entry of a store that started empty has been stored by a call for its session. -/
theorem left_of_entry? {history : List Operation} {limits : ShadowLimits}
    (h : entryOf? hash session id (performAll hash history (.new limits)) = some entry) :
    Left hash history session id entry := by
  induction history using List.reverseRecOn with
  | nil => cases h
  | append_singleton history operation ih =>
    have hlast : performAll hash (history ++ [operation]) (.new limits) =
        operation.perform hash (performAll hash history (.new limits)) := List.foldl_append
    rw [hlast] at h
    rcases entryOf?_of_perform h with ⟨checked, ids, hmem, hid⟩ | hbefore
    · exact ⟨checked, ids, List.mem_append_right _ hmem, hid⟩
    · obtain ⟨checked, ids, hmem, hid⟩ := ih hbefore
      exact ⟨checked, ids, List.mem_append_left _ hmem, hid⟩

end Operation
end Lobster.Shadow

namespace Lobster.Server
open Deepseek Shadow ReasoningShadowStore Session Tagged Text

def extractResponsesSession (request : Json) (headers : HeaderMap) : Option String :=
  ((request.getStr? "prompt_cache_key").filter fun key => key ≠ "") <|>
  headers.filled "x-grok-conv-id" <|> headers.filled "x-grok-session-id" <|>
  -- an empty session id is not passed over for the user id
  (((request.get? "metadata").bind Json.asObject).bind fun metadata =>
    (((metadata.get? "session_id").bind Json.asStr) <|>
      ((metadata.get? "user_id").bind Json.asStr)).filter
      fun id => id ≠ "")

inductive Handler where
  | messages
  | responses
  deriving DecidableEq

def Handler.domain : Handler → List UInt8
  | messages => sessionDomain
  | responses => toUtf8 "responses/v1".toList

structure Caller where
  handler : Handler
  headers : HeaderMap
  body : Json

namespace Caller
variable (mac : Mac) (secret : List UInt8)

def rawSession (caller : Caller) : Option String :=
  match caller.handler with
  | .messages => (sessionHint caller.headers caller.body).map Prod.fst
  | .responses => extractResponsesSession caller.body caller.headers

def sessionFp (caller : Caller) : Option String :=
  match caller.handler with
  | .messages =>
    (resolveAnthropicSession mac secret caller.headers caller.body).map ResolvedSession.fingerprint
  | .responses => (extractResponsesSession caller.body caller.headers).map
      (fingerprintDomain mac secret (toUtf8 "responses/v1".toList))

/-- The two requests are of one client session: of one front end, under one raw identifier. -/
def SameSession (a b : Caller) : Prop := a.handler = b.handler ∧ a.rawSession = b.rawSession

/-- The identifiers of the two requests differ, and their digests start with the same bytes. -/
def Confused (a b : Caller) : Prop :=
  ∃ raw more, a.rawSession = some raw ∧ b.rawSession = some more ∧
    Collide (mac.short secret 8) (domainInput a.handler.domain raw)
      (domainInput b.handler.domain more)

variable {mac secret} {a b : Caller} {fp : String}

theorem sessionFp_eq (caller : Caller) : caller.sessionFp mac secret =
    caller.rawSession.map (fingerprintDomain mac secret caller.handler.domain) := by
  obtain ⟨handler, headers, body⟩ := caller
  cases handler with
  | messages =>
    unfold sessionFp rawSession resolveAnthropicSession
    dsimp only
    rw [Option.map_map, Option.map_map]
    rfl
  | responses => rfl

theorem domain_unmarked (handler : Handler) : 0 ∉ handler.domain := by
  cases handler with
  | messages => exact sessionDomain_unmarked
  | responses => decide +kernel

theorem domain_injective : Function.Injective Handler.domain := by
  intro a b h
  cases a <;> cases b
  · rfl
  · exact absurd h (by decide +kernel)
  · exact absurd h (by decide +kernel)
  · rfl

/-- Requests under one fingerprint are of one session, unless their digests collide. -/
theorem sameSession_or_confused (ha : a.sessionFp mac secret = some fp)
    (hb : b.sessionFp mac secret = some fp) :
    SameSession a b ∨ Confused mac secret a b := by
  rw [sessionFp_eq] at ha hb
  obtain ⟨raw, hraw, hfp⟩ := Option.map_eq_some_iff.mp ha
  obtain ⟨more, hmore, hsame⟩ := Option.map_eq_some_iff.mp hb
  rcases eq_or_collide_of_fingerprint (domain_unmarked _) (domain_unmarked _)
    (hfp.trans hsame.symm) with
    ⟨hdomain, rfl⟩ | hcollide
  · exact .inl ⟨domain_injective hdomain, hraw.trans hmore.symm⟩
  · exact .inr ⟨raw, more, hraw, hmore, hcollide⟩

end Caller

/-- What a request does to the store: it is restored when it comes, and its answer is put in
the books. The requests of a server come and leave in any order. -/
inductive Visit where
  | arrive (caller : Caller) (clock : Nat → Nat) (chatBody : Fields)
  | leave (caller : Caller) (now checked : Nat) (update : Option ShadowUpdate)

namespace Visit
variable (hash : String → Fin (2 ^ 64)) (mac : Mac) (secret : List UInt8)

def operations : Visit → List Operation
  | arrive caller clock chatBody =>
    (caller.sessionFp mac secret).toList.map fun fp => .restoreInto clock chatBody fp
  | leave caller now checked (some (.store ids reasoning)) =>
    (caller.sessionFp mac secret).toList.map fun fp => .store now checked fp ids reasoning
  | leave caller _ _ (some .clear) =>
    (caller.sessionFp mac secret).toList.map fun fp => .clearSession fp
  | leave _ _ _ none => []

def storeAfter (limits : ShadowLimits) (visits : List Visit) : ReasoningShadowStore :=
  Operation.performAll hash (visits.flatMap (operations mac secret)) (.new limits)

variable {hash mac secret} {visits : List Visit} {caller : Caller} {fp : String}

theorem perform_arrive (serde : Serde) (caller : Caller) (clock : Nat → Nat) (chatBody : Fields)
    (store : ReasoningShadowStore) :
    Operation.performAll hash ((arrive caller clock chatBody).operations mac secret) store =
      (prepareBody hash serde clock (caller.sessionFp mac secret) chatBody store).2 := by
  show Operation.performAll hash ((caller.sessionFp mac secret).toList.map _) store = _
  cases caller.sessionFp mac secret <;> rfl

theorem perform_leave (h : caller.sessionFp mac secret = some fp) (now checked : Nat)
    (update : Option ShadowUpdate) (store : ReasoningShadowStore) :
    Operation.performAll hash ((leave caller now checked update).operations mac secret) store =
      applyUpdate hash now checked fp update store := by
  rcases update with _ | ⟨ids, reasoning⟩ | _
  · rfl
  · rw [operations, h]
    rfl
  · rw [operations, h]
    rfl

def LeftBy (hash : String → Fin (2 ^ 64)) (visits : List Visit) (author : Caller) (message : Json)
    (reasoning : String) :
    Prop :=
  ∃ now checked ids, leave author now checked (some (.store ids reasoning)) ∈ visits ∧
    ∃ own ∈ ids, ∃ id ∈ messageIds message, hash own = hash id

/-- What a request may be given back: nothing, or what an answer to the same client session has
left for a call of the message. An answer to another session comes in only when the digests of
the two identifiers collide. -/
def GivenBack (hash : String → Fin (2 ^ 64)) (mac : Mac) (secret : List UInt8)
    (visits : List Visit) (caller : Caller) (message after : Json) : Prop :=
  after = message ∨ ∃ reasoning author, after = message.set "reasoning_content" (.str reasoning) ∧
    LeftBy hash visits author message reasoning ∧
    (author.SameSession caller ∨ author.Confused mac secret caller)

theorem leave_of_store {now checked : Nat} {ids : List String} {reasoning : String}
    (h : Operation.store now checked fp ids reasoning ∈ visits.flatMap (operations mac secret)) :
    ∃ author, author.sessionFp mac secret = some fp ∧
      leave author now checked (some (.store ids reasoning)) ∈ visits := by
  obtain ⟨visit, hvisit, hmem⟩ := List.mem_flatMap.mp h
  rcases visit with ⟨author, clock, chatBody⟩ |
    ⟨author, leftAt, leftChecked, _ | ⟨leftIds, left⟩ | _⟩
  all_goals
    unfold operations at hmem
    cases hfp : author.sessionFp mac secret <;> simp [hfp] at hmem
  obtain ⟨rfl, rfl, rfl, rfl, rfl⟩ := hmem
  exact ⟨author, hfp, hvisit⟩

/-- Whatever has happened before, a request is given back only the reasoning of its own session. -/
theorem restored_is_own (hash : String → Fin (2 ^ 64)) (limits : ShadowLimits) (visits : List Visit)
    (caller : Caller)
    (clock : Nat → Nat) (chatBody : Fields) (messages : List Json)
    (hmessages : chatBody.get? "messages" = some (.arr messages))
      (hfp : caller.sessionFp mac secret = some fp) :
    ∃ restored, (restoreInto hash clock chatBody fp (storeAfter hash mac secret limits visits)).1 =
        chatBody.insert "messages" (.arr restored) ∧
      List.Forall₂ (GivenBack hash mac secret visits caller) messages restored := by
  obtain ⟨restored, hbody, hrecalled⟩ := recalled_restoreInto hash clock hmessages fp
    (storeAfter hash mac secret limits visits)
  refine ⟨restored, hbody, hrecalled.imp ?_⟩
  rintro message after (hsame | ⟨id, hid, entry, hentry, hafter⟩)
  · exact .inl hsame
  · right
    obtain ⟨checked, ids, hstored, own, hown, hhash⟩ := Operation.left_of_entry? hentry
    obtain ⟨author, hauthor, hleft⟩ := leave_of_store hstored
    exact ⟨entry.reasoning, author, hafter,
      ⟨entry.created, checked, ids, hleft, own, hown, id, hid, hhash⟩,
      Caller.sameSession_or_confused hauthor hfp⟩

def userMac : Mac :=
  ⟨fun _ _ => [118, 53, 22, 188, 177, 103, 127, 214, 212, 156, 247, 196, 26, 79, 240, 118,
  104, 133, 2, 225, 13, 188, 194, 239, 107, 228, 172, 80, 37, 170, 82, 181], fun _ _ => rfl⟩

def userCaller : Caller := ⟨.messages, [], .obj [("metadata", .obj [("user_id", .str "user-1")])]⟩

def userTurns : List Json :=
  [.obj [("role", .str "user")],
  .obj [("role", .str "assistant"), ("tool_calls", .arr [.obj [("id", .str "call_1")]])]]

theorem restored_is_own_user :
    let visits :=
      [arrive userCaller (fun _ => 0) [], leave userCaller 1 1 (some (.store ["call_1"] "Plan"))]
    ∃ restored,
      (restoreInto Operation.lengthHash (fun _ => 2) [("messages", .arr userTurns)]
        "763516bcb1677fd6" (storeAfter Operation.lengthHash userMac (toUtf8 "secret".toList)
          Operation.smallLimits visits)).1 =
        Fields.insert "messages" (.arr restored) [("messages", .arr userTurns)] ∧
      List.Forall₂ (GivenBack Operation.lengthHash userMac (toUtf8 "secret".toList) visits
        userCaller) userTurns restored :=
  restored_is_own Operation.lengthHash Operation.smallLimits _ userCaller _ _ _ rfl
    (by decide +kernel)

end Visit
end Lobster.Server
