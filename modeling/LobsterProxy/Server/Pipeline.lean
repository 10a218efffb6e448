import LobsterProxy.Deepseek.Canonical
import LobsterProxy.Server.Shadowing
import LobsterProxy.Shadow.Accounting

/-! The request policy on a chat body: the restore from the shadow store, the strip of the
history and its canonical arguments. What the three leave alone, and that the first two may
change places. -/

namespace Lobster.Server
open Deepseek Shadow ReasoningShadowStore Leading Json

section
variable (hash : String → Fin (2 ^ 64))

def restoreSession (clock : Nat → Nat) (session : Option String) (body : Fields)
    (store : ReasoningShadowStore) :
    Fields × ReasoningShadowStore :=
  match session with
  | some session => restoreInto hash clock body session store
  | none => (body, store)

def runPolicy (serde : Serde) (clock : Nat → Nat) (session : Option String) (body : Fields)
    (store : ReasoningShadowStore) : Fields × ReasoningShadowStore :=
  let (prepared, store) := prepareBody hash serde clock session body store
  ((canonicalizeToolArguments serde prepared).1, store)

def runPolicyStripFirst (serde : Serde) (clock : Nat → Nat) (session : Option String)
    (body : Fields) (store : ReasoningShadowStore) : Fields × ReasoningShadowStore :=
  let (restored, store) :=
    restoreSession hash clock session (stripHistoricalReasoning serde body).1 store
  ((canonicalizeToolArguments serde restored).1, store)

end

section Frames

/-- One string for another in the arguments. -/
def SameFunction : Json → Json → Prop :=
  Memberwise fun key old new => old = new ∨
    key = "arguments" ∧ ∃ before after, old = some (.str before) ∧ new = some (.str after)

def SameCall : Json → Json → Prop :=
  Memberwise fun key old new => old = new ∨ key = "function" ∧ Option.Rel SameFunction old new

/-- The same but for the reasoning and the arguments of the calls. -/
def SameMessage : Json → Json → Prop :=
  Memberwise fun key old new => key = "reasoning_content" ∨ old = new ∨
    key = "tool_calls" ∧ Option.Rel (Elementwise SameCall) old new

/-- The same but for what may change in the messages. -/
def SameBody : Json → Json → Prop :=
  Memberwise fun key old new => old = new ∨ key = "messages" ∧
  Option.Rel (Elementwise SameMessage) old new

def SameButReasoning : Json → Json → Prop :=
  Memberwise fun key old new => key = "reasoning_content" ∨ old = new

def SameButCalls : Json → Json → Prop :=
  Memberwise fun key old new => old = new ∨ key = "tool_calls" ∧
  Option.Rel (Elementwise SameCall) old new

variable {u v w : Json}

theorem SameButReasoning.trans (h : SameButReasoning u v) (h' : SameButReasoning v w) :
    SameButReasoning u w := by
  refine Memberwise.comp h h' (fun _ _ _ hkey => hkey) (fun _ _ _ hkey => hkey)
    fun key a b c hab hbc => ?_
  rcases hab with hkey | rfl
  · exact .inl hkey
  · exact hbc

theorem SameButReasoning.calls (h : SameButReasoning u v) (h' : SameButCalls v w) :
    SameMessage u w := by
  refine Memberwise.comp h h' (fun _ _ _ hkey => hkey.imp_right .inl) (fun _ _ _ hkey => .inr hkey)
    fun key a b c hab hbc => ?_
  rcases hab with hkey | rfl
  · exact .inl hkey
  · exact .inr hbc

theorem SameButReasoning.get? (h : SameButReasoning v w) {key : String}
    (hkey : "reasoning_content" ≠ key) :
    w.get? key = v.get? key := by
  rcases Memberwise.get? h (fun _ _ => .inr rfl) key with hreasoning | hsame
  · exact absurd hreasoning.symm hkey
  · exact hsame.symm

theorem SameButReasoning.isUserMessage (h : SameButReasoning v w) :
    isUserMessage w = isUserMessage v := by
  unfold Deepseek.isUserMessage Json.getStr?
  rw [h.get? (by decide)]

end Frames

section Arguments
variable (serde : Serde)

theorem sameCall_canonicalizeCall (call : Json) :
    SameCall call (canonicalizeCall serde call).1 := by
  unfold canonicalizeCall
  split
  · next function hfunction =>
    cases harguments : (Fields.get? function "arguments").bind Json.asStr with
    | none => exact .same _
    | some arguments =>
      dsimp only
      cases serde.fromStr arguments with
      | none => exact .same _
      | some parsed =>
        dsimp only
        split_ifs
        · refine memberwise_set (fun _ _ => .inl rfl) call _ (.inr ⟨rfl, ?_⟩)
          rw [hfunction]
          refine .some
            (memberwise_set (fun _ _ => .inl rfl) (.obj function) _
            (.inr ⟨rfl, arguments, _, ?_, rfl⟩))
          obtain ⟨value, hvalue, htext⟩ := Option.bind_eq_some_iff.mp harguments
          cases value with
          | str text =>
            cases htext
            exact hvalue
          | _ => cases htext
        · exact .same _
  · exact .same _

theorem sameButCalls_canonicalizeMessage (message : Json) :
    SameButCalls message (canonicalizeMessage serde message).1 := by
  unfold canonicalizeMessage
  split_ifs
  · split
    · next calls hcalls =>
      refine memberwise_set (fun _ _ => .inl rfl) message _ (.inr ⟨rfl, ?_⟩)
      rw [hcalls, List.map_map]
      refine .some
        (.elements _ _ (List.forall₂_map_right_iff.mpr (List.forall₂_same.mpr fun call _ => ?_)))
      exact sameCall_canonicalizeCall serde call
    · exact .same _
  · exact .same _

theorem get?_canonicalizeMessage (message : Json) {key : String} (h : "tool_calls" ≠ key) :
    (canonicalizeMessage serde message).1.get? key = message.get? key := by
  rcases Memberwise.get? (sameButCalls_canonicalizeMessage serde message)
    (fun _ _ => .inl rfl) key with hsame | hcalls
  · exact hsame.symm
  · exact absurd hcalls.1.symm h

end Arguments

section Reasoning
variable {hash : String → Fin (2 ^ 64)} {serde : Serde} {clock : Nat → Nat} {messages : List Json}
    {message : Json}

theorem sameButReasoning_restoreMessage (hash : String → Fin (2 ^ 64)) (now : Nat)
    (session : String) (message : Json) (store : ReasoningShadowStore) :
    SameButReasoning message (restoreMessage hash now session message store).1 := by
  unfold restoreMessage
  split_ifs
  · cases (message.get? "tool_calls").bind Json.asArray with
    | none => exact .same _
    | some calls =>
      dsimp only
      cases (restore hash now session (callIds calls) store).1 with
      | none => exact .same _
      | some reasoning => exact memberwise_set (fun _ _ => .inr rfl) message _ (.inl rfl)
  · exact .same _

theorem restoreMessage_own {own : Json} (h : message.get? "reasoning_content" = some own)
    (now : Nat)
    (session : String) (store : ReasoningShadowStore) :
    restoreMessage hash now session message store = (message, store) := by
  unfold restoreMessage
  rw [h]
  simp

theorem sameButReasoning_restoreMessages (clock : Nat → Nat) (session : String) (index : Nat)
    (messages : List Json) (store : ReasoningShadowStore) :
    List.Forall₂ SameButReasoning messages
      (restoreMessages hash clock session index messages store).1 := by
  induction messages generalizing index store with
  | nil => exact .nil
  | cons message rest ih =>
    exact .cons (sameButReasoning_restoreMessage hash (clock index) session message store) (ih _ _)

theorem restoreMessages_own {own : Json} {i : Nat} (hmessage : messages[i]? = some message)
    (hown : message.get? "reasoning_content" = some own) (clock : Nat → Nat) (session : String)
      (index : Nat)
    (store : ReasoningShadowStore) :
    (restoreMessages hash clock session index messages store).1[i]? = some message := by
  induction messages generalizing i index store with
  | nil => cases hmessage
  | cons first rest ih =>
    cases i with
    | zero =>
      cases hmessage
      show some (restoreMessage hash (clock index) session message store).1 = some message
      rw [restoreMessage_own hown]
    | succ i => exact ih hmessage _ _

theorem sameButReasoning_stripReasoning (serde : Serde)
    (hdistinct : ∀ fields, message = .obj fields → Fields.Distinct fields) :
    SameButReasoning message (stripReasoning serde message).1 := by
  unfold stripReasoning
  split
  · next fields reasoning hreasoning =>
    split_ifs
    · refine .members fields _ fun key => ?_
      rw [Fields.get?_swapRemove (hdistinct fields rfl)]
      split_ifs with hkey
      · exact .inl hkey.symm
      · exact .inr rfl
    · exact .same _
  · exact .same _

theorem isUserMessage_of_forall₂ {xs ys : List Json} (h : List.Forall₂ SameButReasoning xs ys) :
    xs.map isUserMessage = ys.map isUserMessage := by
  induction h with
  | nil => rfl
  | cons hfirst _ ih => rw [List.map_cons, List.map_cons, hfirst.isUserMessage, ih]

def restoreList (hash : String → Fin (2 ^ 64)) (clock : Nat → Nat) (session : Option String)
    (messages : List Json) (store : ReasoningShadowStore) : List Json × ReasoningShadowStore :=
  match session with
  | some session =>
    let boundary := reasoningEpochBoundary messages
    let restored := restoreMessages hash clock session boundary (messages.drop boundary) store
    (messages.take boundary ++ restored.1, restored.2)
  | none => (messages, store)

variable {session : Option String} {store : ReasoningShadowStore}

theorem sameButReasoning_restoreList (hash : String → Fin (2 ^ 64)) (clock : Nat → Nat)
    (session : Option String) (messages : List Json) (store : ReasoningShadowStore) :
    List.Forall₂ SameButReasoning messages (restoreList hash clock session messages store).1 := by
  cases session with
  | none => exact List.forall₂_same.mpr fun m _ => .same m
  | some session =>
    have hbefore : List.Forall₂ SameButReasoning (messages.take (reasoningEpochBoundary messages))
        (messages.take (reasoningEpochBoundary messages)) :=
          List.forall₂_same.mpr fun m _ => .same m
    have hafter : List.Forall₂ SameButReasoning (messages.drop (reasoningEpochBoundary messages))
        (restoreMessages hash clock session (reasoningEpochBoundary messages)
          (messages.drop (reasoningEpochBoundary messages)) store).1 :=
      sameButReasoning_restoreMessages clock session _ _ store
    have hboth := List.rel_append hbefore hafter
    dsimp only at hboth
    rw [List.take_append_drop] at hboth
    exact hboth

theorem sameButReasoning_strippedMessages (serde : Serde)
    (hdistinct : ∀ m ∈ messages, ∀ fields, m = .obj fields → Fields.Distinct fields) :
    List.Forall₂ SameButReasoning messages (strippedMessages serde messages) :=
  forall₂_mapFirst (fun m => .same m)
    (fun m hm => sameButReasoning_stripReasoning serde (hdistinct m hm)) _

theorem getElem?_restoreList_before (hash : String → Fin (2 ^ 64)) (clock : Nat → Nat)
    (session : Option String) (store : ReasoningShadowStore) {i : Nat}
    (h : i < reasoningEpochBoundary messages) :
    (restoreList hash clock session messages store).1[i]? = messages[i]? := by
  cases session with
  | none => rfl
  | some session =>
    have hle := reasoningEpochBoundary_le messages
    show (messages.take _ ++ _)[i]? = _
    rw [List.getElem?_append_left (by rw [List.length_take]; omega), List.getElem?_take, if_pos h]

theorem getElem?_restoreList_own (hash : String → Fin (2 ^ 64)) (clock : Nat → Nat)
    (session : Option String)
    (store : ReasoningShadowStore) {i : Nat} {own : Json} (h : reasoningEpochBoundary messages ≤ i)
    (hmessage : messages[i]? = some message) (hown : message.get? "reasoning_content" = some own) :
    (restoreList hash clock session messages store).1[i]? = some message := by
  cases session with
  | none => exact hmessage
  | some session =>
    have hle := reasoningEpochBoundary_le messages
    have hlength : (messages.take (reasoningEpochBoundary messages)).length =
        reasoningEpochBoundary messages := by
      rw [List.length_take, Nat.min_eq_left hle]
    show (messages.take _ ++ (restoreMessages _ _ _ _ _ _).1)[i]? = _
    rw [List.getElem?_append_right (by rw [hlength]; exact h), hlength]
    refine restoreMessages_own ?_ hown clock session _ store
    rw [List.getElem?_drop, Nat.add_sub_cancel' h]
    exact hmessage

/-- Strip and restore work on either side of the boundary, which neither moves. -/
theorem strippedMessages_restoreList (serde : Serde)
    (hdistinct : ∀ m ∈ messages, ∀ fields, m = .obj fields → Fields.Distinct fields) :
    restoreList hash clock session (strippedMessages serde messages) store =
      (strippedMessages serde (restoreList hash clock session messages store).1,
        (restoreList hash clock session messages store).2) := by
  have hrestored := reasoningEpochBoundary_congr
    (isUserMessage_of_forall₂ (sameButReasoning_restoreList hash clock session messages store))
  have hstripped := reasoningEpochBoundary_congr
    (isUserMessage_of_forall₂ (sameButReasoning_strippedMessages serde hdistinct))
  have hle := reasoningEpochBoundary_le messages
  cases session with
  | none => rfl
  | some session =>
    have hlength : (messages.take (reasoningEpochBoundary messages)).length =
        reasoningEpochBoundary messages := by
      rw [List.length_take, Nat.min_eq_left hle]
    have htake : (strippedMessages serde messages).take (reasoningEpochBoundary messages) =
        (messages.take (reasoningEpochBoundary messages)).map fun m => (stripReasoning serde m).1 :=
      List.take_left' (by rw [List.length_map, hlength])
    have hdrop : (strippedMessages serde messages).drop (reasoningEpochBoundary messages) =
        messages.drop (reasoningEpochBoundary messages) :=
          List.drop_left' (by rw [List.length_map, hlength])
    have hfirst (rest : List Json) : mapFirst (fun m => (stripReasoning serde m).1)
        (reasoningEpochBoundary messages)
        (messages.take (reasoningEpochBoundary messages) ++ rest) =
        (messages.take (reasoningEpochBoundary messages)).map
          (fun m => (stripReasoning serde m).1) ++ rest := by
      rw [mapFirst_append hlength.ge, mapFirst, List.take_of_length_le hlength.le,
        List.drop_of_length_le hlength.le, List.append_nil]
    unfold restoreList at hrestored ⊢
    dsimp only at hrestored ⊢
    rw [← hstripped, htake, hdrop]
    conv_rhs => rw [strippedMessages, ← hrestored, hfirst]

end Reasoning

section Bodies
variable {hash : String → Fin (2 ^ 64)} {serde : Serde} {clock : Nat → Nat}
    {session : Option String} {body : Fields}
  {store : ReasoningShadowStore} {messages : List Json} {message : Json}

theorem prepareBody_eq : prepareBody hash serde clock session body store =
    ((stripHistoricalReasoning serde (restoreSession hash clock session body store).1).1,
      (restoreSession hash clock session body store).2) := by
  cases session <;> rfl

theorem restoreSession_eq (h : body.get? "messages" = some (.arr messages)) :
    restoreSession hash clock session body store =
      (body.insert "messages" (.arr (restoreList hash clock session messages store).1),
        (restoreList hash clock session messages store).2) := by
  cases session with
  | none => exact Prod.ext (Fields.insert_of_get? h).symm rfl
  | some session =>
    show restoreInto hash clock body session store = _
    unfold restoreInto
    rw [h]
    rfl

theorem stripHistoricalReasoning_eq (h : body.get? "messages" = some (.arr messages)) :
    (stripHistoricalReasoning serde body).1 =
      body.insert "messages" (.arr (strippedMessages serde messages)) := by
  unfold stripHistoricalReasoning strippedMessages mapFirst
  rw [h, Option.bind_some, Json.asArray_arr]
  dsimp only
  rw [List.map_map]
  rfl

theorem canonicalizeToolArguments_eq (h : body.get? "messages" = some (.arr messages)) :
    (canonicalizeToolArguments serde body).1 =
      body.insert "messages" (.arr (canonicalMessages serde messages)) := by
  unfold canonicalizeToolArguments canonicalMessages
  rw [h, Option.bind_some, Json.asArray_arr]
  dsimp only
  cases rposition isUserOrTool messages with
  | none => exact (Fields.insert_of_get? h).symm
  | some lastAction =>
    unfold mapFirst
    dsimp only
    rw [Option.getD_some, List.map_map]
    rfl

theorem runPolicy_eq (h : body.get? "messages" = some (.arr messages)) :
    runPolicy hash serde clock session body store =
      (body.insert "messages" (.arr (canonicalMessages serde
          (strippedMessages serde (restoreList hash clock session messages store).1))),
        (restoreList hash clock session messages store).2) := by
  unfold runPolicy
  rw [prepareBody_eq, restoreSession_eq h]
  dsimp only
  rw [stripHistoricalReasoning_eq (Fields.get?_insert_self ..), Fields.insert_insert,
    canonicalizeToolArguments_eq (Fields.get?_insert_self ..), Fields.insert_insert]

theorem runPolicyStripFirst_eq (h : body.get? "messages" = some (.arr messages))
    (hdistinct : ∀ m ∈ messages, ∀ fields, m = .obj fields → Fields.Distinct fields) :
    runPolicyStripFirst hash serde clock session body store =
      runPolicy hash serde clock session body store := by
  rw [runPolicy_eq h]
  unfold runPolicyStripFirst
  rw [stripHistoricalReasoning_eq h, restoreSession_eq (Fields.get?_insert_self ..)]
  dsimp only
  rw [Fields.insert_insert, canonicalizeToolArguments_eq (Fields.get?_insert_self ..),
    Fields.insert_insert, strippedMessages_restoreList serde hdistinct]

theorem policy_of_no_messages (hash : String → Fin (2 ^ 64)) (serde : Serde) (clock : Nat → Nat)
    (session : Option String) (store : ReasoningShadowStore)
      (h : (body.get? "messages").bind Json.asArray = none) :
    runPolicy hash serde clock session body store = (body, store) ∧
      runPolicyStripFirst hash serde clock session body store = (body, store) := by
  have hrestore : restoreSession hash clock session body store = (body, store) := by
    cases session with
    | none => rfl
    | some session =>
      show restoreInto hash clock body session store = _
      unfold restoreInto
      rw [h]
  have hstrip : (stripHistoricalReasoning serde body).1 = body := by
    unfold stripHistoricalReasoning
    rw [h]
  have hcanonical : (canonicalizeToolArguments serde body).1 = body := by
    unfold canonicalizeToolArguments
    rw [h]
  constructor
  · unfold runPolicy
    rw [prepareBody_eq, hrestore]
    dsimp only
    rw [hstrip, hcanonical]
  · unfold runPolicyStripFirst
    rw [hstrip, hrestore]
    dsimp only
    rw [hcanonical]

theorem sameMessage_applied (hash : String → Fin (2 ^ 64)) (clock : Nat → Nat)
    (session : Option String) (store : ReasoningShadowStore)
    (hdistinct : ∀ m ∈ messages, ∀ fields, m = .obj fields → Fields.Distinct fields) :
    List.Forall₂ SameMessage messages (canonicalMessages serde
      (strippedMessages serde (restoreList hash clock session messages store).1)) := by
  have hswap : (restoreList hash clock session (strippedMessages serde messages) store).1 =
      strippedMessages serde (restoreList hash clock session messages store).1 :=
    congrArg Prod.fst (strippedMessages_restoreList serde hdistinct)
  rw [← hswap]
  have hreasoning : List.Forall₂ SameButReasoning messages
      (restoreList hash clock session (strippedMessages serde messages) store).1 :=
    forall₂_comp (fun _ _ _ h h' => h.trans h') (sameButReasoning_strippedMessages serde hdistinct)
      (sameButReasoning_restoreList hash clock session _ store)
  exact forall₂_comp (fun _ _ _ h h' => h.calls h') hreasoning
    (forall₂_mapFirst (fun m => .same m) (fun m _ => sameButCalls_canonicalizeMessage serde m) _)

theorem getElem?_canonicalMessages (serde : Serde) {i : Nat}
    (hmessage : messages[i]? = some message) :
    ∃ message', (canonicalMessages serde messages)[i]? = some message' ∧
      message'.get? "reasoning_content" = message.get? "reasoning_content" := by
  unfold canonicalMessages
  rw [getElem?_mapFirst, hmessage]
  split_ifs
  · exact ⟨_, rfl, get?_canonicalizeMessage serde message (by decide)⟩
  · exact ⟨message, rfl, rfl⟩

/-- An assistant message before the boundary ends without reasoning, one behind it with its
own. -/
theorem reasoning_applied (hash : String → Fin (2 ^ 64)) (serde : Serde) (clock : Nat → Nat)
    (session : Option String) (store : ReasoningShadowStore) {i : Nat}
    (hmessage : messages[i]? = some message) (hrole : isAssistantMessage message = true)
    (hdistinct : ∀ fields, message = .obj fields → Fields.Distinct fields) :
    ∃ message', (canonicalMessages serde
        (strippedMessages serde (restoreList hash clock session messages store).1))[i]? =
          some message' ∧
      (i < reasoningEpochBoundary messages → message'.get? "reasoning_content" = none) ∧
      (reasoningEpochBoundary messages ≤ i → ∀ own, message.get? "reasoning_content" = some own →
        message'.get? "reasoning_content" = some own) := by
  have hboundary := reasoningEpochBoundary_congr
    (isUserMessage_of_forall₂ (sameButReasoning_restoreList hash clock session messages store))
  have hlength := (sameButReasoning_restoreList hash clock session messages store).length_eq
  obtain ⟨hi, -⟩ := List.getElem?_eq_some_iff.mp hmessage
  have hread := List.getElem?_eq_getElem (hlength ▸ hi)
  generalize (restoreList hash clock session messages store).1[i] = restored at hread
  have hstripped : (strippedMessages serde (restoreList hash clock session messages store).1)[i]? =
      some (if i < reasoningEpochBoundary messages then
      (stripReasoning serde restored).1 else restored) := by
    rw [strippedMessages, getElem?_mapFirst, ← hboundary, hread]
    split_ifs <;> rfl
  obtain ⟨message', hmessage', hreasoning⟩ := getElem?_canonicalMessages serde hstripped
  refine ⟨message', hmessage', fun hbefore => ?_, fun hafter own hown => ?_⟩
  · have hsame := getElem?_restoreList_before hash clock session store hbefore
    rw [hread, hmessage] at hsame
    cases hsame
    rw [hreasoning, if_pos hbefore, get?_stripReasoning serde hdistinct, if_pos ⟨hrole, rfl⟩]
  · have hsame := getElem?_restoreList_own hash clock session store hafter hmessage hown
    rw [hread] at hsame
    cases hsame
    rw [hreasoning, if_neg (Nat.not_lt.mpr hafter)]
    exact hown

end Bodies

/-- The policy changes nothing but reasoning and arguments. Afterwards no assistant message
before the newest user message has reasoning, one behind it has what it came with; and
the strip may come before the restore. -/
theorem runPolicy_frame (hash : String → Fin (2 ^ 64)) (serde : Serde) (clock : Nat → Nat)
    (session : Option String) (body : Fields) (store : ReasoningShadowStore)
    (hdistinct : Json.distinct (.obj body) = true) :
    let sent := (runPolicy hash serde clock session body store).1
    SameBody (.obj body) (.obj sent) ∧
    (∀ messages, body.get? "messages" = some (.arr messages) → ∃ messages',
      Fields.get? sent "messages" = some (.arr messages') ∧
      ∀ before message after, messages = before ++ message :: after →
      isAssistantMessage message = true →
        ∃ message', messages'[before.length]? = some message' ∧
          ((∃ m ∈ after, isUserMessage m = true) ∨ (∀ m ∈ messages, isUserMessage m = false) →
            message'.get? "reasoning_content" = none) ∧
          (¬ ((∃ m ∈ after, isUserMessage m = true) ∨ ∀ m ∈ messages, isUserMessage m = false) →
            ∀ own, message.get? "reasoning_content" = some own →
              message'.get? "reasoning_content" = some own)) ∧
    runPolicyStripFirst hash serde clock session body store =
      runPolicy hash serde clock session body store := by
  intro sent
  cases hmessages : (body.get? "messages").bind Json.asArray with
  | none =>
    obtain ⟨hpolicy, hstripFirst⟩ := policy_of_no_messages hash serde clock session store hmessages
    have hsent : sent = body := congrArg Prod.fst hpolicy
    refine ⟨hsent ▸ .same _, fun messages h => ?_, hstripFirst.trans hpolicy.symm⟩
    rw [h] at hmessages
    cases hmessages
  | some messages =>
    obtain ⟨value, hvalue, harray⟩ := Option.bind_eq_some_iff.mp hmessages
    obtain rfl := Json.asArray_eq_some.mp harray
    have hobjects : ∀ m ∈ messages, ∀ fields, m = .obj fields → Fields.Distinct fields := by
      rintro m hm fields rfl
      exact Json.distinct_obj (Json.distinct_of_mem (Json.distinct_of_get? hdistinct hvalue) hm)
    have hsent : sent = body.insert "messages" (.arr (canonicalMessages serde
        (strippedMessages serde (restoreList hash clock session messages store).1))) :=
      congrArg Prod.fst (runPolicy_eq hvalue)
    refine ⟨?_, ?_, runPolicyStripFirst_eq hvalue hobjects⟩
    · rw [hsent]
      refine memberwise_set (fun _ _ => .inl rfl) (.obj body) _ (.inr ⟨rfl, ?_⟩)
      rw [Json.get?_obj, hvalue]
      exact .some (.elements _ _ (sameMessage_applied hash clock session store hobjects))
    · intro conversation hconversation
      rw [hvalue] at hconversation
      cases hconversation
      refine ⟨_, hsent ▸ Fields.get?_insert_self .., ?_⟩
      rintro before message after rfl hrole
      have hother : isUserMessage message = false := by
        unfold isUserMessage
        rw [of_decide_eq_true hrole]
        rfl
      have hplace : before.length < reasoningEpochBoundary (before ++ message :: after) ↔ _ :=
        lt_rposition_iff hother
      have hmember : message ∈ before ++ message :: after :=
        List.mem_append_right _ List.mem_cons_self
      have hread : (before ++ message :: after)[before.length]? = some message := by simp
      obtain ⟨message', hmessage', hbefore, hbehind⟩ :=
        reasoning_applied hash serde clock session store hread hrole (hobjects message hmember)
      exact ⟨message', hmessage', fun h => hbefore (hplace.mpr h),
        fun h => hbehind (Nat.not_lt.mp fun hlt => h (hplace.mp hlt))⟩

def reasoned (text : Json) : Json := .obj [("role", .str "assistant"), ("reasoning_content", text)]

def reasonedBody : Fields :=
  [("messages", .arr [reasoned (.obj []), turn "user" "hi", reasoned (.str "so")])]

open Shadow.Operation in
theorem runPolicy_frame_reasoned :
    let sent := (runPolicy lengthHash .emptyObject id (some "s") reasonedBody (.new smallLimits)).1
    SameBody (.obj reasonedBody) (.obj sent) ∧
    (∃ messages' old new, Fields.get? sent "messages" = some (.arr messages') ∧
      messages'[0]? = some old ∧ old.get? "reasoning_content" = none ∧
      messages'[2]? = some new ∧ new.get? "reasoning_content" = some (.str "so")) ∧
    runPolicyStripFirst lengthHash .emptyObject id (some "s") reasonedBody (.new smallLimits) =
      runPolicy lengthHash .emptyObject id (some "s") reasonedBody (.new smallLimits) := by
  obtain ⟨hsame, hmessages, hcommute⟩ :=
    runPolicy_frame lengthHash .emptyObject id (some "s") reasonedBody
    (.new smallLimits) (by decide +kernel)
  obtain ⟨messages', hsent, heach⟩ := hmessages _ rfl
  obtain ⟨old, hold, hstripped, -⟩ := heach [] _ _ rfl rfl
  obtain ⟨new, hnew, -, hkept⟩ :=
    heach [reasoned (.obj []), turn "user" "hi"] (reasoned (.str "so")) [] rfl rfl
  refine ⟨hsame,
    ⟨messages', old, new, hsent, hold,
      hstripped (.inl ⟨turn "user" "hi", List.mem_cons_self, rfl⟩), hnew, hkept ?_ _ rfl⟩,
    hcommute⟩
  -- no user speaks after the last message, and one did before
  rintro (⟨m, hm, -⟩ | hnone)
  · cases hm
  · exact Bool.noConfusion (hnone (turn "user" "hi") (List.mem_cons_of_mem _ List.mem_cons_self))

end Lobster.Server
