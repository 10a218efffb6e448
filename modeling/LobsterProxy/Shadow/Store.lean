import LobsterProxy.Base.SortedMap
import LobsterProxy.Deepseek.Epoch
import Mathlib.Data.List.DropRight
import Mathlib.Data.Prod.Lex
import Mathlib.Order.Fin.Basic
import Mathlib.Data.List.Lex
import Mathlib.Data.String.Basic

/-! The reasoning shadow store: what the tool loops of the sessions have thought, by session
and tool-call id, bounded and in memory only. -/

namespace Lobster.Shadow
open Deepseek

/-- The first bytes of the fingerprint and the hash of a tool-call id. -/
structure ShadowKey where
  session : List (Fin 256)
  toolCall : Fin (2 ^ 64)
  deriving DecidableEq, Repr

namespace ShadowKey

def order (key : ShadowKey) : List (Fin 256) ×ₗ Fin (2 ^ 64) := toLex (key.session, key.toolCall)

theorem order_injective : Function.Injective order := by
  rintro ⟨s, t⟩ ⟨s', t'⟩ h
  obtain ⟨rfl, rfl⟩ := Prod.mk.inj (toLex.injective h)
  rfl

instance : LinearOrder ShadowKey := LinearOrder.lift' order order_injective

end ShadowKey

/-- Instants and durations are natural numbers; a duration since a later instant is zero. -/
structure ShadowEntry where
  reasoning : String
  created : Nat
  deriving DecidableEq, Repr

structure ShadowMetrics where
  stores : Nat
  restores : Nat
  misses : Nat
  evictedEntries : Nat
  droppedOversized : Nat
  activeEntries : Nat
  deriving DecidableEq, Repr

structure ShadowLimits where
  maxSessions : Nat
  maxTotalBytes : Nat
  maxEntryBytes : Nat
  ttl : Nat
  deriving DecidableEq, Repr

structure SessionState where
  entries : SortedMap ShadowKey ShadowEntry
  bytes : Nat
  deriving DecidableEq

structure ShadowInner where
  sessions : SortedMap String SessionState
  lru : List String
  totalBytes : Nat

structure ReasoningShadowStore where
  inner : ShadowInner
  limits : ShadowLimits
  metrics : ShadowMetrics

def usizeMax : Nat := 2 ^ 64 - 1

def saturatingAdd (a b : Nat) : Nat := min (a + b) usizeMax

def saturatingMul (a b : Nat) : Nat := min (a * b) usizeMax

def hexDigit? (b : UInt8) : Option Nat :=
  if 48 ≤ b ∧ b ≤ 57 then some (b.toNat - 48)
  else if 97 ≤ b ∧ b ≤ 102 then some (b.toNat - 87)
  else if 65 ≤ b ∧ b ≤ 70 then some (b.toNat - 55)
  else none

/-- `u8::from_str_radix(.., 16)` on at most two bytes: a plus sign may come first. -/
def fromStrRadix16 (bytes : List UInt8) : Option Nat :=
  let digits := match bytes with
    | 43 :: digits => digits
    | digits => digits
  if digits.isEmpty then none
  else digits.foldlM (fun value b => (hexDigit? b).map fun digit => 16 * value + digit) 0

/-- Whether one or two bytes are whole characters. -/
def isUtf8Chunk : List UInt8 → Bool
  | [b] => b < 128
  | [b, c] => (b < 128 && c < 128) || (194 ≤ b && b ≤ 223 && 128 ≤ c && c ≤ 191)
  | _ => false

def keyByte (index : Nat) (chunk : List UInt8) : Fin 256 :=
  if isUtf8Chunk chunk then Fin.ofNat 256 ((fromStrRadix16 chunk).getD index) else 0

/-- The eight bytes that the fingerprint starts with, read as hexadecimal digits. -/
def sessionKey (sessionFingerprint : String) : List (Fin 256) :=
  let bytes := sessionFingerprint.toList.flatMap String.utf8EncodeChar
  (((bytes.toChunks 2).take 8).mapIdx keyByte).rightpad 8 0

namespace ReasoningShadowStore

def new (limits : ShadowLimits) : ReasoningShadowStore :=
  ⟨⟨.empty, [], 0⟩, limits, ⟨0, 0, 0, 0, 0, 0⟩⟩

def session? (store : ReasoningShadowStore) (name : String) : Option SessionState :=
  store.inner.sessions.find? name

def countMiss (store : ReasoningShadowStore) : ReasoningShadowStore :=
  { store with metrics := { store.metrics with misses := store.metrics.misses + 1 } }

def countRestore (store : ReasoningShadowStore) : ReasoningShadowStore :=
  { store with metrics := { store.metrics with restores := store.metrics.restores + 1 } }

def countDropped (store : ReasoningShadowStore) : ReasoningShadowStore :=
  { store with metrics :=
  { store.metrics with droppedOversized := store.metrics.droppedOversized + 1 } }

def dropSession (name : String) (state : SessionState) (store : ReasoningShadowStore) :
    ReasoningShadowStore :=
  { store with
    inner := { store.inner with
      sessions := store.inner.sessions.remove name
      totalBytes := store.inner.totalBytes - state.bytes }
    metrics := { store.metrics with
      evictedEntries := store.metrics.evictedEntries + state.entries.entries.length } }

def forgetOrder (name : String) (store : ReasoningShadowStore) : ReasoningShadowStore :=
  { store with
    inner := { store.inner with lru := store.inner.lru.filter fun other => other ≠ name } }

def removeSession (store : ReasoningShadowStore) (name : String) : ReasoningShadowStore :=
  forgetOrder name (match store.session? name with
    | some state => dropSession name state store
    | none => store)

def clearSession (store : ReasoningShadowStore) (name : String) : ReasoningShadowStore :=
  match store.session? name with
  | some state => forgetOrder name (dropSession name state store)
  | none => store

def expired (limits : ShadowLimits) (now : Nat) (entry : ShadowEntry) : Bool :=
  limits.ttl < now - entry.created

def expiredSessions (now : Nat) (store : ReasoningShadowStore) : List String :=
  (store.inner.sessions.entries.filter fun e =>
    e.2.entries.values.all (expired store.limits now)).map Sigma.fst

/-- Evicts from the front while the store is over its limit. Each turn shortens the queue,
so its length is enough of them. -/
def evictWhile (exceeds : ReasoningShadowStore → Bool) :
    Nat → ReasoningShadowStore → ReasoningShadowStore
  | 0, store => store
  | turns + 1, store =>
    if exceeds store then
      match store.inner.lru.head? with
      | some victim => evictWhile exceeds turns (store.removeSession victim)
      | none => store
    else store

def overBytes (store : ReasoningShadowStore) : Bool :=
  store.limits.maxTotalBytes < store.inner.totalBytes

def overSessions (store : ReasoningShadowStore) : Bool :=
  store.limits.maxSessions < store.inner.sessions.entries.length

def evictAll (exceeds : ReasoningShadowStore → Bool) (store : ReasoningShadowStore) :
    ReasoningShadowStore :=
  evictWhile exceeds store.inner.lru.length store

def enforceLimits (now : Nat) (store : ReasoningShadowStore) : ReasoningShadowStore :=
  evictAll overSessions (evictAll overBytes ((expiredSessions now store).foldl removeSession store))

def entryCount (store : ReasoningShadowStore) : Nat :=
  (store.inner.sessions.values.map fun state => state.entries.entries.length).sum

def countActive (store : ReasoningShadowStore) : ReasoningShadowStore :=
  { store with metrics := { store.metrics with activeEntries := entryCount store } }

section Operations
variable (hash : String → Fin (2 ^ 64))

def keyOf (session id : String) : ShadowKey := ⟨sessionKey session, hash id⟩

def addEntries (session : String) (toolCallIds : List String) (entry : ShadowEntry)
    (entries : SortedMap ShadowKey ShadowEntry) : SortedMap ShadowKey ShadowEntry :=
  toolCallIds.foldl (fun entries id => entries.insert (keyOf hash session id) entry) entries

def putSession (now : Nat) (session : String) (toolCallIds : List String) (reasoning : String)
    (store : ReasoningShadowStore) : ReasoningShadowStore :=
  let lru :=
    if (store.session? session).isSome then store.inner.lru else store.inner.lru ++ [session]
  let state := (store.session? session).getD ⟨.empty, 0⟩
  let added := saturatingMul reasoning.utf8ByteSize toolCallIds.length
  -- an id that is stored anew is counted anew
  let state := ⟨addEntries hash session toolCallIds ⟨reasoning, now⟩ state.entries,
    saturatingAdd state.bytes added⟩
  { store with
    inner :=
      ⟨store.inner.sessions.insert session state, lru, saturatingAdd store.inner.totalBytes added⟩
    metrics := { store.metrics with stores := store.metrics.stores + 1 } }

/-- Keeps the reasoning of a completed turn that issued tool calls. The clock is read for the
entries and once more to enforce the limits. -/
def store (now checked : Nat) (session : String) (toolCallIds : List String) (reasoning : String)
    (store : ReasoningShadowStore) : ReasoningShadowStore :=
  if reasoning = "" ∨ toolCallIds = [] then store
  else if store.limits.maxEntryBytes < reasoning.utf8ByteSize then store.countDropped
  else countActive (enforceLimits checked (putSession hash now session toolCallIds reasoning store))

def removeEntry (session : String) (state : SessionState) (key : ShadowKey)
    (store : ReasoningShadowStore) : ReasoningShadowStore :=
  { store with inner := { store.inner with
    sessions :=
      store.inner.sessions.insert session { state with entries := state.entries.remove key } } }

def firstEntry (session : String) (state : SessionState) (toolCallIds : List String) :
    Option (ShadowKey × ShadowEntry) :=
  toolCallIds.findSome? fun id =>
    (state.entries.find? (keyOf hash session id)).map fun entry => (keyOf hash session id, entry)

def restore (now : Nat) (session : String) (toolCallIds : List String)
    (store : ReasoningShadowStore) :
    Option String × ReasoningShadowStore :=
  if toolCallIds = [] then (none, store)
  else
    match store.session? session with
    | none => (none, store)
    | some state =>
      match firstEntry hash session state toolCallIds with
      | none => (none, store.countMiss)
      | some (key, entry) =>
        -- an outlived entry goes, and its bytes stay counted
        if expired store.limits now entry then
          (none, (removeEntry session state key store).countMiss)
        else (some entry.reasoning, store.countRestore)

def callIds (calls : List Json) : List String := calls.filterMap fun call => call.getStr? "id"

/-- One message of the epoch: an assistant message with calls and no reasoning is restored. -/
def restoreMessage (now : Nat) (session : String) (message : Json) (store : ReasoningShadowStore) :
    Json × ReasoningShadowStore :=
  if isAssistantMessage message && (message.get? "reasoning_content").isNone then
    match (message.get? "tool_calls").bind Json.asArray with
    | none => (message, store)
    | some calls =>
      let (reasoning, store) := restore hash now session (callIds calls) store
      (reasoning.elim message fun reasoning => message.set "reasoning_content" (.str reasoning),
        store)
  else (message, store)

/-- `clock i` is the instant at which the message at index `i` is looked up. -/
def restoreMessages (clock : Nat → Nat) (session : String) :
    Nat → List Json → ReasoningShadowStore → List Json × ReasoningShadowStore
  | _, [], store => ([], store)
  | index, message :: rest, store =>
    let (message, store) := restoreMessage hash (clock index) session message store
    let (rest, store) := restoreMessages clock session (index + 1) rest store
    (message :: rest, store)

/-- Attaches the shadowed reasoning to the messages of the current epoch. -/
def restoreInto (clock : Nat → Nat) (body : Fields) (session : String)
    (store : ReasoningShadowStore) :
    Fields × ReasoningShadowStore :=
  match (body.get? "messages").bind Json.asArray with
  | none => (body, store)
  | some messages =>
    let boundary := reasoningEpochBoundary messages
    let (restored, store) :=
      restoreMessages hash clock session boundary (messages.drop boundary) store
    (body.insert "messages" (.arr (messages.take boundary ++ restored)), store)

end Operations

end ReasoningShadowStore
end Lobster.Shadow
