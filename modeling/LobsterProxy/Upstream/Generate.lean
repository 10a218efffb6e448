import LobsterProxy.Redaction
import LobsterProxy.Upstream.Body
import LobsterProxy.Upstream.Peek
import LobsterProxy.Upstream.Pool

/-! The generation call: a loop that picks an account, sends the request and decides on
the answer whether to retry, to fail over or to stop. -/

namespace Lobster.Upstream
open Text Redaction Pool

structure ApiFailure where
  status : Nat
  kind : String
  message : String
  retryAfterSecs : Option Int
  beforeOutput : Bool

structure StartedGeneration where
  model : String
  credential : Credential
  stream : List StreamItem
  head : List UInt8
  startedAt : Nat
  failoverCount : Nat
  refreshRetry : Bool

inductive GenerateOutcome where
  | started (generation : StartedGeneration)
  | failed (failure : ApiFailure)

inductive Answer where
  | transportError (err : String)
  | response (status : Nat) (body : List StreamItem)

/-- `response.bytes()`, empty when the transport fails. -/
def rawBody (body : List StreamItem) : List UInt8 :=
  match body.mapM id with
  | .ok chunks => chunks.flatten
  | .error _ => []

def creditNeedles : List (List Char) :=
  ["insufficient", "not enough credit", "credit", "quota exceeded", "balance",
    "\u79ef\u5206\u4e0d\u8db3", "\u4f59\u989d\u4e0d\u8db3"].map String.toList

def isOutOfCredits (status : Nat) (raw : List UInt8) : Bool :=
  if status = 402 ∨ status = 403 ∨ status = 429 then
    creditNeedles.any (contains (toAsciiLowercase (fromUtf8Lossy raw)))
  else false

/-- One turn of the loop: which files are there and what the clock says at the pick, then
the answer with the clock when it is in, and what a forced refresh would bring. -/
structure Turn where
  present : String → Bool
  now : Nat
  answer : Answer
  answeredAt : Nat
  nowSecs : Int
  refresh : Except String (String × String)

structure Call where
  pool : Pool
  failoverCount : Nat
  refreshRetryDone : Bool
  retried401Account : Option String

inductive Next where
  | again (call : Call)
  | done (pool : Pool) (outcome : GenerateOutcome)

/-- What the caller gives: the model is that of the body or the default. -/
structure Generation where
  sessionFp : Option String
  model : String
  body : Json
  startedAt : Nat

def Generation.new (sessionFp : Option String) (body : Json) (defaultModel : String)
    (startedAt : Nat) : Generation :=
  let model := (body.getStr? "model").getD defaultModel
  ⟨sessionFp, model, filterBody body model, startedAt⟩

def Pool.applyRefresh (uid accessToken refreshToken : String) (pool : Pool) : Pool :=
  { pool with entries := pool.entries.map fun c =>
      if c.uid = uid then { c with accessToken := accessToken, refreshToken := refreshToken }
      else c }

def failed (pool : Pool) (status : Nat) (kind message : String) (retryAfterSecs : Option Int) :
    Next :=
  .done pool (.failed ⟨status, kind, message, retryAfterSecs, true⟩)

def lossyText (raw : List UInt8) : String := String.ofList (fromUtf8Lossy raw)

section Loop
variable (serde : Serde) (generation : Generation) (turn : Turn)

namespace Call

def new (pool : Pool) : Call := ⟨pool, 0, false, none⟩

/-- A 401 retry reuses the account, past the sticky pick. -/
def select (call : Call) : Option Credential × Pool :=
  match call.retried401Account.bind fun uid => call.pool.credentialBySafeName uid with
  | some credential => (some credential, call.pool)
  | none => call.pool.pick turn.now generation.sessionFp generation.model turn.present

def noCredential (pool : Pool) : Next :=
  match pool.allCooledUntil turn.now turn.nowSecs generation.model with
  | some deadline =>
    let retryAfter := max (deadline - turn.nowSecs) 1
    failed pool 429 "rate_limit_error"
      (s!"model {generation.model} quota is cooling down on all accounts; " ++
        s!"retry after {retryAfter}s") (some retryAfter)
  | none => failed pool 503 "api_error"
      "no healthy account available (not logged in, file missing, or all cooling)" none

def failoverExhausted (pool : Pool) : Next :=
  failed pool 429 "rate_limit_error" s!"all accounts are rate-limited for model {generation.model}"
    ((pool.allCooledUntil turn.answeredAt turn.nowSecs generation.model).map fun deadline =>
      max (deadline - turn.nowSecs) 1)

def maxFailovers (pool : Pool) : Nat := max (pool.entries.length % 2 ^ 32) 1

def failover (pool : Pool) (call : Call) : Next :=
  -- the counter is a u32 and wraps around
  let call := { call with pool := pool, failoverCount := (call.failoverCount + 1) % 2 ^ 32 }
  if maxFailovers pool < call.failoverCount then failoverExhausted generation turn pool
  else .again call

section Respond
variable (credential : Credential)

/-- The first 401 refreshes the account's token, the second one stops. -/
def onUnauthorized (call : Call) : Next :=
  let noted := call.pool.noteStatus turn.answeredAt credential 401 generation.model
  if call.retried401Account.isNone then
    match turn.refresh with
    | .ok (accessToken, refreshToken) => .again { call with
        pool := call.pool.applyRefresh credential.uid accessToken refreshToken
        retried401Account := some credential.safeName
        refreshRetryDone := true }
    | .error message => failed noted 401 "authentication_error" message none
  else failed noted 401 "authentication_error"
    "LobsterAI rejected the refreshed token; please re-login (lobsterai-proxy login)" none

def onStream (body : List StreamItem) (call : Call) : Next :=
  let counted := call.pool.noteErrorThreshold turn.answeredAt credential
  match peekStreamError serde [] body with
  -- nothing is noted of the success
  | .healthy head stream => .done call.pool (.started ⟨generation.model, credential, stream, head,
      generation.startedAt, call.failoverCount, call.refreshRetryDone⟩)
  | .errored error =>
    -- the account is known to have no credits left
    if error.isQuotaExhausted then
      failover generation turn
        ((call.pool.setCredits credential.uid 0).noteHardCredit turn.answeredAt credential) call
    else failed counted 502 "api_error"
      (sanitizeText s!"upstream returned an error event: {error.message}"
        [credential.accessToken, credential.refreshToken]) none
  | .unavailable => failed counted 502 "api_error" "upstream stream failed before any output" none

def onStatus (status : Nat) (raw : List UInt8) (call : Call) : Next :=
  let secrets := [credential.accessToken, credential.refreshToken]
  if isOutOfCredits status raw then
    failover generation turn (call.pool.noteHardCredit turn.answeredAt credential) call
  else if status = 401 then onUnauthorized generation turn credential call
  else if status = 429 then
    failover generation turn
      (call.pool.noteStatus turn.answeredAt credential 429 generation.model) call
  else if status = 403 then
    failed (call.pool.noteStatus turn.answeredAt credential 403 generation.model) 403
      "permission_error" (sanitizeText
        s!"LobsterAI returned HTTP 403 (permission or content policy): {lossyText raw}" secrets)
          none
  else if 500 ≤ status ∧ status ≤ 599 then
    failed call.pool status "api_error"
      (sanitizeText s!"upstream server error (HTTP {status}): {lossyText raw}" secrets) none
  else failed (call.pool.noteErrorThreshold turn.answeredAt credential) status "api_error"
    (sanitizeText s!"upstream rejected the request (HTTP {status}): {lossyText raw}" secrets) none

def respond (call : Call) : Next :=
  match turn.answer with
  | .transportError err =>
    -- neither replayed nor handed to another account
    failed (call.pool.noteErrorThreshold turn.answeredAt credential) 502 "api_error"
      (sanitizeText s!"upstream connection failed: {err}" [credential.accessToken]) none
  | .response status body =>
    if status = 200 then onStream serde generation turn credential body call
    else onStatus generation turn credential status (rawBody body) call

end Respond

def step (call : Call) : Next :=
  let selected := call.select generation turn
  match selected.1 with
  | none => noCredential generation turn selected.2
  | some credential => respond serde generation turn credential { call with pool := selected.2 }

end Call
end Loop

/-- A turn of a run, with the state that it starts from. -/
structure Visit where
  call : Call
  turn : Turn

/-- What a run has come to: its turns, and how it has ended if it has. -/
structure Run where
  visits : List Visit
  ending : Option (Pool × GenerateOutcome)

/-- The loop over the turns that the world has in store. -/
def generate (serde : Serde) (generation : Generation) : List Turn → Call → Run
  | [], _ => ⟨[], none⟩
  | turn :: rest, call =>
    match call.step serde generation turn with
    | .done pool outcome => ⟨[⟨call, turn⟩], some (pool, outcome)⟩
    | .again call' =>
      let run := generate serde generation rest call'
      { run with visits := ⟨call, turn⟩ :: run.visits }

end Lobster.Upstream
