import LobsterProxy.Server.Error
import LobsterProxy.Upstream.Credential
import LobsterProxy.Upstream.Generate

/-! Refreshing a token: the request, what is read from its answer, and who decides that a
refresh is due. -/

namespace Lobster.Upstream
open Redaction Server

/-- What comes back on a request: the status, and the body unless the transport fails on it. -/
abbrev Fetched := Except String (Nat × Except String (List UInt8))

inductive RefreshOutcome where
  | refreshed
  | alreadyFresh
  deriving DecidableEq

def clientVersion : String := "2026.9.4"

/-- What a refresh meets with: the answer, the clock when it is read and when the update is
written, the file at that time and how its replacement goes. -/
structure RefreshAnswer where
  fetched : Fetched
  readAt : Int
  appliedAt : Int
  file : Option (List UInt8)
  write : Except String Unit

structure RefreshEnd where
  data : CredentialData
  written : Option Json
  requested : Bool
  result : Except ApiError Unit

section Perform
variable (serde : Serde) (urlSafe : List Char → Option (List UInt8))

/-- The body of the request; without a refresh token none is sent. -/
def refreshRequest (nowMillis : Int) (data : CredentialData) : Except ApiError Json :=
  if data.refreshToken = "" then
    .error
      (.authentication
      "credential has no refresh token; please log in again (lobsterai-proxy login)")
  else .ok
    (.obj ([("refreshToken", .str data.refreshToken), ("firstKeyfrom", .str data.firstKeyfrom),
      ("latestKeyfrom", .str (toString nowMillis)), ("version", .str clientVersion)] ++
    (if data.uuid = "" then [] else [("uuid", .str data.uuid)]) ++
    (if data.userId = "" then [] else [("userId", .str data.userId)])))

theorem refreshRequest_cases (nowMillis : Int) (data : CredentialData) :
    (data.refreshToken = "" ∧ ∃ err, refreshRequest nowMillis data = .error err) ∨
    (data.refreshToken ≠ "" ∧ ∃ request, refreshRequest nowMillis data = .ok request) := by
  unfold refreshRequest
  by_cases h : data.refreshToken = ""
  · rw [if_pos h]
    exact .inl ⟨h, _, rfl⟩
  · rw [if_neg h]
    exact .inr ⟨h, _, rfl⟩

/-- A month, where neither the answer nor the token tells. -/
def renewedExpiry (readAt : Int) (answer : Json) (accessToken : String) : Int :=
  match ((answer.get? "expiresIn").bind Json.asI64).filter fun secs => 0 < secs with
  | some secs => wrapI64 (readAt + secs)
  | none => (jwtExpiry serde urlSafe accessToken).getD (readAt + 30 * 86400)

def readRenewal (data : CredentialData) (fetched : Fetched) (readAt : Int) :
    Except ApiError Renewal :=
  match fetched with
  | .error err => .error (.upstream 502 s!"token refresh failed: {err}")
  | .ok (status, body) =>
    let raw := body.toOption.getD []
    let secrets := [data.accessToken, data.refreshToken]
    if status < 200 ∨ 300 ≤ status then
      .error (.upstream status
        (sanitizeText s!"token refresh failed with HTTP {status}: {lossyText raw}" secrets))
    else match serde.fromSlice raw with
      | none => .error (.upstream 502 "token refresh returned invalid JSON")
      | some payload =>
        -- without a code, whatever has data counts as a success
        let code := ((payload.get? "code").bind Json.asI64).getD
          (if (payload.get? "data").isSome then 0 else -1)
        if code ≠ 0 then
          let message := (((payload.get? "msg").or (payload.get? "message")).bind Json.asStr).getD
            "unknown refresh error"
          .error (.authentication
            s!"token refresh rejected (code={code}): {sanitizeText message secrets}")
        else
          let answer := (payload.get? "data").getD payload
          let accessToken := answer.getStrD "accessToken"
          if accessToken = "" then
            .error (.authentication ("refresh response carried no accessToken \u2014 " ++
              "re-login required (lobsterai-proxy login)"))
          else .ok ⟨accessToken,
            ((answer.getStr? "refreshToken").filter fun token => token ≠ "").getD data.refreshToken,
            renewedExpiry serde urlSafe readAt answer accessToken⟩

def finishRefresh (answer : RefreshAnswer) (data : CredentialData) : RefreshEnd :=
  match readRenewal serde urlSafe data answer.fetched answer.readAt with
  | .error err => ⟨data, none, true, .error err⟩
  | .ok renewal =>
    let applied := applyRefresh serde renewal answer.appliedAt answer.file answer.write data
    ⟨applied.data, applied.written, true, applied.result.mapError fun err =>
      .upstream 500 s!"credential persistence failed: {err}"⟩

def performRefresh (nowMillis : Int) (answer : RefreshAnswer) (data : CredentialData) :
    RefreshEnd :=
  match refreshRequest nowMillis data with
  | .error err => ⟨data, none, false, .error err⟩
  | .ok _ => finishRefresh serde urlSafe answer data

/-- The clock at the check before the gate and at the one behind it, then at the request. -/
structure RefreshTurn where
  checked : Int
  rechecked : Int
  nowMillis : Int
  answer : RefreshAnswer

structure Freshened where
  data : CredentialData
  requested : Bool
  result : Except ApiError RefreshOutcome

def ensureFresh (marginSecs : Int) (turn : RefreshTurn) (data : CredentialData) : Freshened :=
  -- the second look is the one behind the gate
  if !data.needsRefresh marginSecs turn.checked then ⟨data, false, .ok .alreadyFresh⟩
  else if !data.needsRefresh marginSecs turn.rechecked then ⟨data, false, .ok .alreadyFresh⟩
  else
    let ended := performRefresh serde urlSafe turn.nowMillis turn.answer data
    ⟨ended.data, ended.requested, ended.result.map fun () => .refreshed⟩

end Perform

structure LiveCredential where
  safeName : String
  path : String
  data : CredentialData

def LiveCredential.credential (live : LiveCredential) : Credential :=
  ⟨live.data.uid, live.safeName, live.path, live.data.accessToken, live.data.refreshToken⟩

section Due
variable (marginSecs : Int) (keepaliveSecs : Nat) (nowSecs : Int)

def CredentialData.expiryDue (data : CredentialData) : Bool :=
  data.expiresAtSecs = 0 || data.needsRefresh marginSecs nowSecs

/-- An idle account is refreshed once in a while, long before its token expires. -/
def CredentialData.keepaliveDue (data : CredentialData) : Bool :=
  0 < keepaliveSecs && 0 < data.lastRefreshSecs &&
    wrapI64 keepaliveSecs ≤ nowSecs - data.lastRefreshSecs && !data.expiryDue marginSecs nowSecs

/-- A credential that is due, what its turn brings and what comes of it. -/
structure DueVisit where
  before : LiveCredential
  keepalive : Bool
  turn : RefreshTurn
  after : Freshened

def DueVisit.recorded (visit : DueVisit) : Bool := visit.after.result.toBool

structure DuePass where
  pool : Pool
  credentials : List LiveCredential
  visits : List DueVisit

section Pass
variable (serde : Serde) (urlSafe : List Char → Option (List UInt8)) (turns : Nat → RefreshTurn)
  (instants : Nat → Nat)

/-- `instants i` is the clock of the cooldown when the `i`-th refresh fails. -/
def refreshEach : Nat → List LiveCredential → Pool → DuePass
  | _, [], pool => ⟨pool, [], []⟩
  | i, live :: rest, pool =>
    let expiryDue := live.data.expiryDue marginSecs nowSecs
    let keepaliveDue := live.data.keepaliveDue marginSecs keepaliveSecs nowSecs
    if !expiryDue && !keepaliveDue then
      let pass := refreshEach (i + 1) rest pool
      { pass with credentials := live :: pass.credentials }
    else
      let after := ensureFresh serde urlSafe marginSecs (turns i) live.data
      -- a refresh that fails is noted like a rejected token
      let pool := match after.result with
        | .ok _ => pool
        | .error _ => pool.noteStatus (instants i) live.credential 401 ""
      let pass := refreshEach (i + 1) rest pool
      ⟨pass.pool, { live with data := after.data } :: pass.credentials,
        ⟨live, keepaliveDue, turns i, after⟩ :: pass.visits⟩

def refreshDue (credentials : List LiveCredential) (pool : Pool) : DuePass :=
  refreshEach marginSecs keepaliveSecs nowSecs serde urlSafe turns instants 0 credentials pool

end Pass
end Due

end Lobster.Upstream
