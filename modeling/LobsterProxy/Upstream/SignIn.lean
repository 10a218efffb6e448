import LobsterProxy.Chat.ProtocolError
import LobsterProxy.Upstream.Directory
import LobsterProxy.Upstream.Login
import LobsterProxy.Upstream.Refresh
import LobsterProxy.Upstream.Shapes

/-! The interactive login: the callback is waited for, its code is exchanged, and what comes back
is saved as a credential file that the pool loads. -/

namespace Lobster.Upstream
open Publishing Redaction Text Conversion

inductive OAuthError where
  | timeout
  | missingCode
  | exchange (message : String)
  | missingToken
  | network (message : String)
  | invalid (err : CredentialError)
  | io (message : String)
  deriving DecidableEq

def callbackPath : String := "/auth/callback"

def redirectUri (port : Nat) : String := "http://127.0.0.1:" ++ toString port ++ callbackPath

def loginUrl (portal : String) (port : Nat) (state : String) : String :=
  portal ++ "/portal#/login?source=electron&redirect_uri=" ++ urlencode (redirectUri port) ++
  "&state=" ++ state

section Exchange
variable (serde : Serde) (urlSafe : List Char → Option (List UInt8))

def exchange (fetched : Fetched) : Except OAuthError Json :=
  match fetched with
  | .error err => .error (.network err)
  | .ok (status, body) =>
    let raw := body.toOption.getD []
    if status < 200 ∨
      300 ≤ status then .error (.exchange s!"HTTP {status}: {sanitizeText (lossyText raw) []}")
    else match serde.fromSlice raw with
      | none => .error (.exchange "response was not valid JSON")
      | some payload =>
        let code := ((payload.get? "code").bind Json.asI64).getD (-1)
        if code ≠ 0 then
          let message :=
            (((payload.get? "msg").or (payload.get? "message")).bind Json.asStr).getD
              "unknown error"
          .error (.exchange s!"code={code}: {message}")
        else .ok ((payload.get? "data").getD (.obj []))

/-- The first of the keys that has a string decides, also when it is empty. -/
def accountUid (user : Json) : String :=
  ((["id", "userId", "yid"].findSome? fun key => user.getStr? key).filter fun id => id ≠ "").getD ""

def exchangedExpiry (nowSecs : Int) (exchangeData : Json) : Int :=
  match ((exchangeData.get? "expiresIn").bind Json.asI64).filter fun secs => 0 < secs with
  | some secs => wrapI64 (nowSecs + secs)
  | none => (jwtExpiry serde urlSafe (exchangeData.getStrD "accessToken")).getD 0

def exchangedAccount (user : Json) : Json :=
  .obj [("uid", .str (accountUid user)), ("userId", .str (user.getStrD "userId")),
    ("nickname", .str (user.getStrD "nickname"))]

def buildCredentialFile (nowSecs nowMillis : Int) (exchangeData : Json)
    (uuid firstKeyfrom : String) : Json :=
  .obj [
    ("auth", .obj [("accessToken", .str (exchangeData.getStrD "accessToken")),
      ("refreshToken", .str (exchangeData.getStrD "refreshToken")),
      ("expiresAt", ofI64 (exchangedExpiry serde urlSafe nowSecs exchangeData)),
      ("uuid", .str uuid),
      ("firstKeyfrom", .str firstKeyfrom), ("latestKeyfrom", .str (toString nowMillis))]),
    ("account", exchangedAccount ((exchangeData.get? "user").getD (.obj [])))]

def savedName (uid : String) : String := "lobsterai-" ++ uid ++ ".json"

/-- The steps of a save on the disk, in their order. Each of them may fail. -/
structure DiskSteps where
  createAuthDir : Except String Unit
  createParent : Except String Unit
  createTemp : Except String Unit
  writeTemp : Except String Unit
  rename : Except String Unit

namespace DiskSteps
variable (disk : DiskSteps)

def atomicWrite : Except String Unit := do
  disk.createParent.mapError fun err => "create auth dir: " ++ err
  disk.createTemp.mapError fun err => "write temp credential: " ++ err
  disk.writeTemp.mapError fun err => "write temp credential: " ++ err
  disk.rename.mapError fun err => "replace credential file: " ++ err

def saveCredential (value : Json) : Except OAuthError String := do
  let parsed ← (parseCredential value).mapError .invalid
  disk.createAuthDir.mapError .io
  disk.atomicWrite.mapError .network
  return savedName parsed.uid

end DiskSteps

/-- The reads of a connection that are done before the time is over. -/
abbrev Incoming := List (Except String (List UInt8))

/-- The connections are handled one after the other until one of them has the code. A listener
that fails is a timeout as well, as is the end of the time. -/
def acceptCode (expected : String) : List (Except String Incoming) → Except OAuthError String
  | [] => .error .timeout
  | .error _ :: _ => .error .timeout
  | .ok reads :: later =>
    match handleCallback expected reads with
    -- the others wait behind a connection that stays open
    | none => .error .timeout
    | some (_, .ok code) => .ok code
    | some (_, .error _) => acceptCode expected later

/-- What a login draws, and what it meets with: how its sockets and its client come up, the
connections that are accepted until the time is over, the answer to the exchange of a code, and
the disk. -/
structure SignIn where
  state : String
  uuid : String
  firstKeyfrom : String
  bind : Except String Unit
  localPort : Except String Nat
  connections : List (Except String Incoming)
  client : Except String Unit
  answerTo : String → Fetched
  nowSecs : Int
  nowMillis : Int
  disk : DiskSteps

namespace SignIn
variable (login : SignIn)

/-- The name and the content of the file that is written. -/
def run : Except OAuthError (String × Json) := do
  login.bind.mapError fun err => .network ("bind callback server: " ++ err)
  let _ ← login.localPort.mapError .network
  let code ← acceptCode login.state login.connections
  if code = "" then .error .missingCode
  else do
    login.client.mapError .network
    let exchangeData ← exchange serde (login.answerTo code)
    if (exchangeData.getStr? "accessToken").isNone then .error .missingToken
    else do
      let value := buildCredentialFile serde urlSafe login.nowSecs login.nowMillis exchangeData
        login.uuid login.firstKeyfrom
      let name ← login.disk.saveCredential value
      let _ ← (parseCredential value).mapError .invalid
      return (name, value)

end SignIn

end Exchange

section Link

def sourceKey : List Char := ['s', 'o', 'u', 'r', 'c', 'e']

def redirectKey : List Char := ['r', 'e', 'd', 'i', 'r', 'e', 'c', 't', '_', 'u', 'r', 'i']

/-- The portal reads the state and the address of the callback server from the link. -/
theorem loginUrl_fields {portal state : String} (hportal : '?' ∉ portal.toList)
    (hstate : ∀ c ∈ state.toList, c ≠ '&' ∧ c ≠ '?') (port : Nat) :
    ((((loginUrl portal port state).toList.splitOn '?')[1]?.getD []).splitOn '&').map
      CallbackQuery.field =
      [(sourceKey, ['e', 'l', 'e', 'c', 't', 'r', 'o', 'n']),
        (redirectKey, (urlencode (redirectUri port)).toList),
        (stateKey, state.toList)] := by
  have hredirect : IsPair (pairOf redirectKey (redirectUri port)) := isPair_pairOf (by decide) _
  have hfirst : IsPair (sourceKey ++ '=' :: ['e', 'l', 'e', 'c', 't', 'r', 'o', 'n']) := by decide
  have hlast : ∀ c ∈ stateKey ++ '=' :: state.toList, c ≠ '&' ∧ c ≠ '?' := by
    intro c hc
    rcases List.mem_append.mp hc with hc | hc
    · have hkey : ∀ c ∈ stateKey, c ≠ '&' ∧ c ≠ '?' := List.all_iff_forall_prop.mp (by decide)
      exact hkey c hc
    · rcases List.mem_cons.mp hc with rfl | hc
      · decide
      · exact hstate c hc
  generalize hsource : sourceKey ++ '=' :: ['e', 'l', 'e', 'c', 't', 'r', 'o', 'n'] =
    source at hfirst
  generalize htext : stateKey ++ '=' :: state.toList = stateText at hlast
  have hlink : (loginUrl portal port state).toList = (portal.toList ++ "/portal#/login".toList) ++
      '?' :: (source ++ '&' :: (pairOf redirectKey (redirectUri port) ++ '&' :: stateText)) := by
    have hmiddle : "/portal#/login?source=electron&redirect_uri=".toList =
        "/portal#/login".toList ++ '?' ::
          (sourceKey ++ '=' :: ['e', 'l', 'e', 'c', 't', 'r', 'o', 'n'] ++ '&' ::
            (redirectKey ++ ['='])) := by
      decide
    have hend : "&state=".toList = '&' :: (stateKey ++ ['=']) := by decide
    unfold loginUrl pairOf
    rw [← hsource, ← htext, String.toList_append, String.toList_append, String.toList_append,
      String.toList_append, hmiddle, hend]
    simp only [List.append_assoc, List.cons_append, List.nil_append]
  have hhead : '?' ∉ portal.toList ++ "/portal#/login".toList := by
    rw [List.mem_append]
    exact not_or.mpr ⟨hportal, by decide⟩
  have hquery :
      '?' ∉ source ++ '&' :: (pairOf redirectKey (redirectUri port) ++ '&' :: stateText) := by
    simp only [List.mem_append, List.mem_cons, not_or]
    exact ⟨fun h => (hfirst _ h).2.1 rfl, by decide, fun h => (hredirect _ h).2.1 rfl, by decide,
      fun h => (hlast _ h).2 rfl⟩
  rw [hlink, List.splitOn_append_cons_self_of_not_mem hhead, List.splitOn_eq_singleton hquery]
  show ((source ++ '&' ::
    (pairOf redirectKey (redirectUri port) ++ '&' :: stateText)).splitOn '&').map
      CallbackQuery.field = _
  rw [List.splitOn_append_cons_self_of_not_mem fun h => (hfirst _ h).1 rfl,
    List.splitOn_append_cons_self_of_not_mem fun h => (hredirect _ h).1 rfl,
    List.splitOn_eq_singleton fun h => (hlast _ h).1 rfl]
  have hfield {key value : List Char} (hkey : '=' ∉ key) :
      CallbackQuery.field (key ++ '=' :: value) = (key, value) := by
    unfold CallbackQuery.field
    rw [splitOnce_append_cons hkey]
    rfl
  rw [← hsource, ← htext, List.map_cons, List.map_cons, List.map_singleton,
    field_pairOf (by decide), hfield (by decide), hfield (by decide)]

end Link

section Saved
variable {serde : Serde} {urlSafe : List Char → Option (List UInt8)} {nowSecs nowMillis : Int}
    {exchangeData : Json}
  {uuid firstKeyfrom : String}

def trimmed (s : String) : String := String.ofList (trim s.toList)

structure Recovered (serde : Serde) (urlSafe : List Char → Option (List UInt8)) (nowSecs : Int)
    (exchangeData : Json) (uuid firstKeyfrom : String) (data : CredentialData) : Prop where
  accessToken : data.accessToken = trimmed (exchangeData.getStrD "accessToken")
  refreshToken : data.refreshToken = trimmed (exchangeData.getStrD "refreshToken")
  uid : data.uid = trimmed (accountUid ((exchangeData.get? "user").getD (.obj [])))
  uuid : data.uuid = trimmed uuid
  firstKeyfrom : data.firstKeyfrom = trimmed firstKeyfrom
  expiresAtSecs : 0 ≤ exchangedExpiry serde urlSafe nowSecs exchangeData →
    exchangedExpiry serde urlSafe nowSecs exchangeData < 10 ^ 12 →
    data.expiresAtSecs = exchangedExpiry serde urlSafe nowSecs exchangeData

theorem parse_buildCredentialFile {data : CredentialData}
    (h : parseCredential
      (buildCredentialFile serde urlSafe nowSecs nowMillis exchangeData uuid firstKeyfrom) =
        .ok data) :
    Recovered serde urlSafe nowSecs exchangeData uuid firstKeyfrom data := by
  have hexpiry : ∀ expiry : Int, 0 ≤ expiry → expiry < 10 ^ 12 →
      (normTs (some (ofI64 expiry))).getD 0 = expiry := by
    intro expiry hlow hhigh
    rcases hlow.eq_or_lt with rfl | hpos
    · decide
    · rw [normTs_ofI64 hpos hhigh, Option.getD_some]
  have hreads := reads_of_parse h
  have hauth :
      authOf (buildCredentialFile serde urlSafe nowSecs nowMillis exchangeData uuid firstKeyfrom) =
      .obj [("accessToken", .str (exchangeData.getStrD "accessToken")),
        ("refreshToken", .str (exchangeData.getStrD "refreshToken")),
        ("expiresAt", ofI64 (exchangedExpiry serde urlSafe nowSecs exchangeData)),
        ("uuid", .str uuid), ("firstKeyfrom", .str firstKeyfrom),
        ("latestKeyfrom", .str (toString nowMillis))] := rfl
  have haccount :
      accountOf
        (buildCredentialFile serde urlSafe nowSecs nowMillis exchangeData uuid firstKeyfrom) =
      exchangedAccount ((exchangeData.get? "user").getD (.obj [])) := rfl
  have huid :
      uidOf (buildCredentialFile serde urlSafe nowSecs nowMillis exchangeData uuid firstKeyfrom) =
      strField (exchangedAccount ((exchangeData.get? "user").getD (.obj []))) ["uid", "id"] := by
    unfold uidOf
    rw [haccount]
    exact if_neg fun hblank => nomatch hblank.2
  refine ⟨?_, ?_, ?_, ?_, ?_, fun hlow hhigh => ?_⟩
  · rw [hreads.accessToken, hauth]
    rfl
  · rw [hreads.refreshToken, hauth]
    rfl
  · rw [hreads.uid, huid]
    rfl
  · rw [hreads.uuid, hauth]
    rfl
  · rw [hreads.firstKeyfrom, hauth]
    rfl
  · rw [hreads.expiresAtSecs, hauth]
    exact hexpiry _ hlow hhigh

end Saved

section Login
variable {serde : Serde} {urlSafe : List Char → Option (List UInt8)} {login : SignIn}
  {expected name code : String} {value : Json} {reads : Incoming} {query : CallbackQuery}
  {connections : List (Except String Incoming)}

/-- What a connection to the callback server asks, once it has sent its request. -/
def queryOf (reads : Incoming) : Option CallbackQuery :=
  (readRequest [] reads).map fun request => .ofRequest (fromUtf8Lossy request)

/-- It is answered, and has not both a code and the state. -/
def PassedOver (expected : String) (reads : Incoming) : Prop :=
  ∃ query, queryOf reads = some query ∧ (query.code = "" ∨ query.state ≠ expected)

theorem handleCallback_eq :
    handleCallback expected reads = (queryOf reads).map (callbackAnswer expected) := by
  unfold queryOf
  rw [Option.map_map]
  rfl

theorem callbackAnswer_eq_error :
    (∃ err, (callbackAnswer expected query).2 = .error err) ↔ query.code = "" ∨
    query.state ≠ expected := by
  unfold callbackAnswer
  split_ifs with hcode hstate
  · exact iff_of_true ⟨_, rfl⟩ (.inl hcode)
  · exact iff_of_true ⟨_, rfl⟩ (.inr hstate)
  · exact iff_of_false nofun (not_or.mpr ⟨hcode, not_not.mpr (not_not.mp hstate)⟩)

theorem acceptCode_ok {page : String} {later : List (Except String Incoming)}
    (h : handleCallback expected reads = some (page, .ok code)) :
    acceptCode expected (.ok reads :: later) = .ok code := by
  rw [acceptCode, h]

theorem acceptCode_error {page err : String} {later : List (Except String Incoming)}
    (h : handleCallback expected reads = some (page, .error err)) :
    acceptCode expected (.ok reads :: later) = acceptCode expected later := by
  rw [acceptCode, h]

/-- The first connection that has both a code and the state comes with this code, and all before
it are answered. -/
def FirstCode (expected code : String) (connections : List (Except String Incoming)) : Prop :=
  ∃ (before : List Incoming) (reads : Incoming) (after : List (Except String Incoming))
    (query : CallbackQuery),
    connections = before.map .ok ++ .ok reads :: after ∧
    (∀ earlier ∈ before, PassedOver expected earlier) ∧
      queryOf reads = some query ∧ query.code = code ∧ code ≠ "" ∧ query.state = expected

theorem not_firstCode_nil : ¬ FirstCode expected code [] := by
  rintro ⟨before, reads, after, query, hsplit, -⟩
  exact absurd hsplit.symm (by simp)

theorem not_firstCode_error {err : String} {later : List (Except String Incoming)} :
    ¬ FirstCode expected code (.error err :: later) := by
  rintro ⟨before, reads, after, query, hsplit, -⟩
  cases before <;> cases (List.cons.inj hsplit).1

/-- The first connection is answered, and brings the code or is passed over. -/
theorem firstCode_cons {later : List (Except String Incoming)} :
    FirstCode expected code (.ok reads :: later) ↔ ∃ query, queryOf reads = some query ∧
      (query.code = code ∧ code ≠ "" ∧ query.state = expected ∨
        (query.code = "" ∨ query.state ≠ expected) ∧ FirstCode expected code later) := by
  constructor
  · rintro ⟨before, reads', after, query, hsplit, hbefore, hquery, hgood⟩
    cases before with
    | nil =>
      obtain rfl := Except.ok.inj (List.cons.inj hsplit).1
      exact ⟨query, hquery, .inl hgood⟩
    | cons earlier before =>
      obtain rfl := Except.ok.inj (List.cons.inj hsplit).1
      obtain ⟨⟨other, hother, hpassed⟩, hlater⟩ := List.forall_mem_cons.mp hbefore
      exact ⟨other, hother, .inr ⟨hpassed, before, reads', after, query,
        (List.cons.inj hsplit).2, hlater, hquery, hgood⟩⟩
  · rintro ⟨query, hquery, hgood | ⟨hpassed, before, reads', after, query', rfl, hbefore, hfound⟩⟩
    · exact ⟨[], reads, later, query, rfl, nofun, hquery, hgood⟩
    · exact ⟨reads :: before, reads', after, query', rfl,
        List.forall_mem_cons.mpr ⟨⟨query, hquery, hpassed⟩, hbefore⟩, hfound⟩

theorem acceptCode_eq_ok_iff :
    acceptCode expected connections = .ok code ↔ FirstCode expected code connections := by
  induction connections with
  | nil => exact iff_of_false nofun not_firstCode_nil
  | cons first rest ih =>
    cases first with
    | error err => exact iff_of_false nofun not_firstCode_error
    | ok reads =>
      cases hquery : queryOf reads with
      | none =>
        have hopen : handleCallback expected reads = none := by rw [handleCallback_eq, hquery]; rfl
        rw [acceptCode, hopen, firstCode_cons]
        refine iff_of_false nofun ?_
        rintro ⟨query, hsome, -⟩
        cases hquery.symm.trans hsome
      | some query =>
        have hcons : FirstCode expected code (.ok reads :: rest) ↔
            query.code = code ∧ code ≠ "" ∧ query.state = expected ∨
              (query.code = "" ∨ query.state ≠ expected) ∧ FirstCode expected code rest := by
          rw [firstCode_cons, hquery]
          simp
        have hanswer : handleCallback expected reads = some (callbackAnswer expected query) := by
          rw [handleCallback_eq, hquery]
          rfl
        obtain ⟨page, outcome, hcallback⟩ :
            ∃ page outcome, callbackAnswer expected query = (page, outcome) :=
          ⟨_, _, rfl⟩
        rw [hcallback] at hanswer
        rw [hcons]
        cases outcome with
        | ok other =>
          obtain ⟨hcode, hne, hstate⟩ : query.code = other ∧ other ≠ "" ∧ query.state = expected :=
            callbackAnswer_eq_ok.mp (by rw [hcallback])
          have hpassed : ¬ (query.code = "" ∨ query.state ≠ expected) :=
            not_or.mpr ⟨hcode ▸ hne, not_not.mpr hstate⟩
          rw [acceptCode_ok hanswer, or_iff_left fun h => hpassed h.1, hcode]
          constructor
          · intro h
            obtain rfl := Except.ok.inj h
            exact ⟨rfl, hne, hstate⟩
          · rintro ⟨rfl, -, -⟩
            rfl
        | error err =>
          have hbad : query.code = "" ∨ query.state ≠ expected :=
            callbackAnswer_eq_error.mp ⟨err, by rw [hcallback]⟩
          rw [acceptCode_error hanswer, ih, and_iff_right hbad]
          refine (or_iff_right ?_).symm
          rintro ⟨hcode, hne, hstate⟩
          rcases hbad with hblank | hother
          · exact hne (hcode.symm.trans hblank)
          · exact hother hstate

structure SignIn.ComesUp (login : SignIn) : Prop where
  bind : login.bind = .ok ()
  localPort : ∃ port, login.localPort = .ok port
  client : login.client = .ok ()

structure DiskSteps.Succeeds (disk : DiskSteps) : Prop where
  createAuthDir : disk.createAuthDir = .ok ()
  createParent : disk.createParent = .ok ()
  createTemp : disk.createTemp = .ok ()
  writeTemp : disk.writeTemp = .ok ()
  rename : disk.rename = .ok ()

structure Exchanged (serde : Serde) (urlSafe : List Char → Option (List UInt8)) (login : SignIn)
    (code name : String) (value exchangeData : Json) (data : CredentialData) : Prop where
  answered : exchange serde (login.answerTo code) = .ok exchangeData
  token : (exchangeData.getStr? "accessToken").isSome = true
  built : value = buildCredentialFile serde urlSafe login.nowSecs login.nowMillis exchangeData
    login.uuid login.firstKeyfrom
  parsed : parseCredential value = .ok data
  named : name = savedName data.uid

theorem atomicWrite_eq_ok_iff {disk : DiskSteps} : disk.atomicWrite = .ok () ↔
    disk.createParent = .ok () ∧ disk.createTemp = .ok () ∧ disk.writeTemp = .ok () ∧
    disk.rename = .ok () := by
  unfold DiskSteps.atomicWrite
  simp only [bind_eq_ok, mapError_eq_ok, Unique.exists_iff, PUnit.default_eq_unit]

theorem saveCredential_eq_ok_iff {disk : DiskSteps} : disk.saveCredential value = .ok name ↔
    disk.Succeeds ∧ ∃ data, parseCredential value = .ok data ∧ name = savedName data.uid := by
  unfold DiskSteps.saveCredential
  simp only [bind_eq_ok, mapError_eq_ok, Unique.exists_iff, PUnit.default_eq_unit,
    atomicWrite_eq_ok_iff]
  constructor
  · rintro ⟨data, hparse, hdir, ⟨hparent, htemp, hwrite, hrename⟩, hname⟩
    exact ⟨⟨hdir, hparent, htemp, hwrite, hrename⟩, data, hparse, (Except.ok.inj hname).symm⟩
  · rintro ⟨⟨hdir, hparent, htemp, hwrite, hrename⟩, data, hparse, rfl⟩
    exact ⟨data, hparse, hdir, ⟨hparent, htemp, hwrite, hrename⟩, rfl⟩

/-- A login succeeds with the file of its first accepted code, or not at all. -/
theorem run_of_code : login.run serde urlSafe = .ok (name, value) ↔
    login.ComesUp ∧ login.disk.Succeeds ∧ ∃ code exchangeData data,
      acceptCode login.state login.connections = .ok code ∧ code ≠ "" ∧
      Exchanged serde urlSafe login code name value exchangeData data := by
  unfold SignIn.run
  simp only [bind_eq_ok, mapError_eq_ok, Unique.exists_iff, PUnit.default_eq_unit]
  constructor
  · rintro ⟨hbind, port, hport, code, haccept, h⟩
    by_cases hcode : code = ""
    · rw [if_pos hcode] at h
      cases h
    rw [if_neg hcode] at h
    simp only [bind_eq_ok, mapError_eq_ok, Unique.exists_iff, PUnit.default_eq_unit] at h
    obtain ⟨hclient, exchangeData, hexchange, h⟩ := h
    by_cases htoken : (exchangeData.getStr? "accessToken").isNone = true
    · rw [if_pos htoken] at h
      cases h
    rw [if_neg htoken] at h
    simp only [bind_eq_ok, mapError_eq_ok] at h
    obtain ⟨name', hsave, data, hparse, h⟩ := h
    obtain ⟨rfl, rfl⟩ := Prod.mk.inj (Except.ok.inj h)
    obtain ⟨hdisk, data', hparse', rfl⟩ := saveCredential_eq_ok_iff.mp hsave
    exact ⟨⟨hbind, ⟨port, hport⟩, hclient⟩, hdisk, code, exchangeData, data', haccept, hcode,
      hexchange, Option.isSome_iff_ne_none.mpr (by simpa using htoken), rfl, hparse', rfl⟩
  · rintro ⟨⟨hbind, ⟨port, hport⟩, hclient⟩, hdisk, code, exchangeData, data, haccept, hcode, hdone⟩
    obtain ⟨hexchange, htoken, rfl, hparse, rfl⟩ := hdone
    refine ⟨hbind, port, hport, code, haccept, ?_⟩
    rw [if_neg hcode]
    simp only [bind_eq_ok, mapError_eq_ok, Unique.exists_iff, PUnit.default_eq_unit]
    refine ⟨hclient, exchangeData, hexchange, ?_⟩
    rw [if_neg (by simpa using Option.isSome_iff_ne_none.mp htoken)]
    simp only [bind_eq_ok, mapError_eq_ok]
    exact ⟨_, saveCredential_eq_ok_iff.mpr ⟨hdisk, data, hparse, rfl⟩, data, hparse, rfl⟩

theorem isCredentialName_savedName (uid : String) : isCredentialName (savedName uid) = true := by
  have hlead : "lobsterai-".toList = credentialPrefix := by decide
  have htail : ".json".toList = credentialSuffix := by decide
  unfold isCredentialName savedName
  rw [String.toList_append, String.toList_append, hlead, htail, Bool.and_eq_true_iff]
  refine ⟨List.isPrefixOf_iff_prefix.mpr ?_, List.isSuffixOf_iff_suffix.mpr
    (List.suffix_append _ _)⟩
  rw [List.append_assoc]
  exact List.prefix_append _ _

theorem slash_not_mem_savedName {uid : String} (h : '/' ∉ uid.toList) :
    '/' ∉ (savedName uid).toList := by
  unfold savedName
  rw [String.toList_append, String.toList_append, List.mem_append, List.mem_append]
  exact not_or.mpr ⟨not_or.mpr ⟨by decide, h⟩, by decide⟩

theorem savedName_inj {uid uid' : String} : savedName uid = savedName uid' ↔ uid = uid' := by
  unfold savedName
  rw [String.append_left_inj, String.append_right_inj]

end Login

section Loading
variable {serde : Serde} {pretty : Json → List UInt8} {random : Vector UInt8 8} {now : Nat}
    {name other : String}
  {value : Json} {dir : Directory}

theorem content_atomicWrite_self :
    content (atomicWrite pretty random now name value dir) name = some (pretty value) :=
  content_insert_self

theorem content_atomicWrite_ne (hother : other ≠ name) (htemp : isTempName other = false) :
    content (atomicWrite pretty random now name value dir) other = content dir other := by
  have hne : other ≠ tempName random := fun heq => by
    rw [heq, isTempName_tempName] at htemp
    cases htemp
  unfold atomicWrite
  dsimp only
  rw [content_insert_ne hother, content_erase_ne hne, content_insert_ne hne, content_insert_ne hne]

/-- The write of a credential, where `resolve` says which file of the directory a path below it
leads to, if any. -/
def saved (resolve : String → Option String) (pretty : Json → List UInt8)
    (random : Vector UInt8 8) (now : Nat) (name : String) (value : Json) (dir : Directory) :
    Directory :=
  match resolve name with
  | some file => atomicWrite pretty random now file value dir
  | none => dir

/-- What a login saves is what the next pass loads, if the account is not there already and its
name leads into no other directory. -/
theorem signIn_loaded {urlSafe : List Char → Option (List UInt8)} {safeName : String → String}
    {resolve : String → Option String} {login : SignIn} {uid : String} {pool : Pool}
    (h : login.run serde urlSafe = .ok (savedName uid, value)) (hslash : '/' ∉ uid.toList)
    (hresolve : ∀ name, isCredentialName name = true → '/' ∉ name.toList → resolve name = some name)
    (hread : serde.fromSlice (pretty value) = some value)
    (hsize : (pretty value).length ≤ maxCredentialBytes)
    (hpool : ∀ c ∈ pool.entries, c.path ≠ savedName uid ∧ c.uid ≠ uid)
    (hdir : ∀ other ∈ listCredentialFiles dir, other ≠ savedName uid →
      ∀ c, dir.readCredential serde safeName other = some c → c.uid ≠ uid) :
    ∃ code exchangeData, FirstCode login.state code login.connections ∧
      exchange serde (login.answerTo code) = .ok exchangeData ∧
      ∃ c ∈ (refreshPass serde safeName
          (saved resolve pretty random now (savedName uid) value dir) pool).entries,
        c.uid = uid ∧ c.path = savedName uid ∧
        c.accessToken = trimmed (exchangeData.getStrD "accessToken") ∧
        c.refreshToken = trimmed (exchangeData.getStrD "refreshToken") := by
  obtain ⟨-, -, code, exchangeData, data, haccept, -, hdone⟩ := run_of_code.mp h
  obtain ⟨hexchange, -, hvalue, hparse, hname⟩ := hdone
  rw [savedName_inj] at hname
  subst hname
  refine ⟨code, exchangeData, acceptCode_eq_ok_iff.mp haccept, hexchange, ?_⟩
  unfold saved
  rw [hresolve _ (isCredentialName_savedName _) (slash_not_mem_savedName hslash)]
  dsimp only
  generalize hafter : atomicWrite pretty random now (savedName data.uid) value dir = after
  have hself : content after (savedName data.uid) = some (pretty value) :=
    hafter ▸ content_atomicWrite_self
  have hothers : ∀ other, other ≠ savedName data.uid → isTempName other = false →
      content after other = content dir other :=
    fun other hne htemp => hafter ▸ content_atomicWrite_ne hne htemp
  have hload : readCredentialFile serde (content after (savedName data.uid)) = .ok data :=
    hself ▸ readCredentialFile_of_parse hsize hread hparse
  have hlisted : savedName data.uid ∈ listCredentialFiles after :=
    mem_listCredentialFiles.mpr
      ⟨isSome_content.mp (by rw [hself]; rfl), isCredentialName_savedName _⟩
  obtain ⟨c, hc, hsame⟩ := @represented_refreshPass _ safeName _ pool _ _ hlisted hload
  -- it is none of the pool, and of no other file
  have hnew : c = Credential.new safeName (savedName data.uid) data := by
    rcases mem_refreshPass hc with ⟨hold, -⟩ | ⟨path, hpath, loaded, hloaded, rfl⟩
    · obtain ⟨hpath, huid⟩ := hpool c hold
      exact (hsame.elim hpath huid).elim
    · by_cases heq : path = savedName data.uid
      · subst heq
        rw [readCredential_of_ok hload] at hloaded
        cases hloaded
        rfl
      · have hcredential := (mem_listCredentialFiles.mp hpath).2
        have hkept := hothers path heq (isTempName_of_credential hcredential)
        have hthere := (mem_listCredentialFiles_congr hkept).mp hpath
        unfold Directory.readCredential at hloaded
        rw [hkept] at hloaded
        exact (hsame.elim heq (hdir path hthere heq loaded hloaded)).elim
  have hrecovered := parse_buildCredentialFile (hvalue ▸ hparse)
  refine ⟨c, hc, ?_, ?_, ?_, ?_⟩
  · rw [hnew]
    rfl
  · rw [hnew]
    rfl
  · rw [hnew]
    exact hrecovered.accessToken
  · rw [hnew]
    exact hrecovered.refreshToken

def exchangeAnswer : Json := .obj [("code", .ofNat 0), ("data", .obj [("accessToken", .str "tok"),
  ("expiresIn", .ofNat 3600), ("user", .obj [("id", .str "7")])])]

def signedInFile : Json := buildCredentialFile .emptyObject (fun _ => none) 100 100000
  ((exchangeAnswer.get? "data").getD .null) "u" "k"

def signInTexts : Serde := onTexts [("x", exchangeAnswer), ("y", signedInFile)]

/-- A stray connection comes before the callback. -/
def oneSignIn : SignIn where
  state := "s"
  uuid := "u"
  firstKeyfrom := "k"
  bind := .ok ()
  localPort := .ok 4000
  connections := [.ok [.ok (encoded "GET /favicon.ico HTTP/1.1\r\n\r\n")],
    .ok [.ok (encoded "GET /auth/callback?code=c&state=s HTTP/1.1\r\n"), .ok (encoded "\r\n")]]
  client := .ok ()
  answerTo := fun _ => .ok (200, .ok (encoded "x"))
  nowSecs := 100
  nowMillis := 100000
  disk := ⟨.ok (), .ok (), .ok (), .ok (), .ok ()⟩

/-- A connection that says nothing keeps the callback waiting. -/
example : acceptCode oneSignIn.state (.ok [] :: oneSignIn.connections) = .error .timeout := rfl

theorem signIn_loaded_one :
    ∃ code exchangeData, FirstCode oneSignIn.state code oneSignIn.connections ∧
    exchange signInTexts (oneSignIn.answerTo code) = .ok exchangeData ∧
    ∃ c ∈ (refreshPass signInTexts id (saved some (fun _ => encoded "y") drawn 60
      (savedName "7") signedInFile ∅)
        (.new smallLimits)).entries,
      c.uid = "7" ∧ c.path = savedName "7" ∧ c.accessToken =
        trimmed (exchangeData.getStrD "accessToken") ∧
        c.refreshToken = trimmed (exchangeData.getStrD "refreshToken") := by
  have hread (text : String) (v : Json) (h : signInTexts.fromStr text = some v) :
      signInTexts.fromSlice (encoded text) = some v := (fromSlice_encoded _ text).trans h
  have hexchange : exchange signInTexts (.ok (200, .ok (encoded "x"))) =
      .ok ((exchangeAnswer.get? "data").getD .null) := by
    unfold exchange
    dsimp only [Except.toOption]
    rw [Option.getD_some, if_neg (by decide), hread "x" exchangeAnswer (by decide +kernel)]
    rfl
  have hrun : oneSignIn.run signInTexts (fun _ => none) = .ok (savedName "7", signedInFile) := by
    refine run_of_code.mpr ⟨⟨rfl, ⟨4000, rfl⟩, rfl⟩, ⟨rfl, rfl, rfl, rfl, rfl⟩, "c", _,
      ⟨signedInFile, "7", "", "", "u", "k", "100000", "tok", "", 3700,
      0⟩, by decide +kernel, by decide, hexchange,
      by decide +kernel, rfl, by decide +kernel, rfl⟩
  refine signIn_loaded hrun (by decide) (fun _ _ _ => rfl)
    (hread "y" signedInFile (by decide +kernel)) ?_
    (fun c hc => absurd hc List.not_mem_nil) ?_
  · rw [length_encoded]
    decide +kernel
  · have hnone : listCredentialFiles ∅ = [] := rfl
    intro other hother
    rw [hnone] at hother
    exact absurd hother List.not_mem_nil

end Loading

end Lobster.Upstream
