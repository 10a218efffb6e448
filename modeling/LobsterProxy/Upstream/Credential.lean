import LobsterProxy.Base.Double

/-! Credentials: the file's JSON in nested or flat form, expiry, and the update that a
refresh makes in memory and on disk. -/

namespace Lobster.Upstream
open Text

def ofI64 (n : Int) : Json :=
  if 0 ≤ n then .ofNat n.toNat else .num (.negInt (Fin.ofNat _ (-n - 1).toNat))

inductive CredentialError where
  | notAnObject
  | missingAccessToken
  deriving DecidableEq

def CredentialError.message : CredentialError → String
  | notAnObject => "credential is not a valid JSON object"
  | missingAccessToken => "credential is missing accessToken"

structure CredentialData where
  raw : Json
  uid : String
  userId : String
  nickname : String
  uuid : String
  firstKeyfrom : String
  latestKeyfrom : String
  accessToken : String
  refreshToken : String
  /-- Seconds since the epoch, zero when unknown. -/
  expiresAtSecs : Int
  lastRefreshSecs : Int
  deriving DecidableEq

def strField (object : Json) (keys : List String) : String :=
  String.ofList (trim ((keys.findSome? fun key => object.getStr? key).getD "").toList)

/-- Milliseconds are told from seconds by their size. -/
def normDouble : Double → Option Int
  | .nan => some 0
  | .infinite true => none
  | .infinite false => some i64Max
  | .finite f =>
    if !f.isPositive then none
    else if 10 ^ 12 * f.den ≤ f.num then
      match Double.ofRatio false f.num (f.den * 1000) with
      | .finite secs => some secs.roundI64
      | _ => some i64Max
    else some f.roundI64

def normTs (value : Option Json) : Option Int :=
  match value with
  | some (.str s) => (Double.parse (trim s.toList)).bind normDouble
  | some v => (v.asF64.map Double.finite).bind normDouble
  | none => none

theorem normTs_ofI64 {n : Int} (hpos : 0 < n) (h : n < 10 ^ 12) :
    normTs (some (ofI64 n)) = some n := by
  obtain ⟨k, rfl⟩ := Int.eq_ofNat_of_zero_le hpos.le
  have hk : k ≠ 0 := by omega
  have hlt : k < 10 ^ 12 := by omega
  have hexact : k < 2 ^ 53 := hlt.trans (by decide)
  obtain ⟨hnum, hden⟩ := F64.ratio_ofNat hk hexact
  have hround := F64.roundI64_ofNat hk hexact
  have hneg : (F64.ofNat false k).neg = false := by rw [F64.ofNat_of_lt hk hexact]
  have hjson : ofI64 k = .num (.posInt (UInt64.ofNat k)) := if_pos hpos.le
  have hk64 : (UInt64.ofNat k).toNat = k := UInt64.toNat_ofNat_of_lt' (hexact.trans (by decide))
  rw [hjson]
  show normDouble (.finite (F64.ofNat false (UInt64.ofNat k).toNat)) = _
  rw [hk64]
  generalize F64.ofNat false k = f at hnum hden hround hneg
  have hnonzero : f.num ≠ 0 := by
    rw [hnum]
    exact Nat.mul_ne_zero hk hden.ne'
  have hsmall : ¬ 10 ^ 12 * f.den ≤ f.num := by
    rw [hnum, Nat.not_le]
    exact Nat.mul_lt_mul_of_pos_right hlt hden
  have hpositive : f.isPositive = true := by
    unfold F64.isPositive
    rw [hneg, decide_eq_true hnonzero]
    rfl
  unfold normDouble
  dsimp only
  rw [hpositive, Bool.not_true, if_neg Bool.false_ne_true, if_neg hsmall, hround]

def parseCredential (raw : Json) : Except CredentialError CredentialData :=
  match raw.asObject with
  | none => .error .notAnObject
  | some object =>
    let nested := object.containsKey "auth"
    let auth := if nested then (object.get? "auth").getD (.obj []) else raw
    let account := if nested then (object.get? "account").getD (.obj []) else raw
    let accessToken := strField auth ["accessToken", "access_token", "token"]
    if accessToken = "" then .error .missingAccessToken
    else
      -- the flat form has its uid at the top level
      let uid := strField account ["uid", "id"]
      .ok {
        raw := raw
        uid := if uid = "" ∧ object.containsKey "uid" then strField raw ["uid"] else uid
        userId := strField account ["userId", "user_id", "yid"]
        nickname := strField account ["nickname"]
        uuid := strField auth ["uuid"]
        firstKeyfrom := strField auth ["firstKeyfrom"]
        latestKeyfrom := strField auth ["latestKeyfrom"]
        accessToken := accessToken
        refreshToken := strField auth ["refreshToken", "refresh_token"]
        expiresAtSecs := (normTs ((auth.get? "expiresAt").or (auth.get? "expires_at"))).getD 0
        lastRefreshSecs := (normTs (auth.get? "lastRefreshTime")).getD 0 }

inductive FileError where
  | tooLarge
  | io
  | parse
  deriving DecidableEq

def maxCredentialBytes : Nat := 1024 * 1024

def readCredentialFile (serde : Serde) (file : Option (List UInt8)) :
    Except FileError CredentialData :=
  match file with
  | none => .error .io
  | some bytes =>
    if maxCredentialBytes < bytes.length then .error .tooLarge
    else match serde.fromSlice bytes with
      | none => .error .parse
      | some value => (parseCredential value).mapError fun _ => .parse

namespace CredentialData
variable (data : CredentialData)

/-- The token expires within the margin, or its expiry is not known. -/
def needsRefresh (marginSecs nowSecs : Int) : Bool :=
  data.expiresAtSecs = 0 ∨ saturateI64 (data.expiresAtSecs - marginSecs) ≤ nowSecs

def accountValue : Json :=
  .obj [("uid", .str data.uid), ("userId", .str data.userId), ("nickname", .str data.nickname)]

end CredentialData

structure Renewal where
  accessToken : String
  refreshToken : String
  expiresAtSecs : Int
  deriving DecidableEq

/-- The `auth` part after a refresh; the fields that the endpoint asks for are carried over. -/
def Renewal.auth (renewal : Renewal) (nowSecs : Int) (old : Json) : Json :=
  .obj [("accessToken", .str renewal.accessToken), ("refreshToken", .str renewal.refreshToken),
    ("expiresAt", ofI64 renewal.expiresAtSecs), ("uuid", .str (strField old ["uuid"])),
    ("firstKeyfrom", .str (strField old ["firstKeyfrom"])),
    ("latestKeyfrom", .str (toString nowSecs)),
    ("lastRefreshTime", ofI64 nowSecs)]

/-- What became of an update: the data in memory, the file's new content if it was written. -/
structure Applied where
  data : CredentialData
  written : Option Json
  result : Except String Unit

section Update
variable (serde : Serde) (renewal : Renewal) (nowSecs : Int)

/-- The file counts, where it can be read, else what was parsed from it before. -/
def currentRaw (file : Option (List UInt8)) (data : CredentialData) : Json :=
  (file.bind serde.fromSlice).getD data.raw

def renewedRaw (raw : Json) (data : CredentialData) : Json :=
  let auth := renewal.auth nowSecs ((raw.get? "auth").getD raw)
  if (raw.get? "account").isSome ∨ (raw.get? "auth").isSome then raw.set "auth" auth
  else .obj [("auth", auth), ("account", data.accountValue)]

/-- `file` is what the file holds, `write` how its replacement goes. -/
def applyRefresh (file : Option (List UInt8)) (write : Except String Unit) (data : CredentialData) :
    Applied :=
  let raw := renewedRaw renewal nowSecs (currentRaw serde file data) data
  match write with
  | .error err => ⟨data, none, .error err⟩
  | .ok () =>
    match parseCredential raw with
    -- the file is written, and the data in memory is still the old
    | .error err => ⟨data, some raw, .error s!"post-refresh reparse failed: {err.message}"⟩
    | .ok parsed => ⟨parsed, some raw, .ok ()⟩

end Update

theorem get?_renewedRaw (renewal : Renewal) (nowSecs : Int) (raw : Json) (data : CredentialData) :
    ∃ object old, renewedRaw renewal nowSecs raw data = .obj object ∧
      Fields.get? object "auth" = some (renewal.auth nowSecs old) := by
  unfold renewedRaw
  dsimp only
  split_ifs with hnested
  · obtain ⟨fields, rfl⟩ : ∃ fields, raw = .obj fields := by
      rcases hnested with h | h <;> obtain ⟨w, hw⟩ :=
        Option.isSome_iff_exists.mp h <;> exact Json.obj_of_get? hw
    exact ⟨_, _, rfl, Fields.get?_insert_self _ _ _⟩
  · exact ⟨_, _, rfl, rfl⟩

theorem lastRefreshSecs_renewedRaw {renewal : Renewal} {nowSecs : Int} {raw : Json}
    {data parsed : CredentialData}
    (h : parseCredential (renewedRaw renewal nowSecs raw data) = .ok parsed) :
    parsed.lastRefreshSecs = (normTs (some (ofI64 nowSecs))).getD 0 := by
  obtain ⟨object, old, hraw, hauth⟩ := get?_renewedRaw renewal nowSecs raw data
  have hnested : Fields.containsKey object "auth" = true := by
    unfold Fields.containsKey
    rw [hauth]
    rfl
  rw [hraw] at h
  unfold parseCredential at h
  simp only [Json.asObject_obj, hnested, if_true, hauth, Option.getD_some] at h
  split_ifs at h <;> cases h <;> rfl

/-- The `exp` claim of a token's payload; the base64 decoder is a parameter. -/
def jwtExpiry (serde : Serde) (urlSafe : List Char → Option (List UInt8)) (jwt : String) :
    Option Int :=
  ((jwt.toList.splitOn '.')[1]?).bind fun part =>
    -- the encoding leaves its padding out
    let padding := if len part % 4 = 2 then ['=', '='] else if len part % 4 = 3 then ['='] else []
    (urlSafe (part ++ padding)).bind fun bytes =>
      (((serde.fromSlice bytes).bind fun payload => payload.get? "exp").bind Json.asI64).filter
        fun exp => 0 < exp

end Lobster.Upstream
