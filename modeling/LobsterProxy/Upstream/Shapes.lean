import LobsterProxy.Upstream.Persistence

/-! The shapes of a credential file, and what a refresh makes of the identity it holds. -/

namespace Lobster.Upstream
open Text

def authOf (raw : Json) : Json := (raw.get? "auth").getD raw

/-- The section that the account is read from: without `auth` all is at the top level. -/
def accountOf (raw : Json) : Json :=
  if (raw.get? "auth").isSome then (raw.get? "account").getD (.obj []) else raw

def uidOf (raw : Json) : String :=
  let uid := strField (accountOf raw) ["uid", "id"]
  if uid = "" ∧ (raw.get? "uid").isSome then strField raw ["uid"] else uid

def CredentialData.renewal (data : CredentialData) : Renewal :=
  ⟨data.accessToken, data.refreshToken, data.expiresAtSecs⟩

structure SameIdentity (data data' : CredentialData) : Prop where
  uid : data'.uid = data.uid
  userId : data'.userId = data.userId
  nickname : data'.nickname = data.nickname
  uuid : data'.uuid = data.uuid
  firstKeyfrom : data'.firstKeyfrom = data.firstKeyfrom

/-- The file that is written is read back as the same account with the new tokens and expiry. -/
structure Applied.Preserves (serde : Serde) (pretty : Json → List UInt8) (renewal : Renewal)
    (data : CredentialData) (applied : Applied) : Prop where
  succeeded : applied.result = .ok ()
  reread : ∃ written parsed, applied.written = some written ∧
    (serde.fromSlice (pretty written)).map parseCredential = some (.ok parsed) ∧
    SameIdentity data parsed ∧ parsed.renewal = renewal

/-- The account section reads as the top level does; its uid may be missing where the top
level has one under `uid`. -/
structure Agrees (raw account : Json) : Prop where
  uid : strField account ["uid", "id"] = strField raw ["uid", "id"] ∨
    strField account ["uid", "id"] = "" ∧ (raw.getStr? "uid").isSome = true
  userId : strField account ["userId", "user_id", "yid"] = strField raw ["userId", "user_id", "yid"]
  nickname : strField account ["nickname"] = strField raw ["nickname"]

/-- A file without `auth` has no account section that says otherwise. -/
def OneShape (raw : Json) : Prop :=
  (raw.get? "auth").isSome = true ∨ ∀ account, raw.get? "account" = some account →
  Agrees raw account

def Renewal.Trimmed (renewal : Renewal) : Prop :=
  trim renewal.accessToken.toList = renewal.accessToken.toList ∧
    trim renewal.refreshToken.toList = renewal.refreshToken.toList

section Trim

theorem trim_strField (object : Json) (keys : List String) :
    String.ofList (trim (strField object keys).toList) = strField object keys := by
  unfold strField trim
  rw [String.toList_ofList, trimMatches_trimMatches]

theorem ofList_trim_eq_iff {s : String} :
    String.ofList (trim s.toList) = s ↔ trim s.toList = s.toList := by
  rw [← String.toList_inj, String.toList_ofList]

end Trim

section Read
variable {raw : Json} {data : CredentialData}

structure Reads (raw : Json) (data : CredentialData) : Prop where
  object : ∃ fields, raw = .obj fields
  uid : data.uid = uidOf raw
  userId : data.userId = strField (accountOf raw) ["userId", "user_id", "yid"]
  nickname : data.nickname = strField (accountOf raw) ["nickname"]
  uuid : data.uuid = strField (authOf raw) ["uuid"]
  firstKeyfrom : data.firstKeyfrom = strField (authOf raw) ["firstKeyfrom"]
  accessToken : data.accessToken = strField (authOf raw) ["accessToken", "access_token", "token"]
  refreshToken : data.refreshToken = strField (authOf raw) ["refreshToken", "refresh_token"]
  expiresAtSecs : data.expiresAtSecs =
    (normTs (((authOf raw).get? "expiresAt").or ((authOf raw).get? "expires_at"))).getD 0

theorem reads_of_parse (h : parseCredential raw = .ok data) : Reads raw data := by
  unfold parseCredential at h
  cases hobject : raw.asObject with
  | none =>
    rw [hobject] at h
    cases h
  | some fields =>
    rw [hobject] at h
    obtain rfl := Json.asObject_eq_some.mp hobject
    have hauth :
        (if Fields.containsKey fields "auth" then (Fields.get? fields "auth").getD (.obj [])
        else .obj fields) = authOf (.obj fields) := by
      unfold Fields.containsKey authOf
      rw [Json.get?_obj]
      cases Fields.get? fields "auth" <;> rfl
    have haccount :
        (if Fields.containsKey fields "auth" then (Fields.get? fields "account").getD (.obj [])
        else .obj fields) = accountOf (.obj fields) := rfl
    have huid :
        (if strField (accountOf (.obj fields)) ["uid", "id"] = "" ∧
        Fields.containsKey fields "uid" = true
        then strField (.obj fields) ["uid"] else strField (accountOf (.obj fields)) ["uid", "id"]) =
          uidOf (.obj fields) := rfl
    dsimp only at h
    rw [hauth, haccount, huid] at h
    split_ifs at h
    cases h
    refine ⟨⟨fields, rfl⟩, ?_, ?_, ?_, ?_, ?_, ?_, ?_, ?_⟩ <;> dsimp only

theorem strField_congr {v w : Json} {key : String} (h : v.getStr? key = w.getStr? key) :
    strField v [key] = strField w [key] := by
  unfold strField
  rw [List.findSome?_singleton, List.findSome?_singleton, h]

theorem strField_none (h : raw.getStr? "uid" = none) : strField raw ["uid"] = "" := by
  simp [strField, h, trim, trimMatches]

theorem strField_uid (h : (raw.getStr? "uid").isSome = true) :
    strField raw ["uid", "id"] = strField raw ["uid"] := by
  obtain ⟨uid, hstr⟩ := Option.isSome_iff_exists.mp h
  simp [strField, hstr]

theorem strField_uid_blank (h : strField raw ["uid", "id"] = "") : strField raw ["uid"] = "" := by
  cases hstr : raw.getStr? "uid" with
  | none => exact strField_none hstr
  | some uid => rw [← h, strField_uid (Option.isSome_iff_exists.mpr ⟨uid, hstr⟩)]

theorem uidOf_eq (raw : Json) : uidOf raw =
    if strField (accountOf raw) ["uid", "id"] = "" then strField raw ["uid"]
    else strField (accountOf raw) ["uid", "id"] := by
  unfold uidOf
  dsimp only
  by_cases hblank : strField (accountOf raw) ["uid", "id"] = ""
  · rw [if_pos hblank]
    cases hkey : raw.get? "uid" with
    | some value => rw [if_pos ⟨hblank, rfl⟩]
    | none =>
      have hstr : raw.getStr? "uid" = none := by
        unfold Json.getStr?
        rw [hkey]
        rfl
      rw [if_neg fun h => Bool.false_ne_true h.2, strField_none hstr, hblank]
  · rw [if_neg fun h => hblank h.1, if_neg hblank]

theorem accountOf_nested {auth : Json} (h : raw.get? "auth" = some auth) :
    accountOf raw = (raw.get? "account").getD (.obj []) := by
  unfold accountOf
  rw [h]
  rfl

theorem accountOf_flat (h : raw.get? "auth" = none) : accountOf raw = raw := by
  unfold accountOf
  rw [h]
  rfl

theorem uidOf_flat (h : raw.get? "auth" = none) : uidOf raw = strField raw ["uid", "id"] := by
  rw [uidOf_eq, accountOf_flat h]
  split_ifs with hblank
  · rw [hblank, strField_uid_blank hblank]
  · rfl

end Read

section Renewed
variable {raw : Json} {data : CredentialData} {renewal : Renewal} {nowSecs : Int}

def renewedAccount (raw : Json) (data : CredentialData) : Json :=
  if (raw.get? "account").isSome ∨ (raw.get? "auth").isSome then (raw.get? "account").getD (.obj [])
  else data.accountValue

theorem sections_renewedRaw (h : ∃ fields, raw = .obj fields) :
    let raw' := renewedRaw renewal nowSecs raw data
    authOf raw' = renewal.auth nowSecs (authOf raw) ∧ accountOf raw' = renewedAccount raw data ∧
      (raw'.getStr? "uid" =
        if (raw.get? "account").isSome ∨ (raw.get? "auth").isSome then
          raw.getStr? "uid" else none) := by
  obtain ⟨fields, rfl⟩ := h
  unfold renewedRaw renewedAccount
  dsimp only
  split_ifs with hnested
  · have hauth :
        Fields.get? (Fields.insert "auth" (renewal.auth nowSecs (authOf (.obj fields))) fields)
          "auth" =
        some (renewal.auth nowSecs (authOf (.obj fields))) := Fields.get?_insert_self _ _ _
    have hother {key : String} (hkey : "auth" ≠ key) :
        Fields.get? (Fields.insert "auth" (renewal.auth nowSecs (authOf (.obj fields))) fields)
          key =
        Fields.get? fields key := Fields.get?_insert_ne _ _ hkey
    show authOf (.obj (Fields.insert "auth" (renewal.auth nowSecs (authOf (.obj fields))) fields)) =
      _ ∧
      accountOf (.obj (Fields.insert "auth" (renewal.auth nowSecs (authOf (.obj fields))) fields)) =
      _ ∧
      Json.getStr?
        (.obj (Fields.insert "auth" (renewal.auth nowSecs (authOf (.obj fields))) fields)) "uid" = _
    generalize Fields.insert "auth" (renewal.auth nowSecs (authOf (.obj fields))) fields =
      fields' at hauth hother
    refine ⟨?_, ?_, ?_⟩
    · show (Fields.get? fields' "auth").getD (.obj fields') = _
      rw [hauth, Option.getD_some]
    · show (if (Fields.get? fields' "auth").isSome then
        (Fields.get? fields' "account").getD (.obj [])
        else .obj fields') = _
      rw [hauth, Option.isSome_some, if_pos rfl, hother (by decide)]
      rfl
    · show (Fields.get? fields' "uid").bind Json.asStr = _
      rw [hother (by decide)]
      rfl
  · exact ⟨rfl, rfl, rfl⟩

theorem uidOf_renewedRaw (h : Reads raw data) : uidOf (renewedRaw renewal nowSecs raw data) =
    if (raw.get? "account").isSome ∨ (raw.get? "auth").isSome then
      if strField ((raw.get? "account").getD (.obj [])) ["uid", "id"] = "" then strField raw ["uid"]
      else strField ((raw.get? "account").getD (.obj [])) ["uid", "id"]
    else data.uid := by
  obtain ⟨-, haccount, huid⟩ := @sections_renewedRaw raw data renewal nowSecs h.object
  have hsame : strField data.accountValue ["uid", "id"] = data.uid := by
    calc strField data.accountValue ["uid", "id"] = String.ofList (trim data.uid.toList) := rfl
      _ = data.uid := by
        rw [h.uid, uidOf_eq]
        split_ifs <;> exact trim_strField _ _
  rw [uidOf_eq, haccount]
  unfold renewedAccount
  by_cases hnested : (raw.get? "account").isSome ∨ (raw.get? "auth").isSome
  · rw [if_pos hnested] at huid
    rw [if_pos hnested, if_pos hnested, strField_congr huid]
  · rw [if_neg hnested] at huid
    rw [if_neg hnested, if_neg hnested, hsame, strField_none huid]
    split_ifs with hblank
    · exact hblank.symm
    · rfl

/-- What is written keeps the identity exactly when it comes in one shape. -/
theorem sameAccount_iff (h : Reads raw data) :
    (uidOf (renewedRaw renewal nowSecs raw data) = data.uid ∧
      strField (renewedAccount raw data) ["userId", "user_id", "yid"] = data.userId ∧
      strField (renewedAccount raw data) ["nickname"] = data.nickname) ↔ OneShape raw := by
  rw [uidOf_renewedRaw h]
  unfold renewedAccount OneShape
  have hreads := h
  obtain ⟨-, huid, huserId, hnickname, -⟩ := hreads
  cases hauth : raw.get? "auth" with
  | some auth =>
    rw [uidOf_eq, accountOf_nested hauth] at huid
    rw [accountOf_nested hauth] at huserId hnickname
    simp [huid, huserId, hnickname]
  | none =>
    rw [accountOf_flat hauth] at huserId hnickname
    rw [uidOf_flat hauth] at huid
    cases hsection : raw.get? "account" with
    | none =>
      -- the flat form: the account is written from what was read
      have hkept (key : String) (rest : List String) (value : String)
          (hvalue : value = strField raw (key :: rest)) :
          String.ofList (trim value.toList) = value := by
        rw [hvalue]
        exact trim_strField _ _
      have huserId' : strField data.accountValue ["userId", "user_id", "yid"] = data.userId :=
        hkept "userId" _ _ huserId
      have hnickname' : strField data.accountValue ["nickname"] = data.nickname :=
        hkept "nickname" _ _ hnickname
      simp [huserId', hnickname']
    | some account =>
      simp only [Option.isSome_some, Option.isSome_none, Bool.false_eq_true, or_false, if_true,
        Option.getD_some, Option.some.injEq, forall_eq', false_or]
      rw [huid, huserId, hnickname]
      constructor
      · rintro ⟨hsame, huserId, hnickname⟩
        refine ⟨?_, huserId, hnickname⟩
        split_ifs at hsame with hblank
        · cases hstr : raw.getStr? "uid" with
          | none =>
            left
            rw [hblank, ← hsame, strField_none hstr]
          | some uid => exact .inr ⟨hblank, rfl⟩
        · exact .inl hsame
      · rintro ⟨hagrees, huserId, hnickname⟩
        refine ⟨?_, huserId, hnickname⟩
        rcases hagrees with hsame | ⟨hblank, hstr⟩
        · rw [hsame]
          split_ifs with hblank
          · rw [hblank, strField_uid_blank hblank]
          · rfl
        · rw [if_pos hblank, strField_uid hstr]

end Renewed

section Refresh
variable (serde : Serde) (pretty : Json → List UInt8) (renewal : Renewal) (nowSecs : Int)
  (bytes : List UInt8) {raw : Json} {data : CredentialData}

theorem renewal_renewedRaw {parsed : CredentialData} (h : Reads raw data)
    (hparsed : Reads (renewedRaw renewal nowSecs raw data) parsed)
    (hpos : 0 < renewal.expiresAtSecs) (hlt : renewal.expiresAtSecs < 10 ^ 12) :
    parsed.uuid = data.uuid ∧ parsed.firstKeyfrom = data.firstKeyfrom ∧
      (parsed.renewal = renewal ↔ renewal.Trimmed) := by
  obtain ⟨hauth, -, -⟩ := @sections_renewedRaw raw data renewal nowSecs h.object
  have huuid := hparsed.uuid
  have hkeyfrom := hparsed.firstKeyfrom
  have haccess := hparsed.accessToken
  have hrefresh := hparsed.refreshToken
  have hexpires := hparsed.expiresAtSecs
  rw [hauth] at huuid hkeyfrom haccess hrefresh hexpires
  refine ⟨?_, ?_, ?_⟩
  · calc parsed.uuid = String.ofList (trim (strField (authOf raw) ["uuid"]).toList) := huuid
      _ = data.uuid := by rw [trim_strField, h.uuid]
  · calc parsed.firstKeyfrom =
      String.ofList (trim (strField (authOf raw) ["firstKeyfrom"]).toList) := hkeyfrom
      _ = data.firstKeyfrom := by rw [trim_strField, h.firstKeyfrom]
  · have htoken : parsed.accessToken = String.ofList (trim renewal.accessToken.toList) := haccess
    have hother : parsed.refreshToken = String.ofList (trim renewal.refreshToken.toList) := hrefresh
    have hexpiry : parsed.expiresAtSecs = renewal.expiresAtSecs := by
      calc parsed.expiresAtSecs = (normTs (some (ofI64 renewal.expiresAtSecs))).getD 0 := hexpires
        _ = renewal.expiresAtSecs := by rw [normTs_ofI64 hpos hlt, Option.getD_some]
    obtain ⟨access, refresh, expiry⟩ := renewal
    unfold CredentialData.renewal Renewal.Trimmed
    rw [Renewal.mk.injEq, htoken, hother, and_iff_left hexpiry, ofList_trim_eq_iff,
      ofList_trim_eq_iff]

/-- A refresh keeps the account and takes the new tokens exactly when the file comes in one
shape and no token has white space at its ends. -/
theorem refresh_preserves_iff (hfile : serde.fromSlice bytes = some raw)
    (hparse : parseCredential raw = .ok data) (htoken : trim renewal.accessToken.toList ≠ [])
    (hpos : 0 < renewal.expiresAtSecs) (hlt : renewal.expiresAtSecs < 10 ^ 12)
    (hread : serde.fromSlice (pretty (replacement serde renewal nowSecs (some bytes) data)) =
      some (replacement serde renewal nowSecs (some bytes) data)) :
    (applyRefresh serde renewal nowSecs (some bytes) (.ok ()) data).Preserves serde pretty
      renewal data ↔
      renewal.Trimmed ∧ OneShape raw := by
  have hcurrent : currentRaw serde (some bytes) data = raw := by
    unfold currentRaw
    rw [Option.bind_some, hfile, Option.getD_some]
  have hreads := reads_of_parse hparse
  obtain ⟨parsed, hparsed⟩ := (@parseCredential_renewedRaw renewal nowSecs raw data).mpr htoken
  obtain ⟨huuid, hkeyfrom, hrenewal⟩ :=
    renewal_renewedRaw renewal nowSecs hreads (reads_of_parse hparsed) hpos hlt
  have hrenewed := reads_of_parse hparsed
  obtain ⟨-, haccount, -⟩ := @sections_renewedRaw raw data renewal nowSecs hreads.object
  have hsame := @sameAccount_iff raw data renewal nowSecs hreads
  rw [← hrenewed.uid, ← haccount, ← hrenewed.userId, ← hrenewed.nickname] at hsame
  unfold replacement at hread
  rw [hcurrent] at hread
  have happlied : applyRefresh serde renewal nowSecs (some bytes) (.ok ()) data =
      ⟨parsed, some (renewedRaw renewal nowSecs raw data), .ok ()⟩ := by
    unfold applyRefresh
    rw [hcurrent]
    dsimp only
    rw [hparsed]
  rw [happlied, ← hrenewal, ← hsame]
  constructor
  · rintro ⟨-, written, parsed', hwritten, hreread, hidentity, hnew⟩
    obtain rfl := Option.some.inj hwritten
    rw [hread, Option.map_some, hparsed] at hreread
    obtain rfl := Except.ok.inj (Option.some.inj hreread)
    exact ⟨hnew, hidentity.uid, hidentity.userId, hidentity.nickname⟩
  · rintro ⟨hnew, huid, huserId, hnickname⟩
    refine ⟨rfl, _, parsed, rfl, ?_, ⟨huid, huserId, hnickname, huuid, hkeyfrom⟩, hnew⟩
    rw [hread, Option.map_some, hparsed]

theorem refresh_preserves_iff_nested :
    (applyRefresh (refreshTexts "tok-2") ⟨"tok-2", "rt-2", 1900000000⟩ 1800000000
      (some (encoded oldText)) (.ok ())
      ⟨oldFile, "1001", "", "", "", "", "", "tok-1", "", 0, 0⟩).Preserves (refreshTexts "tok-2")
        (prettyText "tok-2")
        ⟨"tok-2", "rt-2", 1900000000⟩ ⟨oldFile, "1001", "", "", "", "", "", "tok-1", "", 0, 0⟩ ↔
      (⟨"tok-2", "rt-2", 1900000000⟩ : Renewal).Trimmed ∧ OneShape oldFile := by
  have hfile : (refreshTexts "tok-2").fromSlice (encoded oldText) = some oldFile :=
    (fromSlice_encoded _ _).trans (by decide +kernel)
  have hnew : replacement (refreshTexts "tok-2") ⟨"tok-2", "rt-2", 1900000000⟩ 1800000000
      (some (encoded oldText))
      ⟨oldFile, "1001", "", "", "", "", "", "tok-1", "", 0, 0⟩ = newFile "tok-2" := by
    unfold replacement currentRaw
    rw [Option.bind_some, hfile]
    rfl
  have hread : (refreshTexts "tok-2").fromSlice (prettyText "tok-2" (newFile "tok-2")) =
      some (newFile "tok-2") :=
    (fromSlice_encoded _ _).trans (by decide +kernel)
  rw [← hnew] at hread
  exact refresh_preserves_iff (refreshTexts "tok-2") (prettyText "tok-2")
    ⟨"tok-2", "rt-2", 1900000000⟩ 1800000000
    (encoded oldText) hfile (by decide +kernel) (by decide +kernel) (by decide) (by decide) hread

def mixedFile : Json := .obj [("accessToken", .str "tok-1"), ("uid", .str "1001"),
  ("account", .obj [("uid", .str "1002")])]

def mixedText : String :=
  "\x7b\"accessToken\":\"tok-1\",\"uid\":\"1001\",\"account\":\x7b\"uid\":\"1002\"\x7d\x7d"

def mixedAfter : Json :=
  mixedFile.set "auth" (.obj [("accessToken", .str "tok-2"), ("refreshToken", .str "rt-2"),
  ("expiresAt", .ofNat 1900000000), ("uuid", .str ""), ("firstKeyfrom", .str ""),
  ("latestKeyfrom", .str "1800000000"), ("lastRefreshTime", .ofNat 1800000000)])

def mixedAfterText : String :=
  "\n".intercalate ["\x7b", "  \"accessToken\": \"tok-1\",", "  \"uid\": \"1001\",",
  "  \"account\": \x7b", "    \"uid\": \"1002\"", "  \x7d,", "  \"auth\": \x7b",
  "    \"accessToken\": \"tok-2\",", "    \"refreshToken\": \"rt-2\",",
      "    \"expiresAt\": 1900000000,",
  "    \"uuid\": \"\",", "    \"firstKeyfrom\": \"\",", "    \"latestKeyfrom\": \"1800000000\",",
  "    \"lastRefreshTime\": 1800000000", "  \x7d", "\x7d"]

def mixedTexts : Serde := onTexts [(mixedText, mixedFile), (mixedAfterText, mixedAfter)]

theorem refresh_changes_account :
    ¬ ∀ (serde : Serde) (pretty : Json → List UInt8) (renewal : Renewal) (nowSecs : Int)
    (bytes : List UInt8) (raw : Json) (data : CredentialData), serde.fromSlice bytes = some raw →
    parseCredential raw = .ok data → trim renewal.accessToken.toList ≠ [] →
    trim renewal.refreshToken.toList ≠ [] →
    0 < renewal.expiresAtSecs → renewal.expiresAtSecs < 10 ^ 12 →
    serde.fromSlice (pretty (replacement serde renewal nowSecs (some bytes) data)) =
      some (replacement serde renewal nowSecs (some bytes) data) →
    (applyRefresh serde renewal nowSecs (some bytes) (.ok ()) data).Preserves
      serde pretty renewal data := by
  intro h
  let before : CredentialData := ⟨mixedFile, "1001", "", "", "", "", "", "tok-1", "", 0, 0⟩
  have hfile : mixedTexts.fromSlice (encoded mixedText) = some mixedFile :=
    (fromSlice_encoded _ _).trans (by decide +kernel)
  have hcurrent : currentRaw mixedTexts (some (encoded mixedText)) before = mixedFile := by
    unfold currentRaw
    rw [Option.bind_some, hfile]
    rfl
  have hnew : replacement mixedTexts ⟨"tok-2", "rt-2", 1900000000⟩ 1800000000
      (some (encoded mixedText)) before =
      mixedAfter := by
    unfold replacement
    rw [hcurrent]
    rfl
  have hread : mixedTexts.fromSlice (encoded (mixedTexts.toString mixedAfter)) = some mixedAfter :=
    (fromSlice_encoded _ _).trans (by decide +kernel)
  have hpreserved :=
    h mixedTexts (fun v => encoded (mixedTexts.toString v)) ⟨"tok-2", "rt-2", 1900000000⟩ 1800000000
    (encoded mixedText) mixedFile before hfile (by decide +kernel) (by decide +kernel)
      (by decide +kernel) (by decide)
    (by decide) (by rw [hnew]; exact hread)
  obtain ⟨written, parsed, hwritten, hreread, hidentity, -⟩ := hpreserved.reread
  have hafter : written = mixedAfter := by
    unfold replacement at hnew
    unfold applyRefresh at hwritten
    rw [hnew] at hwritten
    exact (Option.some.inj hwritten).symm
  have huid := congrArg (Option.map fun result => result.toOption.map CredentialData.uid) hreread
  have hsame : parsed.uid = "1001" := hidentity.uid
  rw [hafter, hread, Option.map_some, Option.map_some, Option.map_some] at huid
  have hwas : (parseCredential mixedAfter).toOption.map CredentialData.uid = some "1001" :=
    (Option.some.inj huid).trans (congrArg some hsame)
  exact absurd hwas (by decide +kernel)

end Refresh

end Lobster.Upstream
