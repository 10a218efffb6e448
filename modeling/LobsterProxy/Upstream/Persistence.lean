import LobsterProxy.Base.Utf8
import LobsterProxy.Upstream.Refresh

/-! What a refresh leaves on disk: it is written before it is validated. -/

namespace Lobster.Upstream
open Text

/-- The file after an update; `pretty` is the serializer of what is written. -/
def Applied.fileAfter (pretty : Json → List UInt8) (file : Option (List UInt8))
    (applied : Applied) :
    Option (List UInt8) := (applied.written.map pretty).or file

def Loadable (serde : Serde) (file : Option (List UInt8)) : Prop :=
  ∃ data, readCredentialFile serde file = .ok data

/-- An update that fails changes nothing, and none makes a file unusable. -/
structure Applied.AllOrNothing (serde : Serde) (pretty : Json → List UInt8)
    (file : Option (List UInt8)) (data : CredentialData) (applied : Applied) : Prop where
  unchanged : ∀ err, applied.result = .error err → applied.written = none ∧ applied.data = data
  loadable : Loadable serde file → Loadable serde (applied.fileAfter pretty file)

section Content
variable {renewal : Renewal} {nowSecs : Int} {raw : Json} {data : CredentialData}

theorem parseCredential_renewedRaw :
    (∃ parsed, parseCredential (renewedRaw renewal nowSecs raw data) = .ok parsed) ↔
      trim renewal.accessToken.toList ≠ [] := by
  obtain ⟨object, old, hraw, hauth⟩ := get?_renewedRaw renewal nowSecs raw data
  have hnested : Fields.containsKey object "auth" = true := by
    unfold Fields.containsKey
    rw [hauth]
    rfl
  have htoken : strField (renewal.auth nowSecs old) ["accessToken", "access_token", "token"] =
      String.ofList (trim renewal.accessToken.toList) := rfl
  have hblank : String.ofList (trim renewal.accessToken.toList) = "" ↔
      trim renewal.accessToken.toList = [] :=
    String.ofList_eq_empty_iff
  rw [hraw]
  unfold parseCredential
  simp only [Json.asObject_obj, hnested, if_true, hauth, Option.getD_some, htoken, hblank]
  by_cases h : trim renewal.accessToken.toList = []
  · rw [if_pos h]
    exact iff_of_false (fun hparsed => nomatch hparsed.choose_spec) (not_not_intro h)
  · rw [if_neg h]
    exact iff_of_true ⟨_, rfl⟩ h

theorem readCredentialFile_of_parse {serde : Serde} {bytes : List UInt8} {value : Json}
    {data : CredentialData} (hsize : bytes.length ≤ maxCredentialBytes)
    (hread : serde.fromSlice bytes = some value) (hparse : parseCredential value = .ok data) :
    readCredentialFile serde (some bytes) = .ok data := by
  unfold readCredentialFile
  dsimp only
  rw [if_neg (not_lt.mpr hsize), hread]
  dsimp only
  rw [hparse]
  rfl

theorem loadable_some {serde : Serde} {bytes : List UInt8} : Loadable serde (some bytes) ↔
    bytes.length ≤ maxCredentialBytes ∧
      ∃ value parsed, serde.fromSlice bytes = some value ∧ parseCredential value = .ok parsed := by
  unfold Loadable readCredentialFile
  dsimp only
  split_ifs with hlarge
  · exact iff_of_false (fun h => nomatch h.choose_spec) fun h => absurd h.1 (Nat.not_le.mpr hlarge)
  · rw [and_iff_right (Nat.not_lt.mp hlarge)]
    cases serde.fromSlice bytes with
    | none => exact iff_of_false (fun h => nomatch h.choose_spec) (fun ⟨_, _, h, _⟩ => nomatch h)
    | some value =>
      dsimp only
      cases hparsed : parseCredential value with
      | error err =>
        refine iff_of_false (fun h => nomatch h.choose_spec) ?_
        rintro ⟨_, parsed, hvalue, h⟩
        cases hvalue
        rw [hparsed] at h
        cases h
      | ok parsed => exact iff_of_true ⟨parsed, rfl⟩ ⟨value, parsed, rfl, hparsed⟩

end Content

section Refresh
variable (serde : Serde) (pretty : Json → List UInt8) (renewal : Renewal) (nowSecs : Int)
  (file : Option (List UInt8)) (write : Except String Unit) (data : CredentialData)

def replacement : Json := renewedRaw renewal nowSecs (currentRaw serde file data) data

/-- If the serializer's text is read back, an update is all or nothing exactly when it is not
written, or its token is not blank and it does not make a file that could be read too large. -/
theorem allOrNothing_iff
    (hread : serde.fromSlice (pretty (replacement serde renewal nowSecs file data)) =
      some (replacement serde renewal nowSecs file data)) :
    (applyRefresh serde renewal nowSecs file write data).AllOrNothing serde pretty file data ↔
      (write.toBool = true → trim renewal.accessToken.toList ≠ [] ∧
        (Loadable serde file →
          (pretty (replacement serde renewal nowSecs file data)).length ≤ maxCredentialBytes)) := by
  have hparse := @parseCredential_renewedRaw renewal nowSecs (currentRaw serde file data) data
  unfold replacement at hread ⊢
  unfold applyRefresh
  generalize renewedRaw renewal nowSecs (currentRaw serde file data) data = raw at hread hparse ⊢
  cases write with
  | error err => exact iff_of_true ⟨fun _ _ => ⟨rfl, rfl⟩, id⟩ nofun
  | ok _ =>
    dsimp only
    cases hparsed : parseCredential raw with
    | error err =>
      have hblank : ¬ trim renewal.accessToken.toList ≠ [] := fun h => by
        obtain ⟨parsed, hok⟩ := hparse.mpr h
        rw [hparsed] at hok
        cases hok
      -- the file has been written
      refine iff_of_false (fun h => nomatch (h.unchanged _ rfl).1) fun h => hblank (h rfl).1
    | ok parsed =>
      have hafter : Loadable serde (some (pretty raw)) ↔ (pretty raw).length ≤ maxCredentialBytes :=
        loadable_some.trans (and_iff_left ⟨raw, parsed, hread, hparsed⟩)
      refine ⟨fun h _ =>
        ⟨hparse.mp ⟨parsed, hparsed⟩, fun hbefore => hafter.mp (h.loadable hbefore)⟩, fun h => ?_⟩
      exact ⟨nofun, fun hbefore => hafter.mpr ((h rfl).2 hbefore)⟩

end Refresh

section Cases

def encoded (text : String) : List UInt8 := text.toList.flatMap String.utf8EncodeChar

/-- The serializer on some texts and what they stand for. -/
def onTexts (texts : List (String × Json)) : Serde where
  toString v := ((texts.find? fun e => e.2 = v).map Prod.fst).getD ""
  fromSlice bytes := (texts.find? fun e => encoded e.1 = bytes).map Prod.snd
  fromStr text := (texts.find? fun e => e.1 = text).map Prod.snd

theorem encoded_inj {s t : String} : encoded s = encoded t ↔ s = t := by
  constructor
  · intro h
    have hchars := congrArg fromUtf8Lossy h
    change fromUtf8Lossy (toUtf8 s.toList) = fromUtf8Lossy (toUtf8 t.toList) at hchars
    rw [fromUtf8Lossy_toUtf8, fromUtf8Lossy_toUtf8] at hchars
    exact String.toList_inj.mp hchars
  · exact congrArg encoded

theorem length_encoded (text : String) : (encoded text).length = text.utf8ByteSize := by
  have hchars : (encoded (String.ofList text.toList)).length =
      (String.ofList text.toList).utf8ByteSize := by
    rw [← String.size_toByteArray, String.toByteArray_ofList]
    unfold encoded List.utf8Encode
    rw [String.toList_ofList, List.size_toByteArray]
  rwa [String.ofList_toList] at hchars

theorem fromSlice_encoded (texts : List (String × Json)) (text : String) :
    (onTexts texts).fromSlice (encoded text) = (onTexts texts).fromStr text := by
  unfold onTexts
  dsimp only
  simp only [encoded_inj]

def credentialFile (auth : Fields) : Json :=
  .obj [("auth", .obj auth), ("account", .obj [("uid", .str "1001")])]

def oldFile : Json := credentialFile [("accessToken", .str "tok-1")]

def oldText : String :=
  "\x7b\"auth\":\x7b\"accessToken\":\"tok-1\"\x7d,\"account\":\x7b\"uid\":\"1001\"\x7d\x7d"

def newFile (token : String) : Json :=
  credentialFile [("accessToken", .str token), ("refreshToken", .str "rt-2"),
  ("expiresAt", .ofNat 1900000000), ("uuid", .str ""), ("firstKeyfrom", .str ""),
  ("latestKeyfrom", .str "1800000000"), ("lastRefreshTime", .ofNat 1800000000)]

def newText (token : String) : String := "\n".intercalate ["\x7b", "  \"auth\": \x7b",
  "    \"accessToken\": \"" ++ token ++ "\",", "    \"refreshToken\": \"rt-2\",",
      "    \"expiresAt\": 1900000000,",
  "    \"uuid\": \"\",", "    \"firstKeyfrom\": \"\",", "    \"latestKeyfrom\": \"1800000000\",",
  "    \"lastRefreshTime\": 1800000000", "  \x7d,", "  \"account\": \x7b", "    \"uid\": \"1001\"",
      "  \x7d", "\x7d"]

def answerText (token : String) : String :=
  "\x7b\"code\":0,\"data\":\x7b\"accessToken\":\"" ++ token ++ "\",\"expiresIn\":100000000\x7d\x7d"

def refreshTexts (token : String) : Serde :=
  onTexts [(oldText, oldFile), (newText token, newFile token),
  (answerText token, .obj [("code", .ofNat 0),
    ("data", .obj [("accessToken", .str token), ("expiresIn", .ofNat 100000000)])])]

def oldData : CredentialData := ⟨oldFile, "1001", "", "", "", "", "", "tok-1", "rt-2", 0, 0⟩

def prettyText (token : String) (v : Json) : List UInt8 := encoded ((refreshTexts token).toString v)

theorem replacement_oldFile (token : String) : replacement
    (refreshTexts token) ⟨token, "rt-2", 1900000000⟩ 1800000000
    (some (encoded oldText)) oldData = newFile token := by
  have hold : (refreshTexts token).fromSlice (encoded oldText) = some oldFile := by
    unfold refreshTexts
    rw [fromSlice_encoded]
    simp [onTexts]
  unfold replacement currentRaw
  rw [Option.bind_some, hold]
  rfl

theorem reread_replacement {token : String}
    (h : (refreshTexts token).fromStr ((refreshTexts token).toString (newFile token)) =
      some (newFile token)) :
    (refreshTexts token).fromSlice
      (prettyText token (replacement (refreshTexts token) ⟨token, "rt-2", 1900000000⟩
      1800000000 (some (encoded oldText)) oldData)) = some (replacement (refreshTexts token)
        ⟨token, "rt-2", 1900000000⟩ 1800000000 (some (encoded oldText)) oldData) := by
  rw [replacement_oldFile]
  exact (fromSlice_encoded _ _).trans h

theorem allOrNothing_iff_renewed :
    (applyRefresh (refreshTexts "tok-2") ⟨"tok-2", "rt-2", 1900000000⟩ 1800000000
      (some (encoded oldText)) (.ok ())
      oldData).AllOrNothing (refreshTexts "tok-2") (prettyText "tok-2")
        (some (encoded oldText)) oldData := by
  have hsmall : (prettyText "tok-2" (newFile "tok-2")).length ≤ maxCredentialBytes := by
    unfold prettyText
    rw [length_encoded]
    decide +kernel
  rw [← replacement_oldFile] at hsmall
  exact (allOrNothing_iff (refreshTexts "tok-2") (prettyText "tok-2")
    ⟨"tok-2", "rt-2", 1900000000⟩ 1800000000
    (some (encoded oldText)) (.ok ()) oldData (reread_replacement (by decide +kernel))).mpr
      fun _ => ⟨by decide +kernel, fun _ => hsmall⟩

def blankAnswer : Json := .obj [("code", .ofNat 0),
  ("data", .obj [("accessToken", .str " "), ("expiresIn", .ofNat 100000000)])]

theorem readRenewal_blank {bytes : List UInt8}
    (hanswer : (refreshTexts " ").fromSlice bytes = some blankAnswer) :
    readRenewal (refreshTexts " ") (fun _ => none) oldData (.ok (200, .ok bytes)) 1800000000 =
      .ok ⟨" ", "rt-2", 1900000000⟩ := by
  unfold readRenewal
  dsimp only [Except.toOption]
  rw [Option.getD_some, if_neg (by decide), hanswer]
  dsimp only
  rw [if_neg (by decide +kernel), if_neg (by decide +kernel)]
  refine congrArg Except.ok ?_
  decide +kernel

theorem applyRefresh_blank : applyRefresh (refreshTexts " ") ⟨" ", "rt-2", 1900000000⟩ 1800000000
    (some (encoded oldText)) (.ok ()) oldData = ⟨oldData, some (newFile " "),
      .error s!"post-refresh reparse failed: {CredentialError.missingAccessToken.message}"⟩ := by
  have hraw := replacement_oldFile " "
  unfold replacement at hraw
  unfold applyRefresh
  rw [hraw]
  rfl

theorem not_allOrNothing :
    ¬ ∀ (serde : Serde) (urlSafe : List Char → Option (List UInt8)) (pretty : Json → List UInt8)
    (fetched : Fetched) (readAt nowSecs : Int) (file : Option (List UInt8))
      (write : Except String Unit)
    (data : CredentialData) (renewal : Renewal), readRenewal serde urlSafe data fetched readAt =
      .ok renewal →
    serde.fromSlice (pretty (replacement serde renewal nowSecs file data)) =
      some (replacement serde renewal nowSecs file data) →
    (applyRefresh serde renewal nowSecs file write data).AllOrNothing serde pretty file data := by
  intro h
  have hkept :=
    h (refreshTexts " ") (fun _ => none) (prettyText " ")
      (.ok (200, .ok (encoded (answerText " "))))
    1800000000 1800000000 (some (encoded oldText)) (.ok ()) oldData ⟨" ", "rt-2", 1900000000⟩
    (readRenewal_blank ((fromSlice_encoded _ _).trans (by decide +kernel)))
    (reread_replacement (by decide +kernel))
  rw [applyRefresh_blank] at hkept
  cases (hkept.unchanged _ rfl).1

end Cases

end Lobster.Upstream
