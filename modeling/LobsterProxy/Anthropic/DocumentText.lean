import LobsterProxy.Anthropic.Request
import LobsterProxy.Base.Base64
import LobsterProxy.Base.Fragment
import LobsterProxy.Base.Utf8

/-! Documents given as text: the data URL is labelled base64, and its payload is the text
as a JSON string has it. -/

namespace Lobster.Anthropic
open Text

section Escape

def escapeChar (c : Char) : List Char :=
  let hex (n : Nat) : Char := Nat.digitChar n
  if c = '"' then "\\\"".toList
  else if c = '\\' then "\\\\".toList
  else if c.toNat = 8 then "\\b".toList
  else if c.toNat = 9 then "\\t".toList
  else if c.toNat = 10 then "\\n".toList
  else if c.toNat = 12 then "\\f".toList
  else if c.toNat = 13 then "\\r".toList
  else if c.toNat < 32 then "\\u00".toList ++ [hex (c.toNat / 16), hex (c.toNat % 16)]
  else [c]

/-- Strings are written between quotes, character by character. -/
def WritesStrings (serde : Serde) : Prop :=
  ∀ s, serde.toString (.str s) = String.ofList ('"' :: (s.toList.flatMap escapeChar ++ ['"']))

theorem escapeChar_cases (c : Char) : (escapeChar c = [c] ∧ c ≠ '"') ∨ '\\' ∈ escapeChar c := by
  unfold escapeChar
  dsimp only
  split_ifs with hquote
  · simp
  all_goals first | exact .inl ⟨rfl, hquote⟩ | simp

theorem escaped_cases (text : List Char) :
    (text.flatMap escapeChar = text ∧ '"' ∉ text) ∨ '\\' ∈ text.flatMap escapeChar := by
  induction text with
  | nil => exact .inl ⟨rfl, List.not_mem_nil⟩
  | cons c text ih =>
    rw [List.flatMap_cons]
    rcases escapeChar_cases c with ⟨hc, hquote⟩ | hc
    · rcases ih with ⟨htext, hnot⟩ | htext
      · left
        rw [hc, htext]
        refine ⟨rfl, ?_⟩
        rw [List.mem_cons, not_or]
        exact ⟨hquote.symm, hnot⟩
      · exact .inr (List.mem_append_right _ htext)
    · exact .inr (List.mem_append_left _ hc)

end Escape

section Payload
variable {serde : Serde} {block source file : Json} {text : List Char} {url payload : String}

/-- What a data URL says: a media type up to the mark, and bytes in base64 after it. -/
def IsDataUrl (url : String) (bytes : List UInt8) : Prop :=
  ∃ mediaType payload, url = "data:" ++ mediaType ++ ";base64," ++ payload ∧
  ',' ∉ mediaType.toList ∧
    Base64.decode payload.toList = some bytes

theorem isDataUrl_text (payload : String) (bytes : List UInt8) :
    IsDataUrl ("data:text/plain;base64," ++ payload) bytes ↔
      Base64.decode payload.toList = some bytes := by
  constructor
  · rintro ⟨mediaType, payload', hurl, hcomma, hdecode⟩
    have hlists : "data:text/plain;base64".toList ++ ',' :: payload.toList =
        ("data:".toList ++ mediaType.toList ++ ";base64".toList) ++ ',' :: payload'.toList := by
      have hchars := congrArg String.toList hurl
      simpa using hchars
    have hhead : ',' ∉ "data:".toList ++ mediaType.toList ++ ";base64".toList := by
      simp only [List.mem_append, not_or]
      exact ⟨⟨by decide, hcomma⟩, by decide⟩
    have hfirst : ',' ∉ "data:text/plain;base64".toList := by decide
    obtain ⟨-, hpayload⟩ := append_cons_unique hfirst hhead hlists
    rw [hpayload]
    exact hdecode
  · intro hdecode
    exact ⟨"text/plain", payload, rfl, by decide, hdecode⟩

theorem mem_trimMatches {p : Char → Bool} {c : Char} (hc : p c = false) (h : c ∈ text) :
    c ∈ Text.trimMatches p text := by
  have hdrop (xs : List Char) (h : c ∈ xs) : c ∈ xs.dropWhile p := by
    rw [← List.takeWhile_append_dropWhile (p := p) (l := xs)] at h
    rcases List.mem_append.mp h with h | h
    · have hp := List.mem_takeWhile_imp h
      rw [hc] at hp
      cases hp
    · exact h
  unfold Text.trimMatches List.rdropWhile
  apply List.mem_reverse.mpr
  apply hdrop
  apply List.mem_reverse.mpr
  exact hdrop text h

theorem trimMatches_quoted (h : '"' ∉ text) : Text.trimMatches (· = '"') ('"' :: (text ++ ['"'])) =
    text := by
  have hfront : ('"' :: (text ++ ['"'])).dropWhile (· = '"') =
      (text ++ ['"']).dropWhile (· = '"') := rfl
  unfold Text.trimMatches
  rw [hfront]
  rcases text with _ | ⟨c, rest⟩
  · rfl
  · have hc : ¬ c = '"' := fun hc => h (by simp [hc])
    rw [List.cons_append, List.dropWhile_cons_of_neg (by simpa using hc), ← List.cons_append,
      List.rdropWhile_concat_pos _ _ _ (by simp), List.rdropWhile_eq_self_iff]
    intro hne hlast
    apply h
    have hmem := List.getLast_mem hne
    rwa [decide_eq_true_eq.mp hlast] at hmem

/-- A payload that is no more than the text, or has a backslash, does not decode to the text. -/
theorem decode_payload_iff (text : List Char) :
    Base64.decode (Text.trimMatches (· = '"') ('"' :: (text.flatMap escapeChar ++ ['"']))) =
      some (toUtf8 text) ↔
      text = [] := by
  constructor
  · intro hdecode
    rcases escaped_cases text with ⟨hsame, hquote⟩ | hescaped
    · rw [hsame, trimMatches_quoted hquote] at hdecode
      have hshorter := Base64.length_decode hdecode
      have hlonger := length_le_toUtf8 text
      apply List.length_eq_zero_iff.mp
      omega
    · have hkept :
          '\\' ∈ Text.trimMatches (· = '"') ('"' :: (text.flatMap escapeChar ++ ['"'])) := by
        apply mem_trimMatches (by decide)
        simp [hescaped]
      exact absurd (Base64.decode_chars hdecode _ hkept) (by decide)
  · rintro rfl
    rfl

theorem documentData_text (hserde : WritesStrings serde)
    (htype : source.getStr? "type" = some "text")
    (index : Nat) : documentData serde source index = .ok
      ("data:text/plain;base64," ++ String.ofList
      (Text.trimMatches (· = '"')
        ('"' :: ((source.getStrD "data").toList.flatMap escapeChar ++ ['"'])))) := by
  unfold documentData
  rw [htype]
  dsimp only
  unfold Deepseek.canonicalJsonString Deepseek.writeCanonical
  rw [hserde]
  unfold Anthropic.trimMatches
  rw [String.toList_ofList]
  rfl

/-- A document given as text is a data URL of that text when the text is empty only. -/
theorem convertDocumentBlock_dataUrl_iff (hserde : WritesStrings serde)
    (hsource : block.get? "source" = some source)
    (htype : source.getStr? "type" = some "text") (index : Nat) :
    (∃ file url, convertDocumentBlock serde block index = .ok file ∧
      (file.get? "file").bind (Json.getStr? · "file_data") = some url ∧
      IsDataUrl url (toUtf8 (source.getStrD "data").toList)) ↔ source.getStrD "data" = "" := by
  have hobject : source.isObject = true := by
    cases source <;> first | rfl | cases htype
  have hconvert : convertDocumentBlock serde block index =
      (documentData serde source index).map fun fileData => .obj [("type", .str "file"),
        ("file", .obj [("filename", .str ((block.getStr? "title").getD "document")),
          ("file_data", .str fileData)])] := by
    unfold convertDocumentBlock
    rw [hsource, Option.filter_some_pos hobject]
    rfl
  rw [hconvert, documentData_text hserde htype]
  have hempty : source.getStrD "data" = "" ↔ (source.getStrD "data").toList = [] := by simp
  rw [hempty, ← decode_payload_iff]
  constructor
  · rintro ⟨file, url, hfile, hurl, hdata⟩
    cases hfile
    cases hurl
    have hdecode := (isDataUrl_text _ _).mp hdata
    rwa [String.toList_ofList] at hdecode
  · intro hdecode
    refine ⟨_, _, rfl, rfl, (isDataUrl_text _ _).mpr ?_⟩
    rwa [String.toList_ofList]

end Payload

section Greeting

def stringSerde : Serde where
  toString
    | .str s => String.ofList ('"' :: (s.toList.flatMap escapeChar ++ ['"']))
    | _ => "\x7b\x7d"
  fromSlice _ := some (.obj [])
  fromStr _ := some (.obj [])

def greetingDocument : Json :=
  .obj [("type", .str "document"), ("source", .obj [("type", .str "text"), ("data", .str "Hello")])]

theorem convertDocumentBlock_dataUrl_iff_greeting :
    WritesStrings stringSerde ∧
      ((∃ file url, convertDocumentBlock stringSerde greetingDocument 0 = .ok file ∧
        (file.get? "file").bind (Json.getStr? · "file_data") = some url ∧
        IsDataUrl url (toUtf8 "Hello".toList)) ↔ "Hello" = "") := by
  have hserde : WritesStrings stringSerde := fun s => rfl
  have hsource : greetingDocument.get? "source" =
      some (.obj [("type", .str "text"), ("data", .str "Hello")]) := rfl
  exact ⟨hserde, convertDocumentBlock_dataUrl_iff hserde hsource rfl 0⟩

/-- The text stands in the URL as it is. -/
theorem convertDocumentBlock_greeting :
    convertDocumentBlock stringSerde greetingDocument 0 = .ok (.obj [("type", .str "file"),
      ("file", .obj [("filename", .str "document"),
        ("file_data", .str "data:text/plain;base64,Hello")])]) ∧
    ¬ IsDataUrl "data:text/plain;base64,Hello" (toUtf8 "Hello".toList) := by
  refine ⟨by decide +kernel, ?_⟩
  have hurl := isDataUrl_text "Hello" (toUtf8 "Hello".toList)
  intro h
  exact absurd (hurl.mp h) (by decide)

end Greeting

end Lobster.Anthropic
