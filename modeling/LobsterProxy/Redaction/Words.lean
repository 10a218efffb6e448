import LobsterProxy.Redaction.Secrets

/-! What is redacted word by word: the carry from one word to the next, and the words in
which a token of the JWT shape is seen. -/

namespace Lobster.Redaction
open Text

section Carry
variable {word next : List Char} {before after : List (List Char)}

def shownWords (input : String) (secrets : List String) : List (List Char) :=
  sanitizeWords false (splitWhitespace (removeSecrets input.toList secrets))

theorem sanitizeText_eq (input : String) (secrets : List String) : sanitizeText input secrets =
    String.ofList
      (truncateChars ([' '].intercalate (shownWords input secrets)) maxPublicTextChars) := rfl

theorem readWord_redacts (redactNext : Bool) (word : List Char) :
    (readWord redactNext word).1 = (redactNext || (readWord false word).1) := by
  simp [readWord, Bool.or_assoc]

theorem sanitizeWords_next (redactNext : Bool) (before : List (List Char)) (word next : List Char)
    (after : List (List Char)) :
    (sanitizeWords redactNext (before ++ word :: next :: after))[before.length + 1]? =
      some (if (readWord (readWord false word).2 next).1 then redacted else next) := by
  induction before generalizing redactNext with
  | nil => rfl
  | cons first before ih => exact ih (readWord redactNext first).2

theorem isPunctuation_upper : ∀ n < 91, 65 ≤ n →
    isPunctuation (Char.ofNat n).toLower = isPunctuation (Char.ofNat n) := by decide

theorem isPunctuation_toLower (c : Char) : isPunctuation c.toLower = isPunctuation c := by
  by_cases hupper : 65 ≤ c.toNat ∧ c.toNat ≤ 90
  · have h := isPunctuation_upper c.toNat (by omega) hupper.1
    rwa [Char.ofNat_toNat] at h
  · have hsame : c.toLower = c := by
      unfold Char.toLower
      apply dif_neg
      intro h
      exact hupper ⟨UInt32.le_iff_toNat_le.mp h.1, UInt32.le_iff_toNat_le.mp h.2⟩
    rw [hsame]

theorem toAsciiLowercase_trim (word : List Char) :
    toAsciiLowercase (trimMatches isPunctuation word) =
      trimMatches isPunctuation (toAsciiLowercase word) := by
  have hcomp : isPunctuation ∘ Char.toLower = isPunctuation := funext isPunctuation_toLower
  unfold toAsciiLowercase trimMatches List.rdropWhile
  rw [List.dropWhile_map, hcomp, ← List.map_reverse, List.dropWhile_map, hcomp, List.map_reverse]

/-- The words that are to redact the one after them. -/
def announcers : List (List Char) := ["authorization:", "x-api-key:", "bearer"].map String.toList

/-- The trimmed word has lost the colon that two of the comparisons ask for. -/
theorem readWord_announcer (h : toAsciiLowercase word ∈ announcers) :
    (readWord false word).2 = true ↔ toAsciiLowercase word = "bearer".toList := by
  unfold readWord
  dsimp only
  rw [toAsciiLowercase_trim]
  generalize toAsciiLowercase word = lower at h
  revert lower
  decide

/-- The word after an announcer is redacted exactly when the announcer is `bearer`, or the
word would be redacted anywhere, or it is the marker already. -/
theorem announced_redacted_iff {input : String} {secrets : List String}
    (hwords : splitWhitespace (removeSecrets input.toList secrets) =
      before ++ word :: next :: after)
    (hword : toAsciiLowercase word ∈ announcers) :
    (shownWords input secrets)[before.length + 1]? = some redacted ↔
      toAsciiLowercase word = "bearer".toList ∨ (readWord false next).1 = true ∨
      next = redacted := by
  have hcarry := readWord_announcer hword
  unfold shownWords
  rw [hwords, sanitizeWords_next, readWord_redacts, ← hcarry]
  cases (readWord false word).2 <;> cases (readWord false next).1 <;> simp

theorem announced_redacted_bearer :
    toAsciiLowercase "Bearer".toList ∈ announcers ∧
      ((shownWords "from Bearer abc123" [])[2]? = some redacted ↔
        toAsciiLowercase "Bearer".toList = "bearer".toList ∨
        (readWord false "abc123".toList).1 = true ∨
          "abc123".toList = redacted) := by
  have hword : toAsciiLowercase "Bearer".toList ∈ announcers := by decide
  have hwords : splitWhitespace (removeSecrets "from Bearer abc123".toList []) =
      ["from".toList] ++ "Bearer".toList :: "abc123".toList :: [] := by decide
  exact ⟨hword, announced_redacted_iff hwords hword⟩

/-- The value of a header is shown when a blank stands before it. -/
theorem announced_not_redacted :
    toAsciiLowercase "authorization:".toList ∈ announcers ∧
      splitWhitespace (removeSecrets "authorization: hunter2".toList []) =
        [] ++ "authorization:".toList :: "hunter2".toList :: [] ∧
      (shownWords "authorization: hunter2" [])[1]? = some "hunter2".toList ∧
      sanitizeText "authorization: hunter2" [] = "authorization: hunter2" := by decide

end Carry
end Lobster.Redaction
