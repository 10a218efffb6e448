import LobsterProxy.Redaction.Words

/-! Tokens of the JWT shape in a sanitized text: one is seen where a word that holds it is
not redacted as a whole. -/

namespace Lobster.Redaction
open Text

section Shape
variable {token : List Char}

def isTokenChar (c : Char) : Bool := c.isAlphanum || c = '.' || c = '_' || c = '-'

/-- The token stands at a place of the text where no further token character touches it. -/
def Delimited (token text : List Char) : Prop :=
  ∃ before after, text = before ++ token ++ after ∧ (∀ c ∈ before.getLast?, isTokenChar c = false) ∧
    ∀ c ∈ after.head?, isTokenChar c = false

theorem looksLikeJwt_segments (h : looksLikeJwt token = true) :
    ∃ a b c, token = a ++ '.' :: (b ++ '.' :: c) ∧
    ∀ d ∈ a ++ (b ++ c), isTokenChar d = true := by
  unfold looksLikeJwt at h
  split at h
  · rename_i a b c hsplit
    have htoken : ['.'].intercalate (token.splitOn '.') = token := List.intercalate_splitOn '.'
    rw [hsplit] at htoken
    simp only [Bool.and_eq_true, List.all_eq_true] at h
    have hchars : ∀ d ∈ a ++ (b ++ c), isTokenChar d = true := by
      intro d hd
      have hsegment : ∃ segment ∈ [a, b, c], d ∈ segment := by simpa using hd
      obtain ⟨segment, hmem, hd⟩ := hsegment
      have hchar := h.2 segment hmem d hd
      unfold isTokenChar
      simp only [Bool.or_eq_true, decide_eq_true_eq] at hchar ⊢
      tauto
    refine ⟨a, b, c, ?_, hchars⟩
    rw [← htoken]
    simp [List.intercalate]
  · cases h

section Clearance
variable (h : looksLikeJwt token = true)
include h

theorem jwt_chars : ∀ c ∈ token, isTokenChar c = true := by
  obtain ⟨a, b, c, rfl, hchars⟩ := looksLikeJwt_segments h
  intro d hd
  have hdot : isTokenChar '.' = true := by decide
  have hcases : d = '.' ∨ d ∈ a ++ (b ++ c) := by
    simp only [List.mem_append, List.mem_cons] at hd ⊢
    tauto
  rcases hcases with rfl | hd
  · exact hdot
  · exact hchars d hd

theorem jwt_dot : '.' ∈ token := by
  obtain ⟨a, b, c, rfl, -⟩ := looksLikeJwt_segments h
  simp

theorem jwt_ne_nil : token ≠ [] := List.ne_nil_of_mem (jwt_dot h)

theorem jwt_not_mem {c : Char} (hc : isTokenChar c = false) : c ∉ token := by
  intro hmem
  rw [jwt_chars h c hmem] at hc
  cases hc

theorem jwt_clear_redacted : Clear token redacted := by
  have hopen : '[' ∉ token := jwt_not_mem h (by decide)
  have hclose : ']' ∉ token := jwt_not_mem h (by decide)
  have hapart : ¬ token <:+: "REDACTED".toList := by
    intro hpiece
    exact absurd (hpiece.subset (jwt_dot h)) (by decide)
  have hmarker : Clear token ('[' :: "REDACTED".toList ++ [']']) := Clear.marker hopen hclose hapart
  exact hmarker

end Clearance
end Shape

section Sight
variable {token : List Char}

/-- Among these words, of which so many characters are kept, each one that holds the
token in what is kept of it is redacted. -/
def Caught (token : List Char) : Bool → Nat → List (List Char) → Prop
  | _, _, [] => True
  | redactNext, room, word :: rest =>
    let read := readWord redactNext word
    (read.1 = true ∨ ¬ token <:+: word.take room) ∧
      Caught token read.2 (room - ((if read.1 then redacted else word).length + 1)) rest

instance (token : List Char) : (redactNext : Bool) → (room : Nat) → (words : List (List Char)) →
    Decidable (Caught token redactNext room words)
  | _, _, [] => inferInstanceAs (Decidable True)
  | redactNext, room, word :: rest =>
    let read := readWord redactNext word
    let _ := instDecidableCaught token read.2
      (room - ((if read.1 then redacted else word).length + 1)) rest
    inferInstanceAs (Decidable (_ ∧ _))

theorem infix_take_join (hne : token ≠ []) (hblank : Clear token [' ']) (room : Nat)
    (word : List Char) (rest : List (List Char)) :
    token <:+: ([' '].intercalate (word :: rest)).take room ↔
      token <:+: word.take room ∨ token <:+: ([' '].intercalate rest).take
        (room - (word.length + 1)) := by
  have hnil : ¬ token <:+: [] := by simpa using hne
  by_cases hrest : rest = []
  · subst hrest
    simp [hnil]
  · rw [List.intercalate_cons_of_ne_nil hrest, List.take_append, List.take_append,
      List.length_append, List.length_singleton]
    constructor
    · intro h
      by_cases hroom : room - word.length = 0
      · have hlater : room - (word.length + 1) = 0 := by omega
        simp only [hroom, hlater, List.take_zero, List.append_nil] at h ⊢
        exact .inl h
      · have hone : [' '].take (room - word.length) = [' '] :=
          List.take_of_length_le (by simp; omega)
        rw [hone] at h
        exact hblank _ _ h
    · rintro (h | h)
      · rw [List.append_assoc]
        exact h.trans (List.prefix_append _ _).isInfix
      · exact h.trans (List.suffix_append _ _).isInfix

theorem not_infix_shown_iff (hne : token ≠ []) (hclear : Clear token redacted)
    (hblank : Clear token [' ']) (redactNext : Bool) (room : Nat) (words : List (List Char)) :
    ¬ token <:+: ([' '].intercalate (sanitizeWords redactNext words)).take room ↔
      Caught token redactNext room words := by
  induction words generalizing redactNext room with
  | nil => simpa [sanitizeWords, Caught] using hne
  | cons word rest ih =>
    have hmarker : ¬ token <:+: redacted.take room := by
      intro h
      exact not_infix_marker hclear hne (h.trans (List.take_prefix room redacted).isInfix)
    rw [sanitizeWords, infix_take_join hne hblank, not_or, ih, Caught]
    apply and_congr_left'
    cases (readWord redactNext word).1 <;> simp [hmarker]

/-- A token stays out of the text exactly when every word that holds it is redacted, as far
as the text is kept. -/
theorem sanitizeText_hides_token_iff (htoken : looksLikeJwt token = true) (input : String) :
    ¬ token <:+: (sanitizeText input []).toList ↔
      Caught token false maxPublicTextChars (splitWhitespace input.toList) := by
  have hne := jwt_ne_nil htoken
  have hblank : Clear token [' '] := Clear.of_not_mem (jwt_not_mem htoken (by decide))
  have hmark : Char.ofNat 0x2026 ∉ token := jwt_not_mem htoken (by decide)
  rw [sanitizeText_eq, String.toList_ofList, infix_truncateChars_iff hne hmark]
  exact not_infix_shown_iff hne (jwt_clear_redacted htoken) hblank false maxPublicTextChars _

theorem sanitizeText_hides_token_quoted :
    looksLikeJwt "eyJhbGci.eyJzdWIi.sig".toList = true ∧
      (¬ "eyJhbGci.eyJzdWIi.sig".toList <:+:
        (sanitizeText "token \"eyJhbGci.eyJzdWIi.sig\"" []).toList ↔
        Caught "eyJhbGci.eyJzdWIi.sig".toList false maxPublicTextChars
          (splitWhitespace "token \"eyJhbGci.eyJzdWIi.sig\"".toList)) := by
  have htoken : looksLikeJwt "eyJhbGci.eyJzdWIi.sig".toList = true := by decide
  exact ⟨htoken, sanitizeText_hides_token_iff htoken _⟩

/-- Braces are no punctuation that is trimmed: the token of a compact JSON text is seen. -/
theorem sanitizeText_shows_token_of_json :
    let token := "eyJhbGci.eyJzdWIi.sig".toList
    let input := "\x7b\"access_token\":\"eyJhbGci.eyJzdWIi.sig\"\x7d"
    looksLikeJwt token = true ∧ Delimited token input.toList ∧
      token <:+: (sanitizeText input []).toList := by
  refine ⟨by decide, ⟨"\x7b\"access_token\":\"".toList, "\"\x7d".toList, by decide, ?_, ?_⟩, ?_⟩
  · rintro c ⟨⟩
    rfl
  · rintro c ⟨⟩
    rfl
  · exact ⟨"\x7b\"access_token\":\"".toList, "\"\x7d".toList, by decide⟩

end Sight

end Lobster.Redaction
