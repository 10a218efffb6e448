import LobsterProxy.Base.Fragment
import LobsterProxy.Redaction

/-! Exact secrets are gone for good: nothing that is done after a replacement brings one
back, and the text stays within its limit. -/

namespace Lobster.Redaction
open Text

/-- A secret as tokens are: in one word, and nothing that the marker or the cut put in. -/
structure Removable (secret : String) : Prop where
  nonempty : secret ≠ ""
  solid : ∀ c ∈ secret.toList, isWhitespace c = false
  opening : '[' ∉ secret.toList
  closing : ']' ∉ secret.toList
  ellipsis : Char.ofNat 0x2026 ∉ secret.toList
  apart : ¬ secret.toList <:+: "REDACTED".toList

instance : DecidablePred Removable := fun secret =>
  decidable_of_iff (secret ≠ "" ∧ (secret.toList.all fun c => !isWhitespace c) = true ∧
    '[' ∉ secret.toList ∧
      ']' ∉ secret.toList ∧ Char.ofNat 0x2026 ∉ secret.toList ∧
      ¬ secret.toList <:+: "REDACTED".toList)
    ⟨fun ⟨hne, hsolid, hopen, hclose, hcut, hapart⟩ =>
      ⟨hne, by simpa using hsolid, hopen, hclose, hcut, hapart⟩,
      fun ⟨hne, hsolid, hopen, hclose, hcut, hapart⟩ =>
      ⟨hne, by simpa using hsolid, hopen, hclose, hcut, hapart⟩⟩

section Secrets
variable {s text : List Char} {word : List Char} {words : List (List Char)}

theorem Removable.ne_nil {secret : String} (h : Removable secret) : secret.toList ≠ [] := by
  simpa using h.nonempty

theorem Removable.clear_redacted {secret : String} (h : Removable secret) :
    Clear secret.toList redacted := by
  have hmarker : Clear secret.toList ('[' :: "REDACTED".toList ++ [']']) :=
    Clear.marker h.opening h.closing h.apart
  exact hmarker

theorem Removable.clear_blank {secret : String} (h : Removable secret) :
    Clear secret.toList [' '] := by
  apply Clear.of_not_mem
  intro hmem
  exact absurd (h.solid ' ' hmem) (by decide)

theorem not_infix_marker {marker : List Char} (hclear : Clear s marker) (hs : s ≠ []) :
    ¬ s <:+: marker := by
  intro h
  rcases hclear [] [] (by simpa using h) with h | h <;> exact hs (List.infix_nil.mp h)

section Removal
variable (hclear : Clear s redacted) (hs : s ≠ [])
include hclear hs

/-- One more replacement does not bring a secret back. -/
theorem removeSecrets_keeps (habsent : ¬ s <:+: text) (secrets : List String) :
    ¬ s <:+: removeSecrets text secrets := by
  unfold removeSecrets
  induction secrets generalizing text with
  | nil => exact habsent
  | cons secret secrets ih =>
    rw [List.foldl_cons]
    apply ih
    split_ifs with hempty
    · exact habsent
    · intro h
      have hold : secret.toList ≠ [] := by simpa using hempty
      exact habsent (hclear.of_replace hs hold h)

theorem removeSecrets_removes {secret : String} (hsecret : secret.toList = s)
    {secrets : List String} (hmem : secret ∈ secrets) : ¬ s <:+: removeSecrets text secrets := by
  induction secrets generalizing text with
  | nil => cases hmem
  | cons first secrets ih =>
    have hstep : removeSecrets text (first :: secrets) =
      removeSecrets (if first = "" then text else replace first.toList redacted text) secrets := rfl
    rw [hstep]
    rcases List.mem_cons.mp hmem with rfl | hmem
    · have hfirst : secret ≠ "" := by
        rintro rfl
        exact hs (by simp [← hsecret])
      rw [if_neg hfirst, hsecret]
      exact removeSecrets_keeps hclear hs (hclear.replaced hs) secrets
    · exact ih hmem

end Removal

theorem mem_sanitizeWords {redactNext : Bool} (h : word ∈ sanitizeWords redactNext words) :
    word = redacted ∨ word ∈ words := by
  induction words generalizing redactNext with
  | nil => cases h
  | cons first rest ih =>
    rw [sanitizeWords] at h
    rcases List.mem_cons.mp h with rfl | h
    · split_ifs
      · exact .inl rfl
      · exact .inr List.mem_cons_self
    · exact (ih h).imp_right (List.mem_cons_of_mem first)

theorem infix_of_infix_shown {redactNext : Bool} (hs : s ≠ []) (hclear : Clear s redacted)
    (hblank : Clear s [' ']) (h : s <:+: [' '].intercalate (sanitizeWords redactNext words)) :
    ∃ word ∈ words, s <:+: word := by
  obtain ⟨word, hmem, hword⟩ := hblank.intercalate hs h
  rcases mem_sanitizeWords hmem with rfl | hmem
  · exact absurd hword (not_infix_marker hclear hs)
  · exact ⟨word, hmem, hword⟩

/-- What has no ellipsis in it is seen in a cut text just when it is in the part that is kept. -/
theorem infix_truncateChars_iff (hs : s ≠ []) (hmark : Char.ofNat 0x2026 ∉ s) (max : Nat) :
    s <:+: truncateChars text max ↔ s <:+: text.take max := by
  unfold truncateChars
  split_ifs with hlong
  · constructor
    · intro h
      have hclear := Clear.of_not_mem hmark (text.take max) []
      rw [List.append_nil] at hclear
      rcases hclear h with h | h
      · exact h
      · exact absurd (List.infix_nil.mp h) hs
    · intro h
      exact h.trans (List.prefix_append _ _).isInfix
  · rw [List.take_of_length_le (Nat.le_of_not_lt hlong)]

theorem length_truncateChars (text : List Char) (max : Nat) :
    (truncateChars text max).length ≤ max + 1 := by
  unfold truncateChars
  split_ifs with hlong
  · simp
  · omega

end Secrets

/-- Whatever the order of the secrets and however they overlap, none is left in the text. -/
theorem sanitizeText_removes (input : String) {secrets : List String}
    (h : ∀ secret ∈ secrets, Removable secret) :
    (∀ secret ∈ secrets, ¬ secret.toList <:+: (sanitizeText input secrets).toList) ∧
      (sanitizeText input secrets).toList.length ≤ 1025 := by
  unfold sanitizeText
  simp only [String.toList_ofList]
  refine ⟨?_, length_truncateChars _ _⟩
  intro secret hmem hshown
  have hsecret := h secret hmem
  have hs := hsecret.ne_nil
  have hclear := hsecret.clear_redacted
  have hjoined :=
    ((infix_truncateChars_iff hs hsecret.ellipsis _).mp hshown).trans (List.take_prefix _ _).isInfix
  obtain ⟨word, hword, hinfix⟩ := infix_of_infix_shown hs hclear hsecret.clear_blank hjoined
  have htext := hinfix.trans (infix_of_mem_splitWhitespace hword)
  exact removeSecrets_removes hclear hs rfl hmem htext

theorem sanitizeText_removes_overlapping :
    (∀ secret ∈ ["ab", "bab", "aab"], Removable secret) ∧
      (∀ secret ∈ ["ab", "bab", "aab"], ¬ secret.toList <:+:
        (sanitizeText "x babab aab" ["ab", "bab", "aab"]).toList) ∧
        (sanitizeText "x babab aab" ["ab", "bab", "aab"]).toList.length ≤ 1025 := by
  have h : ∀ secret ∈ ["ab", "bab", "aab"], Removable secret := by decide
  exact ⟨h, sanitizeText_removes "x babab aab" h⟩

end Lobster.Redaction
