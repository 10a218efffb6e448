import LobsterProxy.Base.Blocks

/-! Fragments of a text: an occurrence that cannot reach into a separator lies in one of
the pieces around it. -/

namespace Lobster.Text

section Clear
variable {α : Type} {s sep mid xs ys : List α} {pieces : List (List α)} {b e : α}

/-- No occurrence of `s` reaches into the separator from either side. -/
def Clear (s sep : List α) : Prop := ∀ xs ys, s <:+: xs ++ sep ++ ys → s <:+: xs ∨ s <:+: ys

theorem prefix_of_not_mem (hb : b ∉ s) (h : s <+: xs ++ b :: ys) : s <+: xs := by
  rcases List.prefix_or_prefix_of_prefix h (List.prefix_append xs (b :: ys)) with hs | ⟨t, rfl⟩
  · exact hs
  · have ht : t <+: b :: ys := (List.prefix_append_right_inj xs).mp h
    rcases t with _ | ⟨c, t⟩
    · simp
    · have hc : c = b := (List.cons_prefix_cons.mp ht).1
      exact absurd (by simp [hc]) hb

theorem append_cons_unique {as bs : List α} (hxs : b ∉ xs) (hys : b ∉ ys)
    (h : xs ++ b :: as = ys ++ b :: bs) :
    xs = ys ∧ as = bs := by
  have hle : xs <+: ys := prefix_of_not_mem hxs ⟨b :: as, h⟩
  have hge : ys <+: xs := prefix_of_not_mem hys ⟨b :: bs, h.symm⟩
  have heq : xs = ys := hle.eq_of_length (Nat.le_antisymm hle.length_le hge.length_le)
  subst heq
  exact ⟨rfl, by simpa using h⟩

theorem Clear.of_not_mem (hb : b ∉ s) : Clear s [b] := by
  intro xs ys h
  rw [List.append_assoc, List.singleton_append] at h
  induction xs with
  | nil =>
    rcases List.infix_cons_iff.mp h with h | h
    · have hempty : s <+: [] := prefix_of_not_mem hb h
      exact .inl hempty.isInfix
    · exact .inr h
  | cons x xs ih =>
    rcases List.infix_cons_iff.mp h with h | h
    · have hstart : s <+: x :: xs := prefix_of_not_mem hb h
      exact .inl hstart.isInfix
    · apply (ih h).imp_left
      exact List.infix_cons

theorem Clear.marker (hb : b ∉ s) (he : e ∉ s) (hmid : ¬ s <:+: mid) :
    Clear s (b :: mid ++ [e]) := by
  intro xs ys h
  have hopen : xs ++ (b :: mid ++ [e]) ++ ys = xs ++ [b] ++ (mid ++ [e] ++ ys) := by simp
  rw [hopen] at h
  rcases Clear.of_not_mem hb _ _ h with h | h
  · exact .inl h
  · rcases Clear.of_not_mem he _ _ h with h | h
    · exact absurd h hmid
    · exact .inr h

theorem Clear.intercalate (hclear : Clear s sep) (hs : s ≠ []) (h : s <:+: sep.intercalate pieces) :
    ∃ piece ∈ pieces, s <:+: piece := by
  induction pieces with
  | nil => exact absurd (List.infix_nil.mp h) hs
  | cons piece rest ih =>
    by_cases hrest : rest = []
    · subst hrest
      exact ⟨piece, by simp, by simpa using h⟩
    · rw [List.intercalate_cons_of_ne_nil hrest] at h
      rcases hclear _ _ h with h | h
      · exact ⟨piece, by simp, h⟩
      · obtain ⟨other, hmem, hother⟩ := ih h
        exact ⟨other, List.mem_cons_of_mem piece hmem, hother⟩

theorem infix_intercalate (sep : List α) {piece : List α} (h : piece ∈ pieces) :
    piece <:+: sep.intercalate pieces := by
  induction pieces with
  | nil => cases h
  | cons first rest ih =>
    by_cases hrest : rest = []
    · subst hrest
      have hpiece : piece = first := by simpa using h
      simp [hpiece]
    · rw [List.intercalate_cons_of_ne_nil hrest]
      rcases List.mem_cons.mp h with rfl | h
      · rw [List.append_assoc]
        exact (List.prefix_append piece _).isInfix
      · exact (ih h).trans (List.suffix_append _ _).isInfix

end Clear

section Replace
variable {α : Type} [DecidableEq α] {old new text s piece : List α}

theorem infix_of_mem_split (hold : old ≠ []) (h : piece ∈ split old text) : piece <:+: text := by
  have hwhole := infix_intercalate old h
  rwa [intercalate_split hold] at hwhole

theorem not_infix_of_mem_splitFrom (hold : old ≠ []) {read text : List α}
    (hread : ∀ l r, read ++ text = l ++ old ++ r → read.length ≤ l.length)
    (h : piece ∈ splitFrom old 0 read text) : ¬ old <:+: piece := by
  have hlen := List.length_pos_iff.mpr hold
  -- an occurrence in what is read begins before its end
  have hfree (hfull : old <:+: read) : False := by
    obtain ⟨l, r, rfl⟩ := hfull
    have := hread l (r ++ text) (by simp)
    simp only [List.length_append] at this
    omega
  induction hlength : text.length using Nat.strongRecOn generalizing read text with
  | _ n ih =>
    cases text with
    | nil =>
      have hpiece : piece = read := by simpa [splitFrom] using h
      rw [hpiece]
      exact hfree
    | cons a text =>
      subst hlength
      rw [splitFrom_cons read a text hold] at h
      split_ifs at h with hlead
      · obtain ⟨later, hlater⟩ := hlead
        rw [← hlater, List.drop_left] at h
        have hshorter : later.length < (a :: text).length := by
          rw [← hlater, List.length_append]
          omega
        rcases List.mem_cons.mp h with rfl | h
        · exact hfree
        · have hnil : ¬ old <:+: [] := by simpa using hold
          exact ih _ hshorter (by simp) h hnil rfl
      · have hnext (l r : List α) (heq : read ++ [a] ++ text = l ++ old ++ r) :
            (read ++ [a]).length ≤ l.length := by
          rw [List.append_assoc, List.singleton_append] at heq
          have hle := hread l r heq
          rcases Nat.lt_or_eq_of_le hle with hlt | heqlen
          · rw [List.length_append]
            exact hlt
          · rw [List.append_assoc l] at heq
            obtain ⟨-, hstart⟩ := List.append_inj heq heqlen
            exact absurd ⟨r, hstart.symm⟩ hlead
        have hfree (hfull : old <:+: read ++ [a]) : False := by
          obtain ⟨l, r, hread⟩ := hfull
          have := hnext l (r ++ text) (by rw [← hread]; simp)
          rw [← hread] at this
          simp only [List.length_append] at this
          omega
        exact ih _ (Nat.lt_succ_self _) hnext h hfree rfl

theorem not_infix_of_mem_split (hold : old ≠ []) (h : piece ∈ split old text) : ¬ old <:+: piece :=
  not_infix_of_mem_splitFrom hold (by simp) h

theorem Clear.of_replace (hclear : Clear s new) (hs : s ≠ []) (hold : old ≠ [])
    (h : s <:+: replace old new text) : s <:+: text := by
  obtain ⟨piece, hmem, hpiece⟩ := hclear.intercalate hs h
  exact hpiece.trans (infix_of_mem_split hold hmem)

theorem Clear.replaced (hclear : Clear s new) (hs : s ≠ []) : ¬ s <:+: replace s new text := by
  intro h
  obtain ⟨piece, hmem, hpiece⟩ := hclear.intercalate hs h
  exact not_infix_of_mem_split hs hmem hpiece

theorem replace_singleton (a : α) (new text : List α) :
    replace [a] new text = text.flatMap fun b => if b = a then new else [b] := by
  have hsplit : ∀ piece : List α, new.intercalate (splitFrom [a] 0 piece text) =
      piece ++ text.flatMap fun b => if b = a then new else [b] := by
    induction text with
    | nil =>
      intro piece
      rw [splitFrom, List.intercalate_singleton, List.flatMap_nil, List.append_nil]
    | cons b text ih =>
      intro piece
      rw [splitFrom, List.flatMap_cons]
      by_cases h : b = a
      · subst h
        have hrest := ih []
        rw [List.nil_append] at hrest
        rw [if_pos (by simp), if_pos rfl, List.length_singleton, Nat.sub_self,
          List.intercalate_cons_of_ne_nil (splitFrom_ne_nil 0 [] text), hrest, List.append_assoc]
      · rw [if_neg (by simp [Ne.symm h]), if_neg h, ih, List.append_assoc]
  exact (hsplit []).trans (List.nil_append _)

end Replace

section Words
variable {word text : List Char} {p : Char → Bool}

theorem splitOnP_fragments (p : Char → Bool) (text : List Char) :
    ∃ first rest, text.splitOnP p = first :: rest ∧ first <+: text ∧
      ∀ word ∈ rest, word <:+: text := by
  induction text with
  | nil => exact ⟨[], [], by simp⟩
  | cons c text ih =>
    obtain ⟨first, rest, hsplit, hfirst, hrest⟩ := ih
    rw [List.splitOnP_cons_eq_if_modifyHead, hsplit]
    split_ifs
    · refine ⟨[], first :: rest, rfl, List.nil_prefix, ?_⟩
      intro word hword
      rcases List.mem_cons.mp hword with rfl | hword
      · exact List.infix_cons hfirst.isInfix
      · exact List.infix_cons (hrest word hword)
    · refine ⟨c :: first, rest, rfl, List.cons_prefix_cons.mpr ⟨rfl, hfirst⟩, ?_⟩
      intro word hword
      exact List.infix_cons (hrest word hword)

theorem infix_of_mem_splitOnP (h : word ∈ text.splitOnP p) : word <:+: text := by
  obtain ⟨first, rest, hsplit, hfirst, hrest⟩ := splitOnP_fragments p text
  rw [hsplit] at h
  rcases List.mem_cons.mp h with rfl | h
  · exact hfirst.isInfix
  · exact hrest word h

theorem infix_of_mem_splitWhitespace (h : word ∈ splitWhitespace text) : word <:+: text :=
  infix_of_mem_splitOnP (List.mem_of_mem_filter h)

end Words

section Affixes
variable {α : Type} [DecidableEq α]

def stripSuffix (tail text : List α) : Option (List α) :=
  if tail.isSuffixOf text then some (text.take (text.length - tail.length)) else none

theorem stripPrefix_append (lead text : List α) : stripPrefix lead (lead ++ text) = some text := by
  unfold stripPrefix
  rw [if_pos (List.isPrefixOf_iff_prefix.mpr (List.prefix_append lead text)), List.drop_left]

theorem stripSuffix_append (text tail : List α) : stripSuffix tail (text ++ tail) = some text := by
  unfold stripSuffix
  rw [if_pos (List.isSuffixOf_iff_suffix.mpr (List.suffix_append text tail)), List.length_append,
    Nat.add_sub_cancel, List.take_left]

end Affixes

end Lobster.Text
