import LobsterProxy.Base.Text
import Mathlib.Tactic.SplitIfs

/-! Texts that grow: the blocks that a separator has ended stay as they are, and the
line feeds of a lossy reading are those of the bytes. -/

namespace Lobster.Text
open Emitter

section Blocks
variable {α : Type} [DecidableEq α] {sep block : List α}

/-- The blocks that a separator has ended. -/
def ended (sep text : List α) : List (List α) := (split sep text).dropLast

theorem splitFrom_ne_nil (skip : Nat) (piece text : List α) :
    splitFrom sep skip piece text ≠ [] := by
  induction text generalizing skip piece with
  | nil => cases skip <;> exact List.cons_ne_nil _ _
  | cons a rest ih =>
    cases skip with
    | succ skip => exact ih skip piece
    | zero =>
      rw [splitFrom]
      split_ifs
      · exact List.cons_ne_nil _ _
      · exact ih 0 _

theorem splitFrom_skip (skip : Nat) (piece text : List α) :
    splitFrom sep skip piece text = splitFrom sep 0 piece (text.drop skip) := by
  induction text generalizing skip with
  | nil => cases skip <;> rfl
  | cons a rest ih =>
    cases skip with
    | zero => rfl
    | succ skip => exact ih skip

theorem splitFrom_cons (piece : List α) (a : α) (rest : List α) (hsep : sep ≠ []) :
    splitFrom sep 0 piece (a :: rest) =
      if sep <+: a :: rest then piece :: splitFrom sep 0 [] ((a :: rest).drop sep.length)
      else splitFrom sep 0 (piece ++ [a]) rest := by
  obtain ⟨n, hn⟩ : ∃ n, sep.length = n + 1 := Nat.exists_eq_succ_of_ne_zero (by simpa using hsep)
  rw [splitFrom, splitFrom_skip (sep.length - 1), hn]
  simp only [List.isPrefixOf_iff_prefix, Nat.add_sub_cancel, List.drop_succ_cons]

theorem splitFrom_short {text : List α} (piece : List α) (hshort : text.length < sep.length) :
    splitFrom sep 0 piece text = [piece ++ text] := by
  induction text generalizing piece with
  | nil => rw [splitFrom, List.append_nil]
  | cons a rest ih =>
    have hlead : ¬ sep.isPrefixOf (a :: rest) = true := by
      rw [List.isPrefixOf_iff_prefix]
      intro h
      exact absurd h.length_le (Nat.not_le.mpr hshort)
    rw [splitFrom, if_neg hlead, ih _ (Nat.lt_of_succ_lt hshort), List.append_assoc,
      List.singleton_append]

theorem dropLast_splitFrom_append (skip : Nat) (piece text more : List α) :
    (splitFrom sep skip piece text).dropLast <+:
      (splitFrom sep skip piece (text ++ more)).dropLast := by
  induction text generalizing skip piece with
  | nil => cases skip <;> exact List.nil_prefix
  | cons a rest ih =>
    cases skip with
    | succ skip => exact ih skip piece
    | zero =>
      by_cases hsep : sep <+: a :: rest
      · have hlonger : sep <+: a :: (rest ++ more) :=
          hsep.trans (List.prefix_append (a :: rest) more)
        rw [List.cons_append, splitFrom, splitFrom, if_pos (List.isPrefixOf_iff_prefix.mpr hsep),
          if_pos (List.isPrefixOf_iff_prefix.mpr hlonger),
          List.dropLast_cons_of_ne_nil (splitFrom_ne_nil _ _ _),
          List.dropLast_cons_of_ne_nil (splitFrom_ne_nil _ _ _), List.prefix_cons_inj]
        exact ih _ _
      · by_cases hlonger : sep <+: a :: (rest ++ more)
        · -- the text ends within the separator
          have hshort : (a :: rest).length < sep.length := by
            by_contra hlong
            have hlead : a :: rest <+: a :: (rest ++ more) := List.prefix_append (a :: rest) more
            exact hsep (List.prefix_of_prefix_length_le hlonger hlead (Nat.not_lt.mp hlong))
          rw [splitFrom_short piece hshort]
          exact List.nil_prefix
        · rw [List.cons_append, splitFrom, splitFrom,
            if_neg (mt List.isPrefixOf_iff_prefix.mp hsep),
            if_neg (mt List.isPrefixOf_iff_prefix.mp hlonger)]
          exact ih 0 _

theorem ended_append (text more : List α) : ended sep text <+: ended sep (text ++ more) :=
  dropLast_splitFrom_append 0 [] text more

theorem ended_snoc {c : α} (hc : c ∉ sep) (hsep : sep ≠ []) (text : List α) :
    ended sep (text ++ [c]) = ended sep text := by
  have hlead (xs : List α) : sep <+: xs ++ [c] ↔ sep <+: xs := by
    rw [List.prefix_concat_iff]
    refine or_iff_right fun h => hc ?_
    rw [h]
    exact List.mem_append_right _ List.mem_cons_self
  have hfrom (skip : Nat) (piece : List α) :
      (splitFrom sep skip piece (text ++ [c])).dropLast =
      (splitFrom sep skip piece text).dropLast := by
    induction text generalizing skip piece with
    | nil =>
      cases skip with
      | succ skip => cases skip <;> rfl
      | zero =>
        have hnot : ¬ sep.isPrefixOf [c] = true := by
          rw [List.isPrefixOf_iff_prefix]
          intro h
          exact hsep (List.prefix_nil.mp ((hlead []).mp h))
        simp only [List.nil_append, splitFrom, if_neg hnot]
        rfl
    | cons a rest ih =>
      cases skip with
      | succ skip => exact ih skip piece
      | zero =>
        have hsame := hlead (a :: rest)
        rw [List.cons_append] at hsame
        rw [List.cons_append, splitFrom, splitFrom]
        by_cases h : sep <+: a :: rest
        · rw [if_pos (List.isPrefixOf_iff_prefix.mpr h),
            if_pos (List.isPrefixOf_iff_prefix.mpr (hsame.mpr h)),
            List.dropLast_cons_of_ne_nil (splitFrom_ne_nil _ _ _),
            List.dropLast_cons_of_ne_nil (splitFrom_ne_nil _ _ _), ih]
        · rw [if_neg (mt List.isPrefixOf_iff_prefix.mp h),
            if_neg (mt (fun h => hsame.mp (List.isPrefixOf_iff_prefix.mp h)) h), ih]
  exact hfrom 0 []

theorem mem_dropLast_splitFrom (hsep : sep ≠ []) {piece text : List α}
    (h : block ∈ (splitFrom sep 0 piece text).dropLast) :
    (∃ a rest, block = piece ++ a ∧ text = a ++ sep ++ rest) ∨
      ∃ a rest, text = a ++ sep ++ block ++ sep ++ rest := by
  induction hlength : text.length using Nat.strongRecOn generalizing piece text with
  | _ n ih =>
    cases text with
    | nil => cases h
    | cons b text =>
      subst hlength
      rw [splitFrom_cons piece b text hsep] at h
      split_ifs at h with hlead
      · obtain ⟨later, hlater⟩ := hlead
        rw [← hlater, List.drop_left, List.dropLast_cons_of_ne_nil (splitFrom_ne_nil _ _ _)] at h
        rcases List.mem_cons.mp h with rfl | h
        · exact .inl ⟨[], later, by simp, by simpa using hlater.symm⟩
        · have hshorter : later.length < (b :: text).length := by
            rw [← hlater, List.length_append]
            have := List.length_pos_iff.mpr hsep
            omega
          rw [← hlater]
          rcases ih _ hshorter h rfl with ⟨a, rest, rfl, rfl⟩ | ⟨a, rest, rfl⟩
          · exact .inr ⟨[], rest, by simp⟩
          · exact .inr ⟨sep ++ a, rest, by simp⟩
      · rcases ih _ (Nat.lt_succ_self _) h rfl with ⟨a, rest, rfl, rfl⟩ | ⟨a, rest, rfl⟩
        · exact .inl ⟨b :: a, rest, by simp, rfl⟩
        · exact .inr ⟨b :: a, rest, rfl⟩

theorem mem_ended (hsep : sep ≠ []) {text : List α} (h : block ∈ ended sep text) :
    ∃ a rest, text = a ++ block ++ sep ++ rest ∧ (a = [] ∨ ∃ a', a = a' ++ sep) := by
  rcases mem_dropLast_splitFrom hsep h with ⟨a, rest, rfl, rfl⟩ | ⟨a, rest, rfl⟩
  · exact ⟨[], rest, by simp, .inl rfl⟩
  · exact ⟨a ++ sep, rest, rfl, .inr ⟨a, rfl⟩⟩

theorem intercalate_split (hsep : sep ≠ []) (text : List α) :
    sep.intercalate (split sep text) = text := by
  have hfrom (piece text : List α) : sep.intercalate (splitFrom sep 0 piece text) =
      piece ++ text := by
    induction hlength : text.length using Nat.strongRecOn generalizing piece text with
    | _ n ih =>
      cases text with
      | nil => simp [splitFrom]
      | cons b text =>
        subst hlength
        rw [splitFrom_cons piece b text hsep]
        split_ifs with hlead
        · obtain ⟨later, hlater⟩ := hlead
          have hshorter : later.length < (b :: text).length := by
            rw [← hlater, List.length_append]
            have := List.length_pos_iff.mpr hsep
            omega
          rw [List.intercalate_cons_of_ne_nil (splitFrom_ne_nil _ _ _), ← hlater, List.drop_left,
            ih _ hshorter [] later rfl, List.nil_append, List.append_assoc]
        · rw [ih _ (Nat.lt_succ_self _) _ text rfl, List.append_assoc, List.singleton_append]
  exact hfrom [] text

end Blocks

section Reading

/-- The characters that the bytes make for sure, whatever follows them. -/
def chars (bytes : List UInt8) : List Char := (forEach readByte bytes none).2

/-- A sequence that is on its way to a character beyond ASCII. -/
structure Pending.Wide (pending : Pending) : Prop where
  lower : 0x80 ≤ pending.lower
  bits : (if pending.needed = 1 then 0x80 else 2) ≤ pending.bits * 64 + (pending.lower.toNat - 0x80)

def Sane (s : Option Pending) : Prop := ∀ pending, s = some pending → pending.Wide

theorem sane_none : Sane none := by rintro _ ⟨⟩

theorem char_ofNat_ne_newline {n : Nat} (h : n ≠ 10) : Char.ofNat n ≠ '\n' := by
  have hval : (Char.ofNat n).toNat = n ∨ (Char.ofNat n).toNat = 0 := by
    by_cases hvalid : n.isValidChar
    · exact .inl (congrArg Char.toNat (dif_pos hvalid))
    · exact .inr (congrArg Char.toNat (dif_neg hvalid))
  intro heq
  have hnewline : ('\n').toNat = 10 := rfl
  rw [heq, hnewline] at hval
  omega

theorem leadByte_cases (b : UInt8) : leadByte b = (none, [Char.ofNat b.toNat]) ∨
    (∃ pending, Pending.Wide pending ∧ leadByte b = (some pending, [])) ∨
      leadByte b = (none, [replacement]) := by
  by_cases hascii : b < 0x80
  · exact .inl (if_pos hascii)
  refine .inr ?_
  rw [leadByte, if_neg hascii]
  by_cases htwo : 0xC2 ≤ b ∧ b ≤ 0xDF
  · have hlow : 0xC2 ≤ b.toNat := UInt8.le_iff_toNat_le.mp htwo.1
    refine .inl ⟨_, ⟨UInt8.le_refl _, ?_⟩, if_pos htwo⟩
    rw [if_pos rfl]
    dsimp only
    omega
  rw [if_neg htwo]
  by_cases hE0 : b = 0xE0
  · exact .inl ⟨_, ⟨by decide, by decide⟩, if_pos hE0⟩
  rw [if_neg hE0]
  by_cases hED : b = 0xED
  · exact .inl ⟨_, ⟨by decide, by decide⟩, if_pos hED⟩
  rw [if_neg hED]
  by_cases hthree : 0xE1 ≤ b ∧ b ≤ 0xEF
  · have hlow : 0xE1 ≤ b.toNat := UInt8.le_iff_toNat_le.mp hthree.1
    refine .inl ⟨_, ⟨UInt8.le_refl _, ?_⟩, if_pos hthree⟩
    rw [if_neg nofun]
    dsimp only
    omega
  rw [if_neg hthree]
  by_cases hF0 : b = 0xF0
  · exact .inl ⟨_, ⟨by decide, by decide⟩, if_pos hF0⟩
  rw [if_neg hF0]
  by_cases hfour : 0xF1 ≤ b ∧ b ≤ 0xF3
  · have hlow : 0xF1 ≤ b.toNat := UInt8.le_iff_toNat_le.mp hfour.1
    refine .inl ⟨_, ⟨UInt8.le_refl _, ?_⟩, if_pos hfour⟩
    rw [if_neg nofun]
    dsimp only
    omega
  rw [if_neg hfour]
  by_cases hF4 : b = 0xF4
  · exact .inl ⟨_, ⟨by decide, by decide⟩, if_pos hF4⟩
  · exact .inr (if_neg hF4)

theorem leadByte_sane (b : UInt8) : Sane (leadByte b).1 := by
  rcases leadByte_cases b with h | ⟨pending, hwide, h⟩ | h <;> rw [h]
  · exact sane_none
  · rintro _ ⟨rfl⟩
    exact hwide
  · exact sane_none

theorem leadByte_newline (b : UInt8) : (b = 10 ∧ leadByte b = (none, ['\n'])) ∨
    (b ≠ 10 ∧ '\n' ∉ (leadByte b).2 ∧ ((leadByte b).2 = [] → (leadByte b).1 ≠ none)) := by
  by_cases hb : b = 10
  · subst hb
    exact .inl ⟨rfl, rfl⟩
  · have hchar : Char.ofNat b.toNat ≠ '\n' :=
      char_ofNat_ne_newline fun h => hb (UInt8.toNat_inj.mp h)
    have hreplacement : replacement ≠ '\n' := by decide
    refine .inr ⟨hb, ?_⟩
    rcases leadByte_cases b with h | ⟨pending, -, h⟩ | h <;> rw [h]
    · exact ⟨fun hmem => hchar (List.mem_singleton.mp hmem).symm, nofun⟩
    · exact ⟨List.not_mem_nil, fun _ => Option.some_ne_none _⟩
    · exact ⟨fun hmem => hreplacement (List.mem_singleton.mp hmem).symm, nofun⟩

theorem readByte_sane {s : Option Pending} (hs : Sane s) (b : UInt8) : Sane (readByte b s).1 := by
  cases s with
  | none => exact leadByte_sane b
  | some pending =>
    obtain ⟨hlower, hbits⟩ := hs pending rfl
    unfold readByte
    dsimp only
    split_ifs with hgoes hlast
    · exact nofun
    · rintro _ ⟨rfl⟩
      rw [UInt8.le_iff_toNat_le, UInt8.le_iff_toNat_le] at hgoes
      rw [if_neg hlast] at hbits
      refine ⟨UInt8.le_refl _, ?_⟩
      dsimp only
      split_ifs <;> simp <;> omega
    · exact leadByte_sane b

theorem readByte_newline {s : Option Pending} (hs : Sane s) (b : UInt8) :
    (b = 10 ∧ (readByte b s).1 = none ∧ ((s = none ∧ (readByte b s).2 = ['\n']) ∨
      (readByte b s).2 = [replacement, '\n'])) ∨
    (b ≠ 10 ∧ '\n' ∉ (readByte b s).2 ∧ ((readByte b s).2 = [] → (readByte b s).1 ≠ none)) := by
  cases s with
  | none =>
    rcases leadByte_newline b with ⟨hb, hlead⟩ | hother
    · refine .inl ⟨hb, ?_, .inl ⟨rfl, ?_⟩⟩
      · exact congrArg Prod.fst hlead
      · exact congrArg Prod.snd hlead
    · exact .inr hother
  | some pending =>
    obtain ⟨hlower, hbits⟩ := hs pending rfl
    have hreplacement : replacement ≠ '\n' := by decide
    unfold readByte
    dsimp only
    split_ifs with hgoes hlast
    · -- the character is beyond ASCII
      rw [UInt8.le_iff_toNat_le] at hlower hgoes
      rw [if_pos hlast] at hbits
      have hchar : Char.ofNat (pending.bits * 64 + (b.toNat - 0x80)) ≠ '\n' :=
        char_ofNat_ne_newline (by omega)
      refine .inr ⟨?_, by simpa using hchar.symm, by simp⟩
      rintro rfl
      exact absurd (hlower.trans hgoes.1) (by decide)
    · rw [UInt8.le_iff_toNat_le] at hlower hgoes
      refine .inr ⟨?_, by simp, by simp⟩
      rintro rfl
      exact absurd (hlower.trans hgoes.1) (by decide)
    · rcases leadByte_newline b with ⟨hb, hlead⟩ | ⟨hb, hlead, -⟩
      · exact .inl
          ⟨hb, congrArg Prod.fst hlead, .inr (congrArg (fun r => replacement :: r.2) hlead)⟩
      · exact .inr ⟨hb, by simpa [hreplacement.symm] using hlead, by simp⟩

theorem head_newline {s : Option Pending} (hs : Sane s) {bytes : List UInt8}
    (h : (forEach readByte bytes s).2.head? = some '\n') : s = none ∧ bytes.head? = some 10 := by
  induction bytes generalizing s with
  | nil => cases h
  | cons b rest ih =>
    have hreplacement : replacement ≠ '\n' := by decide
    replace h : ((readByte b s).2 ++ (forEach readByte rest (readByte b s).1).2).head? =
      some '\n' := h
    rcases readByte_newline hs b with ⟨rfl, -, ⟨hnone, -⟩ | hlate⟩ | ⟨-, hnot, hgoes⟩
    · exact ⟨hnone, rfl⟩
    · rw [hlate] at h
      exact absurd (Option.some.inj h) hreplacement
    · cases hread : (readByte b s).2 with
      | nil =>
        rw [hread, List.nil_append] at h
        exact absurd (ih (readByte_sane hs b) h).1 (hgoes hread)
      | cons c cs =>
        rw [hread] at h hnot
        rw [Option.some.inj h] at hnot
        exact absurd List.mem_cons_self hnot

theorem infix_of_not_mem {c : Char} {xs ys : List Char} (hnot : c ∉ xs) (h : [c, c] <:+: xs ++ ys) :
    [c, c] <:+: ys := by
  induction xs with
  | nil => exact h
  | cons x xs ih =>
    rw [List.cons_append, List.infix_cons_iff, List.cons_prefix_cons] at h
    rcases h with ⟨rfl, -⟩ | h
    · exact absurd List.mem_cons_self hnot
    · exact ih (fun hmem => hnot (List.mem_cons_of_mem x hmem)) h

theorem blankLine_of_read {s : Option Pending} (hs : Sane s) {bytes : List UInt8}
    (h : ['\n', '\n'] <:+: (forEach readByte bytes s).2) : [10, 10] <:+: bytes := by
  induction bytes generalizing s with
  | nil => exact absurd (List.infix_nil.mp h) (List.cons_ne_nil _ _)
  | cons b rest ih =>
    have hreplacement : '\n' ∉ [replacement] := by decide
    have hrest (h : ['\n', '\n'] <:+: (forEach readByte rest (readByte b s).1).2) :
        [10, 10] <:+: b :: rest := List.infix_cons (ih (readByte_sane hs b) h)
    -- one line feed of the two may be that of this byte
    have hended (hb : b = 10)
        (h : ['\n', '\n'] <:+: '\n' :: (forEach readByte rest (readByte b s).1).2) :
        [10, 10] <:+: b :: rest := by
      rw [List.infix_cons_iff, List.cons_prefix_cons] at h
      rcases h with ⟨-, hnext⟩ | h
      · obtain ⟨more, hmore⟩ := hnext
        have hhead : (forEach readByte rest (readByte b s).1).2.head? = some '\n' := by
          rw [← hmore]; rfl
        obtain ⟨-, hten⟩ := head_newline (readByte_sane hs b) hhead
        obtain ⟨tail, rfl⟩ := List.head?_eq_some_iff.mp hten
        rw [hb]
        exact (List.prefix_append [10, 10] tail).isInfix
      · exact hrest h
    replace h : ['\n', '\n'] <:+: (readByte b s).2 ++ (forEach readByte rest (readByte b s).1).2 :=
      h
    rcases readByte_newline hs b with ⟨hb, -, ⟨-, hread⟩ | hread⟩ | ⟨-, hnot, -⟩
    · rw [hread] at h
      exact hended hb h
    · rw [hread, List.cons_append] at h
      exact hended hb (infix_of_not_mem hreplacement h)
    · exact hrest (infix_of_not_mem hnot h)

theorem chars_append (p q : List UInt8) : chars p <+: chars (p ++ q) := by
  unfold chars
  rw [forEach_append]
  exact List.prefix_append _ _

theorem fromUtf8Lossy_eq (bytes : List UInt8) :
    fromUtf8Lossy bytes = chars bytes ∨ fromUtf8Lossy bytes = chars bytes ++ [replacement] := by
  unfold fromUtf8Lossy chars
  dsimp only
  split_ifs
  · exact .inr rfl
  · exact .inl (List.append_nil _)

/-- The blocks that a blank line has ended are read from the bytes for sure. -/
theorem ended_fromUtf8Lossy (bytes : List UInt8) :
    ended ['\n', '\n'] (fromUtf8Lossy bytes) = ended ['\n', '\n'] (chars bytes) := by
  rcases fromUtf8Lossy_eq bytes with h | h
  · rw [h]
  · rw [h, ended_snoc (by decide) (by decide)]

end Reading

end Lobster.Text
