import LobsterProxy.Base.Blocks

/-! Frames of bytes and blocks of characters: what a blank line has ended in the bytes is
what it has ended in their lossy reading. -/

namespace Lobster.Text
open Emitter

section Leftmost
variable {α : Type} [DecidableEq α] {sep text a rest : List α}

/-- No occurrence of the separator begins before the end of `a`. -/
def IsLeftmost (sep text a : List α) : Prop := ∀ l r, text = l ++ sep ++ r → a.length ≤ l.length

theorem exists_leftmost (h : sep <:+: text) :
    ∃ a rest, text = a ++ sep ++ rest ∧ IsLeftmost sep text a := by
  induction text with
  | nil => exact ⟨[], [], by simp [List.infix_nil.mp h], fun _ _ _ => Nat.zero_le _⟩
  | cons c text ih =>
    by_cases hlead : sep <+: c :: text
    · obtain ⟨rest, hrest⟩ := hlead
      exact ⟨[], rest, by simpa using hrest.symm, fun _ _ _ => Nat.zero_le _⟩
    · have hinfix : sep <:+: text := (List.infix_cons_iff.mp h).resolve_left hlead
      obtain ⟨a, rest, rfl, hleast⟩ := ih hinfix
      refine ⟨c :: a, rest, rfl, ?_⟩
      intro l r heq
      rcases l with _ | ⟨d, l⟩
      · exact absurd ⟨r, heq.symm⟩ hlead
      · have htail := (List.cons.inj heq).2
        exact Nat.succ_le_succ (hleast l r htail)

theorem splitFrom_leftmost (hsep : sep ≠ []) (piece : List α)
    (h : IsLeftmost sep (a ++ sep ++ rest) a) :
    splitFrom sep 0 piece (a ++ sep ++ rest) = (piece ++ a) :: split sep rest := by
  induction a generalizing piece with
  | nil =>
    obtain ⟨c, more, rfl⟩ := List.exists_cons_of_ne_nil hsep
    have hlead : c :: more <+: c :: (more ++ rest) := List.prefix_append (c :: more) rest
    have hdrop : (c :: (more ++ rest)).drop (c :: more).length = rest := by simp
    rw [List.nil_append, List.cons_append, splitFrom_cons _ _ _ hsep, if_pos hlead, hdrop,
      List.append_nil]
    rfl
  | cons c a ih =>
    have hlead : ¬ sep <+: c :: (a ++ sep ++ rest) := by
      rintro ⟨r, hr⟩
      have := h [] r hr.symm
      simp at this
    have hleast : IsLeftmost sep (a ++ sep ++ rest) a := by
      intro l r heq
      have := h (c :: l) r (congrArg (c :: ·) heq)
      simpa using this
    rw [List.cons_append, List.cons_append, splitFrom_cons _ _ _ hsep, if_neg hlead, ih _ hleast,
      List.append_assoc, List.singleton_append]

theorem ended_leftmost (hsep : sep ≠ []) (h : IsLeftmost sep (a ++ sep ++ rest) a) :
    ended sep (a ++ sep ++ rest) = a :: ended sep rest := by
  unfold ended
  have hsplit := splitFrom_leftmost hsep [] h
  unfold split at hsplit ⊢
  rw [hsplit, List.dropLast_cons_of_ne_nil (splitFrom_ne_nil _ _ _), List.nil_append]

theorem ended_eq_nil (hsep : sep ≠ []) (h : ¬ sep <:+: text) : ended sep text = [] := by
  rcases hended : ended sep text with _ | ⟨block, later⟩
  · rfl
  · have hmem : block ∈ ended sep text := by
      rw [hended]
      exact List.mem_cons_self
    obtain ⟨a, rest, heq, -⟩ := mem_ended hsep hmem
    exact absurd ⟨a ++ block, rest, heq.symm⟩ h

end Leftmost

section Reading

theorem sane_forEach (bytes : List UInt8) {s : Option Pending} (hs : Sane s) :
    Sane (forEach readByte bytes s).1 := by
  induction bytes generalizing s with
  | nil => exact hs
  | cons b rest ih => exact ih (readByte_sane hs b)

theorem readByte_ten {s : Option Pending} (hs : Sane s) :
    readByte 10 s = (none, (if s.isSome then [replacement] else []) ++ ['\n']) := by
  cases s with
  | none => rfl
  | some pending =>
    have hlower := (hs pending rfl).lower
    have hout : ¬ (pending.lower ≤ 10 ∧ 10 ≤ pending.upper) := by
      intro h
      exact absurd (UInt8.le_trans hlower h.1) (by decide)
    unfold readByte
    dsimp only
    rw [if_neg hout]
    rfl

theorem chars_newline (a rest : List UInt8) : chars (a ++ 10 :: rest) =
    fromUtf8Lossy a ++ '\n' :: chars rest := by
  have hsane := sane_forEach a sane_none
  unfold chars fromUtf8Lossy
  rw [forEach_append]
  simp only [andThen, forEach, readByte_ten hsane]
  simp

theorem fromUtf8Lossy_newline (a : List UInt8) : chars (a ++ [10]) = fromUtf8Lossy a ++ ['\n'] :=
  chars_newline a []

/-- The blocks that a blank line has ended are the readings of the frames that it has ended. -/
theorem ended_chars (bytes : List UInt8) :
    ended ['\n', '\n'] (chars bytes) = (ended [10, 10] bytes).map fromUtf8Lossy := by
  have hsep : ([10, 10] : List UInt8) ≠ [] := List.cons_ne_nil _ _
  have hsep' : ['\n', '\n'] ≠ [] := List.cons_ne_nil _ _
  induction hlength : bytes.length using Nat.strongRecOn generalizing bytes with
  | _ n ih =>
    by_cases hblank : [10, 10] <:+: bytes
    · obtain ⟨a, rest, rfl, hleast⟩ := exists_leftmost hblank
      have hread : chars (a ++ [10, 10] ++ rest) = fromUtf8Lossy a ++ ['\n', '\n'] ++
          chars rest := by
        have hline := chars_newline a (10 :: rest)
        have hempty := chars_newline [] rest
        have hnil : fromUtf8Lossy [] = [] := rfl
        rw [hnil, List.nil_append, List.nil_append] at hempty
        rw [hempty] at hline
        simpa using hline
      -- an earlier blank line of the reading would be read before the end of the frame
      have hleast' : IsLeftmost ['\n', '\n'] (fromUtf8Lossy a ++ ['\n', '\n'] ++ chars rest)
          (fromUtf8Lossy a) := by
        intro l r heq
        by_contra hearly
        have hshort : l ++ ['\n', '\n'] <+: fromUtf8Lossy a ++ ['\n'] := by
          apply List.prefix_of_prefix_length_le ⟨r, heq.symm⟩ ⟨'\n' :: chars rest, by simp⟩
          simp only [List.length_append, List.length_cons, List.length_nil]
          omega
        rw [← fromUtf8Lossy_newline] at hshort
        have hinfix : ['\n', '\n'] <:+: chars (a ++ [10]) :=
          (List.suffix_append l _).isInfix.trans hshort.isInfix
        obtain ⟨l', r', hbytes⟩ := blankLine_of_read sane_none hinfix
        have hplace := hleast l' (r' ++ 10 :: rest) (by
          rw [← List.append_assoc, hbytes]
          simp)
        have hlen := congrArg List.length hbytes
        simp only [List.length_append, List.length_cons, List.length_nil] at hlen
        omega
      have hshorter : rest.length < n := by
        rw [← hlength]
        simp only [List.length_append, List.length_cons, List.length_nil]
        omega
      rw [hread, ended_leftmost hsep' hleast', ended_leftmost hsep hleast, List.map_cons,
        ih _ hshorter rest rfl]
    · have hread : ¬ ['\n', '\n'] <:+: chars bytes :=
        fun h => hblank (blankLine_of_read sane_none h)
      rw [ended_eq_nil hsep hblank, ended_eq_nil hsep' hread, List.map_nil]

end Reading

end Lobster.Text
