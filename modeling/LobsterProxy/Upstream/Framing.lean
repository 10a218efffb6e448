import LobsterProxy.Base.Blocks
import LobsterProxy.Upstream.Peek

/-! The scan for an early error frame looks at ended blocks only, so it keeps to what it
has found when more bytes come. -/

namespace Lobster.Upstream
open Text

section Scan
variable {serde : Serde} {P Q : List UInt8} {found : StreamError × Nat}

/-- The scan over blocks that are known to have ended. -/
def scanEnded (serde : Serde) : Nat → Bool → List (List Char) → Option (StreamError × Nat)
  | _, _, [] => none
  | offset, sawData, block :: rest =>
    let nextOffset := offset + len block + 2
    let scan := (lines block).foldl scanLine ⟨false, none, sawData⟩
    if scan.isError then some (blockError serde scan.payload, nextOffset)
    else if scan.sawData then none
    else scanEnded serde nextOffset scan.sawData rest

theorem len_append (a b : List Char) : len (a ++ b) = len a + len b := by
  unfold len
  rw [List.map_append, List.sum_append]

theorem scanBlocks_eq (serde : Serde) (offset : Nat) (sawData : Bool) {blocks : List (List Char)}
    (hne : blocks ≠ []) :
    scanBlocks serde (offset + len (['\n', '\n'].intercalate blocks)) offset sawData blocks =
      scanEnded serde offset sawData blocks.dropLast := by
  induction blocks generalizing offset sawData with
  | nil => exact absurd rfl hne
  | cons block rest ih =>
    by_cases hrest : rest = []
    · subst hrest
      simp [scanBlocks, scanEnded]
    · have hsep : len ['\n', '\n'] = 2 := rfl
      rw [List.dropLast_cons_of_ne_nil hrest, List.intercalate_cons_of_ne_nil hrest, len_append,
        len_append, hsep, scanBlocks, scanEnded, if_neg (by omega), ← ih _ _ hrest]
      simp only [Nat.add_assoc]

theorem scanPrefix_eq (serde : Serde) (P : List UInt8) :
    scanPrefixForStreamError serde P = scanEnded serde 0 false (ended ['\n', '\n'] (chars P)) := by
  have hne : split ['\n', '\n'] (fromUtf8Lossy P) ≠ [] := splitFrom_ne_nil 0 [] _
  have hblocks := scanBlocks_eq serde 0 false hne
  rw [intercalate_split (by decide), Nat.zero_add] at hblocks
  rw [← ended_fromUtf8Lossy]
  exact hblocks

theorem scanEnded_append {offset : Nat} {sawData : Bool} {blocks : List (List Char)}
    (h : scanEnded serde offset sawData blocks = some found) (more : List (List Char)) :
    scanEnded serde offset sawData (blocks ++ more) = some found := by
  induction blocks generalizing offset sawData with
  | nil => cases h
  | cons block rest ih =>
    simp only [scanEnded] at h
    simp only [List.cons_append, scanEnded]
    split_ifs at h ⊢
    · exact h
    · exact ih h

/-- An error frame that the scan has found is found in every longer prefix. -/
theorem scanPrefix_append (h : scanPrefixForStreamError serde P = some found) (Q : List UInt8) :
    scanPrefixForStreamError serde (P ++ Q) = some found := by
  obtain ⟨later, hlater⟩ := chars_append P Q
  obtain ⟨more, hmore⟩ := @ended_append _ _ ['\n', '\n'] (chars P) later
  rw [scanPrefix_eq] at h ⊢
  rw [← hlater, ← hmore]
  exact scanEnded_append h more

theorem scanPrefix_none (h : scanPrefixForStreamError serde (P ++ Q) = none) :
    scanPrefixForStreamError serde P = none := by
  cases hfound : scanPrefixForStreamError serde P with
  | none => rfl
  | some found => cases (scanPrefix_append hfound Q).symm.trans h

theorem hasFrameEnd_of_scan (h : scanPrefixForStreamError serde P = some found) :
    hasFrameEnd P = true := by
  rw [scanPrefix_eq] at h
  cases hblocks : ended ['\n', '\n'] (chars P) with
  | nil =>
    rw [hblocks] at h
    cases h
  | cons block rest =>
    have hmem : block ∈ ended ['\n', '\n'] (chars P) := hblocks ▸ List.mem_cons_self
    obtain ⟨a, b, htext, -⟩ := mem_ended (by decide) hmem
    have hread : ['\n', '\n'] <:+: chars P := ⟨a ++ block, b, htext.symm⟩
    exact decide_eq_true (blankLine_of_read sane_none hread)

end Scan

section Peek
variable {serde : Serde} {head : List UInt8} {chunks : List (List UInt8)}

/-- The head is inspected no further. -/
def Inspected (bytes : List UInt8) : Prop :=
  hasFrameEnd bytes = true ∨ maxPrefixInspectBytes ≤ bytes.length

instance (bytes : List UInt8) : Decidable (Inspected bytes) := by unfold Inspected; infer_instance

theorem Inspected.append (h : Inspected head) (more : List UInt8) : Inspected (head ++ more) := by
  rcases h with h | h
  · refine .inl (decide_eq_true ?_)
    exact (of_decide_eq_true h).trans (List.prefix_append head more).isInfix
  · refine .inr (h.trans ?_)
    rw [List.length_append]
    exact Nat.le_add_right _ _

theorem peek_found {found : StreamError × Nat}
    (h : scanPrefixForStreamError serde head = some found) (stream : List StreamItem) :
    peekStreamError serde head stream = .errored found.1 := by
  cases stream <;> simp only [peekStreamError, h]

theorem peek_inspected (h : scanPrefixForStreamError serde head = none)
    (hinspected : Inspected head) (stream : List StreamItem) :
    peekStreamError serde head stream = .healthy head stream := by
  unfold Inspected at hinspected
  cases stream <;> simp only [peekStreamError, h, if_pos hinspected]

theorem peek_on (h : scanPrefixForStreamError serde head = none) (hinspected : ¬ Inspected head)
    (bytes : List UInt8) (rest : List StreamItem) :
    peekStreamError serde head (.ok bytes :: rest) =
      peekStreamError serde (head ++ bytes) rest := by
  unfold Inspected at hinspected
  simp only [peekStreamError, h, if_neg hinspected]

theorem peek_end (h : scanPrefixForStreamError serde head = none) (hinspected : ¬ Inspected head) :
    peekStreamError serde head [] = .unavailable := by
  unfold Inspected at hinspected
  simp only [peekStreamError, h, if_neg hinspected]

/-- Where the scan finds nothing in the whole, peeking hands all of it on, or gives up. -/
theorem peek_quiet (h : scanPrefixForStreamError serde (head ++ chunks.flatten) = none) :
    if Inspected (head ++ chunks.flatten) then
      ∃ (head' : List UInt8) (rest : List (List UInt8)),
        peekStreamError serde head (chunks.map .ok) = .healthy head' (rest.map .ok) ∧
          head' ++ rest.flatten = head ++ chunks.flatten
    else peekStreamError serde head (chunks.map .ok) = .unavailable := by
  induction chunks generalizing head with
  | nil =>
    rw [List.flatten_nil, List.append_nil] at h ⊢
    split_ifs with hinspected
    · exact ⟨head, [], peek_inspected h hinspected [], List.append_nil head⟩
    · exact peek_end h hinspected
  | cons bytes rest ih =>
    have hnone := scanPrefix_none h
    by_cases hinspected : Inspected head
    · rw [if_pos (hinspected.append _)]
      exact ⟨head, bytes :: rest, peek_inspected hnone hinspected _, rfl⟩
    · rw [List.flatten_cons, ← List.append_assoc] at h
      have hrest := ih h
      rw [List.append_assoc, ← List.flatten_cons, ← peek_on hnone hinspected] at hrest
      exact hrest

end Peek

end Lobster.Upstream
