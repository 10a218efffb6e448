import LobsterProxy.Base.Frames
import LobsterProxy.Upstream.Framing

/-! The scan is stable: what it has found stays found, and once a frame has brought data,
no later error frame counts as an early one. -/

namespace Lobster.Upstream
open Text

section Frames

def eventOf (line : List Char) : Option (List Char) := (stripPrefix "event:".toList line).map trim

def dataOf (line : List Char) : Option (List Char) := (stripPrefix "data:".toList line).map trim

def NamesError (frame : List UInt8) : Prop :=
  ∃ line ∈ lines (fromUtf8Lossy frame), eventOf line = some "error".toList

def CarriesData (frame : List UInt8) : Prop :=
  ∃ line ∈ lines (fromUtf8Lossy frame), ∃ data, dataOf line = some data ∧ data ≠ "[DONE]".toList

instance (frame : List UInt8) : Decidable (NamesError frame) :=
  inferInstanceAs (Decidable (∃ line ∈ lines (fromUtf8Lossy frame), _))

end Frames

section Lines
variable {scan : BlockScan} {line : List Char}

theorem scanLine_isError : (scanLine scan line).isError = true ↔
    scan.isError = true ∨ eventOf line = some "error".toList := by
  unfold scanLine eventOf
  rcases hevent : stripPrefix "event:".toList line with _ | event
  · dsimp only
    rcases stripPrefix "data:".toList line with _ | data
    · simp
    · dsimp only
      split_ifs <;> simp
  · dsimp only
    split_ifs with herror
    · simp [herror]
    · simp only [Option.map_some, Option.some.injEq, herror, or_false]

theorem dataOf_eq_none {event : List Char}
    (h : stripPrefix "event:".toList line = some event) : dataOf line = none := by
  unfold stripPrefix at h
  split_ifs at h with hlead
  obtain ⟨rest, rfl⟩ := List.isPrefixOf_iff_prefix.mp hlead
  rfl

theorem scanLine_sawData (hscan : scan.isError = false) : (scanLine scan line).sawData = true ↔
    scan.sawData = true ∨ ∃ data, dataOf line = some data ∧ data ≠ "[DONE]".toList := by
  rcases hevent : stripPrefix "event:".toList line with _ | event
  · unfold scanLine dataOf
    rw [hevent]
    dsimp only
    rcases stripPrefix "data:".toList line with _ | data
    · simp
    · dsimp only
      rw [hscan]
      by_cases hdone : trim data = "[DONE]".toList
      · rw [if_pos hdone, Option.map_some, hdone]
        simp
      · rw [if_neg hdone, Option.map_some]
        have hdata : ∃ data', some (trim data) = some data' ∧ data' ≠ "[DONE]".toList :=
          ⟨_, rfl, hdone⟩
        simp only [hdata, or_true, Bool.false_eq_true, if_false]
  · rw [dataOf_eq_none hevent]
    unfold scanLine
    rw [hevent]
    dsimp only
    split_ifs <;> simp

theorem scanLines_quiet {lines : List (List Char)} (hscan : scan.isError = false)
    (hquiet : ∀ line ∈ lines, eventOf line ≠ some "error".toList) :
    (lines.foldl scanLine scan).isError = false ∧ ((lines.foldl scanLine scan).sawData = true ↔
      scan.sawData = true ∨
      ∃ line ∈ lines, ∃ data, dataOf line = some data ∧ data ≠ "[DONE]".toList) := by
  induction lines generalizing scan with
  | nil => exact ⟨hscan, by simp⟩
  | cons line lines ih =>
    have hstep : (scanLine scan line).isError = false := by
      rw [Bool.eq_false_iff, ne_eq, scanLine_isError, not_or]
      exact ⟨by simp [hscan], hquiet line List.mem_cons_self⟩
    obtain ⟨herror, hdata⟩ :=
      ih hstep fun other hmem => hquiet other (List.mem_cons_of_mem line hmem)
    refine ⟨herror, ?_⟩
    rw [List.foldl_cons, hdata, scanLine_sawData hscan]
    simp only [List.mem_cons, exists_eq_or_imp, or_assoc]

end Lines

section Stable
variable {serde : Serde} {offset : Nat} {sawData : Bool} {frame : List UInt8}
    {before later : List (List UInt8)}

/-- Past frames without an error the first one with data ends the scan. -/
theorem scanEnded_data (hbefore : ∀ frame ∈ before, ¬ NamesError frame)
    (hframe : ¬ NamesError frame) (hdata : CarriesData frame) :
    scanEnded serde offset sawData ((before ++ frame :: later).map fromUtf8Lossy) = none := by
  have hquiet {frame : List UInt8} (hframe : ¬ NamesError frame) :
      ∀ line ∈ lines (fromUtf8Lossy frame), eventOf line ≠ some "error".toList := by
    intro line hmem hevent
    exact hframe ⟨line, hmem, hevent⟩
  induction before generalizing offset sawData with
  | nil =>
    have hstart : (⟨false, none, sawData⟩ : BlockScan).isError = false := rfl
    obtain ⟨herror, hsaw⟩ := scanLines_quiet hstart (hquiet hframe)
    have hsaw := hsaw.mpr (.inr hdata)
    rw [List.nil_append, List.map_cons, scanEnded]
    simp only [herror, hsaw, Bool.false_eq_true, if_false, if_true]
  | cons first before ih =>
    have hfirst := hbefore first List.mem_cons_self
    have hstart : (⟨false, none, sawData⟩ : BlockScan).isError = false := rfl
    obtain ⟨herror, -⟩ := scanLines_quiet hstart (hquiet hfirst)
    rw [List.cons_append, List.map_cons, scanEnded]
    simp only [herror, Bool.false_eq_true, if_false]
    split_ifs
    · rfl
    · exact ih fun frame hmem => hbefore frame (List.mem_cons_of_mem first hmem)

/-- No extension of the bytes takes back an early error, and none makes one of what comes
after output. -/
theorem scanPrefix_stable (serde : Serde) (p : List UInt8) :
    (∀ x found, scanPrefixForStreamError serde p = some found →
      scanPrefixForStreamError serde (p ++ x) = some found) ∧
    ∀ before frame later, ended [10, 10] p = before ++ frame :: later →
      (∀ frame ∈ before, ¬ NamesError frame) → ¬ NamesError frame → CarriesData frame →
        ∀ x, scanPrefixForStreamError serde (p ++ x) = none := by
  constructor
  · intro x found hfound
    exact scanPrefix_append hfound x
  · intro before frame later hframes hbefore hframe hdata x
    obtain ⟨more, hmore⟩ := @ended_append _ _ [10, 10] p x
    rw [scanPrefix_eq, ended_chars, ← hmore, hframes, List.append_assoc, List.cons_append]
    exact scanEnded_data hbefore hframe hdata

theorem scanPrefix_stable_data :
    ended [10, 10] "data:\x7b\x7d\n\nevent:er".toUTF8.toList =
      [] ++ "data:\x7b\x7d".toUTF8.toList :: [] ∧
      ¬ NamesError "data:\x7b\x7d".toUTF8.toList ∧ CarriesData "data:\x7b\x7d".toUTF8.toList ∧
        ∀ x, scanPrefixForStreamError .emptyObject
          ("data:\x7b\x7d\n\nevent:er".toUTF8.toList ++ x) = none := by
  have hframes : ended [10, 10] "data:\x7b\x7d\n\nevent:er".toUTF8.toList =
    [] ++ "data:\x7b\x7d".toUTF8.toList :: [] := by decide +kernel
  have hquiet : ¬ NamesError "data:\x7b\x7d".toUTF8.toList := by decide +kernel
  have hdata : CarriesData "data:\x7b\x7d".toUTF8.toList := by
    exact ⟨"data:\x7b\x7d".toList, by decide +kernel,
      "\x7b\x7d".toList, by decide +kernel, by decide⟩
  refine ⟨hframes, hquiet, hdata, ?_⟩
  exact (scanPrefix_stable .emptyObject _).2 [] _ [] hframes (by simp) hquiet hdata

end Stable

end Lobster.Upstream
