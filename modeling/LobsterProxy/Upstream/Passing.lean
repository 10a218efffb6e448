import LobsterProxy.Server.Decode
import LobsterProxy.Upstream.Verdict

/-! A stream that brings no error passes the peek unchanged, or not at all. -/

namespace Lobster.Upstream
open Text

def namesError (line : List Char) : Bool :=
  (stripPrefix "event:".toList line).any fun event => trim event = "error".toList

def hasErrorLine (body : List UInt8) : Bool := ((fromUtf8Lossy body).splitOn '\n').any namesError

/-- `StartedGeneration::into_byte_stream`: the inspected head is replayed first. -/
def intoByteStream (head : List UInt8) (stream : List StreamItem) : List StreamItem :=
  if head.isEmpty then stream else .ok head :: stream

def streamBytes : List StreamItem → Except String (List UInt8)
  | [] => .ok []
  | .error err :: _ => .error err
  | .ok bytes :: rest => (streamBytes rest).map (bytes ++ ·)

theorem streamBytes_ok (chunks : List (List UInt8)) :
    streamBytes (chunks.map .ok) = .ok chunks.flatten := by
  induction chunks with
  | nil => rfl
  | cons bytes rest ih =>
    rw [List.map_cons, streamBytes, ih]
    rfl

theorem streamBytes_intoByteStream (head : List UInt8) (rest : List (List UInt8)) :
    streamBytes (intoByteStream head (rest.map .ok)) = .ok (head ++ rest.flatten) := by
  unfold intoByteStream
  split_ifs with hempty
  · rw [streamBytes_ok, List.isEmpty_iff.mp hempty, List.nil_append]
  · exact streamBytes_ok (head :: rest)

section Quiet

theorem isError_scanLine (scan : BlockScan) (line : List Char) :
    (scanLine scan line).isError = (scan.isError || namesError line) := by
  unfold scanLine namesError
  cases stripPrefix "event:".toList line with
  | some event =>
    by_cases hevent : trim event = "error".toList
    · simp only [if_pos hevent, Option.any_some, decide_eq_true hevent, Bool.or_true]
    · simp only [if_neg hevent, Option.any_some, decide_eq_false hevent, Bool.or_false]
  | none =>
    cases stripPrefix "data:".toList line with
    | none => simp
    | some data =>
      dsimp only
      split_ifs <;> simp [*]

theorem isError_foldl (block : List (List Char)) (scan : BlockScan) :
    (block.foldl scanLine scan).isError = (scan.isError || block.any namesError) := by
  induction block generalizing scan with
  | nil => simp
  | cons line rest ih => rw [List.foldl_cons, ih, isError_scanLine, List.any_cons, Bool.or_assoc]

theorem names_of_scanEnded {serde : Serde} {offset : Nat} {sawData : Bool}
    {blocks : List (List Char)} {found : StreamError × Nat}
    (h : scanEnded serde offset sawData blocks = some found) :
    ∃ block ∈ blocks, (lines block).any namesError = true := by
  induction blocks generalizing offset sawData with
  | nil => cases h
  | cons block rest ih =>
    simp only [scanEnded, isError_foldl, Bool.false_or] at h
    split_ifs at h with herror
    · exact ⟨block, List.mem_cons_self, herror⟩
    · obtain ⟨block', hblock', hnames⟩ := ih h
      exact ⟨block', List.mem_cons_of_mem block hblock', hnames⟩

theorem trim_concat {c : Char} (hc : isWhitespace c = true) (text : List Char) :
    trim (text ++ [c]) = trim text := by
  unfold trim trimMatches
  rw [List.dropWhile_append]
  split_ifs with hempty
  · rw [List.isEmpty_iff.mp hempty, List.dropWhile_cons_of_pos hc]
    rfl
  · exact List.rdropWhile_concat_pos _ _ _ hc

theorem namesError_concat {line : List Char} (h : namesError line = true) :
    namesError (line ++ ['\r']) = true := by
  unfold namesError stripPrefix at h
  have hlead : "event:".toList <+: line := by
    by_contra hnot
    rw [if_neg (mt List.isPrefixOf_iff_prefix.mp hnot)] at h
    cases h
  obtain ⟨event, rfl⟩ := hlead
  rw [if_pos (List.isPrefixOf_iff_prefix.mpr (List.prefix_append _ _))] at h
  rw [List.drop_left, Option.any_some] at h
  unfold namesError stripPrefix
  rw [List.append_assoc, if_pos (List.isPrefixOf_iff_prefix.mpr (List.prefix_append _ _)),
    List.drop_left, Option.any_some, trim_concat rfl]
  exact h

theorem names_of_lines {block : List Char} (h : (lines block).any namesError = true) :
    (block.splitOn '\n').any namesError = true := by
  obtain ⟨line, hline, hnames⟩ := List.any_eq_true.mp h
  refine List.any_eq_true.mpr ?_
  have hended (hline : line ∈ (block.splitOn '\n').dropLast.map fun line =>
      if line.getLast? = some '\r' then line.dropLast else line) :
      ∃ piece ∈ block.splitOn '\n', namesError piece = true := by
    obtain ⟨piece, hpiece, rfl⟩ := List.mem_map.mp hline
    have hmem := List.dropLast_subset _ hpiece
    split_ifs at hnames with hreturn
    · refine ⟨piece, hmem, ?_⟩
      rw [← List.dropLast_append_getLast? '\r' hreturn]
      exact namesError_concat hnames
    · exact ⟨piece, hmem, hnames⟩
  unfold lines at hline
  dsimp only at hline
  split at hline
  · next c rest hlast =>
    rcases List.mem_append.mp hline with hline | hline
    · exact hended hline
    · rw [List.mem_singleton.mp hline] at hnames
      exact ⟨_, List.mem_of_getLast? hlast, hnames⟩
  · exact hended hline

theorem splitOn_ended {block text piece : List Char} (hblock : block ∈ ended ['\n', '\n'] text)
    (hpiece : piece ∈ block.splitOn '\n') : piece ∈ text.splitOn '\n' := by
  obtain ⟨a, rest, rfl, ha⟩ := mem_ended (by decide) hblock
  have hleft : piece ∈ (a ++ block).splitOn '\n' := by
    rcases ha with rfl | ⟨a', rfl⟩
    · exact hpiece
    · have hsplit := List.splitOn_append_cons_self (a := '\n') (a' ++ ['\n']) block
      simp only [List.append_assoc, List.cons_append, List.nil_append] at hsplit ⊢
      rw [hsplit]
      exact List.mem_append_right _ hpiece
  have hsplit := List.splitOn_append_cons_self (a := '\n') (a ++ block) ('\n' :: rest)
  simp only [List.append_assoc, List.cons_append, List.nil_append] at hsplit hleft ⊢
  rw [hsplit]
  exact List.mem_append_left _ hleft

theorem scan_quiet {serde : Serde} {body : List UInt8} (h : hasErrorLine body = false) :
    scanPrefixForStreamError serde body = none := by
  cases hscan : scanPrefixForStreamError serde body with
  | none => rfl
  | some found =>
    rw [scanPrefix_eq, ← ended_fromUtf8Lossy] at hscan
    obtain ⟨block, hblock, hnames⟩ := names_of_scanEnded hscan
    obtain ⟨piece, hpiece, hnames⟩ := List.any_eq_true.mp (names_of_lines hnames)
    have herror : hasErrorLine body = true :=
      List.any_eq_true.mpr ⟨piece, splitOn_ended hblock hpiece, hnames⟩
    cases h.symm.trans herror

end Quiet

/-- A body without an error line is passed on unchanged, however it is cut, exactly when it
has a blank line or is long enough. -/
theorem peek_passes_iff (serde : Serde) {body : List UInt8} (hquiet : hasErrorLine body = false) :
    (∀ chunks : List (List UInt8), chunks.flatten = body → ∃ head stream,
      peekStreamError serde [] (chunks.map .ok) = .healthy head stream ∧
        streamBytes (intoByteStream head stream) = .ok body) ↔ Inspected body := by
  have hpeek (chunks : List (List UInt8)) (hchunks : chunks.flatten = body) :=
    @peek_quiet serde [] chunks (by rw [List.nil_append, hchunks]; exact scan_quiet hquiet)
  constructor
  · intro hpasses
    by_contra hinspected
    obtain ⟨head, stream, hhealthy, -⟩ := hpasses [body] (by simp)
    have hgivesUp := hpeek [body] (by simp)
    rw [List.nil_append, List.flatten_singleton, if_neg hinspected, hhealthy] at hgivesUp
    cases hgivesUp
  · intro hinspected chunks hchunks
    have hpassed := hpeek chunks hchunks
    rw [List.nil_append, hchunks, if_pos hinspected] at hpassed
    obtain ⟨head, rest, hhealthy, hbytes⟩ := hpassed
    exact ⟨head, rest.map .ok, hhealthy, by rw [streamBytes_intoByteStream, hbytes]⟩

theorem peek_passes_iff_plain :
    let body : List UInt8 := "data: \x7b\x7d\n\n".toUTF8.data.toList
    (∀ chunks : List (List UInt8), chunks.flatten = body → ∃ head stream,
      peekStreamError .emptyObject [] (chunks.map .ok) = .healthy head stream ∧
        streamBytes (intoByteStream head stream) = .ok body) ↔ Inspected body :=
  peek_passes_iff .emptyObject (by decide +kernel)

/-- A body with carriage returns: the pump decodes an event, the peek gives up. -/
theorem peek_rejects_usable :
    let body : List UInt8 := "data: \x7b\x7d\r\n\r\n".toUTF8.data.toList
    hasErrorLine body = false ∧
      Server.decodeLines .emptyObject (Server.endedLines body) = [.obj []] ∧
      verdict .emptyObject [body] = .unavailable := by
  decide +kernel

end Lobster.Upstream
