import LobsterProxy.Base.Decimal
import LobsterProxy.Base.Fragment

/-! The text format in which metrics are exposed: families of samples, as they are written and as a
scraper reads them. What is written of sound families with different names and series is read
back. -/

namespace Lobster.Exposition
open Decimal Text

structure Sample where
  name : String
  labels : List (String × String)
  value : String
  deriving DecidableEq, Repr

def Sample.series (s : Sample) : String × List (String × String) := (s.name, s.labels)

inductive Kind where
  | counter
  | gauge
  | histogram
  deriving DecidableEq, Repr

structure Family where
  name : String
  help : String
  kind : Kind
  samples : List Sample
  deriving DecidableEq, Repr

def Kind.text : Kind → String
  | counter => "counter"
  | gauge => "gauge"
  | histogram => "histogram"

def Kind.names : Kind → String → List String
  | histogram, family => [family ++ "_bucket", family ++ "_sum", family ++ "_count"]
  | _, family => [family]

def isNameChar (c : Char) : Bool := c.isAlphanum || c = '_' || c = ':'

section Writing

def escape (c : Char) : List Char :=
  if c = '\\' then
  ['\\', '\\'] else if c = '"' then ['\\', '"'] else if c = '\n' then ['\\', 'n'] else [c]

def labelText (label : String × String) : List Char :=
  label.1.toList ++ '=' :: '"' :: (label.2.toList.flatMap escape ++ ['"'])

def labelsText : List (String × String) → List Char
  | [] => []
  | labels => '{' :: ([','].intercalate (labels.map labelText) ++ ['}'])

inductive Line where
  | help (name text : String)
  | type (name : String) (kind : Kind)
  | sample (s : Sample)
  deriving DecidableEq, Repr

def helpMark : List Char := ['#', ' ', 'H', 'E', 'L', 'P', ' ']

def typeMark : List Char := ['#', ' ', 'T', 'Y', 'P', 'E', ' ']

def Line.text : Line → List Char
  | help name text => helpMark ++ (name.toList ++ ' ' :: text.toList)
  | type name kind => typeMark ++ (name.toList ++ ' ' :: kind.text.toList)
  | sample s => s.name.toList ++ (labelsText s.labels ++ ' ' :: s.value.toList)

def Family.lines (f : Family) : List Line :=
  .help f.name f.help :: .type f.name f.kind :: f.samples.map .sample

def writeLines (lines : List Line) : List Char := lines.flatMap fun line => line.text ++ ['\n']

def write (families : List Family) : List Char := writeLines (families.flatMap Family.lines)

end Writing

section Reading

def unescape : List Char → Option (List Char × List Char)
  | [] => none
  | '"' :: rest => some ([], rest)
  | '\\' :: 'n' :: rest => (unescape rest).map fun read => ('\n' :: read.1, read.2)
  | '\\' :: '"' :: rest => (unescape rest).map fun read => ('"' :: read.1, read.2)
  | '\\' :: '\\' :: rest => (unescape rest).map fun read => ('\\' :: read.1, read.2)
  | c :: rest => if c = '\\' then none else (unescape rest).map fun read => (c :: read.1, read.2)

/-- The name at the start, and what comes after it. -/
def readName (text : List Char) : Option (String × List Char) :=
  match text.takeWhile isNameChar with
  | [] => none
  | c :: name =>
    if c.isDigit then none else some (String.ofList (c :: name), text.dropWhile isNameChar)

/-- The labels up to the closing brace; no text has more of them than characters. -/
def readLabels : Nat → List Char → Option (List (String × String) × List Char)
  | 0, _ => none
  | bound + 1, text =>
    match readName text with
    | some (key, '=' :: '"' :: rest) =>
      match unescape rest with
      | some (value, ',' :: rest) =>
        (readLabels bound rest).map fun read => ((key, String.ofList value) :: read.1, read.2)
      | some (value, '}' :: rest) => some ([(key, String.ofList value)], rest)
      | _ => none
    | _ => none

def readSample (line : List Char) : Option Sample :=
  (readName line).bind fun (name, rest) =>
    let labelled := match rest with
      | '{' :: rest => readLabels rest.length rest
      | rest => some ([], rest)
    match labelled with
    | some (labels, ' ' :: value) =>
      if (number value).isSome then some ⟨name, labels, String.ofList value⟩ else none
    | _ => none

def readNamed (text : List Char) : Option (String × List Char) :=
  match readName text with
  | some (name, ' ' :: rest) => some (name, rest)
  | _ => none

def readKind (text : List Char) : Option Kind :=
  [Kind.counter, .gauge, .histogram].find? fun kind => kind.text.toList = text

def readLine (line : List Char) : Option Line :=
  match stripPrefix helpMark line with
  | some rest => (readNamed rest).map fun read => .help read.1 (String.ofList read.2)
  | none =>
    match stripPrefix typeMark line with
    | some rest => (readNamed rest).bind fun read => (readKind read.2).map (.type read.1)
    | none => (readSample line).map .sample

/-- The families that are complete, the one that samples still go to, and a family that so far
has only its help. -/
structure Gathering where
  families : List Family
  current : Option Family
  announced : Option (String × String)

def Gathering.all (g : Gathering) : List Family := g.families ++ g.current.toList

def gather (g : Gathering) : Line → Option Gathering
  | .help name text =>
    if g.announced = none ∧ name ∉ g.all.map Family.name then
      some ⟨g.all, none, some (name, text)⟩ else none
  | .type name kind =>
    match g.announced with
    | some (name', text) =>
      if name' = name then some ⟨g.families, some ⟨name, text, kind, []⟩, none⟩ else none
    | none => none
  | .sample s =>
    match g.current with
    | some f =>
      if s.name ∈ f.kind.names f.name ∧
        s.series ∉ (g.all.flatMap Family.samples).map Sample.series then
        some { g with current := some { f with samples := f.samples ++ [s] } }
      else none
    | none => none

def readLines (text : List Char) : Option (List Line) :=
  let pieces := text.splitOn '\n'
  if pieces.getLast? = some [] then pieces.dropLast.mapM readLine else none

def read (text : List Char) : Option (List Family) := do
  let lines ← readLines text
  let g ← lines.foldlM gather ⟨[], none, none⟩
  if g.announced = none then some g.all else none

end Reading

section Soundness

/-- A name starts with no digit. -/
def NameSound (name : String) : Prop :=
  (∃ c rest, name.toList = c :: rest ∧ c.isDigit = false) ∧ ∀ c ∈ name.toList, isNameChar c = true

theorem nameSound_ofList {cs : List Char}
    (h : (cs.head?.any fun c => !c.isDigit) ∧ cs.all isNameChar) :
    NameSound (String.ofList cs) := by
  obtain ⟨hhead, hall⟩ := h
  refine ⟨?_, ?_⟩
  · rw [String.toList_ofList]
    cases cs with
    | nil => cases hhead
    | cons c rest => exact ⟨c, rest, rfl, by simpa using hhead⟩
  · rw [String.toList_ofList]
    exact List.all_eq_true.mp hall

theorem newline_not_mem_ofList {cs : List Char} (h : cs.all (· ≠ '\n') = true) :
    '\n' ∉ (String.ofList cs).toList := by
  rw [String.toList_ofList]
  intro hmem
  exact of_decide_eq_true (List.all_eq_true.mp h _ hmem) rfl

structure Sample.Sound (s : Sample) : Prop where
  name : NameSound s.name
  labels : ∀ label ∈ s.labels, NameSound label.1
  value : (number s.value.toList).isSome = true

structure Family.Sound (f : Family) : Prop where
  name : NameSound f.name
  help : '\n' ∉ f.help.toList
  samples : ∀ s ∈ f.samples, s.Sound ∧ s.name ∈ f.kind.names f.name

end Soundness

section Labels

theorem unescape_char (c : Char) (rest : List Char) :
    unescape (escape c ++ rest) = (unescape rest).map fun read => (c :: read.1, read.2) := by
  unfold escape
  split_ifs with hback hquote hfeed
  · subst hback
    rfl
  · subst hquote
    rfl
  · subst hfeed
    rfl
  · rw [List.singleton_append, unescape.eq_def]
    split <;> simp_all

theorem unescape_escape (value rest : List Char) :
    unescape (value.flatMap escape ++ '"' :: rest) = some (value, rest) := by
  induction value with
  | nil => rfl
  | cons c value ih =>
    rw [List.flatMap_cons, List.append_assoc, unescape_char, ih]
    rfl

def Stops (rest : List Char) : Prop := ∀ c ∈ rest.head?, isNameChar c = false

theorem name_span {name : String} (h : NameSound name) {rest : List Char} (hrest : Stops rest) :
    (name.toList ++ rest).takeWhile isNameChar = name.toList ∧
    (name.toList ++ rest).dropWhile isNameChar = rest := by
  have htake : rest.takeWhile isNameChar = [] := by
    cases rest with
    | nil => rfl
    | cons c rest =>
      exact List.takeWhile_cons_of_neg (by rw [hrest c rfl]; exact Bool.false_ne_true)
  have hdrop : rest.dropWhile isNameChar = rest := by
    cases rest with
    | nil => rfl
    | cons c rest =>
      exact List.dropWhile_cons_of_neg (by rw [hrest c rfl]; exact Bool.false_ne_true)
  rw [List.takeWhile_append_of_pos h.2, List.dropWhile_append_of_pos h.2, htake, hdrop,
    List.append_nil]
  exact ⟨rfl, rfl⟩

theorem readName_text {name : String} (h : NameSound name) {rest : List Char} (hrest : Stops rest) :
    readName (name.toList ++ rest) = some (name, rest) := by
  obtain ⟨htake, hdrop⟩ := name_span h hrest
  obtain ⟨c, cs, hname, hdigit⟩ := h.1
  unfold readName
  rw [htake, hdrop, hname]
  dsimp only
  rw [if_neg (by rw [hdigit]; exact Bool.false_ne_true), ← hname, String.ofList_toList]

theorem readLabels_text {labels : List (String × String)} (hne : labels ≠ [])
    (hsound : ∀ label ∈ labels, NameSound label.1) {bound : ℕ} (hbound : labels.length ≤ bound)
      (rest : List Char) :
    readLabels bound ([','].intercalate (labels.map labelText) ++ '}' :: rest) =
      some (labels, rest) := by
  induction labels generalizing bound with
  | nil => exact absurd rfl hne
  | cons label labels ih =>
    cases bound with
    | zero => exact absurd hbound (by simp)
    | succ bound =>
      have hkey := hsound label List.mem_cons_self
      have hspan (after : List Char) :=
        @readName_text label.1 hkey ('=' :: '"' :: after) (by simp [Stops]; decide)
      cases labels with
      | nil =>
        rw [List.map_cons, List.map_nil, List.intercalate_singleton]
        unfold labelText readLabels
        simp only [List.append_assoc, List.cons_append, List.nil_append, hspan, unescape_escape,
          String.ofList_toList]
      | cons next labels =>
        have hlater := ih (by simp) (fun l hl => hsound l (List.mem_cons_of_mem _ hl))
          (Nat.le_of_succ_le_succ hbound)
        rw [List.map_cons, List.map_cons, List.intercalate_cons_cons, ← List.map_cons]
        rw [labelText, readLabels]
        simp only [List.append_assoc, List.cons_append, List.nil_append, hspan, unescape_escape,
          hlater, String.ofList_toList, Option.map_some]

end Labels

section Lines

theorem labelText_length (label : String × String) : 0 < (labelText label).length := by
  unfold labelText
  rw [List.length_append, List.length_cons]
  omega

theorem labels_length (labels : List (String × String)) :
    labels.length ≤ ([','].intercalate (labels.map labelText)).length := by
  induction labels with
  | nil => exact Nat.zero_le _
  | cons label labels ih =>
    have hpos := labelText_length label
    cases labels with
    | nil =>
      rw [List.map_cons, List.map_nil, List.intercalate_singleton]
      exact hpos
    | cons next labels =>
      rw [List.map_cons, List.map_cons, List.intercalate_cons_cons, ← List.map_cons,
        List.length_append, List.length_append]
      simp only [List.length_cons] at ih ⊢
      omega

theorem readSample_text {s : Sample} (h : s.Sound) : readSample (Line.sample s).text = some s := by
  obtain ⟨name, labels, value⟩ := s
  obtain ⟨hname, hlabels, hvalue⟩ := h
  dsimp only at hname hlabels hvalue
  unfold readSample Line.text
  cases labels with
  | nil =>
    have hread := @readName_text name hname (' ' :: value.toList) (by simp [Stops]; decide)
    simp only [labelsText, List.nil_append, hread, Option.bind_some]
    show (if (number value.toList).isSome then some _ else none) = _
    rw [if_pos hvalue, String.ofList_toList]
  | cons label labels =>
    have hread := @readName_text name hname (labelsText (label :: labels) ++ ' ' :: value.toList)
      (by simp [Stops, labelsText]; decide)
    rw [hread, Option.bind_some]
    unfold labelsText
    have hbound : (label :: labels).length ≤
        ([','].intercalate ((label :: labels).map labelText) ++ '}' :: ' ' ::
        value.toList).length := by
      have hlength := labels_length (label :: labels)
      rw [List.length_append]
      omega
    have hlabelled :=
      readLabels_text (List.cons_ne_nil label labels) hlabels hbound (' ' :: value.toList)
    simp only [List.cons_append, List.append_assoc, List.nil_append, hlabelled, if_pos hvalue,
      String.ofList_toList]

theorem readNamed_text {name : String} (h : NameSound name) (text : List Char) :
    readNamed (name.toList ++ ' ' :: text) = some (name, text) := by
  have hread := @readName_text name h (' ' :: text) (by simp [Stops]; decide)
  unfold readNamed
  rw [hread]
  rfl

theorem readKind_text (kind : Kind) : readKind kind.text.toList = some kind := by
  cases kind <;> decide

def Line.Sound : Line → Prop
  | help name text => NameSound name ∧ '\n' ∉ text.toList
  | type name _ => NameSound name
  | sample s => s.Sound

theorem stripPrefix_head {c d : Char} (h : c ≠ d) (lead rest : List Char) :
    stripPrefix (c :: lead) (d :: rest) = none := by
  unfold stripPrefix
  rw [if_neg]
  intro hprefix
  exact h (List.cons_prefix_cons.mp (List.isPrefixOf_iff_prefix.mp hprefix)).1

theorem readLine_text {line : Line} (h : line.Sound) : readLine line.text = some line := by
  unfold readLine
  cases line with
  | help name text =>
    rw [Line.text, stripPrefix_append]
    simp only [readNamed_text h.1, Option.map_some, String.ofList_toList]
  | type name kind =>
    have hnone : stripPrefix helpMark (Line.type name kind).text = none := by
      unfold stripPrefix Line.text helpMark typeMark
      rw [if_neg (by simp)]
    rw [hnone, Line.text, stripPrefix_append]
    simp only [readNamed_text h, readKind_text, Option.bind_some, Option.map_some]
  | sample s =>
    -- a name does not start with the sign of a comment
    obtain ⟨c, rest, hname, -⟩ := h.name.1
    have hc : '#' ≠ c := by
      rintro rfl
      exact absurd (h.name.2 '#' (by rw [hname]; exact List.mem_cons_self)) (by decide)
    have htext :
        (Line.sample s).text = c :: (rest ++ (labelsText s.labels ++ ' ' :: s.value.toList)) := by
      rw [Line.text, hname, List.cons_append]
    rw [htext, helpMark, typeMark, stripPrefix_head hc, stripPrefix_head hc, ← htext]
    simp only [readSample_text h, Option.map_some]

theorem isNameChar_newline : isNameChar '\n' = false := by decide

theorem newline_not_mem_name {name : String} (h : NameSound name) : '\n' ∉ name.toList := by
  intro hmem
  exact absurd (h.2 '\n' hmem) (by rw [isNameChar_newline]; exact Bool.false_ne_true)

theorem newline_not_mem_escape (c : Char) : '\n' ∉ escape c := by
  unfold escape
  split_ifs with hback hquote hfeed
  · decide
  · decide
  · decide
  · rw [List.mem_singleton]
    exact fun heq => hfeed heq.symm

theorem not_mem_intercalate {α : Type} {a : α} {sep : List α} (hsep : a ∉ sep)
    {pieces : List (List α)} (h : ∀ piece ∈ pieces, a ∉ piece) : a ∉ sep.intercalate pieces := by
  induction pieces with
  | nil => exact List.not_mem_nil
  | cons piece pieces ih =>
    have hpiece := h piece List.mem_cons_self
    have hrest := ih fun other hother => h other (List.mem_cons_of_mem _ hother)
    cases pieces with
    | nil => rwa [List.intercalate_singleton]
    | cons next pieces =>
      rw [List.intercalate_cons_cons]
      simp only [List.mem_append, not_or]
      exact ⟨⟨hpiece, hsep⟩, hrest⟩

theorem newline_not_mem_labels {labels : List (String × String)}
    (h : ∀ label ∈ labels, NameSound label.1) :
    '\n' ∉ labelsText labels := by
  have hlabel : ∀ label ∈ labels, '\n' ∉ labelText label := by
    intro label hmem
    unfold labelText
    simp only [List.mem_append, List.mem_cons, List.mem_flatMap, not_or, List.not_mem_nil]
    exact ⟨newline_not_mem_name (h label hmem), by decide, by decide,
      fun ⟨c, _, hc⟩ => newline_not_mem_escape c hc, by decide, not_false⟩
  have hbody : '\n' ∉ [','].intercalate (labels.map labelText) := by
    apply not_mem_intercalate (by decide)
    intro piece hpiece
    obtain ⟨label, hmem, rfl⟩ := List.mem_map.mp hpiece
    exact hlabel label hmem
  cases labels with
  | nil => exact List.not_mem_nil
  | cons label labels =>
    unfold labelsText
    simp only [List.mem_append, List.mem_cons, not_or, List.not_mem_nil]
    exact ⟨by decide, hbody, by decide, not_false⟩

theorem newline_not_mem_text {line : Line} (h : line.Sound) : '\n' ∉ line.text := by
  have hhelp : '\n' ∉ helpMark := by decide
  have htype : '\n' ∉ typeMark := by decide
  unfold Line.text
  cases line with
  | help name text =>
    simp only [List.mem_append, List.mem_cons, not_or]
    exact ⟨hhelp, newline_not_mem_name h.1, by decide, h.2⟩
  | type name kind =>
    have hkind : '\n' ∉ kind.text.toList := by cases kind <;> decide
    simp only [List.mem_append, List.mem_cons, not_or]
    exact ⟨htype, newline_not_mem_name h, by decide, hkind⟩
  | sample s =>
    simp only [List.mem_append, List.mem_cons, not_or]
    exact ⟨newline_not_mem_name h.name, newline_not_mem_labels
      h.labels, by decide, newline_not_mem_number h.value⟩

theorem splitOn_lines {pieces : List (List Char)} (h : ∀ piece ∈ pieces, '\n' ∉ piece) :
    (pieces.flatMap (· ++ ['\n'])).splitOn '\n' = pieces ++ [[]] := by
  induction pieces with
  | nil => rfl
  | cons piece pieces ih =>
    rw [List.flatMap_cons, List.append_assoc, List.singleton_append,
      List.splitOn_append_cons_self_of_not_mem (h piece List.mem_cons_self),
      ih fun other hother => h other (List.mem_cons_of_mem _ hother), List.cons_append]

theorem mapM_readLine {lines : List Line} (h : ∀ line ∈ lines, line.Sound) :
    (lines.map Line.text).mapM readLine = some lines := by
  induction lines with
  | nil => rfl
  | cons line lines ih =>
    rw [List.map_cons, List.mapM_cons, readLine_text (h line List.mem_cons_self),
      ih fun other hother => h other (List.mem_cons_of_mem _ hother)]
    rfl

theorem readLines_writeLines {lines : List Line} (h : ∀ line ∈ lines, line.Sound) :
    readLines (writeLines lines) = some lines := by
  have hwrite : writeLines lines = (lines.map Line.text).flatMap (· ++ ['\n']) := by
    rw [List.flatMap_map]
    rfl
  have hsplit : (writeLines lines).splitOn '\n' = lines.map Line.text ++ [[]] := by
    rw [hwrite]
    apply splitOn_lines
    intro piece hpiece
    obtain ⟨line, hline, rfl⟩ := List.mem_map.mp hpiece
    exact newline_not_mem_text (h line hline)
  unfold readLines
  rw [hsplit]
  dsimp only
  rw [List.getLast?_append, List.dropLast_concat]
  exact (if_pos rfl).trans (mapM_readLine h)

end Lines

section Families

theorem gather_samples (families : List Family) (f : Family) {samples : List Sample}
    (h : ∀ s ∈ samples, s.name ∈ f.kind.names f.name)
    (hnodup : (((families ++ [f]).flatMap Family.samples ++ samples).map Sample.series).Nodup) :
    (samples.map Line.sample).foldlM gather ⟨families, some f, none⟩ =
      some ⟨families, some { f with samples := f.samples ++ samples }, none⟩ := by
  induction samples generalizing f with
  | nil =>
    rw [List.append_nil]
    rfl
  | cons s samples ih =>
    have hnew : s.series ∉ ((families ++ [f]).flatMap Family.samples).map Sample.series := by
      rw [List.map_append, List.nodup_append] at hnodup
      exact fun hmem => hnodup.2.2 _ hmem s.series List.mem_cons_self rfl
    have hfirst : gather ⟨families, some f, none⟩ (.sample s) =
        some ⟨families, some { f with samples := f.samples ++ [s] }, none⟩ :=
      if_pos ⟨h s List.mem_cons_self, hnew⟩
    have hrest :=
      ih { f with samples := f.samples ++ [s] }
        (fun other hother => h other (List.mem_cons_of_mem _ hother))
      (by
        rw [List.flatMap_append, List.flatMap_singleton, List.append_assoc, List.append_assoc,
          List.singleton_append]
        rwa [List.flatMap_append, List.flatMap_singleton, List.append_assoc] at hnodup)
    rw [List.append_assoc, List.singleton_append] at hrest
    rw [List.map_cons, List.foldlM_cons, hfirst, Option.bind_eq_bind, Option.bind_some]
    exact hrest

theorem gather_family {g : Gathering} {f : Family} (hopen : g.announced = none) (hsound : f.Sound)
    (hnew : f.name ∉ g.all.map Family.name)
    (hnodup : (((g.all ++ [f]).flatMap Family.samples).map Sample.series).Nodup) :
    f.lines.foldlM gather g = some ⟨g.all, some f, none⟩ := by
  have hhelp : gather g (.help f.name f.help) = some ⟨g.all, none, some (f.name, f.help)⟩ :=
    if_pos ⟨hopen, hnew⟩
  have htype : gather ⟨g.all, none, some (f.name, f.help)⟩ (.type f.name f.kind) =
      some ⟨g.all, some ⟨f.name, f.help, f.kind, []⟩, none⟩ := if_pos rfl
  unfold Family.lines
  rw [List.foldlM_cons, hhelp, Option.bind_eq_bind, Option.bind_some, List.foldlM_cons, htype,
    Option.bind_eq_bind, Option.bind_some]
  refine gather_samples g.all ⟨f.name, f.help, f.kind, []⟩ (fun s hs => (hsound.samples s hs).2) ?_
  rw [List.flatMap_append, List.flatMap_singleton] at hnodup ⊢
  rwa [List.append_nil]

theorem gather_families {families : List Family} (hsound : ∀ f ∈ families, f.Sound) {g : Gathering}
    (hopen : g.announced = none) (hnodup : ((g.all ++ families).map Family.name).Nodup)
    (hseries : (((g.all ++ families).flatMap Family.samples).map Sample.series).Nodup) :
    ∃ g', (families.flatMap Family.lines).foldlM gather g = some g' ∧ g'.announced = none ∧
      g'.all = g.all ++ families := by
  induction families generalizing g with
  | nil => exact ⟨g, rfl, hopen, (List.append_nil _).symm⟩
  | cons f families ih =>
    have hnew : f.name ∉ g.all.map Family.name := by
      rw [List.map_append, List.nodup_append] at hnodup
      exact fun hmem => hnodup.2.2 _ hmem f.name (by simp) rfl
    have hsplit : g.all ++ f :: families = (g.all ++ [f]) ++ families := by
      rw [List.append_assoc, List.singleton_append]
    have hfirst : (((g.all ++ [f]).flatMap Family.samples).map Sample.series).Nodup := by
      rw [hsplit, List.flatMap_append, List.map_append] at hseries
      exact (List.nodup_append.mp hseries).1
    have hfamily := gather_family hopen (hsound f List.mem_cons_self) hnew hfirst
    have hall : (⟨g.all, some f, none⟩ : Gathering).all = g.all ++ [f] := rfl
    obtain ⟨g', hrun, hclosed, hend⟩ :=
      @ih (fun other hother => hsound other (List.mem_cons_of_mem _ hother))
        ⟨g.all, some f, none⟩ rfl
        (by rwa [hall, ← hsplit]) (by rwa [hall, ← hsplit])
    refine ⟨g', ?_, hclosed, by rw [hend, hall, hsplit]⟩
    rw [List.flatMap_cons, List.foldlM_append, hfamily, Option.bind_eq_bind, Option.bind_some, hrun]

theorem sound_lines {f : Family} (h : f.Sound) : ∀ line ∈ f.lines, line.Sound := by
  intro line hline
  unfold Family.lines at hline
  simp only [List.mem_cons, List.mem_map] at hline
  rcases hline with rfl | rfl | ⟨s, hs, rfl⟩
  · exact ⟨h.name, h.help⟩
  · exact h.name
  · exact (h.samples s hs).1

/-- A page of sound families with different names and different series is read back. -/
theorem read_write {families : List Family} (hsound : ∀ f ∈ families, f.Sound)
    (hnodup : (families.map Family.name).Nodup)
    (hseries : ((families.flatMap Family.samples).map Sample.series).Nodup) :
    read (write families) = some families := by
  have hlines : ∀ line ∈ families.flatMap Family.lines, line.Sound := by
    intro line hline
    obtain ⟨f, hf, hmem⟩ := List.mem_flatMap.mp hline
    exact sound_lines (hsound f hf) line hmem
  obtain ⟨g, hrun, hclosed, hall⟩ :=
    @gather_families families hsound ⟨[], none, none⟩ rfl hnodup hseries
  unfold read write
  rw [readLines_writeLines hlines, Option.bind_eq_bind, Option.bind_some, hrun, Option.bind_eq_bind,
    Option.bind_some, if_pos hclosed, hall]
  rfl

/-- Series differ where those of each family do and no two families share a name of a sample. -/
theorem series_nodup {families : List Family} (hsound : ∀ f ∈ families, f.Sound)
    (hnames : (families.flatMap fun f => f.kind.names f.name).Nodup)
    (heach : ∀ f ∈ families, (f.samples.map Sample.series).Nodup) :
    ((families.flatMap Family.samples).map Sample.series).Nodup := by
  rw [List.map_flatMap, List.nodup_flatMap]
  refine ⟨heach, (List.nodup_flatMap.mp hnames).2.imp_of_mem fun hf hf' hdisjoint => ?_⟩
  intro series hseries hseries'
  obtain ⟨s, hs, rfl⟩ := List.mem_map.mp hseries
  obtain ⟨s', hs', hsame⟩ := List.mem_map.mp hseries'
  have hname : s'.name = s.name := congrArg Prod.fst hsame
  exact hdisjoint ((hsound _ hf).samples s hs).2 (hname ▸ ((hsound _ hf').samples s' hs').2)

end Families

section Lookup

def Family.value (f : Family) (series : String × List (String × String)) : Option String :=
  (f.samples.find? fun s => s.series = series).map Sample.value

def lookup (families : List Family) (family : String) (series : String × List (String × String)) :
    Option String :=
  (families.find? fun f => f.name = family).bind fun f => f.value series

theorem find?_key {α κ : Type} [DecidableEq κ] {key : α → κ} {xs : List α}
    (hnodup : (xs.map key).Nodup) {x : α} (hx : x ∈ xs) :
    (xs.find? fun y => key y = key x) = some x := by
  induction xs with
  | nil => exact absurd hx List.not_mem_nil
  | cons y xs ih =>
    rw [List.map_cons, List.nodup_cons] at hnodup
    rcases List.mem_cons.mp hx with rfl | hx
    · exact List.find?_cons_of_pos (decide_eq_true rfl)
    · have hne : key y ≠ key x := fun heq => hnodup.1 (heq ▸ List.mem_map_of_mem hx)
      rw [List.find?_cons_of_neg (by rw [decide_eq_true_iff]; exact hne), ih hnodup.2 hx]

theorem value_of_mem {f : Family} (hnodup : (f.samples.map Sample.series).Nodup) {s : Sample}
    (hs : s ∈ f.samples) :
    f.value s.series = some s.value := by
  unfold Family.value
  rw [find?_key hnodup hs, Option.map_some]

theorem lookup_of_mem {families : List Family} (hnodup : (families.map Family.name).Nodup)
    {f : Family} (hf : f ∈ families) (series : String × List (String × String)) :
    lookup families f.name series = f.value series := by
  unfold lookup
  rw [find?_key hnodup hf, Option.bind_some]

end Lookup

end Lobster.Exposition
