import LobsterProxy.Base.Utf8

/-! Server-sent events as a client reads them: lines, their fields, and the messages that
blank lines dispatch. A stream written block by block is read block by block. -/

namespace Lobster.Sse
open Emitter

structure Message where
  event : List Char
  data : List Char
  lastEventId : List Char
  deriving DecidableEq, Repr

/-- What is gathered until the next blank line. -/
structure Buffers where
  event : List Char
  data : List Char
  lastEventId : List Char

def Buffers.fresh : Buffers := ⟨[], [], []⟩

/-- The lines that have ended, by a line feed, a carriage return or both; `cr` tells that a
carriage return has just ended one. -/
def linesFrom : Bool → List Char → List Char → List (List Char)
  | _, _, [] => []
  | cr, line, c :: rest =>
    if c = '\n' then if cr then linesFrom false [] rest else line :: linesFrom false [] rest
    else if c = '\r' then line :: linesFrom true [] rest
    else linesFrom false (line ++ [c]) rest

def byteOrderMark : Char := Char.ofNat 0xFEFF

def lines (text : List Char) : List (List Char) :=
  linesFrom false [] (if text.head? = some byteOrderMark then text.tail else text)

/-- The name before the first colon, and the value after it without the space that leads it. -/
def splitField (line : List Char) : List Char × List Char :=
  let value := (line.dropWhile fun c => c ≠ ':').tail
  (line.takeWhile fun c => c ≠ ':', if value.head? = some ' ' then value.tail else value)

def Buffers.take (name value : List Char) (b : Buffers) : Buffers :=
  if name = "event".toList then { b with event := value }
  else if name = "data".toList then { b with data := b.data ++ value ++ ['\n'] }
  else if name = "id".toList then if Char.ofNat 0 ∈ value then
    b else { b with lastEventId := value }
  -- `retry` sets the reconnection time alone; no other field is known
  else b

def dispatch : Emitter Buffers Message := fun b =>
  ({ b with event := [], data := [] },
    if b.data = [] then []
    else [⟨if b.event = [] then "message".toList else b.event, b.data.dropLast, b.lastEventId⟩])

def readLine (line : List Char) : Emitter Buffers Message :=
  if line = [] then dispatch
  else if line.head? = some ':' then silent id
  else silent (Buffers.take (splitField line).1 (splitField line).2)

def parse (text : List Char) : List Message := (forEach readLine (lines text) .fresh).2

def read (bytes : List UInt8) : List Message := parse (Text.fromUtf8Lossy bytes)

inductive Block where
  | event (name : Option (List Char)) (data : List Char)
  | comment (text : List Char)

def OneLine (text : List Char) : Prop := ∀ c ∈ text, c ≠ '\n' ∧ c ≠ '\r'

instance (text : List Char) : Decidable (OneLine text) := List.decidableBAll _ text

namespace Block

def lines : Block → List (List Char)
  | event name data => name.toList.map ("event: ".toList ++ ·) ++ ["data: ".toList ++ data, []]
  | comment text => [':' :: text, []]

def text (b : Block) : List Char := b.lines.flatMap (· ++ ['\n'])

def message? : Block → Option Message
  | event name data => some ⟨name.getD "message".toList, data, []⟩
  | comment _ => none

def Sound : Block → Prop
  | event name data => (∀ n ∈ name, n ≠ [] ∧ OneLine n) ∧ OneLine data
  | comment text => OneLine text

end Block

theorem oneLine_append {xs ys : List Char} (hx : OneLine xs) (hy : OneLine ys) :
    OneLine (xs ++ ys) := by
  intro c hc
  rcases List.mem_append.mp hc with hc | hc
  · exact hx c hc
  · exact hy c hc

theorem linesFrom_line {line : List Char} (h : OneLine line) (read rest : List Char) :
    linesFrom false read (line ++ '\n' :: rest) = (read ++ line) :: linesFrom false [] rest := by
  induction line generalizing read with
  | nil => simp [linesFrom]
  | cons c line ih =>
    obtain ⟨hfeed, hreturn⟩ := h c List.mem_cons_self
    have hrest := ih (fun d hd => h d (List.mem_cons_of_mem _ hd)) (read ++ [c])
    rw [List.cons_append, linesFrom, if_neg hfeed, if_neg hreturn, hrest]
    simp

theorem linesFrom_lines {written : List (List Char)} (h : ∀ line ∈ written, OneLine line) :
    linesFrom false [] (written.flatMap (· ++ ['\n'])) = written := by
  induction written with
  | nil => rfl
  | cons line written ih =>
    have hline := linesFrom_line (h line List.mem_cons_self) [] (written.flatMap (· ++ ['\n']))
    have hrest := ih fun other hother => h other (List.mem_cons_of_mem _ hother)
    rw [List.flatMap_cons, List.append_assoc, List.singleton_append, hline, hrest]
    rfl

theorem Block.Sound.oneLine {b : Block} (h : b.Sound) : ∀ line ∈ b.lines, OneLine line := by
  have hblank : OneLine [] := List.forall_mem_nil _
  intro line hline
  cases b with
  | comment text =>
    simp only [Block.lines, List.mem_cons, List.not_mem_nil, or_false] at hline
    rcases hline with rfl | rfl
    · exact @oneLine_append [':'] text (by decide) h
    · exact hblank
  | event name data =>
    obtain ⟨hname, hdata⟩ := h
    simp only [Block.lines, List.mem_append, List.mem_map, Option.mem_toList, List.mem_cons,
      List.not_mem_nil, or_false] at hline
    rcases hline with ⟨n, hn, rfl⟩ | rfl | rfl
    · exact oneLine_append (by decide) (hname n hn).2
    · exact oneLine_append (by decide) hdata
    · exact hblank

theorem readLine_field {name line : List Char} (hname : ':' ∉ name) (hne : name ≠ [])
    (value : List Char) (hline : line = name ++ ':' :: ' ' :: value) :
    readLine line = silent (Buffers.take name value) := by
  subst hline
  have hfirst : (name ++ ':' :: ' ' :: value).head? ≠ some ':' := by
    obtain ⟨c, rest, rfl⟩ := List.exists_cons_of_ne_nil hne
    have hc : c ≠ ':' := fun heq => hname (heq ▸ List.mem_cons_self)
    simpa using hc
  have hall : ∀ c ∈ name, decide (c ≠ ':') = true :=
    fun c hc => decide_eq_true fun heq => hname (heq ▸ hc)
  have hsplit : splitField (name ++ ':' :: ' ' :: value) = (name, value) := by
    unfold splitField
    rw [List.takeWhile_append_of_pos hall, List.dropWhile_append_of_pos hall]
    simp
  unfold readLine
  rw [if_neg (by simp), if_neg hfirst, hsplit]

theorem readLine_blank : readLine [] = dispatch := if_pos rfl

theorem readLine_comment (text : List Char) : readLine (':' :: text) = silent id := by
  unfold readLine
  rw [if_neg (List.cons_ne_nil _ _)]
  exact if_pos rfl

/-- A block is read as its message, and nothing of it stays behind. -/
theorem readLines_block {b : Block} (h : b.Sound) :
    forEach readLine b.lines .fresh = (.fresh, b.message?.toList) := by
  have hdata (data : List Char) : readLine ("data: ".toList ++ data) =
      silent (Buffers.take "data".toList data) :=
    readLine_field (by decide) (by decide) data rfl
  have hevent (name : List Char) : readLine ("event: ".toList ++ name) =
      silent (Buffers.take "event".toList name) :=
    readLine_field (by decide) (by decide) name rfl
  cases b with
  | comment text =>
    simp only [Block.lines, forEach, readLine_comment, readLine_blank]
    rfl
  | event name data =>
    cases name with
    | none =>
      simp only [Block.lines, Option.toList_none, List.map_nil, List.nil_append, forEach, hdata,
        readLine_blank]
      simp [andThen, silent, Buffers.take, dispatch, Buffers.fresh, Block.message?]
    | some name =>
      have hname : name ≠ [] := (h.1 name rfl).1
      simp only [Block.lines, Option.toList_some, List.map_cons, List.map_nil,
        List.singleton_append, forEach, hdata, hevent, readLine_blank]
      simp [andThen, silent, Buffers.take, dispatch, Buffers.fresh, Block.message?, hname]

theorem head?_text (b : Block) (rest : List Char) :
    (b.text ++ rest).head? ≠ some byteOrderMark := by
  have hhead : ∃ c, (b.text ++ rest).head? = some c ∧ c ≠ byteOrderMark := by
    cases b with
    | comment text => exact ⟨':', rfl, by decide⟩
    | event name data =>
      cases name with
      | none => exact ⟨'d', rfl, by decide⟩
      | some name => exact ⟨'e', rfl, by decide⟩
  obtain ⟨c, hc, hne⟩ := hhead
  rw [hc]
  exact fun h => hne (Option.some.inj h)

/-- The blocks of a text are read back, the comments passed over. -/
theorem parse_blocks {bs : List Block} (h : ∀ b ∈ bs, b.Sound) :
    parse (bs.flatMap Block.text) = bs.filterMap Block.message? := by
  have hmark : (bs.flatMap Block.text).head? ≠ some byteOrderMark := by
    cases bs with
    | nil => simp
    | cons b bs =>
      rw [List.flatMap_cons]
      exact head?_text b _
  have hlines : lines (bs.flatMap Block.text) = bs.flatMap Block.lines := by
    have htext : bs.flatMap Block.text = (bs.flatMap Block.lines).flatMap (· ++ ['\n']) := by
      rw [List.flatMap_assoc]
      rfl
    unfold lines
    rw [if_neg hmark, htext]
    apply linesFrom_lines
    intro line hline
    obtain ⟨b, hb, hline⟩ := List.mem_flatMap.mp hline
    exact (h b hb).oneLine line hline
  have hread : forEach readLine (bs.flatMap Block.lines) .fresh =
      (.fresh, bs.filterMap Block.message?) := by
    clear hmark hlines
    induction bs with
    | nil => rfl
    | cons b bs ih =>
      have hfirst := readLines_block (h b List.mem_cons_self)
      have hrest := ih fun other hother => h other (List.mem_cons_of_mem _ hother)
      rw [List.flatMap_cons, forEach_append]
      simp only [andThen, hfirst, hrest]
      cases hmessage : b.message? <;> simp [hmessage]
  unfold parse
  rw [hlines, hread]

theorem read_blocks {bs : List Block} (h : ∀ b ∈ bs, b.Sound) :
    read (Text.toUtf8 (bs.flatMap Block.text)) = bs.filterMap Block.message? := by
  unfold read
  rw [Text.fromUtf8Lossy_toUtf8, parse_blocks h]

end Lobster.Sse
