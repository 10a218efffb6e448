import Mathlib.Data.List.Basic
import Mathlib.Data.String.Basic

/-! Documents of arrays and objects, and their texts. What stands at the leaves and how it is
written is left open: a leaf that is read back from its text in front of a delimiter makes
every text readable. -/

namespace Lobster.JsonText

inductive Doc (σ : Type) where
  | leaf (s : σ)
  | arr (items : List (Doc σ))
  | obj (fields : List (String × Doc σ))

structure Writer (σ : Type) where
  leaf : σ → List Char
  key : String → List Char

/-- Leaves and keys at the start of a text, and what follows them. -/
structure Reader (τ : Type) where
  leaf : List Char → Option (τ × List Char)
  key : List Char → Option (String × List Char)

def Reader.map {σ τ : Type} (reader : Reader σ) (f : σ → τ) : Reader τ where
  leaf text := (reader.leaf text).map fun (s, rest) => (f s, rest)
  key := reader.key

section Print
variable {σ : Type} (writer : Writer σ)

mutual

def print : Doc σ → List Char
  | .leaf s => writer.leaf s
  | .arr [] => ['[', ']']
  | .arr (t :: items) => '[' :: (print t ++ printItems items)
  | .obj [] => ['\x7b', '\x7d']
  | .obj ((key, t) :: fields) =>
    '\x7b' :: (writer.key key ++ ':' :: (print t ++ printFields fields))

def printItems : List (Doc σ) → List Char
  | [] => [']']
  | t :: items => ',' :: (print t ++ printItems items)

def printFields : List (String × Doc σ) → List Char
  | [] => ['\x7d']
  | (key, t) :: fields => ',' :: (writer.key key ++ ':' :: (print t ++ printFields fields))

end

def printField (e : String × Doc σ) : List Char := writer.key e.1 ++ ':' :: print writer e.2

theorem append_printItems (first : List Char) (items : List (Doc σ)) :
    first ++ printItems writer items =
      [','].intercalate (first :: items.map (print writer)) ++ [']'] := by
  induction items generalizing first with
  | nil => rw [printItems, List.map_nil, List.intercalate_singleton]
  | cons t items ih => simp [printItems, ih, List.intercalate_cons_cons]

theorem append_printFields (first : List Char) (fields : List (String × Doc σ)) :
    first ++ printFields writer fields =
      [','].intercalate (first :: fields.map (printField writer)) ++ ['\x7d'] := by
  induction fields generalizing first with
  | nil => rw [printFields, List.map_nil, List.intercalate_singleton]
  | cons e fields ih =>
    have hfield : writer.key e.1 ++ ':' :: (print writer e.2 ++ printFields writer fields) =
        printField writer e ++ printFields writer fields := by simp [printField]
    rw [printFields, hfield, ih, List.map_cons, List.intercalate_cons_cons]
    simp

theorem print_arr (items : List (Doc σ)) :
    print writer (.arr items) = '[' :: ([','].intercalate (items.map (print writer)) ++ [']']) := by
  cases items with
  | nil => rfl
  | cons t items => rw [print, append_printItems, List.map_cons]

theorem print_obj (fields : List (String × Doc σ)) :
    print writer (.obj fields) = '\x7b' ::
      ([','].intercalate (fields.map (printField writer)) ++ ['\x7d']) := by
  cases fields with
  | nil => rfl
  | cons e fields =>
    have hfield : writer.key e.1 ++ ':' :: (print writer e.2 ++ printFields writer fields) =
        printField writer e ++ printFields writer fields := by simp [printField]
    rw [print, hfield, append_printFields, List.map_cons]

end Print

section Parse
variable {τ : Type} (reader : Reader τ)

def isSpace (c : Char) : Bool := c = ' ' || c = '\n' || c = '\t' || c = '\r'

def skip (text : List Char) : List Char := text.dropWhile isSpace

def expect (c : Char) (text : List Char) : Option (List Char) :=
  match skip text with
  | d :: rest => if d = c then some rest else none
  | [] => none

def parseKey (text : List Char) : Option (String × List Char) :=
  (reader.key (skip text)).bind fun (key, rest) => (expect ':' rest).map fun rest => (key, rest)

mutual

/-- Each turn takes a character, so that the length of the text is fuel enough. -/
def parse : Nat → List Char → Option (Doc τ × List Char)
  | 0, _ => none
  | fuel + 1, text =>
    match expect '[' text with
    | some rest =>
      match expect ']' rest with
      | some rest => some (.arr [], rest)
      | none =>
        (parse fuel rest).bind fun (t, rest) =>
          (parseItems fuel rest).map fun (items, rest) => (.arr (t :: items), rest)
    | none =>
      match expect '{' text with
      | some rest =>
        match expect '}' rest with
        | some rest => some (.obj [], rest)
        | none =>
          (parseKey reader rest).bind fun (key, rest) => (parse fuel rest).bind fun (t, rest) =>
            (parseFields fuel rest).map fun (fields, rest) => (.obj ((key, t) :: fields), rest)
      | none => (reader.leaf (skip text)).map fun (s, rest) => (.leaf s, rest)

def parseItems : Nat → List Char → Option (List (Doc τ) × List Char)
  | 0, _ => none
  | fuel + 1, text =>
    match expect ',' text with
    | some rest =>
      (parse fuel rest).bind fun (t, rest) =>
        (parseItems fuel rest).map fun (items, rest) => (t :: items, rest)
    | none => (expect ']' text).map fun rest => ([], rest)

def parseFields : Nat → List Char → Option (List (String × Doc τ) × List Char)
  | 0, _ => none
  | fuel + 1, text =>
    match expect ',' text with
    | some rest =>
      (parseKey reader rest).bind fun (key, rest) => (parse fuel rest).bind fun (t, rest) =>
        (parseFields fuel rest).map fun (fields, rest) => ((key, t) :: fields, rest)
    | none => (expect '}' text).map fun rest => ([], rest)

end

def read (text : List Char) : Option (Doc τ) :=
  match parse reader text.length text with
  | some (t, rest) => if (skip rest).isEmpty then some t else none
  | none => none

end Parse

section Map
variable {σ τ : Type} (f : σ → τ)

mutual

def Doc.map : Doc σ → Doc τ
  | .leaf s => .leaf (f s)
  | .arr items => .arr (mapItems items)
  | .obj fields => .obj (mapFields fields)

def mapItems : List (Doc σ) → List (Doc τ)
  | [] => []
  | t :: items => t.map :: mapItems items

def mapFields : List (String × Doc σ) → List (String × Doc τ)
  | [] => []
  | (key, t) :: fields => (key, t.map) :: mapFields fields

end

end Map

section MapLaws
variable {σ τ υ : Type}

mutual

theorem map_id (t : Doc σ) : t.map id = t := by
  cases t with
  | leaf s => rfl
  | arr items => exact congrArg Doc.arr (mapItems_id items)
  | obj fields => exact congrArg Doc.obj (mapFields_id fields)

theorem mapItems_id (items : List (Doc σ)) : mapItems id items = items := by
  cases items with
  | nil => rfl
  | cons t items => rw [mapItems, map_id, mapItems_id]

theorem mapFields_id (fields : List (String × Doc σ)) : mapFields id fields = fields := by
  cases fields with
  | nil => rfl
  | cons e fields => rw [mapFields, map_id, mapFields_id]

end

mutual

theorem map_map (f : σ → τ) (g : τ → υ) (t : Doc σ) : (t.map f).map g = t.map (g ∘ f) := by
  cases t with
  | leaf s => rfl
  | arr items => exact congrArg Doc.arr (mapItems_mapItems f g items)
  | obj fields => exact congrArg Doc.obj (mapFields_mapFields f g fields)

theorem mapItems_mapItems (f : σ → τ) (g : τ → υ) (items : List (Doc σ)) :
    mapItems g (mapItems f items) = mapItems (g ∘ f) items := by
  cases items with
  | nil => rfl
  | cons t items => rw [mapItems, mapItems, mapItems, map_map, mapItems_mapItems]

theorem mapFields_mapFields (f : σ → τ) (g : τ → υ) (fields : List (String × Doc σ)) :
    mapFields g (mapFields f fields) = mapFields (g ∘ f) fields := by
  cases fields with
  | nil => rfl
  | cons e fields => rw [mapFields, mapFields, mapFields, map_map, mapFields_mapFields]

end

theorem mapFields_eq_map (f : σ → τ) (fields : List (String × Doc σ)) :
    mapFields f fields = fields.map fun e => (e.1, e.2.map f) := by
  induction fields with
  | nil => rfl
  | cons e fields ih => rw [mapFields, List.map_cons, ih]

theorem keys_mapFields (f : σ → τ) (fields : List (String × Doc σ)) :
    (mapFields f fields).map Prod.fst = fields.map Prod.fst := by
  rw [mapFields_eq_map, List.map_map]
  rfl

end MapLaws

section RoundTrip
variable {σ τ υ : Type}

/-- A character that a leaf or a key may start with. -/
def Opens (c : Char) : Prop :=
  isSpace c = false ∧ c ≠ '[' ∧ c ≠ '{' ∧ c ≠ ']' ∧ c ≠ '}'

instance (c : Char) : Decidable (Opens c) := inferInstanceAs (Decidable (_ ∧ _))

def Ends (rest : List Char) : Prop := ∀ c ∈ rest.head?, c = ',' ∨ c = ']' ∨ c = '}'

/-- In front of a delimiter, what is written is read, a leaf as its image. -/
structure Reads (reader : Reader τ) (writer : Writer σ) (f : σ → τ) : Prop where
  leaf : ∀ s rest, Ends rest → reader.leaf (writer.leaf s ++ rest) = some (f s, rest)
  key : ∀ key rest, reader.key (writer.key key ++ ':' :: rest) = some (key, ':' :: rest)
  opensLeaf : ∀ s, ∃ c text, writer.leaf s = c :: text ∧ Opens c
  opensKey : ∀ key, ∃ c text, writer.key key = c :: text ∧ Opens c

theorem Reads.map {reader : Reader τ} {writer : Writer σ} {f : σ → τ} (h : Reads reader writer f)
    (g : τ → υ) :
    Reads (reader.map g) writer (g ∘ f) where
  leaf s rest hrest := by
    dsimp only [Reader.map]
    rw [h.leaf s rest hrest]
    rfl
  key := h.key
  opensLeaf := h.opensLeaf
  opensKey := h.opensKey

mutual

def size : Doc σ → Nat
  | .leaf _ => 1
  | .arr items => 1 + sizeItems items
  | .obj fields => 1 + sizeFields fields

def sizeItems : List (Doc σ) → Nat
  | [] => 1
  | t :: items => size t + sizeItems items

def sizeFields : List (String × Doc σ) → Nat
  | [] => 1
  | (_, t) :: fields => size t + sizeFields fields

end

theorem size_pos (t : Doc σ) : 0 < size t := by
  cases t <;> simp [size]

theorem sizeItems_pos (items : List (Doc σ)) : 0 < sizeItems items := by
  cases items with
  | nil => exact Nat.one_pos
  | cons t items => exact Nat.add_pos_left (size_pos t) _

theorem sizeFields_pos (fields : List (String × Doc σ)) : 0 < sizeFields fields := by
  cases fields with
  | nil => exact Nat.one_pos
  | cons e fields => exact Nat.add_pos_left (size_pos e.2) _

theorem skip_cons {c : Char} (h : isSpace c = false) (text : List Char) :
    skip (c :: text) = c :: text := by
  unfold skip
  rw [List.dropWhile_cons_of_neg (by simp [h])]

theorem expect_self {c : Char} (h : isSpace c = false) (rest : List Char) :
    expect c (c :: rest) = some rest := by
  unfold expect
  rw [skip_cons h]
  exact if_pos rfl

theorem expect_ne {c d : Char} (h : isSpace d = false) (hne : d ≠ c) (rest : List Char) :
    expect c (d :: rest) = none := by
  unfold expect
  rw [skip_cons h]
  exact if_neg hne

theorem ends_nil : Ends [] := nofun

theorem ends_printItems (writer : Writer σ) (items : List (Doc σ)) (rest : List Char) :
    Ends (printItems writer items ++ rest) := by
  cases items <;> simp [Ends, printItems]

theorem ends_printFields (writer : Writer σ) (fields : List (String × Doc σ)) (rest : List Char) :
    Ends (printFields writer fields ++ rest) := by
  rcases fields with _ | ⟨⟨key, t⟩, fields⟩ <;> simp [Ends, printFields]

variable {reader : Reader τ} {writer : Writer σ} {f : σ → τ}

theorem parseKey_print (h : Reads reader writer f) (key : String) (rest : List Char) :
    parseKey reader (writer.key key ++ ':' :: rest) = some (key, rest) := by
  obtain ⟨c, text, hkey, hspace, -⟩ := h.opensKey key
  have hskip : skip (writer.key key ++ ':' :: rest) = writer.key key ++ ':' :: rest := by
    rw [hkey, List.cons_append, skip_cons hspace]
  unfold parseKey
  rw [hskip, h.key, Option.bind_some]
  dsimp only
  rw [expect_self (by decide)]
  rfl

/-- A document does not look like the end of an array. -/
theorem expect_print (h : Reads reader writer f) (t : Doc σ) (rest : List Char) :
    expect ']' (print writer t ++ rest) = none := by
  cases t with
  | leaf s =>
    obtain ⟨c, text, hleaf, hspace, -, -, hclose, -⟩ := h.opensLeaf s
    rw [print, hleaf, List.cons_append, expect_ne hspace hclose]
  | arr items => cases items <;> exact expect_ne (by decide) (by decide) _
  | obj fields =>
    rcases fields with _ | ⟨⟨key, t⟩, fields⟩ <;> exact expect_ne (by decide) (by decide) _

theorem expect_key (h : Reads reader writer f) (key : String) (rest : List Char) :
    expect '}' (writer.key key ++ rest) = none := by
  obtain ⟨c, text, hkey, hspace, -, -, -, hclose⟩ := h.opensKey key
  rw [hkey, List.cons_append, expect_ne hspace hclose]

theorem parse_leaf (h : Reads reader writer f) (s : σ) {fuel : Nat} {rest : List Char}
    (hrest : Ends rest) :
    parse reader (fuel + 1) (writer.leaf s ++ rest) = some (.leaf (f s), rest) := by
  have hread := h.leaf s rest hrest
  obtain ⟨c, text, hleaf, hspace, hbracket, hbrace, -⟩ := h.opensLeaf s
  rw [hleaf, List.cons_append] at hread ⊢
  rw [parse, expect_ne hspace hbracket]
  dsimp only
  rw [expect_ne hspace hbrace]
  dsimp only
  rw [skip_cons hspace, hread]
  rfl

mutual

theorem parse_print (h : Reads reader writer f) (t : Doc σ) {fuel : Nat} {rest : List Char}
    (hfuel : size t ≤ fuel) (hrest : Ends rest) :
    parse reader fuel (print writer t ++ rest) = some (t.map f, rest) := by
  obtain ⟨fuel, rfl⟩ :=
    Nat.exists_eq_succ_of_ne_zero (Nat.ne_zero_of_lt ((size_pos t).trans_le hfuel))
  cases t with
  | leaf s => exact parse_leaf h s hrest
  | arr items =>
    cases items with
    | nil =>
      show parse reader (fuel + 1) ('[' :: ']' :: rest) = _
      rw [parse, expect_self (by decide)]
      dsimp only
      rw [expect_self (by decide)]
      rfl
    | cons t items =>
      rw [size, sizeItems] at hfuel
      have hpos := size_pos t
      have hpos' := sizeItems_pos items
      rw [print, List.cons_append, List.append_assoc, parse, expect_self (by decide)]
      dsimp only
      rw [expect_print h]
      dsimp only
      rw [parse_print h t (by omega) (ends_printItems writer items rest), Option.bind_some]
      dsimp only
      rw [parseItems_print h items (by omega)]
      rfl
  | obj fields =>
    rcases fields with _ | ⟨⟨key, t⟩, fields⟩
    · show parse reader (fuel + 1) ('{' :: '}' :: rest) = _
      rw [parse, expect_ne (by decide) (by decide)]
      dsimp only
      rw [expect_self (by decide)]
      dsimp only
      rw [expect_self (by decide)]
      rfl
    · rw [size, sizeFields] at hfuel
      have hpos := size_pos t
      have hpos' := sizeFields_pos fields
      rw [print, List.cons_append, List.append_assoc, List.cons_append, List.append_assoc, parse,
        expect_ne (by decide) (by decide)]
      dsimp only
      rw [expect_self (by decide)]
      dsimp only
      rw [expect_key h]
      dsimp only
      rw [parseKey_print h, Option.bind_some]
      dsimp only
      rw [parse_print h t (by omega) (ends_printFields writer fields rest), Option.bind_some]
      dsimp only
      rw [parseFields_print h fields (by omega)]
      rfl

theorem parseItems_print (h : Reads reader writer f) (items : List (Doc σ)) {fuel : Nat}
    {rest : List Char} (hfuel : sizeItems items ≤ fuel) :
    parseItems reader fuel (printItems writer items ++ rest) = some (mapItems f items, rest) := by
  obtain ⟨fuel, rfl⟩ :=
    Nat.exists_eq_succ_of_ne_zero (Nat.ne_zero_of_lt ((sizeItems_pos items).trans_le hfuel))
  cases items with
  | nil =>
    show parseItems reader (fuel + 1) (']' :: rest) = _
    rw [parseItems, expect_ne (by decide) (by decide), expect_self (by decide)]
    rfl
  | cons t items =>
    rw [sizeItems] at hfuel
    have hpos := size_pos t
    have hpos' := sizeItems_pos items
    rw [printItems, List.cons_append, List.append_assoc, parseItems, expect_self (by decide)]
    dsimp only
    rw [parse_print h t (by omega) (ends_printItems writer items rest), Option.bind_some]
    dsimp only
    rw [parseItems_print h items (by omega)]
    rfl

theorem parseFields_print (h : Reads reader writer f) (fields : List (String × Doc σ)) {fuel : Nat}
    {rest : List Char} (hfuel : sizeFields fields ≤ fuel) :
    parseFields reader fuel (printFields writer fields ++ rest) =
      some (mapFields f fields, rest) := by
  obtain ⟨fuel, rfl⟩ :=
    Nat.exists_eq_succ_of_ne_zero (Nat.ne_zero_of_lt ((sizeFields_pos fields).trans_le hfuel))
  rcases fields with _ | ⟨⟨key, t⟩, fields⟩
  · show parseFields reader (fuel + 1) ('}' :: rest) = _
    rw [parseFields, expect_ne (by decide) (by decide), expect_self (by decide)]
    rfl
  · rw [sizeFields] at hfuel
    have hpos := size_pos t
    have hpos' := sizeFields_pos fields
    rw [printFields, List.cons_append, List.append_assoc, List.cons_append, List.append_assoc,
      parseFields, expect_self (by decide)]
    dsimp only
    rw [parseKey_print h, Option.bind_some]
    dsimp only
    rw [parse_print h t (by omega) (ends_printFields writer fields rest), Option.bind_some]
    dsimp only
    rw [parseFields_print h fields (by omega)]
    rfl

end

mutual

theorem size_le_length (h : Reads reader writer f) (t : Doc σ) :
    size t ≤ (print writer t).length := by
  cases t with
  | leaf s =>
    obtain ⟨c, text, hleaf, -⟩ := h.opensLeaf s
    rw [print, hleaf, size, List.length_cons]
    exact Nat.le_add_left 1 _
  | arr items =>
    cases items with
    | nil => exact Nat.le_refl 2
    | cons t items =>
      have hfirst := size_le_length h t
      have hothers := sizeItems_le_length h items
      rw [size, sizeItems, print, List.length_cons, List.length_append]
      omega
  | obj fields =>
    rcases fields with _ | ⟨⟨key, t⟩, fields⟩
    · exact Nat.le_refl 2
    · have hfirst := size_le_length h t
      have hothers := sizeFields_le_length h fields
      rw [size, sizeFields, print, List.length_cons, List.length_append, List.length_cons,
        List.length_append]
      omega

theorem sizeItems_le_length (h : Reads reader writer f) (items : List (Doc σ)) :
    sizeItems items ≤ (printItems writer items).length := by
  cases items with
  | nil => exact Nat.le_refl 1
  | cons t items =>
    have hfirst := size_le_length h t
    have hothers := sizeItems_le_length h items
    rw [sizeItems, printItems, List.length_cons, List.length_append]
    omega

theorem sizeFields_le_length (h : Reads reader writer f) (fields : List (String × Doc σ)) :
    sizeFields fields ≤ (printFields writer fields).length := by
  rcases fields with _ | ⟨⟨key, t⟩, fields⟩
  · exact Nat.le_refl 1
  · have hfirst := size_le_length h t
    have hothers := sizeFields_le_length h fields
    rw [sizeFields, printFields, List.length_cons, List.length_append, List.length_cons,
      List.length_append]
    omega

end

/-- The text of a document is read as its image. -/
theorem read_print (h : Reads reader writer f) (t : Doc σ) :
    read reader (print writer t) = some (t.map f) := by
  have hparse := parse_print h t (size_le_length h t) ends_nil
  rw [List.append_nil] at hparse
  unfold read
  rw [hparse]
  rfl

end RoundTrip

end Lobster.JsonText
