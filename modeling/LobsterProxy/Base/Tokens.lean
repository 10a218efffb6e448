import LobsterProxy.Base.JsonText
import Mathlib.Algebra.Field.Rat

/-! The tokens of a JSON text: number literals with their values, and strings between quotes. -/

namespace Lobster.JsonText

structure Literal where
  negative : Bool
  int : Nat
  fraction : List (Fin 10)
  exponent : Option Int
  deriving DecidableEq, Repr

namespace Literal

def digit (n : Nat) : Fin 10 := Fin.ofNat 10 n

def ofNat (n : Nat) : Literal := ⟨false, n, [], none⟩

def ofNeg (n : Nat) : Literal := ⟨true, n, [], none⟩

def fractionValue : List (Fin 10) → ℚ
  | [] => 0
  | d :: ds => (d.val + fractionValue ds) / 10

def value (l : Literal) : ℚ :=
  (if l.negative then -1 else 1) * (l.int + fractionValue l.fraction) * 10 ^ l.exponent.getD 0

/-- An integer that 64 bits hold, with a sign or without. -/
def inRange (l : Literal) : Bool :=
  l.fraction = [] && l.exponent = none && if l.negative then
  0 < l.int && l.int ≤ 2 ^ 63 else l.int < 2 ^ 64

section Text

def sign (negative : Bool) : List Char := if negative then ['-'] else []

def powerText : Int → List Char
  | .ofNat n => '+' :: Nat.toDigits 10 n
  | .negSucc n => '-' :: Nat.toDigits 10 (n + 1)

def fractionText : List (Fin 10) → List Char
  | [] => []
  | d :: ds => '.' :: (d :: ds).map fun d => Nat.digitChar d.val

def exponentText : Option Int → List Char
  | none => []
  | some e => 'e' :: powerText e

def text (l : Literal) : List Char :=
  sign l.negative ++ (Nat.toDigits 10 l.int ++ (fractionText l.fraction ++ exponentText l.exponent))

end Text

section Scan

def digits (text : List Char) : Option (List Char × List Char) :=
  match text.takeWhile Char.isDigit with
  | [] => none
  | ds => some (ds, text.dropWhile Char.isDigit)

def scanSign : List Char → Bool × List Char
  | c :: rest => if c = '-' then (true, rest) else (false, c :: rest)
  | [] => (false, [])

def scanInt (text : List Char) : Option (Nat × List Char) :=
  (digits text).bind fun (ds, rest) =>
    let n := Nat.ofDigitChars 10 ds 0
    if Nat.toDigits 10 n = ds then some (n, rest) else none

def scanFraction : List Char → Option (List (Fin 10) × List Char)
  | c :: rest =>
    if c = '.' then (digits rest).map fun (ds, rest) =>
      (ds.map fun d => digit (d.toNat - '0'.toNat), rest)
    else some ([], c :: rest)
  | [] => some ([], [])

def scanPower : List Char → Option (Int × List Char)
  | c :: rest =>
    if c = '-' then (digits rest).map fun (ds, rest) => (-(Nat.ofDigitChars 10 ds 0 : Int), rest)
    else (digits (if c = '+' then rest else c :: rest)).map
      fun (ds, rest) => (Nat.ofDigitChars 10 ds 0, rest)
  | [] => none

def scanExponent : List Char → Option (Option Int × List Char)
  | c :: rest =>
    if c = 'e' ∨
      c = 'E' then (scanPower rest).map fun (e, rest) => (some e, rest) else some (none, c :: rest)
  | [] => some (none, [])

def scan (text : List Char) : Option (Literal × List Char) :=
  let (negative, rest) := scanSign text
  (scanInt rest).bind fun (int, rest) => (scanFraction rest).bind fun (fraction, rest) =>
    (scanExponent rest).map fun (exponent, rest) => (⟨negative, int, fraction, exponent⟩, rest)

end Scan

section RoundTrip
variable {rest : List Char}

/-- No character at the start that a literal could go on with. -/
def Stops (rest : List Char) : Prop :=
  ∀ c ∈ rest.head?, c.isDigit = false ∧ c ≠ '.' ∧ c ≠ 'e' ∧ c ≠ 'E'

theorem stops_of_ends (h : Ends rest) : Stops rest := by
  intro c hc
  rcases h c hc with rfl | rfl | rfl <;> decide

theorem digits_append {ds : List Char} (hdigits : ∀ c ∈ ds, c.isDigit = true) (hne : ds ≠ [])
    (hrest : ∀ c ∈ rest.head?, c.isDigit = false) : digits (ds ++ rest) = some (ds, rest) := by
  have htake : rest.takeWhile Char.isDigit = [] := by
    cases rest with
    | nil => rfl
    | cons c rest => exact List.takeWhile_cons_of_neg (by simp [hrest c rfl])
  have hdrop : rest.dropWhile Char.isDigit = rest := by
    cases rest with
    | nil => rfl
    | cons c rest => exact List.dropWhile_cons_of_neg (by simp [hrest c rfl])
  unfold digits
  rw [List.takeWhile_append_of_pos hdigits, List.dropWhile_append_of_pos hdigits, htake, hdrop,
    List.append_nil]
  cases ds with
  | nil => exact absurd rfl hne
  | cons d ds => rfl

theorem digits_toDigits (n : Nat) (hrest : ∀ c ∈ rest.head?, c.isDigit = false) :
    digits (Nat.toDigits 10 n ++ rest) = some (Nat.toDigits 10 n, rest) :=
  digits_append (fun _ hc => Nat.isDigit_of_mem_toDigits (by decide) (by decide) hc)
    Nat.toDigits_ne_nil hrest

theorem toDigits_eq_cons (n : Nat) : ∃ c ds, Nat.toDigits 10 n = c :: ds ∧ c.isDigit = true := by
  cases h : Nat.toDigits 10 n with
  | nil => exact absurd h Nat.toDigits_ne_nil
  | cons c ds =>
    refine ⟨c, ds, rfl, Nat.isDigit_of_mem_toDigits (n := n) (by decide) (le_refl 10) ?_⟩
    rw [h]
    exact List.mem_cons_self

theorem ne_of_isDigit {c d : Char} (hc : c.isDigit = true) (hd : d.isDigit = false) : c ≠ d := by
  rintro rfl
  rw [hc] at hd
  cases hd

theorem scanSign_text (negative : Bool) (n : Nat) :
    scanSign (sign negative ++ (Nat.toDigits 10 n ++ rest)) =
      (negative, Nat.toDigits 10 n ++ rest) := by
  cases negative with
  | true => rfl
  | false =>
    obtain ⟨c, ds, hds, hc⟩ := toDigits_eq_cons n
    rw [hds]
    exact if_neg (ne_of_isDigit hc (by decide))

theorem scanInt_toDigits (n : Nat) (hrest : ∀ c ∈ rest.head?, c.isDigit = false) :
    scanInt (Nat.toDigits 10 n ++ rest) = some (n, rest) := by
  unfold scanInt
  rw [digits_toDigits n hrest, Option.bind_some]
  dsimp only
  rw [Nat.ofDigitChars_toDigits (by decide) (le_refl 10), if_pos rfl]

theorem scanPower_text (e : Int) (hrest : ∀ c ∈ rest.head?, c.isDigit = false) :
    scanPower (powerText e ++ rest) = some (e, rest) := by
  cases e with
  | ofNat n =>
    rw [powerText, List.cons_append, scanPower, if_neg (by decide), if_pos rfl,
      digits_toDigits _ hrest]
    dsimp only [Option.map_some]
    rw [Nat.ofDigitChars_toDigits (by decide) (le_refl 10)]
    rfl
  | negSucc n =>
    rw [powerText, List.cons_append, scanPower, if_pos rfl, digits_toDigits _ hrest]
    dsimp only [Option.map_some]
    rw [Nat.ofDigitChars_toDigits (by decide) (le_refl 10)]
    rfl

theorem scanExponent_text (exponent : Option Int) (hrest : Stops rest) :
    scanExponent (exponentText exponent ++ rest) = some (exponent, rest) := by
  cases exponent with
  | none =>
    cases rest with
    | nil => rfl
    | cons c rest =>
      obtain ⟨-, -, hlower, hupper⟩ := hrest c rfl
      exact if_neg (not_or.mpr ⟨hlower, hupper⟩)
  | some e =>
    rw [exponentText, List.cons_append, scanExponent, if_pos (.inl rfl),
      scanPower_text e fun c hc => (hrest c hc).1]
    rfl

theorem exponent_ne_digit (exponent : Option Int) (hrest : Stops rest) :
    ∀ c ∈ (exponentText exponent ++ rest).head?, c.isDigit = false ∧ c ≠ '.' := by
  intro c hc
  cases exponent with
  | none => exact ⟨(hrest c hc).1, (hrest c hc).2.1⟩
  | some e =>
    cases hc
    decide

theorem digit_digitChar : ∀ d : Fin 10, (Nat.digitChar d.val).isDigit = true ∧
    digit ((Nat.digitChar d.val).toNat - '0'.toNat) = d := by
  decide

theorem scanFraction_text (fraction : List (Fin 10))
    (hrest : ∀ c ∈ rest.head?, c.isDigit = false ∧ c ≠ '.') :
    scanFraction (fractionText fraction ++ rest) = some (fraction, rest) := by
  cases fraction with
  | nil =>
    cases rest with
    | nil => rfl
    | cons c rest => exact if_neg (hrest c rfl).2
  | cons d ds =>
    have hdigits : ∀ c ∈ (d :: ds).map fun d => Nat.digitChar d.val, c.isDigit = true := by
      intro c hc
      obtain ⟨d, -, rfl⟩ := List.mem_map.mp hc
      exact (digit_digitChar d).1
    rw [fractionText, List.cons_append, scanFraction, if_pos rfl,
      digits_append hdigits (by simp) fun c hc => (hrest c hc).1]
    dsimp only [Option.map_some]
    have hread : (fun c : Char => digit (c.toNat - '0'.toNat)) ∘
        (fun d : Fin 10 => Nat.digitChar d.val) = id :=
      funext fun d => (digit_digitChar d).2
    rw [List.map_map, hread, List.map_id]

theorem fraction_ne_digit (fraction : List (Fin 10)) (hrest : ∀ c ∈ rest.head?, c.isDigit = false) :
    ∀ c ∈ (fractionText fraction ++ rest).head?, c.isDigit = false := by
  intro c hc
  cases fraction with
  | nil => exact hrest c hc
  | cons d ds =>
    cases hc
    decide

/-- In front of what cannot continue it, a literal is read from its text. -/
theorem scan_text (l : Literal) (hrest : Stops rest) : scan (l.text ++ rest) = some (l, rest) := by
  have hexponent := exponent_ne_digit l.exponent hrest
  unfold scan text
  rw [List.append_assoc, List.append_assoc, List.append_assoc, scanSign_text]
  dsimp only
  rw [scanInt_toDigits _ (fraction_ne_digit _ fun c hc => (hexponent c hc).1), Option.bind_some]
  dsimp only
  rw [scanFraction_text _ hexponent, Option.bind_some]
  dsimp only
  rw [scanExponent_text _ hrest]
  rfl

theorem text_eq_cons (l : Literal) : ∃ c ds, l.text = c :: ds ∧ (c.isDigit = true ∨ c = '-') := by
  unfold text
  cases l.negative with
  | true => exact ⟨'-', _, rfl, .inr rfl⟩
  | false =>
    obtain ⟨c, ds, hds, hc⟩ := toDigits_eq_cons l.int
    rw [hds]
    exact ⟨c, _, rfl, .inl hc⟩

end RoundTrip

end Literal

section Quoted

def escape (c : Char) : List Char := if c = '"' ∨ c = '\\' then ['\\', c] else [c]

def quote (s : String) : List Char := '"' :: (s.toList.flatMap escape ++ ['"'])

def unescape : List Char → Option (List Char × List Char)
  | '"' :: rest => some ([], rest)
  | '\\' :: c :: rest => (unescape rest).map fun (cs, rest) => (c :: cs, rest)
  | c :: rest => (unescape rest).map fun (cs, rest) => (c :: cs, rest)
  | [] => none

def unquote : List Char → Option (String × List Char)
  | '"' :: rest => (unescape rest).map fun (cs, rest) => (String.ofList cs, rest)
  | _ => none

theorem unescape_escape (cs rest : List Char) :
    unescape (cs.flatMap escape ++ '"' :: rest) = some (cs, rest) := by
  induction cs with
  | nil => rfl
  | cons c cs ih =>
    rw [List.flatMap_cons, List.append_assoc]
    by_cases hc : c = '"' ∨ c = '\\'
    · rw [escape, if_pos hc, List.cons_append, List.cons_append, List.nil_append, unescape, ih]
      rfl
    · obtain ⟨hquote, hslash⟩ := not_or.mp hc
      rw [escape, if_neg hc, List.cons_append, List.nil_append, unescape, ih]
      · rfl
      · exact hquote
      · rintro d ds rfl
        exact absurd rfl hslash

theorem unquote_quote (s : String) (rest : List Char) :
    unquote (quote s ++ rest) = some (s, rest) := by
  unfold quote
  rw [List.cons_append, List.append_assoc, unquote, List.cons_append, List.nil_append,
    unescape_escape]
  exact congrArg (fun s => some (s, rest)) String.ofList_toList

end Quoted

inductive Scalar (ν : Type) where
  | null
  | bool (b : Bool)
  | num (n : ν)
  | str (s : String)
  deriving DecidableEq, Repr

def Scalar.map {ν μ : Type} (f : ν → μ) : Scalar ν → Scalar μ
  | .null => .null
  | .bool b => .bool b
  | .num n => .num (f n)
  | .str s => .str s

section Scalars
variable {ν : Type} (unquote : List Char → Option (String × List Char)) (rendered : ν → Literal)

def scanScalar : List Char → Option (Scalar Literal × List Char)
  | [] => none
  | c :: rest =>
    if c = 'n' then (rest.dropPrefix? ['u', 'l', 'l']).map fun rest => (.null, rest)
    else if c = 't' then (rest.dropPrefix? ['r', 'u', 'e']).map fun rest => (.bool true, rest)
    else if c = 'f' then (rest.dropPrefix? ['a', 'l', 's', 'e']).map fun rest => (.bool false, rest)
    else if c = '"' then (unquote (c :: rest)).map fun (s, rest) => (.str s, rest)
    else (Literal.scan (c :: rest)).map fun (l, rest) => (.num l, rest)

/-- Reads scalars with their numbers as these are written. -/
def exactReader : Reader (Scalar Literal) where
  leaf := scanScalar unquote
  key := unquote

def scalarText : Scalar ν → List Char
  | .null => ['n', 'u', 'l', 'l']
  | .bool true => ['t', 'r', 'u', 'e']
  | .bool false => ['f', 'a', 'l', 's', 'e']
  | .num n => (rendered n).text
  | .str s => quote s

def tokenWriter : Writer (Scalar ν) where
  leaf := scalarText rendered
  key := quote

end Scalars

theorem scanScalar_literal (unquote : List Char → Option (String × List Char)) (l : Literal)
    {rest : List Char} (hrest : Ends rest) :
    scanScalar unquote (l.text ++ rest) = some (.num l, rest) := by
  have hscan := Literal.scan_text l (Literal.stops_of_ends hrest)
  obtain ⟨c, ds, htext, hc⟩ := l.text_eq_cons
  have hne : ∀ d : Char, d.isDigit = false → d ≠ '-' → c ≠ d := by
    rintro d hdigit hsign rfl
    rcases hc with hc | hc
    · rw [hc] at hdigit
      cases hdigit
    · exact hsign hc
  rw [htext, List.cons_append] at hscan ⊢
  rw [scanScalar, if_neg (hne 'n' (by decide) (by decide)),
    if_neg (hne 't' (by decide) (by decide)),
    if_neg (hne 'f' (by decide) (by decide)), if_neg (hne '"' (by decide) (by decide)), hscan]
  rfl

/-- What is written token by token is read back, a number as its literal. -/
theorem reads_tokens {ν : Type} (rendered : ν → Literal) :
    Reads (exactReader unquote) (tokenWriter rendered) (Scalar.map rendered) where
  leaf s rest hrest := by
    cases s with
    | null => simp [exactReader, tokenWriter, scanScalar, scalarText, List.dropPrefix?, Scalar.map]
    | bool b =>
      cases b <;>
        simp [exactReader, tokenWriter, scanScalar, scalarText, List.dropPrefix?, Scalar.map]
    | num n => exact scanScalar_literal unquote (rendered n) hrest
    | str s =>
      have hquoted := unquote_quote s rest
      show scanScalar unquote (quote s ++ rest) = _
      unfold quote at hquoted ⊢
      rw [List.cons_append] at hquoted ⊢
      rw [scanScalar, if_neg (by decide), if_neg (by decide), if_neg (by decide), if_pos rfl,
        hquoted]
      rfl
  key key rest := unquote_quote key _
  opensLeaf s := by
    cases s with
    | null => exact ⟨'n', _, rfl, by decide⟩
    | bool b => cases b <;> exact ⟨_, _, rfl, by decide⟩
    | num n =>
      obtain ⟨c, ds, htext, hc⟩ := (rendered n).text_eq_cons
      refine ⟨c, ds, htext, ?_⟩
      rcases hc with hc | rfl
      · refine ⟨?_, ?_, ?_, ?_, ?_⟩
        · unfold isSpace
          simp [Literal.ne_of_isDigit hc (show Char.isDigit ' ' = false by decide),
            Literal.ne_of_isDigit hc (show Char.isDigit '\n' = false by decide),
            Literal.ne_of_isDigit hc (show Char.isDigit '\t' = false by decide),
            Literal.ne_of_isDigit hc (show Char.isDigit '\r' = false by decide)]
        all_goals exact Literal.ne_of_isDigit hc (by decide)
      · decide
    | str s => exact ⟨'"', _, rfl, by decide⟩
  opensKey key := ⟨'"', _, rfl, by decide⟩

end Lobster.JsonText
