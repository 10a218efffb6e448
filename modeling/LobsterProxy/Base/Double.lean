import LobsterProxy.Base.Json
import LobsterProxy.Base.Text

/-! Binary64 values as fractions: conversion to 64-bit integers, the nearest value of a
fraction, and decimal text. -/

namespace Lobster

def i64Max : Int := 2 ^ 63 - 1

def i64Min : Int := -2 ^ 63

/-- Addition and conversion in 64 bits wrap around. -/
def wrapI64 (n : Int) : Int := (n + 2 ^ 63) % 2 ^ 64 - 2 ^ 63

def saturateI64 (n : Int) : Int := max i64Min (min n i64Max)

namespace F64

/-- The magnitude is `num / den`. -/
def num (f : F64) : Nat :=
  if f.exponent.val = 0 then f.fraction.val
  else (2 ^ 52 + f.fraction.val) * 2 ^ (f.exponent.val - 1075)

def den (f : F64) : Nat := if f.exponent.val = 0 then 2 ^ 1074 else 2 ^ (1075 - f.exponent.val)

def isPositive (f : F64) : Bool := !f.neg && f.num ≠ 0

def isNonneg (f : F64) : Bool := !f.neg || f.num = 0

def signed (f : F64) (n : Nat) : Int := if f.neg then -(n : Int) else n

/-- `as i64` cuts off the fraction. -/
def toI64 (f : F64) : Int := saturateI64 (f.signed (f.num / f.den))

/-- `round().. as i64`, halves away from zero. -/
def roundI64 (f : F64) : Int := saturateI64 (f.signed ((2 * f.num + f.den) / (2 * f.den)))

theorem ofNat_of_lt {n : Nat} (hpos : n ≠ 0) (h : n < 2 ^ 53) : ofNat false n =
    ⟨false, Fin.ofNat 2047 (1023 + n.log2), Fin.ofNat (2 ^ 52) (n * 2 ^ (52 - n.log2))⟩ := by
  have hlog : n.log2 ≤ 52 := Nat.le_of_lt_succ ((Nat.log2_lt hpos).mpr h)
  unfold ofNat
  rw [if_neg hpos]
  exact if_pos hlog

theorem ratio_ofNat {n : Nat} (hpos : n ≠ 0) (h : n < 2 ^ 53) :
    (ofNat false n).num = n * (ofNat false n).den ∧ 0 < (ofNat false n).den := by
  have hlog : n.log2 ≤ 52 := Nat.le_of_lt_succ ((Nat.log2_lt hpos).mpr h)
  have hlow : 2 ^ n.log2 ≤ n := Nat.log2_self_le hpos
  have hhigh : n < 2 ^ (n.log2 + 1) := Nat.lt_log2_self
  have hscale : 2 ^ n.log2 * 2 ^ (52 - n.log2) = 2 ^ 52 := by
    rw [← Nat.pow_add, Nat.add_sub_cancel' hlog]
  -- the fraction is what is left of the scaled integer after its leading bit
  have hmod : n * 2 ^ (52 - n.log2) % 2 ^ 52 + 2 ^ 52 = n * 2 ^ (52 - n.log2) := by
    have hle : 2 ^ 52 ≤ n * 2 ^ (52 - n.log2) := hscale ▸ Nat.mul_le_mul_right _ hlow
    have hlt : n * 2 ^ (52 - n.log2) < 2 * 2 ^ 52 := by
      rw [← hscale, ← Nat.mul_assoc, Nat.mul_comm 2, ← Nat.pow_succ]
      exact Nat.mul_lt_mul_of_pos_right hhigh (Nat.two_pow_pos _)
    omega
  have hexponent : (1023 + n.log2) % 2047 = 1023 + n.log2 := Nat.mod_eq_of_lt (by omega)
  rw [ofNat_of_lt hpos h]
  unfold num den
  simp only [Fin.val_ofNat, hexponent]
  rw [if_neg (by omega), if_neg (by omega), show 1023 + n.log2 - 1075 = 0 by omega,
    show 1075 - (1023 + n.log2) =
    52 - n.log2 by omega, Nat.pow_zero, Nat.mul_one, Nat.add_comm, hmod]
  exact ⟨rfl, Nat.two_pow_pos _⟩

theorem roundI64_ofNat {n : Nat} (hpos : n ≠ 0) (h : n < 2 ^ 53) :
    (ofNat false n).roundI64 = n := by
  obtain ⟨hnum, hden⟩ := ratio_ofNat hpos h
  have hneg : (ofNat false n).neg = false := by rw [ofNat_of_lt hpos h]
  have hround : (2 * (ofNat false n).num + (ofNat false n).den) / (2 * (ofNat false n).den) =
      n := by
    rw [hnum]
    generalize (ofNat false n).den = d at hden
    rw [Nat.mul_left_comm, Nat.add_comm, Nat.add_mul_div_right _ _ (by omega),
      Nat.div_eq_of_lt (by omega), Nat.zero_add]
  unfold roundI64 signed
  rw [hround, hneg, if_neg Bool.false_ne_true]
  unfold saturateI64 i64Min i64Max
  omega

end F64

inductive Double where
  | finite (f : F64)
  | infinite (neg : Bool)
  | nan
  deriving DecidableEq, Repr

namespace Double

/-- The power of two at or below `n / d`, for positive `n` and `d`. -/
def binade (n d : Nat) : Int :=
  let e : Int := (n.log2 : Int) - d.log2
  if d * 2 ^ e.toNat ≤ n * 2 ^ (-e).toNat then e else e - 1

/-- Division rounded to nearest, ties to even. -/
def divRound (n d : Nat) : Nat :=
  if d < 2 * (n % d) ∨ (2 * (n % d) = d ∧ n / d % 2 = 1) then n / d + 1 else n / d

/-- The binary64 value nearest to `n / d`. -/
def ofRatio (neg : Bool) (n d : Nat) : Double :=
  if n = 0 then finite { F64.zero with neg }
  else
    let k := max (binade n d) (-1022)
    let q := divRound (n * 2 ^ (52 - k).toNat) (d * 2 ^ (k - 52).toNat)
    let exponent := (k + 1023).toNat + if q = 2 ^ 53 then 1 else 0
    let fraction : Fin (2 ^ 52) := ⟨q % 2 ^ 52, Nat.mod_lt q (Nat.two_pow_pos 52)⟩
    if q < 2 ^ 52 then finite { F64.zero with neg, fraction }
    else if h : exponent < 2047 then finite ⟨neg, ⟨exponent, h⟩, fraction⟩
    else infinite neg

section Parse
open Text

def digits (text : List Char) : List Char × List Char := text.span Char.isDigit

def digitsToNat (ds : List Char) : Nat := ds.foldl (fun n d => 10 * n + (d.toNat - 48)) 0

def signOf : List Char → Bool × List Char
  | '-' :: rest => (true, rest)
  | '+' :: rest => (false, rest)
  | rest => (false, rest)

/-- What follows the digits: nothing, or an exponent with at least one digit. -/
def parseExponent : List Char → Option Int
  | [] => some 0
  | c :: rest =>
    if c = 'e' ∨ c = 'E' then
      let (neg, rest) := signOf rest
      let (ds, rest) := digits rest
      if ds.isEmpty ∨ !rest.isEmpty then none
      else some (if neg then -(digitsToNat ds : Int) else digitsToNat ds)
    else none

/-- `str::parse::<f64>`. -/
def parse (text : List Char) : Option Double :=
  let (neg, rest) := signOf text
  let lower := toAsciiLowercase rest
  if lower = "inf".toList ∨ lower = "infinity".toList then some (infinite neg)
  else if lower = "nan".toList then some nan
  else
    let (whole, rest) := digits rest
    let (part, rest) := match rest with
      | '.' :: rest => digits rest
      | rest => ([], rest)
    if whole.isEmpty ∧ part.isEmpty then none
    else (parseExponent rest).map fun exponent =>
      let shift : Int := exponent - part.length
      ofRatio neg (digitsToNat (whole ++ part) * 10 ^ shift.toNat) (10 ^ (-shift).toNat)

end Parse

example : parse "1.5e3".toList = some (.finite (.ofNat false 1500)) := by decide +kernel

end Double
end Lobster
