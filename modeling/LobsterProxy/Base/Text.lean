import Mathlib.Algebra.Order.Ring.Int
import LobsterProxy.Base.Emitter
import Mathlib.Data.List.DropRight
import Mathlib.Data.List.Infix

/-! Text as a list of characters: the string operations of the standard library that
the program uses, and the lossy reading of bytes. -/

namespace Lobster.Text
open Emitter

section Splitting
variable {α : Type} [DecidableEq α]

/-- `skip` symbols of an occurrence are still to be passed over; `piece` is what has
been read since the last one. -/
def splitFrom (sep : List α) : Nat → List α → List α → List (List α)
  | _, piece, [] => [piece]
  | skip + 1, piece, _ :: rest => splitFrom sep skip piece rest
  | 0, piece, a :: rest =>
    if sep.isPrefixOf (a :: rest) then piece :: splitFrom sep (sep.length - 1) [] rest
    else splitFrom sep 0 (piece ++ [a]) rest

/-- The pieces between the leftmost occurrences of a nonempty separator. -/
def split (sep text : List α) : List (List α) := splitFrom sep 0 [] text

/-- `str::replace`. -/
def replace (old new text : List α) : List α := new.intercalate (split old text)

def stripPrefix (lead text : List α) : Option (List α) :=
  if lead.isPrefixOf text then some (text.drop lead.length) else none

def contains (text needle : List α) : Bool := decide (needle <:+: text)

end Splitting

section Chars

def isWhitespace (c : Char) : Bool :=
  let n := c.toNat
  (9 ≤ n && n ≤ 13) || n = 0x20 || n = 0x85 || n = 0xA0 || n =
    0x1680 || (0x2000 ≤ n && n ≤ 0x200A) ||
    n = 0x2028 || n = 0x2029 || n = 0x202F || n = 0x205F || n = 0x3000

def trimMatches (p : Char → Bool) (text : List Char) : List Char := (text.dropWhile p).rdropWhile p

def trim : List Char → List Char := trimMatches isWhitespace

def splitWhitespace (text : List Char) : List (List Char) :=
  (text.splitOnP isWhitespace).filter fun word => !word.isEmpty

def len (text : List Char) : Nat := (text.map Char.utf8Size).sum

def toAsciiLowercase (text : List Char) : List Char := text.map Char.toLower

/-- `str::lines`: a carriage return goes with the line feed after it, and the last line
feed ends the last line. -/
def lines (text : List Char) : List (List Char) :=
  let pieces := text.splitOn '\n'
  let ended := pieces.dropLast.map fun line =>
    if line.getLast? = some '\r' then line.dropLast else line
  match pieces.getLast? with
  | some (c :: rest) => ended ++ [c :: rest]
  | _ => ended

theorem trimMatches_trimMatches (p : Char → Bool) (text : List Char) :
    trimMatches p (trimMatches p text) = trimMatches p text := by
  unfold trimMatches
  have hleft : ((text.dropWhile p).rdropWhile p).dropWhile p = (text.dropWhile p).rdropWhile p := by
    rw [List.dropWhile_eq_self_iff]
    intro hlength
    have hlead := List.rdropWhile_prefix p (text.dropWhile p)
    have hlong : 0 < (text.dropWhile p).length := hlength.trans_le hlead.length_le
    rw [hlead.getElem hlength]
    exact List.dropWhile_get_zero_not p text hlong
  rw [hleft, List.rdropWhile_idempotent]

end Chars

section Utf8

/-- An unfinished sequence: how many bytes are to come, the range of the next one, and
the bits read. -/
structure Pending where
  needed : Nat
  lower : UInt8
  upper : UInt8
  bits : Nat
  deriving DecidableEq, Repr

def replacement : Char := Char.ofNat 0xFFFD

def leadByte (b : UInt8) : Option Pending × List Char :=
  if b < 0x80 then (none, [Char.ofNat b.toNat])
  else if 0xC2 ≤ b ∧ b ≤ 0xDF then (some ⟨1, 0x80, 0xBF, b.toNat - 0xC0⟩, [])
  else if b = 0xE0 then (some ⟨2, 0xA0, 0xBF, 0⟩, [])
  else if b = 0xED then (some ⟨2, 0x80, 0x9F, 0xD⟩, [])
  else if 0xE1 ≤ b ∧ b ≤ 0xEF then (some ⟨2, 0x80, 0xBF, b.toNat - 0xE0⟩, [])
  else if b = 0xF0 then (some ⟨3, 0x90, 0xBF, 0⟩, [])
  else if 0xF1 ≤ b ∧ b ≤ 0xF3 then (some ⟨3, 0x80, 0xBF, b.toNat - 0xF0⟩, [])
  else if b = 0xF4 then (some ⟨3, 0x80, 0x8F, 4⟩, [])
  else (none, [replacement])

/-- A byte that cannot go on with the sequence ends it in one replacement character and
is read anew. -/
def readByte (b : UInt8) : Emitter (Option Pending) Char
  | none => leadByte b
  | some pending =>
    if pending.lower ≤ b ∧ b ≤ pending.upper then
      let bits := pending.bits * 64 + (b.toNat - 0x80)
      if pending.needed = 1 then (none, [Char.ofNat bits])
      else (some ⟨pending.needed - 1, 0x80, 0xBF, bits⟩, [])
    else
      let (pending, chars) := leadByte b
      (pending, replacement :: chars)

def fromUtf8Lossy (bytes : List UInt8) : List Char :=
  let (pending, chars) := forEach readByte bytes none
  chars ++ if pending.isSome then [replacement] else []

example : fromUtf8Lossy [0xE7, 0xA7, 0xAF, 0x41, 0xE7, 0xA7, 0x41, 0xFF] =
    [Char.ofNat 0x79EF, 'A', replacement, 'A', replacement] := by decide

end Utf8

end Lobster.Text
