import Mathlib.Tactic.SplitIfs

/-! Base64 as it is read: four characters of the alphabet stand for three bytes, and the
last four may end in padding. -/

namespace Lobster.Base64

def sextet (c : Char) : Option Nat :=
  if 65 ≤ c.toNat ∧ c.toNat ≤ 90 then some (c.toNat - 65)
  else if 97 ≤ c.toNat ∧ c.toNat ≤ 122 then some (c.toNat - 71)
  else if 48 ≤ c.toNat ∧ c.toNat ≤ 57 then some (c.toNat + 4)
  else if c = '+' then some 62
  else if c = '/' then some 63
  else none

/-- The bits that the padding leaves over are not looked at. -/
def group (a b c d : Char) (last : Bool) : Option (List UInt8) :=
  (sextet a).bind fun a => (sextet b).bind fun b =>
    let first := UInt8.ofNat (a * 4 + b / 16)
    if c = '=' ∧ d = '=' ∧ last then some [first]
    else (sextet c).bind fun c =>
      let second := UInt8.ofNat (b % 16 * 16 + c / 4)
      if d = '=' ∧ last then some [first, second]
      else (sextet d).map fun d => [first, second, UInt8.ofNat (c % 4 * 64 + d)]

def decode : List Char → Option (List UInt8)
  | [] => some []
  | a :: b :: c :: d :: rest =>
    (group a b c d rest.isEmpty).bind fun bytes => (decode rest).map (bytes ++ ·)
  | _ => none

example : decode "TWFuTWE=TQ==".toList = none ∧ decode "TWFuTWE=".toList =
    some [77, 97, 110, 77, 97] := by decide

section Group
variable {a b c d : Char} {last : Bool} {bytes : List UInt8}

theorem group_some (h : group a b c d last = some bytes) :
    bytes.length ≤ 3 ∧ ∀ x ∈ [a, b, c, d], x = '=' ∨ (sextet x).isSome = true := by
  unfold group at h
  obtain ⟨va, ha, h⟩ := Option.bind_eq_some_iff.mp h
  obtain ⟨vb, hb, h⟩ := Option.bind_eq_some_iff.mp h
  dsimp only at h
  split_ifs at h with hpadded hlast
  · cases h
    simp [ha, hb, hpadded.1, hpadded.2.1]
  · obtain ⟨vc, hc, h⟩ := Option.bind_eq_some_iff.mp h
    cases h
    simp [ha, hb, hc, hlast.1]
  · obtain ⟨vc, hc, h⟩ := Option.bind_eq_some_iff.mp h
    obtain ⟨vd, hd, rfl⟩ := Option.map_eq_some_iff.mp h
    simp [ha, hb, hc, hd]

end Group

section Decoding
variable {text : List Char} {bytes : List UInt8}

theorem decode_chars (h : decode text = some bytes) :
    ∀ c ∈ text, c = '=' ∨ (sextet c).isSome = true := by
  induction text using decode.induct generalizing bytes with
  | case1 => simp
  | case2 a b c d rest ih =>
    obtain ⟨first, hfirst, h⟩ := Option.bind_eq_some_iff.mp h
    obtain ⟨later, hlater, -⟩ := Option.map_eq_some_iff.mp h
    intro x hx
    have hcases : x ∈ [a, b, c, d] ∨ x ∈ rest := List.mem_append.mp hx
    rcases hcases with hx | hx
    · exact (group_some hfirst).2 x hx
    · exact ih hlater x hx
  | case3 text hne hshort =>
    rw [decode.eq_3 text hne hshort] at h
    cases h

theorem length_decode (h : decode text = some bytes) : bytes.length * 4 ≤ text.length * 3 := by
  induction text using decode.induct generalizing bytes with
  | case1 =>
    cases h
    simp
  | case2 a b c d rest ih =>
    obtain ⟨first, hfirst, h⟩ := Option.bind_eq_some_iff.mp h
    obtain ⟨later, hlater, rfl⟩ := Option.map_eq_some_iff.mp h
    have hgroup := (group_some hfirst).1
    have hrest := ih hlater
    simp only [List.length_append, List.length_cons]
    omega
  | case3 text hne hshort =>
    rw [decode.eq_3 text hne hshort] at h
    cases h

end Decoding

end Lobster.Base64
