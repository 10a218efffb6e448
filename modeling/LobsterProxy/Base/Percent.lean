import LobsterProxy.Base.Utf8

/-! Percent-encoding: the bytes that are not kept are written as escapes, which any decoder
of escapes reads back. -/

namespace Lobster.Percent
open Text

def hexDigits : List Char :=
  ['0', '1', '2', '3', '4', '5', '6', '7', '8', '9', 'A', 'B', 'C', 'D', 'E', 'F']

def digit (n : Nat) : Char := hexDigits.getD n '0'

def escape (b : UInt8) : List Char := ['%', digit (b.toNat / 16), digit (b.toNat % 16)]

section Encode
variable (kept : UInt8 → Bool)

def encodeByte (b : UInt8) : List Char := if kept b then [Char.ofNat b.toNat] else escape b

def encode (bytes : List UInt8) : List Char := bytes.flatMap (encodeByte kept)

/-- What is kept stands for itself and an escape for its byte. -/
structure Decodes (decode : List UInt8 → List UInt8) : Prop where
  nil : decode [] = []
  keep : ∀ b rest, kept b = true → decode (b :: rest) = b :: decode rest
  unescape : ∀ b rest, decode (toUtf8 (escape b) ++ rest) = b :: decode rest

variable {kept} {decode : List UInt8 → List UInt8} {bytes : List UInt8} {c : Char}
    {before after : List Char}

theorem toUtf8_cons (c : Char) (text : List Char) :
    toUtf8 (c :: text) = String.utf8EncodeChar c ++ toUtf8 text :=
  List.flatMap_cons

theorem toUtf8_append (text more : List Char) :
    toUtf8 (text ++ more) = toUtf8 text ++ toUtf8 more :=
  List.flatMap_append

theorem encodeChar_ascii :
    ∀ n < 128, String.utf8EncodeChar (Char.ofNat n) = [UInt8.ofNat n] := by decide

theorem toUtf8_ascii {b : UInt8} (h : b.toNat < 128) : toUtf8 [Char.ofNat b.toNat] = [b] := by
  rw [toUtf8_cons, encodeChar_ascii b.toNat h, UInt8.ofNat_toNat]
  rfl

theorem Decodes.decode_encode (h : Decodes kept decode)
    (hascii : ∀ b, kept b = true → b.toNat < 128) (bytes : List UInt8) :
    decode (toUtf8 (encode kept bytes)) = bytes := by
  induction bytes with
  | nil => exact h.nil
  | cons b bytes ih =>
    have hsplit : toUtf8 (encode kept (b :: bytes)) =
        toUtf8 (encodeByte kept b) ++ toUtf8 (encode kept bytes) :=
      toUtf8_append _ _
    rw [hsplit]
    unfold encodeByte
    split_ifs with hkept
    · rw [toUtf8_ascii (hascii b hkept), List.singleton_append, h.keep b _ hkept, ih]
    · rw [h.unescape, ih]

theorem digit_mem : ∀ n < 16, digit n ∈ hexDigits := by decide

theorem high_mem (b : UInt8) : digit (b.toNat / 16) ∈ hexDigits :=
  digit_mem _ (Nat.div_lt_of_lt_mul b.toNat_lt)

theorem low_mem (b : UInt8) : digit (b.toNat % 16) ∈ hexDigits :=
  digit_mem _ (Nat.mod_lt _ (by decide))

theorem mem_encode (h : c ∈ encode kept bytes) :
    (∃ b, kept b = true ∧ c = Char.ofNat b.toNat) ∨ c = '%' ∨ c ∈ hexDigits := by
  obtain ⟨b, -, hc⟩ := List.mem_flatMap.mp h
  unfold encodeByte at hc
  split_ifs at hc with hkept
  · exact .inl ⟨b, hkept, List.mem_singleton.mp hc⟩
  · rcases List.mem_cons.mp hc with rfl | hc
    · exact .inr (.inl rfl)
    rcases List.mem_cons.mp hc with rfl | hc
    · exact .inr (.inr (high_mem b))
    · obtain rfl := List.mem_singleton.mp hc
      exact .inr (.inr (low_mem b))

theorem escape_of_encode (hkept : ∀ b, kept b = true → Char.ofNat b.toNat ≠ '%')
    (h : encode kept bytes = before ++ '%' :: after) :
    ∃ high low rest, after = high :: low :: rest ∧ high ∈ hexDigits ∧ low ∈ hexDigits := by
  have hdigit {d : Char} (hd : d ∈ hexDigits) : d ≠ '%' := by
    rintro rfl
    exact absurd hd (by decide)
  induction bytes generalizing before with
  | nil => cases before <;> cases h
  | cons b bytes ih =>
    have hsplit : encode kept (b :: bytes) = encodeByte kept b ++ encode kept bytes :=
      List.flatMap_cons
    rw [hsplit] at h
    unfold encodeByte at h
    split_ifs at h with hb
    · cases before with
      | nil => exact absurd (List.cons.inj h).1 (hkept b hb)
      | cons _ before => exact ih (List.cons.inj h).2
    · cases before with
      | nil => exact ⟨_, _, _, (List.cons.inj h).2.symm, high_mem b, low_mem b⟩
      | cons _ before =>
        replace h := (List.cons.inj h).2
        cases before with
        | nil => exact absurd (List.cons.inj h).1 (hdigit (high_mem b))
        | cons _ before =>
          replace h := (List.cons.inj h).2
          cases before with
          | nil => exact absurd (List.cons.inj h).1 (hdigit (low_mem b))
          | cons _ before => exact ih (List.cons.inj h).2

end Encode

end Lobster.Percent
