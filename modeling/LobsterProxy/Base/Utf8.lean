import LobsterProxy.Base.Text

/-! UTF-8 as it is written: the lossy reading of an encoded text loses nothing. -/

namespace Lobster.Text
open Emitter

def toUtf8 (text : List Char) : List UInt8 := text.flatMap String.utf8EncodeChar

theorem readByte_tail {pending : Pending} {n : Nat} (hn : n < 64)
    (hlower : pending.lower.toNat ≤ n + 0x80) (hupper : n + 0x80 ≤ pending.upper.toNat) :
    readByte (UInt8.ofNat (n + 0x80)) (some pending) =
      if pending.needed = 1 then (none, [Char.ofNat (pending.bits * 64 + n)])
      else (some ⟨pending.needed - 1, 0x80, 0xBF, pending.bits * 64 + n⟩, []) := by
  have hbyte : (UInt8.ofNat (n + 0x80)).toNat = n + 0x80 := by
    rw [UInt8.toNat_ofNat']
    omega
  have hrange : pending.lower ≤ UInt8.ofNat (n + 0x80) ∧
      UInt8.ofNat (n + 0x80) ≤ pending.upper := by
    rw [UInt8.le_iff_toNat_le, UInt8.le_iff_toNat_le, hbyte]
    exact ⟨hlower, hupper⟩
  unfold readByte
  dsimp only
  rw [if_pos hrange, hbyte, Nat.add_sub_cancel]

theorem leadByte_one : ∀ n < 0x80, leadByte (UInt8.ofNat n) = (none, [Char.ofNat n]) := by decide

theorem leadByte_two :
    ∀ n < 32, 2 ≤ n → leadByte (UInt8.ofNat (n + 0xC0)) = (some ⟨1, 0x80, 0xBF, n⟩, []) := by
  decide

theorem leadByte_three : ∀ n < 16, leadByte (UInt8.ofNat (n + 0xE0)) =
    (some ⟨2, if n = 0 then 0xA0 else 0x80, if n = 0xD then 0x9F else 0xBF, n⟩, []) := by decide

theorem leadByte_four : ∀ n < 5, leadByte (UInt8.ofNat (n + 0xF0)) =
    (some ⟨3, if n = 0 then 0x90 else 0x80, if n = 4 then 0x8F else 0xBF, n⟩, []) := by decide

section Sequences
variable {v : Nat}

theorem readByte_none (b : UInt8) : readByte b none = leadByte b := rfl

theorem readBytes_two (hlow : 0x7F < v) (hhigh : v ≤ 0x7FF) :
    forEach readByte [UInt8.ofNat (v / 64 % 32 + 0xC0), UInt8.ofNat (v % 64 + 0x80)] none =
      (none, [Char.ofNat v]) := by
  have hlead := leadByte_two (v / 64 % 32) (by omega) (by omega)
  have hlast :=
    @readByte_tail ⟨1, 0x80, 0xBF, v / 64 % 32⟩ (v % 64) (by omega) (by simp) (by simp; omega)
  have hbits : v / 64 % 32 * 64 + v % 64 = v := by omega
  simp only [hbits, if_true] at hlast
  simp only [forEach, andThen, readByte_none, hlead, hlast, List.nil_append, List.append_nil]

theorem readBytes_three (hlow : 0x7FF < v) (hhigh : v ≤ 0xFFFF) (hvalid : v < 0xD800 ∨ 0xDFFF < v) :
    forEach readByte [UInt8.ofNat (v / 4096 % 16 + 0xE0), UInt8.ofNat (v / 64 % 64 + 0x80),
      UInt8.ofNat (v % 64 + 0x80)] none = (none, [Char.ofNat v]) := by
  have hlead := leadByte_three (v / 4096 % 16) (by omega)
  have hsecond := @readByte_tail ⟨2, if v / 4096 % 16 = 0 then 0xA0 else 0x80,
    if v / 4096 % 16 = 0xD then 0x9F else 0xBF, v / 4096 % 16⟩ (v / 64 % 64) (by omega)
    (by dsimp only; split_ifs <;> simp; omega) (by dsimp only; split_ifs <;> simp <;> omega)
  have hlast :=
    @readByte_tail ⟨1, 0x80, 0xBF, v / 4096 % 16 * 64 + v / 64 % 64⟩ (v % 64) (by omega) (by simp)
    (by simp; omega)
  have hbits : (v / 4096 % 16 * 64 + v / 64 % 64) * 64 + v % 64 = v := by omega
  simp only [hbits, if_true] at hlast
  simp only [OfNat.ofNat_ne_one, if_false, Nat.add_one_sub_one] at hsecond
  simp only [forEach, andThen, readByte_none, hlead, hsecond, hlast, List.nil_append,
    List.append_nil]

theorem readBytes_four (hlow : 0xFFFF < v) (hhigh : v < 0x110000) :
    forEach readByte [UInt8.ofNat (v / 262144 % 8 + 0xF0), UInt8.ofNat (v / 4096 % 64 + 0x80),
      UInt8.ofNat (v / 64 % 64 + 0x80), UInt8.ofNat (v % 64 + 0x80)] none =
        (none, [Char.ofNat v]) := by
  have hlead := leadByte_four (v / 262144 % 8) (by omega)
  have hsecond := @readByte_tail ⟨3, if v / 262144 % 8 = 0 then 0x90 else 0x80,
    if v / 262144 % 8 = 4 then 0x8F else 0xBF, v / 262144 % 8⟩ (v / 4096 % 64) (by omega)
    (by dsimp only; split_ifs <;> simp; omega) (by dsimp only; split_ifs <;> simp <;> omega)
  have hthird :=
    @readByte_tail ⟨2, 0x80, 0xBF, v / 262144 % 8 * 64 + v / 4096 % 64⟩
      (v / 64 % 64) (by omega) (by simp) (by simp; omega)
  have hlast :=
    @readByte_tail ⟨1, 0x80, 0xBF, (v / 262144 % 8 * 64 + v / 4096 % 64) * 64 + v / 64 % 64⟩
      (v % 64) (by omega) (by simp) (by simp; omega)
  have hbits : ((v / 262144 % 8 * 64 + v / 4096 % 64) * 64 + v / 64 % 64) * 64 + v % 64 = v := by
    omega
  simp only [hbits, if_true] at hlast
  simp only [OfNat.ofNat_ne_one, if_false] at hsecond hthird
  simp only [forEach, andThen, readByte_none, hlead, hsecond, hthird, hlast, List.nil_append,
    List.append_nil]

end Sequences

theorem readBytes_encodeChar (c : Char) :
    forEach readByte (String.utf8EncodeChar c) none = (none, [c]) := by
  have hvalid : c.val.toNat < 0xD800 ∨ 0xDFFF < c.val.toNat ∧ c.val.toNat < 0x110000 := c.valid
  have hread : forEach readByte (String.utf8EncodeChar c) none =
      (none, [Char.ofNat c.val.toNat]) := by
    unfold String.utf8EncodeChar
    dsimp only
    split_ifs with hone htwo hthree
    · have hlead := leadByte_one c.val.toNat (by omega)
      simp only [forEach, andThen, readByte_none, hlead, List.append_nil]
    · exact readBytes_two (by omega) htwo
    · exact readBytes_three (by omega) hthree (by omega)
    · exact readBytes_four (by omega) (by omega)
  have hchar : Char.ofNat c.val.toNat = c := Char.ofNat_toNat c
  rw [hread, hchar]

theorem readBytes_toUtf8 (text : List Char) :
    forEach readByte (toUtf8 text) none = (none, text) := by
  unfold toUtf8
  induction text with
  | nil => rfl
  | cons c text ih =>
    rw [List.flatMap_cons, forEach_append]
    simp only [andThen, readBytes_encodeChar, ih, List.singleton_append]

/-- What was written is read. -/
theorem fromUtf8Lossy_toUtf8 (text : List Char) : fromUtf8Lossy (toUtf8 text) = text := by
  unfold fromUtf8Lossy
  rw [readBytes_toUtf8]
  exact List.append_nil text

theorem toUtf8_injective : Function.Injective toUtf8 := by
  intro text more h
  rw [← fromUtf8Lossy_toUtf8 text, h, fromUtf8Lossy_toUtf8]

theorem length_le_toUtf8 (text : List Char) : text.length ≤ (toUtf8 text).length := by
  unfold toUtf8
  induction text with
  | nil => simp
  | cons c rest ih =>
    have hpos := c.utf8Size_pos
    rw [List.flatMap_cons, List.length_append, String.length_utf8EncodeChar, List.length_cons]
    omega

end Lobster.Text
