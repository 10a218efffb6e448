import LobsterProxy.Base.Fragment
import LobsterProxy.Base.Utf8

/-! Digests of tagged bodies, shortened and written in hexadecimal digits. A tag is closed by a
byte that no tag has, so that one digest means one tag and one body, or a collision. -/

namespace Lobster.Tagged

section Hexadecimal

def hex (bytes : List UInt8) : List Char :=
  bytes.flatMap fun b => [Nat.digitChar (b.toNat / 16), Nat.digitChar (b.toNat % 16)]

theorem hex_cons (b : UInt8) (bytes : List UInt8) :
    hex (b :: bytes) =
      Nat.digitChar (b.toNat / 16) :: Nat.digitChar (b.toNat % 16) :: hex bytes :=
  rfl

theorem take_hex (n : Nat) (bytes : List UInt8) :
    (hex bytes).take (2 * n) = hex (bytes.take n) := by
  induction n generalizing bytes with
  | zero => rfl
  | succ n ih =>
    cases bytes with
    | nil => rfl
    | cons b bytes =>
      rw [Nat.mul_succ, hex_cons, List.take_succ_cons, List.take_succ_cons, ih, List.take_succ_cons,
        hex_cons]

theorem digitChar_inj : ∀ m < 16, ∀ n < 16, Nat.digitChar m = Nat.digitChar n → m = n := by decide

theorem hex_injective : Function.Injective hex := by
  intro bytes
  induction bytes with
  | nil =>
    intro other h
    cases other with
    | nil => rfl
    | cons b other =>
      rw [hex_cons] at h
      cases h
  | cons b bytes ih =>
    intro other h
    cases other with
    | nil =>
      rw [hex_cons] at h
      cases h
    | cons c other =>
      rw [hex_cons, hex_cons] at h
      obtain ⟨hhigh, hlow, hrest⟩ : _ ∧ _ ∧ _ := by simpa only [List.cons.injEq] using h
      have hhigh :=
        digitChar_inj _ (Nat.div_lt_of_lt_mul b.toNat_lt) _ (Nat.div_lt_of_lt_mul c.toNat_lt) hhigh
      have hlow := digitChar_inj _ (Nat.mod_lt _ (by decide)) _ (Nat.mod_lt _ (by decide)) hlow
      have hbyte : b = c := UInt8.toNat_inj.mp (by omega)
      rw [hbyte, ih hrest]

end Hexadecimal

section Frames
variable {α δ : Type} {mark : α} {tag other body more : List α}

def frame (mark : α) (tag body : List α) : List α := tag ++ mark :: body

theorem frame_inj (htag : mark ∉ tag) (hother : mark ∉ other)
    (h : frame mark tag body = frame mark other more) : tag = other ∧ body = more :=
  Text.append_cons_unique htag hother h

/-- Different inputs with one digest. -/
def Collide (digest : List α → δ) (a b : List α) : Prop := a ≠ b ∧ digest a = digest b

/-- The whole of a tagged body is in its digest, up to a collision. -/
theorem eq_or_collide {digest : List α → δ} (htag : mark ∉ tag) (hother : mark ∉ other)
    (h : digest (frame mark tag body) = digest (frame mark other more)) :
    tag = other ∧ body = more ∨ Collide digest (frame mark tag body) (frame mark other more) := by
  by_cases hsame : frame mark tag body = frame mark other more
  · exact .inl (frame_inj htag hother hsame)
  · exact .inr ⟨hsame, h⟩

end Frames

structure Mac where
  sign : List UInt8 → List UInt8 → List UInt8
  length_sign : ∀ key message, (sign key message).length = 32

namespace Mac
variable (mac : Mac) (key : List UInt8)

def short (count : Nat) (message : List UInt8) : List UInt8 := (mac.sign key message).take count

def digits (count : Nat) (message : List UInt8) : List Char :=
  (hex (mac.sign key message)).take (2 * count)

variable {mac key}

theorem digits_eq_iff {count : Nat} {a b : List UInt8} :
    mac.digits key count a = mac.digits key count b ↔ mac.short key count a =
      mac.short key count b := by
  unfold digits short
  rw [take_hex, take_hex]
  exact hex_injective.eq_iff

end Mac
end Lobster.Tagged
