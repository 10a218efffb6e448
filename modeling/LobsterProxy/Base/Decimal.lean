import LobsterProxy.Base.Rounding

/-! Decimal numbers as a reader takes them: a sign, digits, and digits after a point. -/

namespace Lobster.Decimal
open Double

def readNat (digits : List Char) : Option ℕ :=
  if digits = [] ∨ ¬ digits.all Char.isDigit then none else some (Nat.ofDigitChars 10 digits 0)

def readUnsigned (text : List Char) : Option ℚ :=
  match text.splitOn '.' with
  | [whole] => (readNat whole).map fun (n : ℕ) => (n : ℚ)
  | [whole, part] =>
    (readNat whole).bind fun (n : ℕ) => (readNat part).map
      fun (m : ℕ) => (n : ℚ) + m / 10 ^ part.length
  | _ => none

def number : List Char → Option ℚ
  | '-' :: rest => (readUnsigned rest).map fun value => -value
  | text => readUnsigned text

def intText (n : ℤ) : List Char := (if n < 0 then ['-'] else []) ++ Nat.toDigits 10 n.natAbs

theorem isDigit_of_mem_toDigits {n : ℕ} {c : Char} (h : c ∈ Nat.toDigits 10 n) : c.isDigit = true :=
  Nat.isDigit_of_mem_toDigits (by decide) (by decide) h

theorem readNat_digits {digits : List Char} (hne : digits ≠ [])
    (h : ∀ c ∈ digits, c.isDigit = true) :
    readNat digits = some (Nat.ofDigitChars 10 digits 0) := by
  unfold readNat
  rw [if_neg]
  rintro (hnil | hall)
  · exact hne hnil
  · exact hall (List.all_eq_true.mpr h)

theorem readNat_toDigits (n : ℕ) : readNat (Nat.toDigits 10 n) = some n := by
  rw [readNat_digits Nat.toDigits_ne_nil fun c => isDigit_of_mem_toDigits,
    Nat.ofDigitChars_toDigits (by decide) (by decide)]

theorem not_mem_of_isDigit {digits : List Char} (h : ∀ c ∈ digits, c.isDigit = true) {d : Char}
    (hd : d.isDigit = false) : d ∉ digits := fun hmem => by
  rw [h d hmem] at hd
  exact Bool.false_ne_true hd.symm

theorem isDigit_of_readNat {digits : List Char} {n : ℕ} (h : readNat digits = some n) {c : Char}
    (hc : c ∈ digits) :
    c.isDigit = true := by
  unfold readNat at h
  split_ifs at h with hbad
  exact List.all_eq_true.mp (of_not_not (not_or.mp hbad).2) c hc

theorem mem_of_readUnsigned {text : List Char} (h : (readUnsigned text).isSome = true) {c : Char}
    (hc : c ∈ text) :
    c.isDigit = true ∨ c = '.' := by
  have hjoin : ['.'].intercalate (text.splitOn '.') = text := List.intercalate_splitOn '.'
  unfold readUnsigned at h
  split at h
  · next whole hwhole =>
    rw [Option.isSome_map] at h
    obtain ⟨n, hn⟩ := Option.isSome_iff_exists.mp h
    rw [hwhole, List.intercalate_singleton] at hjoin
    exact .inl (isDigit_of_readNat hn (hjoin ▸ hc))
  · next whole part hparts =>
    obtain ⟨q, hq⟩ := Option.isSome_iff_exists.mp h
    obtain ⟨n, hn, hq⟩ := Option.bind_eq_some_iff.mp hq
    obtain ⟨m, hm, -⟩ := Option.map_eq_some_iff.mp hq
    rw [hparts, List.intercalate_cons_cons, List.intercalate_singleton] at hjoin
    rw [← hjoin, List.mem_append, List.mem_append, List.mem_singleton] at hc
    rcases hc with (hc | rfl) | hc
    · exact .inl (isDigit_of_readNat hn hc)
    · exact .inr rfl
    · exact .inl (isDigit_of_readNat hm hc)
  · cases h

theorem mem_of_number {text : List Char} (h : (number text).isSome = true) {c : Char}
    (hc : c ∈ text) :
    c.isDigit = true ∨ c = '.' ∨ c = '-' := by
  unfold number at h
  split at h
  · rw [Option.isSome_map] at h
    rcases List.mem_cons.mp hc with rfl | hc
    · exact .inr (.inr rfl)
    · exact (mem_of_readUnsigned h hc).imp_right .inl
  · exact (mem_of_readUnsigned h hc).imp_right .inl

theorem newline_not_mem_number {text : List Char} (h : (number text).isSome = true) :
    '\n' ∉ text := by
  intro hmem
  rcases mem_of_number h hmem with hdigit | hpoint | hsign
  · exact absurd hdigit (by decide)
  · exact absurd hpoint (by decide)
  · exact absurd hsign (by decide)

theorem number_of_digit {text : List Char} {c : Char} {rest : List Char} (htext : text = c :: rest)
    (hc : c.isDigit = true) : number text = readUnsigned text := by
  subst htext
  unfold number
  split
  · rename_i heq
    cases heq
    exact absurd hc (by decide)
  · rfl

theorem toDigits_cons (n : ℕ) : ∃ c rest, Nat.toDigits 10 n = c :: rest ∧ c.isDigit = true := by
  obtain ⟨c, rest, h⟩ := List.exists_cons_of_ne_nil (@Nat.toDigits_ne_nil n 10)
  exact ⟨c, rest, h, isDigit_of_mem_toDigits (h ▸ List.mem_cons_self)⟩

theorem readUnsigned_nat (n : ℕ) : readUnsigned (Nat.toDigits 10 n) = some (n : ℚ) := by
  have hpoint : '.' ∉ Nat.toDigits 10 n :=
    not_mem_of_isDigit (fun c => isDigit_of_mem_toDigits) (by decide)
  unfold readUnsigned
  rw [List.splitOn_eq_singleton hpoint]
  dsimp only
  rw [readNat_toDigits, Option.map_some]

theorem number_nat (n : ℕ) : number (Nat.toDigits 10 n) = some (n : ℚ) := by
  obtain ⟨c, rest, htext, hc⟩ := toDigits_cons n
  rw [number_of_digit htext hc, readUnsigned_nat]

theorem number_int (n : ℤ) : number (intText n) = some (n : ℚ) := by
  unfold intText
  by_cases h : n < 0
  · rw [if_pos h, List.singleton_append, number, readUnsigned_nat, Option.map_some]
    have habs : (n.natAbs : ℤ) = -n := by omega
    have hcast : ((n.natAbs : ℤ) : ℚ) = -n := by rw [habs, Int.cast_neg]
    rw [← Int.cast_natCast, hcast, neg_neg]
  · rw [if_neg h, List.nil_append, number_nat]
    have habs : (n.natAbs : ℤ) = n := by omega
    rw [← Int.cast_natCast, habs]

theorem mem_fixedText {places q : ℕ} {c : Char} (h : c ∈ fixedText places q) :
    c.isDigit = true ∨ c = '.' := by
  unfold fixedText at h
  simp only [List.mem_append, List.mem_cons] at h
  rcases h with h | rfl | h | h
  · exact .inl (isDigit_of_mem_toDigits h)
  · exact .inr rfl
  · rw [List.eq_of_mem_replicate h]
    exact .inl rfl
  · exact .inl (isDigit_of_mem_toDigits h)

theorem number_fixedText {places : ℕ} (hplaces : 0 < places) (q : ℕ) :
    number (fixedText places q) = some ((q : ℚ) / 10 ^ places) := by
  have hbase : 0 < 10 ^ places := by positivity
  have hlength : (Nat.toDigits 10 (q % 10 ^ places)).length ≤ places :=
    (Nat.length_toDigits_le_iff (by decide) hplaces).mpr (Nat.mod_lt q hbase)
  generalize hpart : List.replicate (places - (Nat.toDigits 10 (q % 10 ^ places)).length) '0' ++
    Nat.toDigits 10 (q % 10 ^ places) = part
  have htext : fixedText places q = Nat.toDigits 10 (q / 10 ^ places) ++ '.' :: part := hpart ▸ rfl
  have hdigits : ∀ c ∈ part, c.isDigit = true := by
    intro c hc
    rw [← hpart, List.mem_append] at hc
    rcases hc with hc | hc
    · rw [List.eq_of_mem_replicate hc]
      rfl
    · exact isDigit_of_mem_toDigits hc
  have hplace : part.length = places := by
    rw [← hpart, List.length_append, List.length_replicate]
    omega
  have hne : part ≠ [] := by
    rintro rfl
    exact hplaces.ne hplace
  have hvalue : Nat.ofDigitChars 10 part 0 = q % 10 ^ places := by
    rw [← hpart, Nat.ofDigitChars_append, Nat.ofDigitChars_replicate_zero, Nat.mul_zero,
      Nat.ofDigitChars_toDigits (by decide) (by decide)]
  have hwhole : '.' ∉ Nat.toDigits 10 (q / 10 ^ places) :=
    not_mem_of_isDigit (fun c => isDigit_of_mem_toDigits) (by decide)
  obtain ⟨c, rest, hcons, hc⟩ := toDigits_cons (q / 10 ^ places)
  rw [@number_of_digit _ c (rest ++ '.' :: part) (by rw [htext, hcons, List.cons_append]) hc, htext]
  unfold readUnsigned
  rw [List.splitOn_append_cons_self_of_not_mem hwhole,
    List.splitOn_eq_singleton (not_mem_of_isDigit hdigits (by decide))]
  dsimp only
  rw [readNat_toDigits, Option.bind_some, readNat_digits hne hdigits, Option.map_some, hvalue,
    hplace]
  congr 1
  have hsplit : (q : ℚ) = 10 ^ places * (q / 10 ^ places : ℕ) + (q % 10 ^ places : ℕ) := by
    exact_mod_cast (Nat.div_add_mod q (10 ^ places)).symm
  have hbase' : (10 : ℚ) ^ places ≠ 0 := by positivity
  rw [eq_div_iff hbase', add_mul, div_mul_cancel₀ _ hbase', mul_comm, ← hsplit]

end Lobster.Decimal
