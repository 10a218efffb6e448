import LobsterProxy.Base.Rounding
import LobsterProxy.Base.Tokens

/-! Doubles and number literals: how a literal is read without `float_roundtrip`, where its digits
and the power of ten are rounded before they are put together, and the shortest decimal of a
double, which is what is written. -/

namespace Lobster
open Double JsonText

namespace Double

def mul : Double → Double → Double
  | nan, _ => nan
  | _, nan => nan
  | infinite neg, infinite neg' => infinite (neg != neg')
  | infinite neg, finite g => if g.num = 0 then nan else infinite (neg != g.neg)
  | finite f, infinite neg => if f.num = 0 then nan else infinite (f.neg != neg)
  | finite f, finite g => ofRatio (f.neg != g.neg) (f.num * g.num) (f.den * g.den)

def isInfinite : Double → Bool
  | infinite _ => true
  | _ => false

def isZero : Double → Bool
  | finite f => f.num = 0
  | _ => false

/-- The table `POW10`, which has the powers up to the 308th. -/
def pow10 (exponent : ℕ) : Double := ofNat (10 ^ exponent)

def ofScaled (neg : Bool) (digits : ℕ) (scale : ℤ) : Double :=
  ofRatio neg (digits * 10 ^ scale.toNat) (10 ^ (-scale).toNat)

end Double

namespace JsonText.Literal

section Read

/-- The digits are taken in while 64 bits hold the result; the others are left. -/
def accumulate : ℕ → List ℕ → ℕ × List ℕ
  | significand, [] => (significand, [])
  | significand, d :: ds =>
    if 2 ^ 64 ≤ significand * 10 + d then
      (significand, d :: ds) else accumulate (significand * 10 + d) ds

def intDigits (l : Literal) : List ℕ := (Nat.toDigits 10 l.int).map fun c => c.toNat - '0'.toNat

def saturateI32 (n : ℤ) : ℤ := max (-2 ^ 31) (min n (2 ^ 31 - 1))

/-- Beyond the table the double is divided in steps. A result that is infinite is an error. -/
def f64FromParts : ℕ → Double → ℤ → Option Double
  | fuel, f, exponent =>
    if exponent.natAbs < 309 then
      if 0 ≤ exponent then
        let product := f.mul (pow10 exponent.natAbs)
        if product.isInfinite then none else some product
      else some (f.div (pow10 exponent.natAbs))
    else if f.isZero then some f
    else if 0 ≤ exponent then none
    else match fuel with
      | 0 => none
      | fuel + 1 => f64FromParts fuel (f.div (pow10 308)) (exponent + 308)

/-- The magnitude of a literal that is no integer of 64 bits. -/
def readMagnitude (l : Literal) : Option Double :=
  let (significand, left) := accumulate 0 l.intDigits
  if left = [] ∧ l.fraction = [] ∧ l.exponent = none then some (.ofNat significand)
  else
    -- the digits of the integer that are left still count, those of the fraction do not
    let (significand, ignored) := accumulate significand (l.fraction.map Fin.val)
    let starting : ℤ := left.length - (l.fraction.length - ignored.length : ℕ)
    let exponent := l.exponent.getD 0
    if 2 ^ 31 ≤ exponent.natAbs then
      if significand ≠ 0 ∧ 0 < exponent then none else some (finite F64.zero)
    else
      let final := saturateI32 (starting + exponent)
      f64FromParts final.natAbs (.ofNat significand) final

/-- The double that a literal is read as, if it is in range. -/
def readDouble (l : Literal) : Option F64 :=
  match l.readMagnitude with
  | some (finite f) => some { f with neg := l.negative }
  | _ => none

/-- Each step takes 308 off the exponent, so that the fuel lasts. -/
theorem f64FromParts_fuel {fuel more : ℕ} {f : Double} {exponent : ℤ} (h : exponent.natAbs ≤ fuel) :
    f64FromParts (fuel + more) f exponent = f64FromParts fuel f exponent := by
  induction fuel generalizing f exponent with
  | zero =>
    have hzero : exponent.natAbs < 309 := by omega
    unfold f64FromParts
    rw [if_pos hzero, if_pos hzero]
  | succ fuel ih =>
    rw [Nat.succ_add]
    unfold f64FromParts
    split_ifs with hsmall
    · rfl
    · rfl
    · rfl
    · rfl
    · exact ih (by omega)

end Read

section Value

def allDigits (l : Literal) : ℕ := l.fraction.foldl (fun n d => 10 * n + d.val) l.int

def lastPlace (l : Literal) : ℤ := l.exponent.getD 0 - l.fraction.length

def nearest (l : Literal) : Double := ofScaled l.negative l.allDigits l.lastPlace

theorem foldl_digits (int : ℕ) (fraction : List (Fin 10)) :
    (int : ℚ) + fractionValue fraction =
      (fraction.foldl (fun n d => 10 * n + d.val) int : ℕ) / 10 ^ fraction.length := by
  induction fraction generalizing int with
  | nil => simp [fractionValue]
  | cons d ds ih =>
    rw [List.foldl_cons, List.length_cons, fractionValue, pow_succ, ← div_div, ← ih]
    push_cast
    ring

theorem value_eq (l : Literal) :
    l.value = (if l.negative then -1 else 1) * (l.allDigits * 10 ^ l.lastPlace) := by
  unfold value allDigits lastPlace
  rw [foldl_digits, zpow_sub₀ (by norm_num), zpow_natCast]
  ring

end Value

end JsonText.Literal

namespace F64

section Exact

theorem divRound_exact {q d : ℕ} (hd : 0 < d) : divRound (q * d) d = q := by
  unfold divRound
  rw [Nat.mul_mod_left, Nat.mul_div_cancel q hd]
  exact if_neg (by omega)

theorem eq_of_fields {f g : F64} (hneg : f.neg = g.neg) (hexponent : f.exponent = g.exponent)
    (hfraction : f.fraction = g.fraction) : f = g := by
  obtain ⟨neg, exponent, fraction⟩ := f
  obtain ⟨neg', exponent', fraction'⟩ := g
  dsimp only at hneg hexponent hfraction
  subst hneg hexponent hfraction
  rfl

theorem ratio_eq (f : F64) :
    ∃ q : ℕ, (f.num : ℚ) / f.den = q * 2 ^ ((max f.exponent.val 1 : ℤ) - 1075) ∧
    q % 2 ^ 52 = f.fraction.val ∧ q < 2 ^ 53 ∧ (f.exponent.val = 0 ↔ q < 2 ^ 52) := by
  have hfraction := f.fraction.isLt
  by_cases h : f.exponent.val = 0
  · refine ⟨f.fraction.val, ?_, Nat.mod_eq_of_lt hfraction, by omega, iff_of_true h hfraction⟩
    rw [ratio_subnormal h, h]
    rfl
  · refine ⟨2 ^ 52 + f.fraction.val, ?_, by omega, by omega, iff_of_false h (by omega)⟩
    have hmax : max (f.exponent.val : ℤ) 1 = f.exponent.val := by omega
    rw [ratio_normal h, hmax]

/-- A significand that is no longer than 53 bits is not rounded. -/
theorem significand_of_ratio {n d q : ℕ} {e : ℤ} (hn : 0 < n) (hd : 0 < d) (he : 1 ≤ e)
    (hratio : (n : ℚ) / d = q * 2 ^ (e - 1075)) (hlt : q < 2 ^ 53) (hnormal : 1 < e → 2 ^ 52 ≤ q) :
    max (binade n d) (-1022) = e - 1023 ∧ significand n d = q := by
  have hd' : (0 : ℚ) < d := by exact_mod_cast hd
  have hbinade := binade_spec hn hd
  rw [hratio] at hbinade
  -- the unit is the one of the binade that the fraction is in
  have hunit : max (binade n d) (-1022) = e - 1023 := by
    have hupper : (q : ℚ) * 2 ^ (e - 1075) < 2 ^ (e - 1075 + 53) := by
      rw [zpow_add₀ (by norm_num), mul_comm]
      gcongr
      exact_mod_cast hlt
    have hhigh := (zpow_lt_zpow_iff_right₀ (by norm_num)).mp (hbinade.1.trans_lt hupper)
    rcases he.eq_or_lt with rfl | hlarge
    · omega
    · have hlower : (2 : ℚ) ^ (e - 1075 + 52) ≤ q * 2 ^ (e - 1075) := by
        rw [zpow_add₀ (by norm_num), mul_comm]
        gcongr
        exact_mod_cast hnormal hlarge
      have hlow := (zpow_lt_zpow_iff_right₀ (by norm_num)).mp (hlower.trans_lt hbinade.2)
      omega
  have hplace : unitExponent n d = e - 1075 := by
    unfold unitExponent
    omega
  refine ⟨hunit, ?_⟩
  have hscaled := ratio_scaled n d (e - 1075)
  rw [hratio, mul_assoc, ← zpow_add₀ (by norm_num), add_neg_cancel, zpow_zero, mul_one,
    div_eq_iff (by positivity)] at hscaled
  have hexact : n * 2 ^ (-(e - 1075)).toNat = q * (d * 2 ^ (e - 1075).toNat) := by
    exact_mod_cast hscaled
  unfold significand
  rw [hplace, hexact, divRound_exact (by positivity)]

/-- The nearest double of the value of a double is this double. -/
theorem ofRatio_self (f : F64) : ofRatio f.neg f.num f.den = finite f := by
  obtain ⟨q, hratio, hfraction, hlt, hsub⟩ := f.ratio_eq
  have hpos := f.den_pos
  generalize hnum : f.num = n at hratio
  generalize f.den = d at hratio hpos
  rcases Nat.eq_zero_or_pos n with rfl | hn
  · have hq : q = 0 := by
      rw [Nat.cast_zero, zero_div] at hratio
      have hpow : (2 : ℚ) ^ ((max f.exponent.val 1 : ℤ) - 1075) ≠ 0 := by positivity
      exact_mod_cast (mul_eq_zero.mp hratio.symm).resolve_right hpow
    have hexponent : f.exponent = 0 := Fin.ext (hsub.mpr (by omega))
    have hfrac : f.fraction = 0 := Fin.val_eq_zero_iff.mp (by rw [← hfraction, hq, Nat.zero_mod])
    rw [ofRatio, if_pos rfl]
    exact congrArg finite (eq_of_fields rfl hexponent.symm hfrac.symm)
  obtain ⟨hk, hsignificand⟩ := significand_of_ratio hn hpos (le_max_right _ 1) hratio hlt (by omega)
  have hfrac : (⟨q % 2 ^ 52, Nat.mod_lt q (Nat.two_pow_pos 52)⟩ : Fin (2 ^ 52)) = f.fraction :=
    Fin.ext hfraction
  rw [ofRatio_eq_pack f.neg hn, hsignificand, hk]
  unfold pack
  rw [hfrac]
  dsimp only
  by_cases h : f.exponent.val = 0
  · rw [if_pos (hsub.mp h)]
    exact congrArg finite (eq_of_fields rfl (Fin.ext h.symm) rfl)
  · have hplace : ((max f.exponent.val 1 : ℤ) - 1023 + 1023).toNat + (if q = 2 ^ 53 then 1 else 0) =
        f.exponent.val := by
      rw [if_neg hlt.ne]
      omega
    rw [if_neg fun hq => h (hsub.mpr hq), dif_pos (hplace.trans_lt f.exponent.isLt)]
    exact congrArg finite (eq_of_fields rfl (Fin.ext hplace) rfl)

theorem ofRatio_of_eq (neg : Bool) {n d n' d' : ℕ} (hd : 0 < d) (hd' : 0 < d')
    (h : (n : ℚ) / d = n' / d') :
    ofRatio neg n d = ofRatio neg n' d' := by
  have hcross : n * d' = n' * d := by
    rw [div_eq_div_iff (by exact_mod_cast hd.ne') (by exact_mod_cast hd'.ne')] at h
    exact_mod_cast h
  rcases Nat.eq_zero_or_pos n with rfl | hn
  · have hn' : n' = 0 := by
      rw [Nat.zero_mul] at hcross
      exact (Nat.mul_eq_zero.mp hcross.symm).resolve_right hd.ne'
    rw [hn', ofRatio, ofRatio, if_pos rfl, if_pos rfl]
  · have hn' : 0 < n' := Nat.pos_of_mul_pos_right (hcross ▸ Nat.mul_pos hn hd')
    exact ofRatio_congr neg hn hd hn' hd' h

theorem ten_zpow {scale : ℤ} (h : 0 ≤ scale) : (10 : ℚ) ^ scale = 10 ^ scale.toNat := by
  conv_lhs => rw [← Int.toNat_of_nonneg h]
  exact zpow_natCast _ _

theorem ratio_ofScaled (digits : ℕ) (scale : ℤ) :
    ((digits * 10 ^ scale.toNat : ℕ) : ℚ) / (10 ^ (-scale).toNat : ℕ) = digits * 10 ^ scale := by
  rcases le_total 0 scale with h | h
  · have hzero : (-scale).toNat = 0 := by omega
    rw [hzero, ten_zpow h]
    push_cast
    ring
  · have hback : (10 : ℚ) ^ scale = (10 ^ (-scale).toNat)⁻¹ := by
      rw [← ten_zpow (by omega), zpow_neg, inv_inv]
    have hzero : scale.toNat = 0 := by omega
    rw [hzero, hback]
    push_cast
    ring

theorem ofScaled_congr (neg : Bool) {digits digits' : ℕ} {scale scale' : ℤ}
    (h : (digits : ℚ) * 10 ^ scale = digits' * 10 ^ scale') :
    ofScaled neg digits scale = ofScaled neg digits' scale' := by
  refine ofRatio_of_eq neg (by positivity) (by positivity) ?_
  rw [ratio_ofScaled, ratio_ofScaled, h]

end Exact

section Shortest

/-- Of the two multiples of the power of ten around the double those that round to it, and of
both the closer one, or the even one. -/
def atScale (f : F64) (scale : ℤ) : Option ℕ :=
  let n := f.num * 10 ^ (-scale).toNat
  let d := f.den * 10 ^ scale.toNat
  let low := n / d
  let below : Bool := 2 * (n % d) < d || (2 * (n % d) = d && low % 2 = 0)
  match decide (ofScaled f.neg low scale = finite f),
    decide (ofScaled f.neg (low + 1) scale = finite f) with
  | true, true => some (if below then low else low + 1)
  | true, false => some low
  | false, true => some (low + 1)
  | false, false => none

/-- The largest power of ten that will do. At the last one the double is a multiple itself. -/
def shortestFrom (f : F64) : ℕ → ℤ → ℕ × ℤ
  | 0, _ => (f.num * 10 ^ 1074 / f.den, -1074)
  | steps + 1, scale =>
    match f.atScale scale with
    | some digits => (digits, scale)
    | none => shortestFrom f steps (scale - 1)

/-- The decimal with the fewest digits that rounds to the double: its digits, and the power of
ten of the last one. -/
def shortest (f : F64) : ℕ × ℤ :=
  if f.num = 0 then (0, 0)
  else
    let top : ℤ := (Nat.toDigits 10 f.num).length - (Nat.toDigits 10 f.den).length + 1
    shortestFrom f (top + 1075).toNat top

def shortestValue (f : F64) : ℚ := (if f.neg then -1 else 1) * (f.shortest.1 * 10 ^ f.shortest.2)

theorem rounds_atScale {f : F64} {scale : ℤ} {digits : ℕ} (h : f.atScale scale = some digits) :
    ofScaled f.neg digits scale = finite f := by
  unfold atScale at h
  dsimp only at h
  split at h
  · next hlow hhigh =>
    cases h
    split_ifs
    · exact of_decide_eq_true hlow
    · exact of_decide_eq_true hhigh
  · next hlow _ =>
    cases h
    exact of_decide_eq_true hlow
  · next _ hhigh =>
    cases h
    exact of_decide_eq_true hhigh
  · cases h

theorem two_pow_dvd_ten_pow {m n : ℕ} (h : m ≤ n) : 2 ^ m ∣ 10 ^ n := by
  have hten : 10 ^ n = 2 ^ n * 5 ^ n := by rw [← Nat.mul_pow]
  rw [hten]
  exact (Nat.pow_dvd_pow 2 h).mul_right _

theorem rounds_scaled {f : F64} {e : ℕ} (hdvd : f.den ∣ 10 ^ e) :
    ofScaled f.neg (f.num * 10 ^ e / f.den) (-e) = finite f := by
  have hpos := f.den_pos
  rw [← ofRatio_self f]
  refine ofRatio_of_eq f.neg (by positivity) hpos ?_
  rw [ratio_ofScaled]
  generalize f.den = d at hdvd hpos
  obtain ⟨c, hc⟩ := hdvd
  have hd : (d : ℚ) ≠ 0 := by exact_mod_cast hpos.ne'
  have hpow : (10 : ℚ) ^ e = d * c := by exact_mod_cast hc
  have hcpos : (c : ℚ) ≠ 0 := by
    rintro hzero
    rw [hzero, mul_zero] at hpow
    exact absurd hpow (by positivity)
  rw [hc, Nat.mul_left_comm, Nat.mul_div_cancel_left _ hpos, zpow_neg, zpow_natCast, hpow]
  push_cast
  field_simp

theorem rounds_exact (f : F64) : ofScaled f.neg (f.num * 10 ^ 1074 / f.den) (-1074) = finite f := by
  have hle : (if f.exponent.val = 0 then 1074 else 1075 - f.exponent.val) ≤ 1074 := by
    split_ifs <;> omega
  have hdvd := two_pow_dvd_ten_pow hle
  rw [← den_eq_pow] at hdvd
  exact rounds_scaled hdvd

theorem rounds_shortestFrom (f : F64) (steps : ℕ) (scale : ℤ) :
    ofScaled f.neg (f.shortestFrom steps scale).1 (f.shortestFrom steps scale).2 = finite f := by
  induction steps generalizing scale with
  | zero => exact rounds_exact f
  | succ steps ih =>
    unfold shortestFrom
    cases h : f.atScale scale with
    | none => exact ih (scale - 1)
    | some digits => exact rounds_atScale h

theorem rounds_shortest (f : F64) : ofScaled f.neg f.shortest.1 f.shortest.2 = finite f := by
  unfold shortest
  split_ifs with hzero
  · have hself := ofRatio_self f
    rw [hzero, ofRatio, if_pos rfl] at hself
    rw [← hself]
    unfold ofScaled
    rw [Nat.zero_mul, ofRatio, if_pos rfl]
  · exact rounds_shortestFrom f _ _

theorem nearest_of_shortest {f : F64} {l : Literal} (hneg : l.negative = f.neg)
    (h : l.value = f.shortestValue) :
    l.nearest = finite f := by
  rw [← rounds_shortest f]
  unfold Literal.nearest
  rw [hneg]
  refine ofScaled_congr f.neg ?_
  rw [Literal.value_eq, hneg] at h
  unfold shortestValue at h
  cases hsign : f.neg with
  | true =>
    rw [hsign] at h
    exact mul_left_cancel₀ (show (if true = true then -1 else 1 : ℚ) ≠ 0 by norm_num) h
  | false =>
    rw [hsign] at h
    exact mul_left_cancel₀ (show (if false = true then -1 else 1 : ℚ) ≠ 0 by norm_num) h

end Shortest

end F64

namespace JsonText.Literal

section Layout

def lastDigits : ℕ → ℕ → List (Fin 10)
  | 0, _ => []
  | count + 1, n => lastDigits count (n / 10) ++ [digit n]

/-- The literal of these digits with the point before the last `count` of them. -/
def layout (neg : Bool) (digits count : ℕ) (exponent : Option ℤ) : Literal :=
  ⟨neg, digits / 10 ^ count, lastDigits count digits, exponent⟩

theorem length_lastDigits (count n : ℕ) : (lastDigits count n).length = count := by
  induction count generalizing n with
  | zero => rfl
  | succ count ih => rw [lastDigits, List.length_append, ih, List.length_singleton]

theorem allDigits_layout (neg : Bool) (digits count : ℕ) (exponent : Option ℤ) :
    (layout neg digits count exponent).allDigits = digits := by
  unfold allDigits layout
  dsimp only
  induction count generalizing digits with
  | zero => rw [lastDigits, List.foldl_nil, pow_zero, Nat.div_one]
  | succ count ih =>
    rw [lastDigits, List.foldl_append, pow_succ', ← Nat.div_div_eq_div_mul, ih]
    exact Nat.div_add_mod digits 10

theorem value_layout (neg : Bool) (digits count : ℕ) (exponent : Option ℤ) :
    (layout neg digits count exponent).value =
      (if neg then -1 else 1) * (digits * 10 ^ (exponent.getD 0 - count : ℤ)) := by
  rw [value_eq, allDigits_layout]
  unfold lastPlace layout
  rw [length_lastDigits]

theorem not_inRange_of_count {neg : Bool} {digits count : ℕ} {exponent : Option ℤ} (h : 0 < count) :
    (layout neg digits count exponent).inRange = false := by
  obtain ⟨count, rfl⟩ := Nat.exists_eq_succ_of_ne_zero h.ne'
  simp [inRange, layout, lastDigits]

theorem not_inRange_of_exponent {neg : Bool} {digits count : ℕ} {exponent : ℤ} :
    (layout neg digits count (some exponent)).inRange = false := by
  simp [inRange, layout]

end Layout

end JsonText.Literal

namespace F64
open JsonText.Literal (layout)

/-- The literal of a double: with a point and no exponent where the first digit is at one of the
places from the -5th to the 15th, and with an exponent elsewhere. -/
def literal (f : F64) : Literal :=
  let (digits, scale) := f.shortest
  let count := (Nat.toDigits 10 digits).length
  let place := scale + count - 1
  if -5 ≤ place ∧ place ≤ 15 then
    if 0 ≤ scale then layout f.neg (digits * 10 ^ (scale.toNat + 1)) 1 none
    else layout f.neg digits (-scale).toNat none
  else layout f.neg digits (count - 1) (some place)

theorem value_literal (f : F64) : f.literal.value = f.shortestValue := by
  unfold literal shortestValue
  dsimp only
  generalize hcount : (Nat.toDigits 10 f.shortest.1).length = count
  generalize f.shortest.2 = scale
  have hpos : 0 < count := by
    rw [← hcount]
    exact List.length_pos_iff.mpr Nat.toDigits_ne_nil
  by_cases hfixed : -5 ≤ scale + count - 1 ∧ scale + count - 1 ≤ 15
  · rw [if_pos hfixed]
    by_cases hscale : 0 ≤ scale
    · rw [if_pos hscale, Literal.value_layout, ten_zpow hscale, Option.getD_none, zero_sub,
        Nat.cast_one, zpow_neg_one, pow_succ]
      push_cast
      field_simp
    · rw [if_neg hscale, Literal.value_layout, Option.getD_none, Int.toNat_of_nonneg (by omega),
        zero_sub, neg_neg]
  · rw [if_neg hfixed, Literal.value_layout, Option.getD_some, Nat.cast_sub hpos, Nat.cast_one]
    congr 3
    ring

theorem inRange_literal (f : F64) : f.literal.inRange = false := by
  unfold literal
  dsimp only
  split_ifs
  · exact Literal.not_inRange_of_count Nat.one_pos
  · exact Literal.not_inRange_of_count (by omega)
  · exact Literal.not_inRange_of_exponent

end F64

end Lobster
