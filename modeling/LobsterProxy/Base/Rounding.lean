import LobsterProxy.Base.Double
import Mathlib.Algebra.Order.Field.Power
import Mathlib.Algebra.Order.Ring.Rat
import Mathlib.Tactic.FieldSimp
import Mathlib.Tactic.Linarith
import Mathlib.Tactic.Positivity
import Mathlib.Tactic.Ring

/-! The order of binary64 values and the error of rounding to nearest: rounding keeps the order of
fractions, and moves a fraction by at most half a unit of its binade. -/

namespace Lobster

theorem zpow_eq_ratio (i : ℤ) : (2 : ℚ) ^ i = (2 ^ i.toNat : ℕ) / (2 ^ (-i).toNat : ℕ) := by
  rcases le_total 0 i with h | h
  · rw [show (-i).toNat = 0 by omega]
    conv_lhs => rw [← Int.toNat_of_nonneg h]
    rw [zpow_natCast]
    push_cast
    ring
  · rw [show i.toNat = 0 by omega]
    conv_lhs => rw [show i = -((-i).toNat : ℤ) by omega]
    rw [zpow_neg, zpow_natCast]
    push_cast
    ring

namespace F64

def toRat (f : F64) : ℚ := (if f.neg then -1 else 1) * (f.num / f.den)

theorem den_eq_pow (f : F64) :
    f.den = 2 ^ if f.exponent.val = 0 then 1074 else 1075 - f.exponent.val := by
  unfold den
  exact (apply_ite (2 ^ ·) _ _ _).symm

theorem den_pos (f : F64) : 0 < f.den := by
  rw [den_eq_pow]
  exact Nat.two_pow_pos _

theorem ratio_subnormal {f : F64} (h : f.exponent.val = 0) :
    (f.num : ℚ) / f.den = f.fraction.val * 2 ^ (-1074 : ℤ) := by
  unfold num den
  rw [if_pos h, if_pos h, zpow_neg, div_eq_mul_inv, Nat.cast_pow]
  rfl

theorem ratio_normal {f : F64} (h : f.exponent.val ≠ 0) :
    (f.num : ℚ) / f.den = (2 ^ 52 + f.fraction.val : ℕ) * 2 ^ ((f.exponent.val : ℤ) - 1075) := by
  have hup : ((f.exponent.val : ℤ) - 1075).toNat = f.exponent.val - 1075 := by omega
  have hdown : (-((f.exponent.val : ℤ) - 1075)).toNat = 1075 - f.exponent.val := by omega
  unfold num den
  rw [if_neg h, if_neg h, zpow_eq_ratio, hup, hdown, Nat.cast_mul, mul_div_assoc]

end F64

namespace Double

/-- `<=` on doubles; nothing compares with a NaN. -/
def le : Double → Double → Bool
  | nan, _ => false
  | _, nan => false
  | infinite neg, infinite neg' => neg || !neg'
  | infinite neg, finite _ => neg
  | finite _, infinite neg => !neg
  | finite f, finite g => f.toRat ≤ g.toRat

def ofNat (n : Nat) : Double := ofRatio false n 1

/-- The double of a decimal literal: these digits, so many of them after the point. -/
def decimal (digits places : Nat) : Double := ofRatio false digits (10 ^ places)

def div : Double → Double → Double
  | nan, _ => nan
  | _, nan => nan
  | infinite _, infinite _ => nan
  | infinite neg, finite g => infinite (neg != g.neg)
  | finite f, infinite neg => finite { F64.zero with neg := f.neg != neg }
  | finite f, finite g =>
    if g.num = 0 then if f.num = 0 then nan else infinite (f.neg != g.neg)
    else ofRatio (f.neg != g.neg) (f.num * g.den) (f.den * g.num)

section Scaling

theorem binade_spec {n d : ℕ} (hn : 0 < n) (hd : 0 < d) :
    (2 : ℚ) ^ binade n d ≤ n / d ∧ (n : ℚ) / d < 2 ^ (binade n d + 1) := by
  have hd' : (0 : ℚ) < d := by exact_mod_cast hd
  have hnlow : ((2 : ℚ) ^ n.log2) ≤ n := by exact_mod_cast Nat.log2_self_le hn.ne'
  have hnhigh : (n : ℚ) < 2 ^ (n.log2 + 1) := by exact_mod_cast Nat.lt_log2_self
  have hdlow : ((2 : ℚ) ^ d.log2) ≤ d := by exact_mod_cast Nat.log2_self_le hd.ne'
  have hdhigh : (d : ℚ) < 2 ^ (d.log2 + 1) := by exact_mod_cast Nat.lt_log2_self
  set e : ℤ := (n.log2 : ℤ) - d.log2 with he
  have hup : (n : ℚ) / d < 2 ^ (e + 1) := by
    rw [div_lt_iff₀ hd', he, show (n.log2 : ℤ) - d.log2 + 1 =
      (n.log2 + 1 : ℕ) - (d.log2 : ℕ) by push_cast; ring,
      zpow_sub₀ (by norm_num), zpow_natCast, zpow_natCast, div_mul_eq_mul_div,
      lt_div_iff₀ (by positivity)]
    calc (n : ℚ) * 2 ^ d.log2 ≤ n * d := by gcongr
      _ < 2 ^ (n.log2 + 1) * d := by gcongr
  have hdown : (2 : ℚ) ^ (e - 1) < n / d := by
    rw [lt_div_iff₀ hd', he, show (n.log2 : ℤ) - d.log2 - 1 =
      (n.log2 : ℕ) - (d.log2 + 1 : ℕ) by push_cast; ring,
      zpow_sub₀ (by norm_num), zpow_natCast, zpow_natCast, div_mul_eq_mul_div,
      div_lt_iff₀ (by positivity)]
    calc (2 : ℚ) ^ n.log2 * d ≤ n * d := by gcongr
      _ < n * 2 ^ (d.log2 + 1) := by gcongr
  -- the test on the powers is the test on the fraction
  have htest : d * 2 ^ e.toNat ≤ n * 2 ^ (-e).toNat ↔ (2 : ℚ) ^ e ≤ n / d := by
    rw [zpow_eq_ratio, div_le_div_iff₀ (by positivity) hd', mul_comm (_ : ℚ) (d : ℚ)]
    exact_mod_cast Iff.rfl
  unfold binade
  rw [← he]
  dsimp only
  split_ifs with h
  · exact ⟨htest.mp h, hup⟩
  · rw [htest, not_le] at h
    refine ⟨hdown.le, ?_⟩
    rwa [sub_add_cancel]

end Scaling

section Nearest
variable {n d n' d' : ℕ}

theorem divRound_near (hd : 0 < d) : |(divRound n d : ℚ) - n / d| ≤ 1 / 2 := by
  have hd' : (0 : ℚ) < d := by exact_mod_cast hd
  have hsplit : (n : ℚ) = d * (n / d : ℕ) + (n % d : ℕ) := by
    exact_mod_cast (Nat.div_add_mod n d).symm
  have hmod : n % d < d := Nat.mod_lt n hd
  have hvalue : (n : ℚ) / d = (n / d : ℕ) + (n % d : ℕ) / d := by
    rw [hsplit]
    field_simp
  rw [hvalue, abs_le]
  unfold divRound
  split_ifs with h
  · have hhalf : (d : ℚ) ≤ 2 * (n % d : ℕ) := by
      exact_mod_cast h.elim (fun h => h.le) (fun h => h.1.ge)
    have hlow : (1 : ℚ) / 2 ≤ (n % d : ℕ) / d := by rw [div_le_div_iff₀ two_pos hd']; linarith
    have hhigh : ((n % d : ℕ) : ℚ) / d ≤ 1 := by
      rw [div_le_one hd']
      exact_mod_cast hmod.le
    push_cast
    constructor <;> linarith
  · have hhalf : 2 * ((n % d : ℕ) : ℚ) ≤ d := by
      have : 2 * (n % d) ≤ d := by omega
      exact_mod_cast this
    have hlow : (0 : ℚ) ≤ (n % d : ℕ) / d := by positivity
    have hhigh : ((n % d : ℕ) : ℚ) / d ≤ 1 / 2 := by rw [div_le_div_iff₀ hd' two_pos]; linarith
    constructor <;> linarith

theorem divRound_mono (hd : 0 < d) (hd' : 0 < d') (h : n * d' ≤ n' * d) :
    divRound n d ≤ divRound n' d' := by
  have hfloor : n / d ≤ n' / d' := by
    rw [Nat.le_div_iff_mul_le hd', ← Nat.mul_le_mul_right_iff hd]
    calc n / d * d' * d = n / d * d * d' := Nat.mul_right_comm _ _ _
      _ ≤ n * d' := Nat.mul_le_mul_right _ (Nat.div_mul_le_self n d)
      _ ≤ n' * d := h
  have hlast : divRound n' d' ≥ n' / d' := by
    unfold divRound
    split_ifs
    · exact Nat.le_succ _
    · exact le_rfl
  rcases hfloor.lt_or_eq with hlt | heq
  · refine le_trans ?_ hlast
    unfold divRound
    split_ifs
    · exact hlt
    · exact hlt.le
  · -- the same integer part: what is left over decides, and it keeps the order
    have hrest : n % d * d' ≤ n' % d' * d := by
      have hn := Nat.div_add_mod n d
      have hn' := Nat.div_add_mod n' d'
      rw [← heq] at hn'
      have : d * (n / d) * d' + n % d * d' ≤ d' * (n / d) * d + n' % d' * d := by
        rw [← Nat.add_mul, ← Nat.add_mul, hn, hn']
        exact h
      have hswap : d * (n / d) * d' = d' * (n / d) * d := by ring
      omega
    unfold divRound
    rw [← heq]
    split_ifs with hup hup' hup'
    · exact le_rfl
    · exfalso
      push Not at hup'
      obtain ⟨hle, htie⟩ := hup'
      have hle' : 2 * (n' % d') * d ≤ d' * d := Nat.mul_le_mul_right _ hle
      rcases hup with hup | ⟨hup, hodd⟩
      · have : d * d' < 2 * (n % d) * d' := Nat.mul_lt_mul_of_pos_right hup hd'
        nlinarith
      · have : d * d' = 2 * (n % d) * d' := by rw [hup]
        have heq' : 2 * (n' % d') * d = d' * d := by nlinarith
        exact absurd hodd (htie (Nat.eq_of_mul_eq_mul_right hd heq'))
    · exact Nat.le_succ _
    · exact le_rfl

end Nearest

section Rounded
variable {n d n' d' : ℕ}

/-- The unit in the last place that a fraction is rounded to, as a power of two. -/
def unitExponent (n d : ℕ) : ℤ := max (binade n d) (-1022) - 52

def significand (n d : ℕ) : ℕ :=
  divRound (n * 2 ^ (-unitExponent n d).toNat) (d * 2 ^ (unitExponent n d).toNat)

def rounded (n d : ℕ) : ℚ := significand n d * 2 ^ unitExponent n d

theorem ratio_scaled (n d : ℕ) (u : ℤ) :
    ((n * 2 ^ (-u).toNat : ℕ) : ℚ) / (d * 2 ^ u.toNat : ℕ) = n / d * 2 ^ (-u) := by
  rw [zpow_eq_ratio (-u), neg_neg, Nat.cast_mul, Nat.cast_mul, mul_div_mul_comm]

theorem rounded_near (hd : 0 < d) : |rounded n d - n / d| ≤ 2 ^ (unitExponent n d - 1) := by
  have hnear : |(significand n d : ℚ) - n / d * 2 ^ (-unitExponent n d)| ≤ 1 / 2 := by
    rw [← ratio_scaled]
    exact divRound_near (by positivity)
  set u := unitExponent n d with hu
  have hback : (n : ℚ) / d = n / d * 2 ^ (-u) * 2 ^ u := by
    rw [mul_assoc, ← zpow_add₀ (by norm_num), neg_add_cancel, zpow_zero, mul_one]
  calc |rounded n d - n / d| = |((significand n d : ℚ) - n / d * 2 ^ (-u)) * 2 ^ u| := by
        rw [sub_mul, ← hback]
        rfl
    _ = |(significand n d : ℚ) - n / d * 2 ^ (-u)| * 2 ^ u := by
        rw [abs_mul, abs_of_pos (by positivity : (0 : ℚ) < 2 ^ u)]
    _ ≤ 1 / 2 * 2 ^ u := by gcongr
    _ = 2 ^ (u - 1) := by
        rw [zpow_sub_one₀ (by norm_num)]
        ring

theorem significand_le (hn : 0 < n) (hd : 0 < d) : significand n d ≤ 2 ^ 53 := by
  have hbelow : (n : ℚ) / d < 2 ^ (unitExponent n d + 53) := by
    refine (binade_spec hn hd).2.trans_le (zpow_le_zpow_right₀ (by norm_num) ?_)
    unfold unitExponent
    omega
  have hone : divRound (2 ^ 53) 1 = 2 ^ 53 := by decide
  rw [← hone]
  apply divRound_mono (by positivity) one_pos
  have hscaled : (n : ℚ) / d * 2 ^ (-unitExponent n d) ≤ 2 ^ 53 := by
    calc (n : ℚ) / d * 2 ^ (-unitExponent n d) ≤ 2 ^ (unitExponent n d + 53) * 2 ^
      (-unitExponent n d) := by gcongr
      _ = 2 ^ (53 : ℤ) := by
        rw [← zpow_add₀ (by norm_num)]
        congr 1
        ring
      _ = 2 ^ 53 := zpow_ofNat 2 53
  rw [← ratio_scaled, div_le_iff₀ (by positivity)] at hscaled
  rw [mul_one]
  exact_mod_cast hscaled

theorem le_significand (hn : 0 < n) (hd : 0 < d) (h : -1022 ≤ binade n d) :
    2 ^ 52 ≤ significand n d := by
  have habove : (2 : ℚ) ^ (unitExponent n d + 52) ≤ n / d := by
    refine le_trans (zpow_le_zpow_right₀ (by norm_num) ?_) (binade_spec hn hd).1
    unfold unitExponent
    omega
  have hone : divRound (2 ^ 52) 1 = 2 ^ 52 := by decide
  rw [← hone]
  apply divRound_mono one_pos (by positivity)
  have hscaled : (2 : ℚ) ^ 52 ≤ n / d * 2 ^ (-unitExponent n d) := by
    calc (2 : ℚ) ^ 52 = 2 ^ (52 : ℤ) := (zpow_ofNat 2 52).symm
      _ = 2 ^ (unitExponent n d + 52) * 2 ^ (-unitExponent n d) := by
        rw [← zpow_add₀ (by norm_num)]
        congr 1
        ring
      _ ≤ n / d * 2 ^ (-unitExponent n d) := by gcongr
  rw [← ratio_scaled, le_div_iff₀ (by positivity)] at hscaled
  rw [mul_one]
  exact_mod_cast hscaled

theorem binade_mono (hn : 0 < n) (hd : 0 < d) (hn' : 0 < n') (hd' : 0 < d')
    (h : (n : ℚ) / d ≤ n' / d') :
    binade n d ≤ binade n' d' := by
  have hlt := (binade_spec hn hd).1.trans_lt (h.trans_lt (binade_spec hn' hd').2)
  exact Int.lt_add_one_iff.mp ((zpow_lt_zpow_iff_right₀ (by norm_num)).mp hlt)

theorem significand_zero (d : ℕ) : significand 0 d = 0 := by
  unfold significand divRound
  rw [Nat.zero_mul, Nat.zero_mod, Nat.zero_div]
  exact if_neg (by simp)

theorem rounded_mono (hd : 0 < d) (hd' : 0 < d') (hratio : (n : ℚ) / d ≤ n' / d') :
    rounded n d ≤ rounded n' d' := by
  have h : n * d' ≤ n' * d := by
    rw [div_le_div_iff₀ (by exact_mod_cast hd) (by exact_mod_cast hd')] at hratio
    exact_mod_cast hratio
  rcases Nat.eq_zero_or_pos n with rfl | hn
  · unfold rounded
    rw [significand_zero, Nat.cast_zero, zero_mul]
    positivity
  have hn' : 0 < n' := by
    rcases Nat.eq_zero_or_pos n' with rfl | hn'
    · rw [Nat.zero_mul, Nat.le_zero] at h
      exact absurd h (Nat.mul_pos hn hd').ne'
    · exact hn'
  have hbinade := binade_mono hn hd hn' hd' hratio
  rcases (show unitExponent n d ≤ unitExponent n'
    d' by unfold unitExponent; omega).eq_or_lt with hunit | hunit
  · have hmono : significand n d ≤ significand n' d' := by
      unfold significand
      rw [← hunit]
      apply divRound_mono (by positivity) (by positivity)
      calc n * 2 ^ (-unitExponent n d).toNat * (d' * 2 ^ (unitExponent n d).toNat)
          = n * d' * (2 ^ (-unitExponent n d).toNat * 2 ^ (unitExponent n d).toNat) := by ring
        _ ≤ n' * d * (2 ^ (-unitExponent n d).toNat * 2 ^ (unitExponent n d).toNat) :=
          Nat.mul_le_mul_right _ h
        _ = n' * 2 ^ (-unitExponent n d).toNat * (d * 2 ^ (unitExponent n d).toNat) := by ring
    unfold rounded
    rw [← hunit]
    gcongr
  · -- a larger unit: all of its significands lie above
    have hnormal : -1022 ≤ binade n' d' := by
      unfold unitExponent at hunit
      omega
    have hhigh : (significand n d : ℚ) ≤ 2 ^ 53 := by exact_mod_cast significand_le hn hd
    have hlow : (2 : ℚ) ^ 52 ≤ significand n' d' := by exact_mod_cast le_significand hn' hd' hnormal
    calc rounded n d ≤ 2 ^ 53 * 2 ^ unitExponent n d := by unfold rounded; gcongr
      _ = 2 ^ 52 * 2 ^ (unitExponent n d + 1) := by rw [zpow_add_one₀ (by norm_num)]; ring
      _ ≤ 2 ^ 52 * 2 ^ unitExponent n' d' := by gcongr <;> [norm_num; omega]
      _ ≤ rounded n' d' := by unfold rounded; gcongr

theorem rounded_congr (hd : 0 < d) (hd' : 0 < d') (h : (n : ℚ) / d = n' / d') :
    rounded n d = rounded n' d' :=
  le_antisymm (rounded_mono hd hd' h.le) (rounded_mono hd' hd h.ge)

theorem binade_congr (hn : 0 < n) (hd : 0 < d) (hn' : 0 < n') (hd' : 0 < d')
    (h : (n : ℚ) / d = n' / d') :
    binade n d = binade n' d' :=
  le_antisymm (binade_mono hn hd hn' hd' h.le) (binade_mono hn' hd' hn hd h.ge)

theorem binade_lt (hn : 0 < n) (hd : 0 < d) {e : ℤ} (h : (n : ℚ) / d < 2 ^ e) : binade n d < e :=
  (zpow_lt_zpow_iff_right₀ (by norm_num)).mp ((binade_spec hn hd).1.trans_lt h)

/-- The double of a significand in units of a binade. -/
def pack (neg : Bool) (k : ℤ) (q : ℕ) : Double :=
  let exponent := (k + 1023).toNat + if q = 2 ^ 53 then 1 else 0
  let fraction : Fin (2 ^ 52) := ⟨q % 2 ^ 52, Nat.mod_lt q (Nat.two_pow_pos 52)⟩
  if q < 2 ^ 52 then finite { F64.zero with neg, fraction }
  else if h : exponent < 2047 then finite ⟨neg, ⟨exponent, h⟩, fraction⟩
  else infinite neg

theorem ofRatio_eq_pack (neg : Bool) (hn : 0 < n) :
    ofRatio neg n d = pack neg (max (binade n d) (-1022)) (significand n d) := by
  unfold significand unitExponent
  rw [neg_sub]
  exact if_neg hn.ne'

theorem ofRatio_congr (neg : Bool) (hn : 0 < n) (hd : 0 < d) (hn' : 0 < n') (hd' : 0 < d')
    (h : (n : ℚ) / d = n' / d') : ofRatio neg n d = ofRatio neg n' d' := by
  have hbinade := binade_congr hn hd hn' hd' h
  have hunit : unitExponent n d = unitExponent n' d' := by
    unfold unitExponent
    rw [hbinade]
  have hrounded := rounded_congr hd hd' h
  have hpow : (2 : ℚ) ^ unitExponent n' d' ≠ 0 := by positivity
  unfold rounded at hrounded
  rw [hunit] at hrounded
  have hsignificand : significand n d = significand n' d' := by
    exact_mod_cast mul_right_cancel₀ hpow hrounded
  rw [ofRatio_eq_pack neg hn, ofRatio_eq_pack neg hn', hbinade, hsignificand]

theorem pack_finite (neg : Bool) {k : ℤ} {q : ℕ} (hlow : -1022 ≤ k) (hhigh : k ≤ 1022)
    (hle : q ≤ 2 ^ 53) (hnormal : -1022 < k → 2 ^ 52 ≤ q) :
    ∃ f : F64, pack neg k q = finite f ∧ f.neg = neg ∧ (f.num : ℚ) / f.den = q * 2 ^ (k - 52) := by
  by_cases hsub : q < 2 ^ 52
  · have hmin : k = -1022 := by omega
    refine ⟨_, if_pos hsub, rfl, ?_⟩
    rw [F64.ratio_subnormal rfl, hmin]
    dsimp only
    rw [Nat.mod_eq_of_lt hsub]
    rfl
  · have hexponent : (k + 1023).toNat + (if q = 2 ^ 53 then 1 else 0) < 2047 := by
      split_ifs <;> omega
    refine ⟨_, (if_neg hsub).trans (dif_pos hexponent), rfl, ?_⟩
    rw [F64.ratio_normal (by dsimp only; omega)]
    dsimp only
    by_cases htop : q = 2 ^ 53
    · -- the significand that was rounded up to the next binade
      have hplace : (((k + 1023).toNat + 1 : ℕ) : ℤ) - 1075 = k - 52 + 1 := by omega
      rw [if_pos htop, htop, hplace, zpow_add_one₀ (by norm_num)]
      norm_num
      ring
    · have hfraction : 2 ^ 52 + q % 2 ^ 52 = q := by omega
      have hplace : (((k + 1023).toNat + 0 : ℕ) : ℤ) - 1075 = k - 52 := by omega
      rw [if_neg htop, hfraction, hplace]

/-- Below the largest binade the double of a fraction is finite and holds the rounded value. -/
theorem ofRatio_finite (neg : Bool) (hd : 0 < d) {e : ℤ} (he : e ≤ 1023) (h : (n : ℚ) / d < 2 ^ e) :
    ∃ f : F64, ofRatio neg n d = finite f ∧ f.neg = neg ∧ (f.num : ℚ) / f.den = rounded n d := by
  rcases Nat.eq_zero_or_pos n with rfl | hn
  · refine ⟨{ F64.zero with neg }, by rw [ofRatio, if_pos rfl], rfl, ?_⟩
    unfold rounded
    rw [significand_zero, Nat.cast_zero, zero_mul]
    exact div_eq_zero_iff.mpr (.inl rfl)
  have hbinade := binade_lt hn hd h
  rw [ofRatio_eq_pack neg hn]
  exact pack_finite neg (le_max_right _ _) (max_le (by omega) (by norm_num)) (significand_le hn hd)
    fun hlt => le_significand hn hd (by omega)

theorem rounded_nonneg (n d : ℕ) : 0 ≤ rounded n d := by
  unfold rounded
  positivity

theorem rounded_le (hd : 0 < d) {e : ℤ} (he : -1022 < e) (h : (n : ℚ) / d < 2 ^ e) :
    rounded n d ≤ 2 ^ e := by
  rcases Nat.eq_zero_or_pos n with rfl | hn
  · unfold rounded
    rw [significand_zero, Nat.cast_zero, zero_mul]
    positivity
  have hbinade := binade_lt hn hd h
  have hle : (significand n d : ℚ) ≤ 2 ^ 53 := by exact_mod_cast significand_le hn hd
  calc rounded n d ≤ 2 ^ (53 : ℤ) * 2 ^ unitExponent n d := by
        unfold rounded
        rw [zpow_ofNat]
        gcongr
    _ = 2 ^ (53 + unitExponent n d) := by rw [zpow_add₀ (by norm_num)]
    _ ≤ 2 ^ e := by
      apply zpow_le_zpow_right₀ (by norm_num)
      unfold unitExponent
      omega

theorem rounded_error (hd : 0 < d) {e : ℤ} (he : -1022 < e) (h : (n : ℚ) / d < 2 ^ e) :
    |rounded n d - n / d| ≤ 2 ^ (e - 54) := by
  rcases Nat.eq_zero_or_pos n with rfl | hn
  · unfold rounded
    rw [significand_zero, Nat.cast_zero, zero_mul, zero_div, sub_zero, abs_zero]
    positivity
  have hbinade := binade_lt hn hd h
  refine (rounded_near hd).trans (zpow_le_zpow_right₀ (by norm_num) ?_)
  unfold unitExponent
  omega

theorem rounded_lt_succ (hd : 0 < d) {e : ℤ} (he : -1022 < e) (h : ((n + 1 : ℕ) : ℚ) / d < 2 ^ e)
    (hunit : (2 : ℚ) ^ (e - 53) < 1 / d) : rounded n d < rounded (n + 1) d := by
  have hbelow : (n : ℚ) / d ≤ (n + 1 : ℕ) / d := by
    gcongr
    exact Nat.le_succ n
  have hlow := (abs_le.mp (rounded_error hd he (hbelow.trans_lt h))).2
  have hhigh := (abs_le.mp (rounded_error hd he h)).1
  have hstep : ((n + 1 : ℕ) : ℚ) / d = n / d + 1 / d := by
    push_cast
    exact add_div _ _ _
  have hhalves : (2 : ℚ) ^ (e - 53) = 2 ^ (e - 54) + 2 ^ (e - 54) := by
    rw [show e - 53 = e - 54 + 1 by ring, zpow_add_one₀ (by norm_num)]
    ring
  linarith

theorem rounded_integer (hlt : n < 2 ^ 53) : rounded n 1 = n := by
  rcases Nat.eq_zero_or_pos n with rfl | hn
  · unfold rounded
    rw [significand_zero, Nat.cast_zero, zero_mul]
  have hbinade : binade n 1 < 53 := by
    apply binade_lt hn one_pos
    rw [Nat.cast_one, div_one, zpow_ofNat]
    exact_mod_cast hlt
  have hunit : (unitExponent n 1).toNat = 0 := by unfold unitExponent; omega
  have hexact : significand n 1 = n * 2 ^ (-unitExponent n 1).toNat := by
    unfold significand divRound
    rw [hunit, pow_zero, mul_one, Nat.mod_one, Nat.div_one]
    exact if_neg (by simp)
  have hnonpos : unitExponent n 1 = -((-unitExponent n 1).toNat : ℤ) := by omega
  unfold rounded
  rw [hexact, hnonpos, zpow_neg, zpow_natCast, neg_neg, Int.toNat_natCast]
  push_cast
  field_simp

end Rounded

section Quotient
variable {n : ℕ}

theorem ofNat_finite (h : n < 2 ^ 128) :
    ∃ f : F64, ofNat n = finite f ∧ f.neg = false ∧ (f.num : ℚ) / f.den = rounded n 1 := by
  apply @ofRatio_finite n 1 false one_pos 128 (by norm_num)
  rw [Nat.cast_one, div_one, zpow_ofNat]
  exact_mod_cast h

theorem le_finite {f g : F64} (hf : f.neg = false) (hg : g.neg = false) :
    le (finite f) (finite g) = decide ((f.num : ℚ) / f.den ≤ g.num / g.den) := by
  have hle : le (finite f) (finite g) = decide (f.toRat ≤ g.toRat) := rfl
  rw [hle]
  unfold F64.toRat
  rw [hf, hg, if_neg Bool.false_ne_true, one_mul, one_mul]

theorem div_ofNat {c : ℕ} (h : n < 2 ^ 128) (hc : 0 < c) (hsmall : c < 2 ^ 53) :
    ∃ (q : F64) (a b : ℕ), div (ofNat n) (ofNat c) = finite q ∧ q.neg = false ∧ 0 < b ∧
      (q.num : ℚ) / q.den = rounded a b ∧ (a : ℚ) / b = rounded n 1 / c := by
  obtain ⟨f, hf, hfneg, hfvalue⟩ := ofNat_finite h
  obtain ⟨g, hg, hgneg, hgvalue⟩ := ofNat_finite (hsmall.trans (by norm_num : 2 ^ 53 < 2 ^ 128))
  rw [rounded_integer hsmall] at hgvalue
  have hc' : (0 : ℚ) < c := by exact_mod_cast hc
  have hgden : (0 : ℚ) < g.den := by exact_mod_cast g.den_pos
  have hgnum : g.num ≠ 0 := by
    intro hzero
    rw [hzero, Nat.cast_zero, zero_div] at hgvalue
    exact hc'.ne hgvalue
  have hratio : ((f.num * g.den : ℕ) : ℚ) / (f.den * g.num : ℕ) = rounded n 1 / c := by
    rw [← hfvalue, ← hgvalue]
    push_cast
    rw [div_div_div_eq]
  have hpos : 0 < f.den * g.num := Nat.mul_pos f.den_pos (Nat.pos_of_ne_zero hgnum)
  have hbelow : rounded n 1 ≤ 2 ^ (128 : ℤ) := by
    apply rounded_le one_pos (by norm_num)
    rw [Nat.cast_one, div_one, zpow_ofNat]
    exact_mod_cast h
  obtain ⟨q, hq, hqneg, hqvalue⟩ :=
    @ofRatio_finite (f.num * g.den) (f.den * g.num) false hpos 129 (by norm_num) (by
    rw [hratio]
    refine (div_le_self (rounded_nonneg n 1) (by exact_mod_cast hc)).trans_lt (hbelow.trans_lt ?_)
    exact zpow_lt_zpow_right₀ (by norm_num) (by norm_num))
  refine ⟨q, _, _, ?_, hqneg, hpos, hqvalue, hratio⟩
  have hdiv :
      div (finite f) (finite g) = if g.num =
      0 then if f.num = 0 then nan else infinite (f.neg != g.neg)
      else ofRatio (f.neg != g.neg) (f.num * g.den) (f.den * g.num) := rfl
  rw [hf, hg, hdiv, if_neg hgnum, hfneg, hgneg]
  exact hq

/-- Comparing the quotient as doubles with the double of a fraction is comparing integers, where
the next fraction has a double of its own. -/
theorem le_div_ofNat {c b : ℕ} (h : n < 2 ^ 128) (hc : 0 < c) (hsmall : c < 2 ^ 53)
    (hb : b + 1 < 2 ^ 53) (hapart : rounded b c < rounded (b + 1) c) :
    le (div (ofNat n) (ofNat c)) (ofRatio false b c) = decide (n ≤ b) := by
  obtain ⟨q, x, y, hq, hqneg, hy, hqvalue, hratio⟩ := div_ofNat h hc hsmall
  obtain ⟨g, hg, hgneg, hgvalue⟩ := @ofRatio_finite b c false hc 53 (by norm_num) (by
    refine (div_le_self (Nat.cast_nonneg b) (by exact_mod_cast hc)).trans_lt ?_
    rw [zpow_ofNat]
    exact_mod_cast (Nat.lt_succ_self b).trans hb)
  have hc' : (0 : ℚ) < c := by exact_mod_cast hc
  rw [hq, hg, le_finite hqneg hgneg, hqvalue, hgvalue]
  apply decide_eq_decide.mpr
  constructor
  · intro hle
    by_contra hlt
    have hnext : rounded (b + 1) 1 ≤ rounded n 1 := by
      apply rounded_mono one_pos one_pos
      rw [Nat.cast_one, div_one, div_one]
      exact_mod_cast not_le.mp hlt
    rw [rounded_integer hb] at hnext
    have habove : rounded (b + 1) c ≤ rounded x y := by
      apply rounded_mono hc hy
      rw [hratio]
      gcongr
    exact absurd (hapart.trans_le habove) (not_lt.mpr hle)
  · intro hle
    have hbelow : rounded n 1 ≤ rounded b 1 := by
      apply rounded_mono one_pos one_pos
      gcongr
    rw [@rounded_integer b (by omega)] at hbelow
    apply rounded_mono hy hc
    rw [hratio]
    gcongr

end Quotient

section Fixed

def fixedText (places q : ℕ) : List Char :=
  let part := Nat.toDigits 10 (q % 10 ^ places)
  Nat.toDigits 10 (q / 10 ^ places) ++ '.' :: (List.replicate (places - part.length) '0' ++ part)

/-- Formatting with a fixed number of decimal places: the exact value, rounded to nearest. -/
def formatFixed (places : ℕ) : Double → List Char
  | finite f =>
    (if f.neg then ['-'] else []) ++ fixedText places (divRound (f.num * 10 ^ places) f.den)
  | infinite neg => (if neg then ['-'] else []) ++ ['i', 'n', 'f']
  | nan => ['N', 'a', 'N']

theorem formatFixed_finite (places : ℕ) (f : F64) : formatFixed places (finite f) =
    (if f.neg then ['-'] else []) ++ fixedText places (divRound (f.num * 10 ^ places) f.den) := rfl

theorem divRound_eq {n d q : ℕ} (hd : 0 < d) (h : |(n : ℚ) / d - q| < 1 / 2) :
    divRound n d = q := by
  have hnear := abs_le.mp (@divRound_near n d hd)
  have hclose := abs_lt.mp h
  have hlow : (divRound n d : ℚ) < q + 1 := by linarith [hnear.2, hclose.2]
  have hhigh : (q : ℚ) < divRound n d + 1 := by linarith [hnear.1, hclose.1]
  have hlow' : divRound n d < q + 1 := by exact_mod_cast hlow
  have hhigh' : q < divRound n d + 1 := by exact_mod_cast hhigh
  omega

/-- A count of decimal units keeps all of its places when it is divided as a double and written
with them, as long as a unit is more than the spacing of the doubles there. -/
theorem formatFixed_div {s places : ℕ} {e : ℤ} (hsmall : 10 ^ places < 2 ^ 53) (hs : s < 2 ^ 53)
    (he : -1022 < e) (hsize : (s : ℚ) / 10 ^ places < 2 ^ e)
      (hunit : (2 : ℚ) ^ (e - 54) * 10 ^ places < 1 / 2) :
    formatFixed places (div (ofNat s) (ofNat (10 ^ places))) = fixedText places s := by
  have hpos : (0 : ℚ) < 10 ^ places := by positivity
  obtain ⟨f, a, b, hf, hneg, hb, hvalue, hratio⟩ :=
    div_ofNat (hs.trans (by norm_num : 2 ^ 53 < 2 ^ 128)) (by positivity : 0 < 10 ^ places) hsmall
  rw [rounded_integer hs] at hratio
  push_cast at hratio
  have herror : |(f.num : ℚ) / f.den - s / 10 ^ places| ≤ 2 ^ (e - 54) := by
    rw [hvalue, ← hratio]
    exact rounded_error hb he (hratio ▸ hsize)
  have hexact : divRound (f.num * 10 ^ places) f.den = s := by
    apply divRound_eq f.den_pos
    have hscale : ((f.num * 10 ^ places : ℕ) : ℚ) / f.den - s =
        (f.num / f.den - s / 10 ^ places) * 10 ^ places := by
      push_cast
      field_simp
    rw [hscale, abs_mul, abs_of_pos hpos]
    exact (mul_le_mul_of_nonneg_right herror hpos.le).trans_lt hunit
  rw [hf, formatFixed_finite, hneg, if_neg Bool.false_ne_true, List.nil_append, hexact]

end Fixed

end Double
end Lobster
