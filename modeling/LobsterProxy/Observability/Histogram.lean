import LobsterProxy.Base.Buckets
import LobsterProxy.Base.Decimal
import LobsterProxy.Base.Runs

/-! The latency histogram: an observation is compared with the bounds as a double, and what it
holds in the end is what the observations are counted by in whole milliseconds. -/

namespace Lobster.Observability
open Buckets Double

abbrev Millis := Fin (2 ^ 128)

/-- A bound in seconds, as it is written: its digits, and how many of them are after the point. -/
structure Bound where
  digits : ℕ
  places : ℕ
  deriving DecidableEq, Repr

namespace Bound

def value (b : Bound) : Double := decimal b.digits b.places

/-- The bound in milliseconds; no bound is finer. -/
def millis (b : Bound) : ℕ := b.digits * 10 ^ (3 - b.places)

end Bound

def histogramBucketsSeconds : List Bound :=
  [⟨5, 3⟩, ⟨1, 2⟩, ⟨25, 3⟩, ⟨5, 2⟩, ⟨1, 1⟩, ⟨25, 2⟩, ⟨5, 1⟩, ⟨10, 1⟩, ⟨25, 1⟩, ⟨50, 1⟩, ⟨100, 1⟩]

structure Histogram where
  buckets : List UInt64
  sumMicros : UInt64
  count : UInt64
  deriving DecidableEq, Repr

/-- The first bound that the observation does not exceed; their number when it exceeds all. -/
def bucketIndex (millis : Millis) : ℕ :=
  let seconds := div (ofNat millis) (ofNat 1000)
  histogramBucketsSeconds.findIdx fun bound => le seconds bound.value

/-- What an observation adds to the sum: it saturates twice. -/
def micros (millis : Millis) : ℕ := min (min (millis * 1000) (2 ^ 128 - 1)) (2 ^ 64 - 1)

namespace Histogram

def new : Histogram := ⟨List.replicate histogramBucketsSeconds.length 0, 0, 0⟩

def observeMs (millis : Millis) (h : Histogram) : Histogram :=
  let index := bucketIndex millis
  { buckets := if index < h.buckets.length then h.buckets.modify index (· + 1) else h.buckets
    sumMicros := h.sumMicros + UInt64.ofNat (micros millis)
    count := h.count + 1 }

def sumSeconds (h : Histogram) : Double := div (ofNat h.sumMicros.toNat) (ofNat 1000000)

def bucketCounts (h : Histogram) : List UInt64 := cumulate 0 h.buckets

def ofObservations (observations : List Millis) : Histogram :=
  ⟨(tally histogramBucketsSeconds.length (observations.map bucketIndex)).map UInt64.ofNat,
    UInt64.ofNat (observations.map micros).sum, UInt64.ofNat observations.length⟩

end Histogram

section Bounds

theorem bound_sizes :
    ∀ b ∈ histogramBucketsSeconds, 0 < b.digits ∧ b.places ≤ 3 ∧ b.millis ≤ 10000 := by decide

theorem bounds_ascend : histogramBucketsSeconds.Pairwise fun a b => a.millis < b.millis := by decide

theorem value_eq_millis {b : Bound} (hdigits : 0 < b.digits) (hplaces : b.places ≤ 3) :
    b.value = ofRatio false b.millis 1000 := by
  apply ofRatio_congr false hdigits (by positivity) (Nat.mul_pos hdigits (by positivity))
    (by norm_num)
  have hscale : (10 : ℚ) ^ (3 - b.places) * 10 ^ b.places = 1000 := by
    rw [← pow_add, Nat.sub_add_cancel hplaces]
    norm_num
  push_cast
  rw [div_eq_div_iff (by positivity) (by norm_num), mul_assoc, hscale]

/-- The comparison of doubles is the comparison of whole milliseconds. -/
theorem le_bound {b : Bound} (h : b ∈ histogramBucketsSeconds) (millis : Millis) :
    le (div (ofNat millis) (ofNat 1000)) b.value = decide (millis.val ≤ b.millis) := by
  obtain ⟨hdigits, hplaces, hsize⟩ := bound_sizes b h
  have hsize' : ((b.millis + 1 : ℕ) : ℚ) ≤ 10001 := by exact_mod_cast Nat.succ_le_succ hsize
  rw [value_eq_millis hdigits hplaces]
  apply le_div_ofNat millis.isLt (by norm_num) (by norm_num) (by omega)
  apply @rounded_lt_succ b.millis 1000 (by norm_num) 4 (by norm_num)
  · rw [div_lt_iff₀ (by norm_num)]
    exact hsize'.trans_lt (by norm_num)
  · norm_num

theorem bucketIndex_le_iff (millis : Millis) {i : ℕ} (hi : i < histogramBucketsSeconds.length) :
    bucketIndex millis ≤ i ↔ millis.val ≤ histogramBucketsSeconds[i].millis := by
  have hascending : histogramBucketsSeconds.Pairwise fun a b =>
      le (div (ofNat millis) (ofNat 1000)) a.value = true →
        le (div (ofNat millis) (ofNat 1000)) b.value = true := by
    refine bounds_ascend.imp_of_mem fun {a b} ha hb hlt => ?_
    rw [le_bound ha, le_bound hb, decide_eq_true_iff, decide_eq_true_iff]
    omega
  unfold bucketIndex
  dsimp only
  rw [findIdx_le_iff hascending hi, le_bound (List.getElem_mem hi), decide_eq_true_iff]

end Bounds

namespace Histogram

theorem new_eq : new = ofObservations [] := by decide

theorem ofNat_succ (n : ℕ) : UInt64.ofNat (n + 1) = UInt64.ofNat n + 1 := UInt64.ofNat_add n 1

theorem observeMs_ofObservations (observations : List Millis) (millis : Millis) :
    observeMs millis (ofObservations observations) = ofObservations (observations ++ [millis]) := by
  have hlength :
      ((tally histogramBucketsSeconds.length (observations.map bucketIndex)).map
      UInt64.ofNat).length =
      histogramBucketsSeconds.length := by simp [tally]
  have hbuckets :
      (tally histogramBucketsSeconds.length ((observations ++ [millis]).map bucketIndex)).map
      UInt64.ofNat =
      ((tally histogramBucketsSeconds.length (observations.map bucketIndex)).map
        UInt64.ofNat).modify
        (bucketIndex millis) (· + 1) := by
    rw [List.map_append, List.map_singleton, tally_append,
      @map_modify ℕ UInt64 UInt64.ofNat (· + 1) (· + 1) ofNat_succ]
  unfold observeMs ofObservations
  dsimp only
  rw [hbuckets, List.map_append, List.sum_append, List.map_singleton, List.sum_singleton,
    UInt64.ofNat_add, List.length_append, List.length_singleton, ofNat_succ]
  congr 1
  split_ifs with hindex
  · rfl
  · exact (List.modify_eq_self (not_lt.mp hindex)).symm

/-- The cumulative counts are those of the observations within each bound. -/
theorem bucketCounts_ofObservations (observations : List Millis) :
    (ofObservations observations).bucketCounts =
    histogramBucketsSeconds.map fun bound =>
      UInt64.ofNat (observations.countP fun millis => millis.val ≤ bound.millis) := by
  have hcounts :
      ∀ i (hi : i < histogramBucketsSeconds.length), (observations.map bucketIndex).countP (· ≤ i) =
      observations.countP fun millis => millis.val ≤ histogramBucketsSeconds[i].millis := by
    intro i hi
    rw [List.countP_map]
    congr 1
    funext millis
    exact decide_eq_decide.mpr (bucketIndex_le_iff millis hi)
  have hstart : (0 : UInt64) = UInt64.ofNat 0 := rfl
  unfold bucketCounts ofObservations
  dsimp only
  rw [hstart, cumulate_map UInt64.ofNat UInt64.ofNat_add, cumulate_tally, List.map_map]
  apply List.ext_getElem
  · simp
  · intro i hi hi'
    simp only [List.getElem_map, List.getElem_range, Function.comp_apply]
    rw [hcounts i (by simpa using hi)]

end Histogram

end Lobster.Observability
