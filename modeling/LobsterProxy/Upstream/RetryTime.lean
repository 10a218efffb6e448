import LobsterProxy.Upstream.Selection
import Mathlib.Order.Bounds.Defs

/-! When a rate-limited client may come back: `allCooledUntil` counts a cooldown of the
model that has run out, where `pick` looks at the clock. -/

namespace Lobster.Upstream
open PoolState

namespace Pool
variable {now : Nat} {nowSecs : Int} {present : String → Bool} {sessionFp : Option String}
    {model : String}
  {pool : Pool} {credential : Credential}

/-- An account of the pool that no cooldown keeps from every model. -/
def GloballyHealthy (now : Nat) (pool : Pool) (credential : Credential) : Prop :=
  credential ∈ pool.entries ∧ pool.state.globallyHealthy now credential.uid = true

def secondsLeft (now : Nat) (model : String) (pool : Pool) (credential : Credential) : Nat :=
  ((pool.state.modelFail.lookup (credential.uid, model)).getD now - now) / 10 ^ 9

/-- The retry time is when the first cooldown of a globally healthy account ends. -/
def Earliest (now : Nat) (nowSecs : Int) (model : String) (pool : Pool) : Prop :=
  ∃ secs,
    IsLeast {secs | ∃ c, pool.GloballyHealthy now c ∧ pool.secondsLeft now model c = secs} secs ∧
    pool.allCooledUntil now nowSecs model = some (nowSecs + secs)

/-- A retry time is told only when `pick` finds nobody, and then it is the earliest. -/
structure Agrees (now : Nat) (nowSecs : Int) (present : String → Bool) (model : String)
    (pool : Pool) : Prop where
  cooling : ∀ deadline, pool.allCooledUntil now nowSecs model = some deadline →
    (pool.pick now none model present).1 = none
  earliest : (∃ c, pool.GloballyHealthy now c) → (pool.pick now none model present).1 = none →
    pool.Earliest now nowSecs model

theorem pick_eq_none_iff_cooling : (pool.pick now sessionFp model present).1 = none ↔
    ∀ c, pool.GloballyHealthy now c → present c.path = true →
      pool.state.modelHealthy now c.uid model = false := by
  rw [pick_eq_none_iff]
  refine forall_congr' fun c => ?_
  unfold Usable GloballyHealthy healthy
  rw [Bool.and_eq_true]
  constructor
  · rintro hunusable ⟨hmem, hglobal⟩ hpresent
    exact Bool.eq_false_iff.mpr fun hmodel => hunusable ⟨hmem, hpresent, hglobal, hmodel⟩
  · rintro hcooling ⟨hmem, hpresent, hglobal, hmodel⟩
    rw [hcooling ⟨hmem, hglobal⟩ hpresent] at hmodel
    cases hmodel

theorem mem_modelFail_of_cooling {id : String} (h : pool.state.modelHealthy now id model = false) :
    (id, model) ∈ pool.state.modelFail := by
  by_contra hnone
  unfold modelHealthy at h
  rw [AList.lookup_eq_none.mpr hnone] at h
  cases h

theorem allCooledUntil_of_unnoted (hhealthy : pool.GloballyHealthy now credential)
    (hunnoted : (credential.uid, model) ∉ pool.state.modelFail) :
    pool.allCooledUntil now nowSecs model = none := by
  unfold allCooledUntil
  dsimp only
  refine if_pos (.inr (List.length_filterMap_lt_length_iff_exists.mpr ⟨credential, ?_, ?_⟩))
  · exact List.mem_filter.mpr hhealthy
  · rw [AList.lookup_eq_none.mpr hunnoted]
    rfl

theorem earliest_of_noted (hsome : ∃ c, pool.GloballyHealthy now c)
    (hnoted : ∀ c, pool.GloballyHealthy now c → (c.uid, model) ∈ pool.state.modelFail) :
    pool.Earliest now nowSecs model := by
  have hmem {c : Credential} :
      c ∈ (pool.entries.filter fun c => pool.state.globallyHealthy now c.uid) ↔
      pool.GloballyHealthy now c := List.mem_filter
  have huntils :
      ((pool.entries.filter fun c => pool.state.globallyHealthy now c.uid).filterMap fun c =>
      (pool.state.modelFail.lookup (c.uid, model)).map fun deadline =>
        nowSecs + ((deadline - now) / 10 ^ 9 : Nat)) =
      (pool.entries.filter fun c => pool.state.globallyHealthy now c.uid).map fun c =>
        nowSecs + (pool.secondsLeft now model c : Int) := by
    refine List.filterMap_eq_map_iff_forall_eq_some.mpr fun c hc => ?_
    obtain ⟨deadline, hdeadline⟩ :=
      Option.isSome_iff_exists.mp (AList.lookup_isSome.mpr (hnoted c (hmem.mp hc)))
    unfold secondsLeft
    rw [hdeadline]
    rfl
  unfold Earliest allCooledUntil
  dsimp only
  rw [huntils]
  generalize hhealthy : (pool.entries.filter fun c => pool.state.globallyHealthy now c.uid) =
    healthy at hmem
  have hne : healthy ≠ [] := by
    obtain ⟨c, hc⟩ := hsome
    exact List.ne_nil_of_mem (hmem.mpr hc)
  rw [List.length_map, if_neg (by simp [hne])]
  obtain ⟨deadline, huntil⟩ := Option.isSome_iff_exists.mp (List.isSome_min?_of_ne_nil
    (show healthy.map (fun c => nowSecs + (pool.secondsLeft now model c : Int)) ≠
    [] by simpa using hne))
  obtain ⟨hmin, hle⟩ := List.min?_eq_some_iff.mp huntil
  obtain ⟨c, hc, rfl⟩ := List.mem_map.mp hmin
  refine ⟨pool.secondsLeft now model c, ⟨⟨c, hmem.mp hc, rfl⟩, ?_⟩, huntil⟩
  rintro _ ⟨other, hother, rfl⟩
  have hbound := hle _ (List.mem_map_of_mem (hmem.mpr hother))
  omega

theorem agrees_of_no_healthy (hnone : ¬ ∃ c, pool.GloballyHealthy now c) :
    pool.Agrees now nowSecs present model where
  cooling _ _ := pick_eq_none_iff_cooling.mpr fun c hc => absurd ⟨c, hc⟩ hnone
  earliest hsome := absurd hsome hnone

theorem agrees_iff_of_healthy (hsome : ∃ c, pool.GloballyHealthy now c) :
    pool.Agrees now nowSecs present model ↔
      ((∀ c, pool.GloballyHealthy now c → (c.uid, model) ∈ pool.state.modelFail) ↔
        ∀ c, pool.GloballyHealthy now c → present c.path = true →
          pool.state.modelHealthy now c.uid model = false) := by
  constructor
  · rintro ⟨hcooling, hearliest⟩
    refine ⟨fun hnoted => ?_, fun hbusy c hc => ?_⟩
    · have hnoted : pool.Earliest now nowSecs model := earliest_of_noted hsome hnoted
      obtain ⟨secs, -, htold⟩ := hnoted
      exact pick_eq_none_iff_cooling.mp (hcooling _ htold)
    · obtain ⟨secs, -, htold⟩ := hearliest hsome (pick_eq_none_iff_cooling.mpr hbusy)
      by_contra hunnoted
      rw [allCooledUntil_of_unnoted hc hunnoted] at htold
      cases htold
  · intro hiff
    refine ⟨fun deadline htold => pick_eq_none_iff_cooling.mpr (hiff.mp fun c hc => ?_),
    fun _ hnone => ?_⟩
    · by_contra hunnoted
      rw [allCooledUntil_of_unnoted hc hunnoted] at htold
      cases htold
    · exact earliest_of_noted hsome (hiff.mpr (pick_eq_none_iff_cooling.mp hnone))

/-- The pick drops the accounts without a file, and with them what they hid. -/
theorem earliest_after_pick
    (hsome : ∃ c, (pool.pick now sessionFp model present).2.GloballyHealthy now c)
    (hnone : (pool.pick now sessionFp model present).1 = none) :
    (pool.pick now sessionFp model present).2.Earliest now nowSecs model := by
  obtain ⟨hfail, hmodel⟩ := Prod.mk.inj (cooldowns_pick now sessionFp model present pool)
  refine earliest_of_noted hsome fun c hc => ?_
  obtain ⟨hmem, hglobal⟩ := hc
  rw [entries_pick] at hmem
  obtain ⟨hmem, hpresent⟩ := List.mem_filter.mp hmem
  have hhealthy : pool.state.globallyHealthy now c.uid = true := by
    unfold globallyHealthy at hglobal ⊢
    rw [hfail] at hglobal
    exact hglobal
  rw [hmodel]
  exact mem_modelFail_of_cooling (pick_eq_none_iff_cooling.mp hnone c ⟨hmem, hhealthy⟩ hpresent)

/-- The two agree exactly when the globally healthy accounts have all been cooled for the
model if and only if those with a file are all cooling for it still. What is told after a
pick that found nobody is right in any case. -/
theorem agrees_after_iff (limits : LimitConfig) (moments : List Moment) (now : Nat) (nowSecs : Int)
    (present : String → Bool) (model : String) :
    let pool := Pool.after limits moments
    (pool.Agrees now nowSecs present model ↔ ((∃ c, pool.GloballyHealthy now c) →
      ((∀ c, pool.GloballyHealthy now c → (c.uid, model) ∈ pool.state.modelFail) ↔
        ∀ c, pool.GloballyHealthy now c → present c.path = true →
          pool.state.modelHealthy now c.uid model = false))) ∧
    ∀ sessionFp, (∃ c, (pool.pick now sessionFp model present).2.GloballyHealthy now c) →
      (pool.pick now sessionFp model present).1 = none →
        (pool.pick now sessionFp model present).2.Earliest now nowSecs model := by
  intro pool
  refine ⟨?_, fun sessionFp hsome hnone => earliest_after_pick hsome hnone⟩
  by_cases hsome : ∃ c, pool.GloballyHealthy now c
  · rw [agrees_iff_of_healthy hsome]
    exact ⟨fun h _ => h, fun h => h hsome⟩
  · exact iff_of_true (agrees_of_no_healthy hsome) fun h => absurd h hsome

def rateLimited : List Moment :=
  [seconds 0 (.loadFiles [ann.path]), seconds 1 (.noteStatus ann 429 "m")]

/-- A cooldown of a minute, looked at an hour later. -/
theorem rateLimited_not_agrees :
    ¬ (Pool.after smallLimits rateLimited).Agrees (fromSecs 3600) 1000 (fun _ => true) "m" := by
  intro h
  have htold : (Pool.after smallLimits rateLimited).allCooledUntil (fromSecs 3600) 1000 "m" =
      some 1000 := by
    decide +kernel
  exact absurd (h.cooling _ htold) (by decide +kernel)

end Pool
end Lobster.Upstream
