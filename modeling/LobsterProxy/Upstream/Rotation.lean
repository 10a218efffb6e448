import LobsterProxy.Upstream.Selection
import Mathlib.Data.List.Rotate

/-! The rotation within the top rank: picks that no binding decides go through the leading
accounts in turn, whatever else happens in between. -/

namespace Lobster.Upstream
open PoolState

section Turns
variable {α : Type}

/-- What stands at so many places in turn from the counter on. -/
def turns (list : List α) : Nat → Nat → List (Option α)
  | _, 0 => []
  | counter, n + 1 => list[counter % list.length]? :: turns list (counter + 1) n

theorem length_turns (list : List α) (counter n : Nat) : (turns list counter n).length = n := by
  induction n generalizing counter with
  | zero => rfl
  | succ n ih => rw [turns, List.length_cons, ih]

theorem getElem?_turns {list : List α} {counter n i : Nat} (h : i < n) :
    (turns list counter n)[i]? = some list[(counter + i) % list.length]? := by
  induction n generalizing counter i with
  | zero => exact absurd h (Nat.not_lt_zero i)
  | succ n ih =>
    cases i with
    | zero => rfl
    | succ i =>
      rw [turns, List.getElem?_cons_succ, ih (Nat.lt_of_succ_lt_succ h), Nat.add_assoc,
        Nat.add_comm 1]

theorem turns_perm (list : List α) (counter : Nat) :
    (turns list counter list.length).Perm (list.map some) := by
  have hrotated : turns list counter list.length = (list.rotate counter).map some := by
    refine List.ext_getElem? fun i => ?_
    rw [List.getElem?_map]
    by_cases hi : i < list.length
    · have hsome : ∃ a, list[(counter + i) % list.length]? = some a :=
        ⟨_, List.getElem?_eq_getElem (Nat.mod_lt _ (Nat.zero_lt_of_lt hi))⟩
      obtain ⟨a, ha⟩ := hsome
      rw [getElem?_turns hi, List.getElem?_rotate hi, Nat.add_comm i, ha, Option.map_some]
    · rw [List.getElem?_eq_none ((length_turns ..).trans_le (Nat.not_lt.mp hi)),
        List.getElem?_eq_none ((List.length_rotate ..).trans_le (Nat.not_lt.mp hi)),
        Option.map_none]
  rw [hrotated]
  exact (list.rotate_perm counter).map some

end Turns

section Leaders

/-- The accounts that nobody has more credits than. -/
def leaders (standing : List (Int × Credential)) : List Credential :=
  (standing.filter fun a => standing.all fun b => b.1 ≤ a.1).map Prod.snd

/-- The top rank of accounts whose credits are known. -/
def topOf (standing : List (Int × Credential)) : List Credential :=
  match standing.insertionSort fun a b => b.1 ≤ a.1 with
  | [] => []
  | (topCredits, first) :: rest =>
    (((topCredits, first) :: rest).filter fun a => a.1 = topCredits).map Prod.snd

theorem topOf_perm (standing : List (Int × Credential)) :
    (topOf standing).Perm (leaders standing) := by
  have hperm := List.perm_insertionSort (fun a b : Int × Credential => b.1 ≤ a.1) standing
  have hsorted := List.pairwise_insertionSort (fun a b : Int × Credential => b.1 ≤ a.1) standing
  unfold topOf
  cases hranked : standing.insertionSort fun a b => b.1 ≤ a.1 with
  | nil =>
    rw [hranked] at hperm
    rw [List.nil_perm.mp hperm]
    exact .refl _
  | cons top rest =>
    rw [hranked] at hperm hsorted
    have hbest : ∀ a ∈ standing, a.1 ≤ top.1 := by
      intro a ha
      rcases List.mem_cons.mp (hperm.mem_iff.mpr ha) with rfl | hrest
      · exact le_refl _
      · exact (List.pairwise_cons.mp hsorted).1 a hrest
    have hleads :
        ∀ a ∈ standing, decide (a.1 = top.1) = standing.all fun b => decide (b.1 ≤ a.1) := by
      intro a ha
      rw [Bool.eq_iff_iff, decide_eq_true_iff, List.all_eq_true]
      constructor
      · intro htop b hb
        exact decide_eq_true ((hbest b hb).trans_eq htop.symm)
      · intro hall
        have htop : top ∈ standing := hperm.mem_iff.mp List.mem_cons_self
        exact (hbest a ha).antisymm (of_decide_eq_true (hall top htop))
    unfold leaders
    rw [← List.filter_congr hleads]
    exact (hperm.filter _).map _

end Leaders

namespace Pool
variable {now : Nat} {sessionFp : Option String} {model : String} {present : String → Bool}
    {pool : Pool}

/-- The usable accounts with their ranks, in the order of the entries. -/
def standing (now : Nat) (model : String) (present : String → Bool) (pool : Pool) :
    List (Int × Credential) :=
  ((pool.entries.filter fun c => present c.path).filter
    fun c => pool.state.healthy now model c.uid).map
    fun c => (pool.rank c, c)

theorem topRank_eq (pool : Pool) : pool.topRank now model =
    topOf ((pool.candidates now model).map fun c => (pool.rank c, c)) := by
  unfold topRank topOf
  cases ((pool.candidates now model).map fun c => (pool.rank c, c)).insertionSort
    fun a b => b.1 ≤ a.1 with
  | nil => rfl
  | cons top rest => rfl

theorem topRank_tidied {state : PoolState}
    (h : (pool.tidy now present).pickSticky now sessionFp model = (none, state)) :
    { pool.tidy now present with state := state }.topRank now model =
      topOf (pool.standing now model present) := by
  have haccounts : state.accounts = pool.state.accounts := accounts_congr (unsticky_of_pickSticky h)
  have hhealthy (c : Credential) : state.healthy now model c.uid =
      pool.state.healthy now model c.uid :=
    healthy_congr (cooldowns_congr haccounts) now model c.uid
  have hrank (c : Credential) : { pool.tidy now present with state := state }.rank c =
    pool.rank c :=
    rank_congr haccounts
  rw [topRank_eq]
  unfold standing candidates
  simp only [hhealthy, hrank]
  rfl

/-- Ranking the accounts takes the one whose turn it is and passes the turn on. -/
theorem pick_of_unbound (h : ((pool.tidy now present).pickSticky now sessionFp model).1 = none) :
    let top := topOf (pool.standing now model present)
    (pool.pick now sessionFp model present).1 = top[pool.state.rr % top.length]? ∧
      (pool.pick now sessionFp model present).2.state.rr =
        if top = [] then pool.state.rr else (pool.state.rr + 1) % 2 ^ 64 := by
  intro top
  obtain ⟨picked, state, hpicked⟩ : ∃ picked state,
    (pool.tidy now present).pickSticky now sessionFp model = (picked, state) := ⟨_, _, rfl⟩
  rw [hpicked] at h
  cases h
  have hrr : state.rr = pool.state.rr := rr_congr (unsticky_of_pickSticky hpicked)
  have htop : { pool.tidy now present with state := state }.topRank now model = top :=
    topRank_tidied hpicked
  unfold pick
  dsimp only
  rw [hpicked]
  dsimp only
  unfold pickRanked
  dsimp only
  rw [htop, hrr]
  cases hturn : top[pool.state.rr % top.length]? with
  | none =>
    have hnil : top = [] := by
      by_contra hne
      exact absurd (Nat.mod_lt _ (List.length_pos_iff.mpr hne))
        (Nat.not_lt.mpr (List.getElem?_eq_none_iff.mp hturn))
    rw [if_pos hnil]
    exact ⟨rfl, hrr⟩
  | some credential =>
    have hne : top ≠ [] := by
      rintro hnil
      rw [hnil] at hturn
      cases hturn
    rw [if_neg hne]
    refine ⟨rfl, ?_⟩
    cases sessionFp with
    | none => rfl
    | some fp => exact (rr_congr (unsticky_bindSticky now fp _ _ _)).trans rfl

theorem rr_pick_of_bound {credential : Credential}
    (h : ((pool.tidy now present).pickSticky now sessionFp model).1 = some credential) :
    (pool.pick now sessionFp model present).2.state.rr = pool.state.rr := by
  obtain ⟨picked, state, hpicked⟩ : ∃ picked state,
    (pool.tidy now present).pickSticky now sessionFp model = (picked, state) := ⟨_, _, rfl⟩
  rw [hpicked] at h
  cases h
  unfold pick
  dsimp only
  rw [hpicked]
  exact rr_congr (unsticky_of_pickSticky hpicked)

end Pool

section Runs
open Pool
variable {now : Nat} {model : String} {present : String → Bool} {pool : Pool} {moment : Moment}
  {moments : List Moment} {standing : List (Int × Credential)}

/-- The session and the model of a pick that no binding decides. -/
def Moment.ranked? (moment : Moment) (pool : Pool) : Option (Option String × String) :=
  match moment.operation with
  | .pick sessionFp model =>
    match ((pool.tidy moment.now moment.present).pickSticky moment.now sessionFp model).1 with
    | some _ => none
    | none => some (sessionFp, model)
  | _ => none

/-- Credits, cooldowns and files are as they were when a pick ranks the accounts. -/
def Moment.Sees (standing : List (Int × Credential)) (moment : Moment) (pool : Pool) : Prop :=
  ∀ request ∈ moment.ranked? pool, pool.standing moment.now request.2 moment.present = standing

instance (standing : List (Int × Credential)) (moment : Moment) (pool : Pool) :
    Decidable (moment.Sees standing pool) :=
  inferInstanceAs (Decidable (∀ request ∈ moment.ranked? pool, _))

def rankedPicks : List Moment → Pool → List (Option Credential)
  | [], _ => []
  | moment :: moments, pool =>
    match moment.ranked? pool with
    | none => rankedPicks moments (moment.perform pool)
    | some (sessionFp, model) =>
      (pool.pick moment.now sessionFp model moment.present).1 :: rankedPicks moments
        (moment.perform pool)

theorem rr_perform_of_unranked (h : moment.ranked? pool = none) :
    (moment.perform pool).state.rr = pool.state.rr := by
  obtain ⟨now, present, read, operation⟩ := moment
  cases operation with
  | pick sessionFp model =>
    show (pool.pick now sessionFp model present).2.state.rr = pool.state.rr
    cases hpicked : ((pool.tidy now present).pickSticky now sessionFp model).1 with
    | none =>
      dsimp only [Moment.ranked?] at h
      rw [hpicked] at h
      cases h
    | some credential => exact rr_pick_of_bound hpicked
  | noteStatus c status model =>
    show (pool.noteStatus now c status model).state.rr = pool.state.rr
    rcases noteStatus_cases now c status model pool with ⟨-, h'⟩ | ⟨-, keys, h'⟩ | h'
    · rw [h']
      rfl
    · rw [h']
      exact (rr_congr (unsticky_removeAll _ _)).trans rfl
    · rw [h']
  | noteErrorThreshold c =>
    show (pool.noteErrorThreshold now c).state.rr = pool.state.rr
    rcases noteErrorThreshold_cases now c pool with ⟨-, h'⟩ | ⟨-, h'⟩ <;>
      exact (congrArg (fun pool : Pool => pool.state.rr) h').trans rfl
  | prune =>
    show (pool.prune present).state.rr = pool.state.rr
    by_cases hpresent : ∀ c ∈ pool.entries, present c.path = true
    · rw [prune_of_present hpresent]
    · rw [prune_of_absent hpresent]
      exact (rr_congr (unsticky_removeAll _ _)).trans rfl
  | noteHardCredit _ => rfl
  | noteSuccess _ => rfl
  | setCredits _ _ => rfl
  | loadFiles _ => rfl

theorem perform_of_ranked {request : Option String × String}
    (h : moment.ranked? pool = some request) :
    let top := topOf (pool.standing moment.now request.2 moment.present)
    (pool.pick moment.now request.1 request.2 moment.present).1 = top[pool.state.rr % top.length]? ∧
      (moment.perform pool).state.rr = if top = [] then
      pool.state.rr else (pool.state.rr + 1) % 2 ^ 64 := by
  obtain ⟨now, present, read, operation⟩ := moment
  cases operation with
  | pick sessionFp model =>
    cases hpicked : ((pool.tidy now present).pickSticky now sessionFp model).1 with
    | none =>
      dsimp only [Moment.ranked?] at h
      rw [hpicked] at h
      cases h
      exact pick_of_unbound hpicked
    | some credential =>
      dsimp only [Moment.ranked?] at h
      rw [hpicked] at h
      cases h
  | noteStatus _ _ _ => cases h
  | noteHardCredit _ => cases h
  | noteErrorThreshold _ => cases h
  | noteSuccess _ => cases h
  | setCredits _ _ => cases h
  | prune => cases h
  | loadFiles _ => cases h

/-- The picks that no binding decides take turns, until the counter would wrap. -/
theorem rankedPicks_eq {n : Nat}
    (hsees : Runs.Meets Moment.perform (Moment.Sees standing) moments pool)
    (hsome : topOf standing ≠ []) (hlength : (rankedPicks moments pool).length = n)
    (hroom : pool.state.rr + n ≤ 2 ^ 64) :
    rankedPicks moments pool = turns (topOf standing) pool.state.rr n := by
  induction moments generalizing pool n with
  | nil =>
    subst hlength
    rfl
  | cons moment moments ih =>
    obtain ⟨hsee, hsees⟩ := hsees
    unfold rankedPicks at hlength ⊢
    cases hranked : moment.ranked? pool with
    | none =>
      rw [hranked] at hlength
      have hrr := rr_perform_of_unranked hranked
      rw [← hrr] at hroom ⊢
      exact ih hsees hlength hroom
    | some request =>
      obtain ⟨hpicked, hrr⟩ := perform_of_ranked hranked
      rw [hsee request hranked] at hpicked hrr
      rw [if_neg hsome] at hrr
      rw [hranked] at hlength
      obtain rfl : (rankedPicks moments (moment.perform pool)).length + 1 = n := hlength
      dsimp only
      rw [turns, hpicked]
      refine congrArg (_ :: ·) ?_
      cases hrest : (rankedPicks moments (moment.perform pool)).length with
      | zero => exact List.length_eq_zero_iff.mp hrest
      | succ rest =>
        rw [hrest] at hroom
        rw [Nat.mod_eq_of_lt (by omega)] at hrr
        rw [← hrr]
        exact ih hsees hrest (by omega)

theorem nodup_leaders (hdistinct : Distinct pool.entries) :
    (leaders (pool.standing now model present)).Nodup := by
  have hentries : (pool.standing now model present).map Prod.snd =
      (pool.entries.filter fun c => present c.path).filter
        fun c => pool.state.healthy now model c.uid := by
    unfold standing
    rw [List.map_map]
    exact List.map_id _
  have hsub : (leaders (pool.standing now model present)).Sublist pool.entries := by
    refine (List.filter_sublist.map Prod.snd).trans ?_
    rw [hentries]
    exact List.filter_sublist.trans List.filter_sublist
  exact List.Nodup.of_map _ (hdistinct.sublist hsub)

/-- While credits, cooldowns and files stay as they are, as many picks in a row as there
are leaders return each of them once, whatever is served by bindings, noted or loaded in
between. -/
theorem rankedPicks_fair (now : Nat) (model : String) (present : String → Bool) (pool : Pool)
    (moments : List Moment)
    (hsees : Runs.Meets Moment.perform (Moment.Sees (pool.standing now model present)) moments pool)
    (hcount : (rankedPicks moments pool).length =
      (leaders (pool.standing now model present)).length)
    (hroom : pool.state.rr + (leaders (pool.standing now model present)).length ≤ 2 ^ 64) :
    let leading := leaders (pool.standing now model present)
    (rankedPicks moments pool).Perm (leading.map some) ∧
      (Distinct pool.entries → ∀ credential ∈ leading,
        (rankedPicks moments pool).count (some credential) = 1) := by
  intro leading
  have hperm : (rankedPicks moments pool).Perm (leading.map some) := by
    have htop := topOf_perm (pool.standing now model present)
    by_cases hnil : topOf (pool.standing now model present) = []
    · rw [hnil, List.nil_perm] at htop
      rw [htop] at hcount
      have hnone : leading.map some = [] := by rw [show leading = [] from htop, List.map_nil]
      rw [hnone, List.length_eq_zero_iff.mp hcount]
    · rw [rankedPicks_eq hsees hnil hcount hroom, ← htop.length_eq]
      exact (turns_perm ..).trans (htop.map some)
  refine ⟨hperm, fun hdistinct credential hleads => ?_⟩
  rw [hperm.count_eq]
  exact List.count_eq_one_of_mem ((nodup_leaders hdistinct).map (Option.some_injective _))
    (List.mem_map_of_mem hleads)

def bob : Credential := ⟨"1002", "bob-file", "/home/bob/credential.json", "tok-2", "rt-2"⟩

def twoLeaders : Pool :=
  Runs.run Moment.perform
    [⟨fromSecs 0, fun _ => true, fun path => some (if path = bob.path then bob else ann),
        .loadFiles [ann.path, bob.path]⟩,
      seconds 1 (.setCredits "1001" 100), seconds 1 (.setCredits "1002" 100),
      seconds 2 (.pick (some "first") "m")]
    (.new smallLimits)

theorem rankedPicks_fair_interleaved :
    let moments :=
      [seconds 3 (.pick none "m"), seconds 4 (.pick (some "first") "m"),
        seconds 5 (.noteSuccess ann),
      seconds 6 (.pick (some "second") "m")]
    rankedPicks moments twoLeaders = [some bob, some ann] ∧
    (rankedPicks moments twoLeaders).count (some ann) = 1 :=
  ⟨by decide +kernel,
  (rankedPicks_fair (fromSecs 3) "m" (fun _ => true) twoLeaders _ (by decide +kernel)
    (by decide +kernel) (by decide +kernel)).2
      (show (twoLeaders.entries.map Credential.uid).Nodup by decide +kernel)
    ann (by decide +kernel)⟩

end Runs

end Lobster.Upstream
