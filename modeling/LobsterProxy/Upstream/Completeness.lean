import LobsterProxy.Upstream.Checkin

/-! Which accounts a check-in pass reports on and which it asks for their credits. -/

namespace Lobster.Upstream

section Refused
variable (serde : Serde) (rejection : List UInt8 → String)

def saysUnauthorized (message : String) : Bool := "unauthorized".toList.isPrefixOf message.toList

/-- The answer is a 401, or its body breaks off with such words. -/
def refused : Fetched → Bool
  | .ok (status, .ok _) => status = 401
  | .ok (_, .error err) => saysUnauthorized err
  | .error _ => false

def openToday (context : Json) : Bool :=
  !((context.pointer ["state", "claimedToday"]).bind Json.asBool).getD false &&
  offersCheckin context

/-- One of the requests that the check-in comes to send is refused. -/
def Attempt.Refused (attempt : Attempt) : Prop :=
  refused attempt.slot = true ∨
    (∃ code, (getJson serde rejection attempt.slot).bind slotActivity = .ok code) ∧
      (refused attempt.context = true ∨
        ∃ context, getJson serde rejection attempt.context = .ok context ∧
          openToday context = true ∧ refused attempt.action = true)

variable {serde rejection} {fetched : Fetched} {message : String} {data : Json}

theorem saysUnauthorized_of_head {c : Char} {text : List Char} (h : message.toList = c :: text)
    (hc : c ≠ 'u') : saysUnauthorized message = false := by
  unfold saysUnauthorized
  rw [h]
  have hhead : "unauthorized".toList = 'u' :: "nauthorized".toList := rfl
  rw [hhead]
  simp [List.isPrefixOf, Ne.symm hc]

theorem saysUnauthorized_append {lead : String} {c : Char} {text : List Char} (rest : String)
    (h : lead.toList = c :: text) (hc : c ≠ 'u') : saysUnauthorized (lead ++ rest) = false := by
  have hhead : (lead ++ rest).toList = c :: (text ++ rest.toList) := by
    rw [String.toList_append, h, List.cons_append]
  exact saysUnauthorized_of_head hhead hc

theorem parseEnvelope_message {raw : List UInt8}
    (h : parseEnvelope serde rejection raw = .error message) :
    saysUnauthorized message = false := by
  unfold parseEnvelope at h
  cases hraw : serde.fromSlice raw with
  | none =>
    rw [hraw] at h
    obtain rfl := Except.error.inj h
    exact saysUnauthorized_append _ rfl (by decide)
  | some payload =>
    rw [hraw] at h
    cases h

theorem postJson_message (h : postJson serde rejection fetched = .error message) :
    saysUnauthorized message = refused fetched := by
  unfold postJson at h
  rcases fetched with err | ⟨status, err | raw⟩
  · obtain rfl := Except.error.inj h
    exact saysUnauthorized_append _ rfl (by decide)
  · obtain rfl := Except.error.inj h
    rfl
  · dsimp only at h
    split_ifs at h with hstatus hrange
    · obtain rfl := Except.error.inj h
      rw [refused, hstatus]
      rfl
    all_goals have hfine : refused (.ok (status, .ok raw)) = false := decide_eq_false hstatus
    · obtain rfl := Except.error.inj h
      rw [hfine]
      exact saysUnauthorized_append _ rfl (by decide)
    · rw [hfine]
      cases henvelope : parseEnvelope serde rejection raw with
      | error err =>
        rw [henvelope] at h
        obtain rfl := Except.error.inj h
        exact parseEnvelope_message henvelope
      | ok envelope =>
        obtain ⟨code, msg, data⟩ := envelope
        rw [henvelope] at h
        dsimp only at h
        split_ifs at h
        obtain rfl := Except.error.inj h
        rw [String.append_assoc, String.append_assoc]
        exact saysUnauthorized_append _ rfl (by decide)

theorem postJson_ok (h : postJson serde rejection fetched = .ok data) :
    refused fetched = false := by
  unfold postJson at h
  rcases fetched with err | ⟨status, err | raw⟩
  · rfl
  · cases h
  · dsimp only at h
    split_ifs at h with hstatus
    exact decide_eq_false hstatus

theorem getJson_message (h : getJson serde rejection fetched = .error message) :
    saysUnauthorized message = refused fetched := by
  unfold getJson at h
  cases hpost : postJson serde rejection fetched with
  | error err =>
    rw [hpost] at h
    obtain rfl := Except.error.inj h
    exact postJson_message hpost
  | ok data =>
    rw [hpost] at h
    dsimp only at h
    split_ifs at h
    obtain rfl := Except.error.inj h
    rw [postJson_ok hpost]
    rfl

theorem getJson_ok (h : getJson serde rejection fetched = .ok data) : refused fetched = false := by
  unfold getJson at h
  cases hpost : postJson serde rejection fetched with
  | error err =>
    rw [hpost] at h
    cases h
  | ok data => exact postJson_ok hpost

theorem slotActivity_message (h : slotActivity data = .error message) :
    saysUnauthorized message = false := by
  unfold slotActivity at h
  split_ifs at h
  · obtain rfl := Except.error.inj h
    rfl
  · cases hactivity : (data.get? "activity").bind Json.asObject with
    | none =>
      rw [hactivity] at h
      obtain rfl := Except.error.inj h
      rfl
    | some activity =>
      rw [hactivity] at h
      dsimp only at h
      split_ifs at h
      obtain rfl := Except.error.inj h
      rfl

theorem saysUnauthorized_dailyCheckin (attempt : Attempt) :
    saysUnauthorized (dailyCheckin serde rejection attempt).message = true ↔
      attempt.Refused serde rejection := by
  unfold dailyCheckin Attempt.Refused
  cases hslot : getJson serde rejection attempt.slot with
  | error err =>
    have htold := getJson_message hslot
    show saysUnauthorized err = true ↔ _
    rw [htold]
    constructor
    · exact .inl
    · rintro (h | ⟨⟨code, hcode⟩, -⟩)
      · exact h
      · cases hcode
  | ok slot =>
    have hbind : (Except.ok slot : Except String Json).bind slotActivity = slotActivity slot := rfl
    rw [getJson_ok hslot, hbind]
    cases hactivity : slotActivity slot with
    | error err =>
      have hquiet : saysUnauthorized (notCheckedIn err).message = false :=
        slotActivity_message hactivity
      simp [hquiet]
    | ok code =>
      cases hcontext : getJson serde rejection attempt.context with
      | error err =>
        have htold : saysUnauthorized (notCheckedIn err).message = refused attempt.context :=
          getJson_message hcontext
        simp [htold]
      | ok context =>
        rw [getJson_ok hcontext]
        have hright :
            (false = true ∨ (∃ code', (Except.ok code : Except String String) = .ok code') ∧
            (false = true ∨ ∃ context', (Except.ok context : Except String Json) = .ok context' ∧
              openToday context' = true ∧ refused attempt.action = true)) ↔
            openToday context = true ∧ refused attempt.action = true := by simp
        rw [hright]
        unfold openToday
        dsimp only
        generalize (((context.pointer ["state", "claimedToday"]).bind Json.asBool).getD false) =
          claimed
        split_ifs with hclosed hclaimed
        · rw [hclaimed]
          exact iff_of_false (by decide) (by simp)
        · have hoffers : offersCheckin context = false := by simpa [hclaimed] using hclosed
          rw [hoffers]
          exact iff_of_false (by dsimp only; decide) (by simp)
        · have hopen : (!claimed && offersCheckin context) = true := by simpa using hclosed
          rw [hopen, and_iff_right rfl]
          cases haction : postJson serde rejection attempt.action with
          | error err => rw [← postJson_message haction]; rfl
          | ok result =>
            rw [postJson_ok haction]
            exact iff_of_false (by dsimp only; decide) Bool.false_ne_true

end Refused

section Complete
variable {serde : Serde} {rejection : List UInt8 → String}

structure Complete (accounts : List Credential) (pass : Pass) : Prop where
  reported : pass.reports.map AccountCheckinReport.account = accounts.map Credential.safeName
  asked : pass.asked = accounts.map Credential.uid

/-- The account gets no report: its token was rejected, and the refresh failed. -/
def unreported (serde : Serde) (rejection : List UInt8 → String) (day : AccountDay) : Bool :=
  saysUnauthorized (dailyCheckin serde rejection day.first).message && !day.refresh.isOk

/-- The account's credits are not asked for: its token was rejected and refreshed. -/
def unasked (serde : Serde) (rejection : List UInt8 → String) (day : AccountDay) : Bool :=
  saysUnauthorized (dailyCheckin serde rejection day.first).message && day.refresh.isOk

theorem checkinAccount_pass (credential : Credential) (day : AccountDay) (pass : Pass) :
    let pass' := checkinAccount serde rejection credential day pass
    pass'.reports.map AccountCheckinReport.account =
      pass.reports.map AccountCheckinReport.account ++
        (if unreported serde rejection day then [] else [credential.safeName]) ∧
      pass'.asked = pass.asked ++ if unasked serde rejection day then [] else [credential.uid] := by
  unfold checkinAccount unreported unasked saysUnauthorized
  dsimp only
  cases "unauthorized".toList.isPrefixOf
    (dailyCheckin serde rejection day.first).message.toList with
  | true =>
    cases day.refresh with
    | ok tokens => simp [Pass.report, Except.isOk, Except.toBool]
    | error err => simp [learnCredits, Except.isOk, Except.toBool]
  | false => simp [Pass.report, learnCredits]

theorem checkinEach_pass (day : Nat → AccountDay) (i : Nat) (accounts : List Credential)
    (pass : Pass) :
    let pass' := checkinEach serde rejection day i accounts pass
    pass'.reports.map AccountCheckinReport.account =
      pass.reports.map AccountCheckinReport.account ++
        ((accounts.zipIdx i).filter fun a => !unreported serde rejection (day a.2)).map
          (fun a => a.1.safeName) ∧
      pass'.asked = pass.asked ++
        ((accounts.zipIdx i).filter fun a => !unasked serde rejection (day a.2)).map
          (fun a => a.1.uid) := by
  induction accounts generalizing i pass with
  | nil => simp [checkinEach]
  | cons credential accounts ih =>
    obtain ⟨hreports, hasked⟩ := ih (i + 1) (checkinAccount serde rejection credential (day i) pass)
    obtain ⟨hreport, hask⟩ := @checkinAccount_pass serde rejection credential (day i) pass
    rw [hreport] at hreports
    rw [hask] at hasked
    rw [List.zipIdx_cons]
    refine ⟨hreports.trans ?_, hasked.trans ?_⟩
    · cases hskip : unreported serde rejection (day i) <;> simp [hskip]
    · cases hskip : unasked serde rejection (day i) <;> simp [hskip]

theorem filter_zipIdx_eq_map_iff {α β : Type} {p : Nat → Bool} {f : α → β} {as : List α} :
    ((as.zipIdx.filter fun a => !p a.2).map fun a => f a.1) = as.map f ↔
      ∀ i < as.length, p i = false := by
  have hall : as.map f = as.zipIdx.map fun a => f a.1 := by
    calc as.map f = (as.zipIdx.map Prod.fst).map f := by rw [List.zipIdx_map_fst]
      _ = as.zipIdx.map fun a => f a.1 := List.map_map
  rw [hall]
  constructor
  · intro heq i hi
    have hlength := congrArg List.length heq
    rw [List.length_map, List.length_map, List.length_filter_eq_length_iff] at hlength
    have hmem : (as[i], i) ∈ as.zipIdx :=
      List.mem_zipIdx_iff_getElem?.mpr (List.getElem?_eq_getElem hi)
    simpa using hlength _ hmem
  · intro hnone
    have hself : as.zipIdx.filter (fun a => !p a.2) = as.zipIdx := by
      apply List.filter_eq_self.mpr
      rintro ⟨a, i⟩ hmem
      have hi := (List.getElem?_eq_some_iff.mp (List.mem_zipIdx_iff_getElem?.mp hmem)).1
      simp [hnone i hi]
    rw [hself]

theorem lookup_entries {pool : Pool} (h : (pool.entries.map Credential.safeName).Nodup) :
    (pool.entries.filterMap fun c => pool.credentialBySafeName c.safeName) = pool.entries := by
  have hself : ∀ c ∈ pool.entries, pool.credentialBySafeName c.safeName = some c := by
    intro c hc
    cases hfind : pool.credentialBySafeName c.safeName with
    | none =>
      have hnone := List.find?_eq_none.mp hfind c hc
      exact absurd (decide_eq_true rfl) hnone
    | some found =>
      have hname : found.safeName = c.safeName := by simpa using List.find?_some hfind
      have hmem := List.mem_of_find?_eq_some hfind
      rw [List.inj_on_of_nodup_map h hmem hc hname]
  calc pool.entries.filterMap (fun c => pool.credentialBySafeName c.safeName)
      = pool.entries.filterMap some := List.filterMap_congr hself
    _ = pool.entries := List.filterMap_some

/-- A pass is complete exactly when no account's first check-in is refused. -/
theorem checkinAll_complete_iff (serde : Serde) (rejection : List UInt8 → String)
    (day : Nat → AccountDay) (pool : Pool) (hnames : (pool.entries.map Credential.safeName).Nodup) :
    Complete pool.entries (checkinAll serde rejection day pool) ↔
      ∀ i < pool.entries.length, ¬ (day i).first.Refused serde rejection := by
  have hpass := @checkinEach_pass serde rejection day 0 pool.entries ⟨pool, [], []⟩
  have hrun : checkinAll serde rejection day pool =
      checkinEach serde rejection day 0 pool.entries ⟨pool, [], []⟩ := by
    unfold checkinAll
    rw [lookup_entries hnames]
  rw [hrun]
  dsimp only at hpass
  rw [List.map_nil, List.nil_append, List.nil_append] at hpass
  obtain ⟨hreports, hasked⟩ := hpass
  have hreported := @filter_zipIdx_eq_map_iff _ _ (fun i => unreported serde rejection (day i))
    Credential.safeName pool.entries
  have hquestions := @filter_zipIdx_eq_map_iff _ _ (fun i => unasked serde rejection (day i))
    Credential.uid pool.entries
  constructor
  · rintro ⟨hreport, hask⟩ i hi hrefused
    have htold := (saysUnauthorized_dailyCheckin (day i).first).mpr hrefused
    have hone := hreported.mp (hreports.symm.trans hreport) i hi
    have hother := hquestions.mp (hasked.symm.trans hask) i hi
    unfold unreported at hone
    unfold unasked at hother
    rw [htold, Bool.true_and] at hone hother
    rw [hother] at hone
    cases hone
  · intro hnone
    have hquiet {i : Nat} (hi : i < pool.entries.length) :
        saysUnauthorized (dailyCheckin serde rejection (day i).first).message = false := by
      rw [Bool.eq_false_iff]
      exact fun htold => hnone i hi ((saysUnauthorized_dailyCheckin _).mp htold)
    constructor
    · refine hreports.trans (hreported.mpr fun i hi => ?_)
      unfold unreported
      rw [hquiet hi, Bool.false_and]
    · refine hasked.trans (hquestions.mpr fun i hi => ?_)
      unfold unasked
      rw [hquiet hi, Bool.false_and]

theorem checkinAll_complete_iff_summary :
    Complete [ann]
      (checkinAll hundredCredits (fun _ => "") (fun _ => summaryDay)
      ⟨[ann], smallLimits, .initial⟩) ↔
      ∀ i < 1, ¬ ((fun _ => summaryDay : Nat → AccountDay) i).first.Refused hundredCredits
        (fun _ => "") :=
  checkinAll_complete_iff hundredCredits (fun _ => "") (fun _ => summaryDay)
    ⟨[ann], smallLimits, .initial⟩
    (List.nodup_singleton _)

def staleDay (refresh : Except String (String × String)) : AccountDay :=
  ⟨⟨.ok (401, .ok []), .error "timed out", .error "timed out"⟩, refresh, summaryDay.first,
  summaryDay.summary⟩

/-- A refreshed account's credits are not asked for, and an account whose refresh fails has
no report. -/
theorem checkinAll_not_complete :
    ¬ Complete [ann]
      (checkinAll hundredCredits (fun _ => "") (fun _ => staleDay (.ok ("tok-2", "rt-2")))
      ⟨[ann], smallLimits, .initial⟩) ∧
    ¬ Complete [ann]
      (checkinAll hundredCredits (fun _ => "") (fun _ => staleDay (.error "no such token"))
      ⟨[ann], smallLimits, .initial⟩) := by
  constructor
  · intro h
    exact absurd h.asked (by decide +kernel)
  · intro h
    exact absurd h.reported (by decide +kernel)

end Complete
end Lobster.Upstream
