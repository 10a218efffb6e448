import LobsterProxy.Upstream.Operations
import LobsterProxy.Upstream.Refresh

/-! The daily check-in pass. It learns the credits of the accounts, and nothing that it
learns ends a cooldown. -/

namespace Lobster.Upstream
open Redaction Server PoolState Pool

structure CheckinResult where
  ok : Bool
  /-- The day was claimed before; no error. -/
  already : Bool
  creditsGranted : Option F64
  message : String
  deriving DecidableEq

section Endpoints
variable (serde : Serde) (rejection : List UInt8 → String)

/-- The upstream `{code, msg, data}` envelope; `rejection` is what the parser says of bytes
that are no JSON. -/
def parseEnvelope (raw : List UInt8) : Except String (Int × String × Json) :=
  match serde.fromSlice raw with
  | none => .error s!"invalid JSON envelope: {rejection raw}"
  | some payload => .ok (((payload.get? "code").bind Json.asI64).getD (-1),
      (((payload.get? "message").or (payload.get? "msg")).bind Json.asStr).getD "",
      (payload.get? "data").getD .null)

/-- `post_json`, with the answer to the request. -/
def postJson (fetched : Fetched) : Except String Json :=
  match fetched with
  | .error err => .error s!"request failed: {err}"
  | .ok (_, .error err) => .error err
  | .ok (status, .ok raw) =>
    if status = 401 then .error "unauthorized (token expired)"
    else if status < 200 ∨ 300 ≤ status then .error s!"HTTP {status}"
    else match parseEnvelope serde rejection raw with
      | .error err => .error err
      | .ok (code, msg, data) => if code ≠ 0 then .error s!"code={code} msg={msg}" else .ok data

/-- `get_json` wants an object besides. -/
def getJson (fetched : Fetched) : Except String Json :=
  match postJson serde rejection fetched with
  | .error err => .error err
  | .ok data => if data.isObject then .ok data else .error "data is empty (token may have expired)"

def notCheckedIn (message : String) : CheckinResult := ⟨false, false, none, message⟩

/-- The answers to the three requests of a check-in. -/
structure Attempt where
  slot : Fetched
  context : Fetched
  action : Fetched

def offersCheckin (context : Json) : Bool :=
  (((context.get? "actions").bind Json.asArray).getD []).any
    fun action => action.asStr = some "check_in"

def grantedCredits (result : Json) : Option F64 :=
  let result := (result.get? "result").getD result
  ["creditsGranted", "rewardCredits", "credits"].findSome? fun key =>
    ((result.get? key).bind Json.asF64).filter F64.isPositive

def slotActivity (slot : Json) : Except String String :=
  if slot.getStr? "slotState" ≠ some "available" then
  .error "no available activity (slotState != available)"
  else match (slot.get? "activity").bind Json.asObject with
    | none => .error "no activity in slot"
    | some activity =>
      let code := ((activity.get? "activityCode").bind Json.asStr).getD ""
      if code = "" then .error "activity code missing" else .ok code

def dailyCheckin (attempt : Attempt) : CheckinResult :=
  match (getJson serde rejection attempt.slot).bind slotActivity with
  | .error err => notCheckedIn err
  | .ok _ =>
    match getJson serde rejection attempt.context with
    | .error err => notCheckedIn err
    | .ok context =>
      let claimedToday := ((context.pointer ["state", "claimedToday"]).bind Json.asBool).getD false
      if claimedToday ∨ !offersCheckin context then
        ⟨false, claimedToday, none,
          if claimedToday then "already claimed today" else "check_in action not available"⟩
      else match postJson serde rejection attempt.action with
        | .error err => notCheckedIn err
        | .ok result => ⟨true, false, grantedCredits result, "check-in ok"⟩

structure CreditItem where
  kind : String
  label : String
  remaining : F64
  expiresAt : Option String

structure CreditBreakdown where
  total : F64
  items : List CreditItem

def creditItem (bucket : Json) : Option CreditItem :=
  ((bucket.get? "creditsRemaining").bind Json.asF64).map fun remaining =>
    ⟨bucket.getStrD "type", bucket.getStrD "label", remaining, bucket.getStr? "expiresAt"⟩

def fetchCreditBreakdown (summary : Fetched) : Except ApiError CreditBreakdown :=
  match getJson serde rejection summary with
  | .error err => .error (.upstream 502 (sanitizeText err []))
  | .ok summary =>
    match ((summary.get? "totalCreditsRemaining").bind Json.asF64).filter F64.isNonneg with
    | none => .error (.upstream 502 "profile-summary carried no credits")
    | some total =>
      .ok ⟨total, (((summary.get? "creditItems").bind Json.asArray).getD []).filterMap creditItem⟩

/-- What one account meets with in a pass: the check-in, a forced refresh and the check-in
after it, the profile summary. -/
structure AccountDay where
  first : Attempt
  refresh : Except String (String × String)
  retry : Attempt
  summary : Fetched

structure AccountCheckinReport where
  account : String
  result : CheckinResult

/-- A pass so far. `asked` are the accounts whose credits were asked for. -/
structure Pass where
  pool : Pool
  reports : List AccountCheckinReport
  asked : List String

def learnCredits (credential : Credential) (summary : Fetched) (pass : Pass) : Pass :=
  { pass with
    pool := match fetchCreditBreakdown serde rejection summary with
      | .ok credits => pass.pool.setCredits credential.uid credits.total.toI64
      | .error _ => pass.pool
    asked := pass.asked ++ [credential.uid] }

def Pass.report (credential : Credential) (result : CheckinResult) (pass : Pass) : Pass :=
  { pass with reports := pass.reports ++ [⟨credential.safeName, result⟩] }

/-- A stale token is refreshed once and the check-in tried again. -/
def checkinAccount (credential : Credential) (day : AccountDay) (pass : Pass) : Pass :=
  let result := dailyCheckin serde rejection day.first
  if "unauthorized".toList.isPrefixOf result.message.toList then
    match day.refresh with
    -- the second check-in is reported, and the credits are not asked for
    | .ok (accessToken, refreshToken) =>
      { pass with
        pool := pass.pool.applyRefresh credential.uid accessToken refreshToken }.report credential
        (dailyCheckin serde rejection day.retry)
    -- an account that stays unauthorized has no report
    | .error _ => learnCredits serde rejection credential day.summary pass
  else learnCredits serde rejection credential day.summary (pass.report credential result)

def checkinEach (day : Nat → AccountDay) : Nat → List Credential → Pass → Pass
  | _, [], pass => pass
  | i, credential :: rest, pass =>
    checkinEach day (i + 1) rest (checkinAccount serde rejection credential (day i) pass)

/-- The accounts are looked up by the names in the snapshot; the invitation codes, which are
logged only, are left out. -/
def checkinAll (day : Nat → AccountDay) (pool : Pool) : Pass :=
  checkinEach serde rejection day 0
    (pool.entries.filterMap fun c => pool.credentialBySafeName c.safeName) ⟨pool, [], []⟩

end Endpoints

section Health
variable {serde : Serde} {rejection : List UInt8 → String} {pool pool' pool'' : Pool} {now : Nat}
  {model id : String} {present : String → Bool}

/-- The account's file is there and no cooldown stands against it. -/
def Pool.Eligible (now : Nat) (model : String) (present : String → Bool) (id : String)
    (pool : Pool) : Prop :=
  ∃ c ∈ pool.entries, c.uid = id ∧ pool.Usable now model present c

/-- The accounts and their cooldowns are as before; tokens and credits need not be. -/
structure SameHealth (pool pool' : Pool) : Prop where
  cooldowns : pool'.state.cooldowns = pool.state.cooldowns
  files : pool'.entries.map (fun c => (c.uid, c.path)) = pool.entries.map fun c => (c.uid, c.path)

theorem SameHealth.refl (pool : Pool) : SameHealth pool pool := ⟨rfl, rfl⟩

theorem SameHealth.trans (h : SameHealth pool pool') (h' : SameHealth pool' pool'') :
    SameHealth pool pool'' :=
  ⟨h'.cooldowns.trans h.cooldowns, h'.files.trans h.files⟩

theorem sameHealth_setCredits (id : String) (credits : Int) (pool : Pool) :
    SameHealth pool (pool.setCredits id credits) := ⟨rfl, rfl⟩

theorem sameHealth_applyRefresh (id accessToken refreshToken : String) (pool : Pool) :
    SameHealth pool (pool.applyRefresh id accessToken refreshToken) := by
  refine ⟨rfl, ?_⟩
  unfold Pool.applyRefresh
  rw [List.map_map]
  refine List.map_congr_left fun c _ => ?_
  dsimp only [Function.comp_apply]
  split_ifs <;> rfl

theorem sameHealth_checkinAccount (credential : Credential) (day : AccountDay) (pass : Pass) :
    SameHealth pass.pool (checkinAccount serde rejection credential day pass).pool := by
  have hlearn (pass : Pass) :
      SameHealth pass.pool (learnCredits serde rejection credential day.summary pass).pool := by
    unfold learnCredits
    cases fetchCreditBreakdown serde rejection day.summary with
    | ok credits => exact sameHealth_setCredits ..
    | error err => exact .refl _
  unfold checkinAccount
  dsimp only
  split_ifs
  · cases day.refresh with
    | ok tokens => exact sameHealth_applyRefresh ..
    | error message => exact hlearn pass
  · exact hlearn (pass.report credential _)

theorem sameHealth_checkinEach (day : Nat → AccountDay) (i : Nat) (credentials : List Credential)
    (pass : Pass) :
    SameHealth pass.pool (checkinEach serde rejection day i credentials pass).pool := by
  induction credentials generalizing i pass with
  | nil => exact .refl _
  | cons credential credentials ih =>
    exact (sameHealth_checkinAccount credential (day i) pass).trans (ih (i + 1) _)

theorem SameHealth.eligible (h : SameHealth pool pool')
    (heligible : pool.Eligible now model present id) :
    pool'.Eligible now model present id := by
  obtain ⟨c, hmem, rfl, -, hpresent, hhealthy⟩ := heligible
  have hfile : (c.uid, c.path) ∈ pool'.entries.map fun c => (c.uid, c.path) := by
    rw [h.files]
    exact List.mem_map_of_mem hmem
  obtain ⟨c', hmem', hsame⟩ := List.mem_map.mp hfile
  obtain ⟨huid, hpath⟩ := Prod.mk.inj hsame
  refine ⟨c', hmem', huid, hmem', hpath ▸ hpresent, ?_⟩
  rw [healthy_congr h.cooldowns, huid]
  exact hhealthy

theorem SameHealth.symm (h : SameHealth pool pool') : SameHealth pool' pool :=
  ⟨h.cooldowns.symm, h.files.symm⟩

/-- Only the cooldown that followed on the account's last credits stands against it. -/
structure Pool.BlockedByCredit (now deadline : Nat) (model id : String) (pool : Pool) : Prop where
  credit : pool.state.failUntil.lookup (id, .hardCredit) = some deadline
  others :
    ∀ kind ≠ CoolKind.hardCredit, ∀ d, pool.state.failUntil.lookup (id, kind) = some d → d ≤ now
  model : ∀ d, pool.state.modelFail.lookup (id, model) = some d → d ≤ now

theorem eligible_iff_of_blockedByCredit {deadline : Nat}
    (h : pool.BlockedByCredit now deadline model id)
    (hentry : ∃ c ∈ pool.entries, c.uid = id ∧ present c.path = true) :
    pool.Eligible now model present id ↔ deadline ≤ now := by
  obtain ⟨c, hmem, rfl, hpresent⟩ := hentry
  have hhealthy : pool.state.healthy now model c.uid = true ↔ deadline ≤ now := by
    unfold PoolState.healthy
    rw [Bool.and_eq_true, globallyHealthy_iff, modelHealthy_iff]
    constructor
    · exact fun hhealthy => hhealthy.1 _ _ h.credit
    · -- only the credit cooldown can still stand
      refine fun hle => ⟨fun kind d hlookup => ?_, h.model⟩
      by_cases hkind : kind = .hardCredit
      · subst hkind
        rw [h.credit] at hlookup
        exact Option.some.inj hlookup ▸ hle
      · exact h.others kind hkind d hlookup
  constructor
  · rintro ⟨c', -, huid, -, -, hc'⟩
    rw [huid] at hc'
    exact hhealthy.mp hc'
  · exact fun hle => ⟨c, hmem, rfl, hmem, hpresent, hhealthy.mpr hle⟩

/-- Whatever a check-in pass learns of an account that is blocked by its out-of-credits
cooldown alone, the account is eligible again exactly when that cooldown is over. -/
theorem checkin_revives_iff (serde : Serde) (rejection : List UInt8 → String)
    (day : Nat → AccountDay) (pool : Pool) (model id : String) (present : String → Bool)
    (now deadline : Nat) (hblocked : pool.BlockedByCredit now deadline model id)
    (hentry : ∃ c ∈ pool.entries, c.uid = id ∧ present c.path = true) :
    (checkinAll serde rejection day pool).pool.Eligible now model present id ↔ deadline ≤ now := by
  have hsame : SameHealth pool (checkinAll serde rejection day pool).pool :=
    sameHealth_checkinEach day 0 _ ⟨pool, [], []⟩
  rw [← eligible_iff_of_blockedByCredit hblocked hentry]
  exact ⟨hsame.symm.eligible, hsame.eligible⟩

def hundredCredits : Serde where
  toString _ := "\x7b\"code\":0,\"data\":\x7b\"totalCreditsRemaining\":100\x7d\x7d"
  fromSlice _ :=
    some (.obj [("code", .ofNat 0), ("data", .obj [("totalCreditsRemaining", .ofNat 100)])])
  fromStr _ :=
    some (.obj [("code", .ofNat 0), ("data", .obj [("totalCreditsRemaining", .ofNat 100)])])

def summaryDay : AccountDay :=
  let lost : Attempt := ⟨.error "timed out", .error "timed out", .error "timed out"⟩
  ⟨lost, .error "timed out", lost,
    .ok (200, .ok (hundredCredits.toString .null).toUTF8.data.toList)⟩

def outOfCredits : List Moment :=
  [seconds 0 (.loadFiles [ann.path]), seconds 1 (.noteHardCredit ann)]

theorem blocked_outOfCredits (now : Nat) :
    (Pool.after smallLimits outOfCredits).BlockedByCredit now (fromSecs 3601) "m" ann.uid := by
  have hfail : (Pool.after smallLimits outOfCredits).state.failUntil =
      AList.insert (ann.uid, .hardCredit) (fromSecs 3601) ∅ := rfl
  refine ⟨by rw [hfail]; exact AList.lookup_insert _, fun kind hkind d hlookup => ?_, nofun⟩
  rw [hfail, AList.lookup_insert_ne fun h => hkind (Prod.mk.inj h).2] at hlookup
  cases hlookup

theorem checkin_revives_iff_outOfCredits :
    (checkinAll hundredCredits (fun _ => "") (fun _ => summaryDay)
      (Pool.after smallLimits outOfCredits)).pool.Eligible (fromSecs 4000) "m"
        (fun _ => true) ann.uid ↔
        fromSecs 3601 ≤ fromSecs 4000 :=
  checkin_revives_iff hundredCredits (fun _ => "") (fun _ => summaryDay)
    (Pool.after smallLimits outOfCredits) "m"
    ann.uid (fun _ => true) (fromSecs 4000) (fromSecs 3601) (blocked_outOfCredits _)
    ⟨ann, by decide +kernel, rfl, rfl⟩

/-- A hundred credits learned, and the account is not eligible. -/
theorem checkin_does_not_revive :
    ¬ ∀ (serde : Serde) (rejection : List UInt8 → String) (day : Nat → AccountDay)
    (limits : LimitConfig) (moments : List Moment) (model id : String) (present : String → Bool)
    (now deadline : Nat), (Pool.after limits moments).BlockedByCredit now deadline model id →
    (∃ c ∈ (Pool.after limits moments).entries, c.uid = id ∧ present c.path = true) →
    (∃ credits > 0,
      (checkinAll serde rejection day (Pool.after limits moments)).pool.state.credits.lookup id =
        some credits) →
    (checkinAll serde rejection day (Pool.after limits moments)).pool.Eligible
      now model present id := by
  intro h
  obtain ⟨c, hmem, huid, -, -, hhealthy⟩ :=
    h hundredCredits (fun _ => "") (fun _ => summaryDay) smallLimits
    outOfCredits "m" ann.uid (fun _ => true) (fromSecs 2) (fromSecs 3601) (blocked_outOfCredits _)
    ⟨ann, by decide +kernel, rfl, rfl⟩ ⟨100, by decide, by decide +kernel⟩
  rw [huid] at hhealthy
  exact absurd hhealthy (by decide +kernel)

end Health
end Lobster.Upstream
