import LobsterProxy.Upstream.Generate
import LobsterProxy.Upstream.Operations

/-! Generation calls that share the pool: between the request and its answer other calls
go on. The error counter is to cool an account after three errors in a row; no call takes
note of a success, so that a row may have one within. -/

namespace Lobster.Upstream
open PoolState Pool Call

inductive Report where
  | counted
  | started
  | other
  deriving DecidableEq

def Answer.report (serde : Serde) : Answer → Report
  | .transportError _ => .counted
  | .response status body =>
    if status = 200 then
      match peekStreamError serde [] body with
      | .healthy _ _ => .started
      | .errored error => if error.isQuotaExhausted then .other else .counted
      | .unavailable => .counted
    -- the exits of `onStatus` that leave the error counter alone
    else if isOutOfCredits status (rawBody body) ∨ status = 401 ∨ status = 429 ∨ status = 403 ∨
        (500 ≤ status ∧ status ≤ 599) then .other
    else .counted

/-- A call in flight; the pool of its `call` is that of the time when it was last at the
head of the loop. -/
structure Flight where
  generation : Generation
  call : Call
  sent : Option Credential

structure Traffic where
  pool : Pool
  flights : Nat → Option Flight
  reports : List (String × Report)

/-- A turn of the loop is two events, the request and its answer. -/
inductive Event where
  | start (i : Nat) (generation : Generation)
  | send (i : Nat) (turn : Turn)
  | receive (i : Nat) (turn : Turn)

def Next.pool : Next → Pool
  | again call => call.pool
  | done pool _ => pool

def Next.flight (generation : Generation) : Next → Option Flight
  | again call => some ⟨generation, call, none⟩
  | done _ _ => none

namespace Traffic

def idle (pool : Pool) : Traffic := ⟨pool, fun _ => none, []⟩

/-- The account's counted errors and its generations that returned `Started`. -/
def row (id : String) (traffic : Traffic) : List Report :=
  traffic.reports.filterMap fun (owner, report) => if owner = id ∧
  report ≠ .other then some report else none

section Events
variable (serde : Serde)

def perform : Event → Traffic → Traffic
  | .start i generation, traffic =>
    match traffic.flights i with
    | none => { traffic with
        flights := Function.update traffic.flights i (some ⟨generation, .new traffic.pool, none⟩) }
    | some _ => traffic
  | .send i turn, traffic =>
    match traffic.flights i with
    | some ⟨generation, call, none⟩ =>
      -- other calls may have changed the pool since the last turn
      let selected := { call with pool := traffic.pool }.select generation turn
      { traffic with
        pool := selected.2
        flights := Function.update traffic.flights i
          (selected.1.map fun credential => ⟨generation, call, some credential⟩) }
    | _ => traffic
  | .receive i turn, traffic =>
    match traffic.flights i with
    | some ⟨generation, call, some credential⟩ =>
      let next := respond serde generation turn credential { call with pool := traffic.pool }
      { pool := next.pool
        flights := Function.update traffic.flights i (next.flight generation)
        reports := traffic.reports ++ [(credential.uid, turn.answer.report serde)] }
    | _ => traffic

def after (pool : Pool) (events : List Event) : Traffic :=
  Runs.run (perform serde) events (idle pool)

end Events
end Traffic

def Pool.errors (id : String) (pool : Pool) : Nat := (pool.state.errCounts.lookup id).getD 0

section Errors
variable {serde : Serde} {generation : Generation} {turn : Turn} {call : Call}
    {credential : Credential}
  {pool : Pool} {now : Nat} {id : String}

theorem errCounts_congr {state state' : PoolState} (h : state'.accounts = state.accounts) :
    state'.errCounts = state.errCounts := (Prod.mk.inj (Prod.mk.inj (Prod.mk.inj h).2).2).2

theorem errors_congr {pool' : Pool} (h : pool'.state.errCounts = pool.state.errCounts) :
    pool'.errors id = pool.errors id := by
  unfold Pool.errors
  rw [h]

theorem errors_select (generation : Generation) (turn : Turn) (call : Call) :
    (call.select generation turn).2.errors id = call.pool.errors id := by
  unfold select
  split
  · rfl
  · exact errors_congr (errCounts_congr (accounts_pick ..))

theorem errors_noteErrorThreshold : (pool.noteErrorThreshold now credential).errors credential.uid =
    if 2 ≤ pool.errors credential.uid then 0 else pool.errors credential.uid + 1 := by
  rcases noteErrorThreshold_cases now credential pool with ⟨hthird, h⟩ | ⟨hcount, h⟩
  · refine Eq.trans ?_ (if_pos hthird).symm
    rw [h]
    exact congrArg (Option.getD · 0) (AList.lookup_insert _)
  · refine Eq.trans ?_ (if_neg (Nat.not_le.mpr hcount)).symm
    rw [h]
    exact congrArg (Option.getD · 0) (AList.lookup_insert _)

theorem errors_noteErrorThreshold_ne (hne : id ≠ credential.uid) :
    (pool.noteErrorThreshold now credential).errors id = pool.errors id := by
  rcases noteErrorThreshold_cases now credential pool with ⟨-, h⟩ | ⟨-, h⟩ <;> rw [h] <;>
    exact congrArg (Option.getD · 0) (AList.lookup_insert_ne hne)

theorem pool_failover (pool : Pool) (call : Call) :
    (failover generation turn pool call).pool = pool := by
  unfold failover failoverExhausted
  dsimp only
  split_ifs <;> rfl

theorem respond_counted (h : turn.answer.report serde = .counted) :
    (respond serde generation turn credential call).pool =
      call.pool.noteErrorThreshold turn.answeredAt credential := by
  unfold respond
  cases hanswer : turn.answer with
  | transportError err => rfl
  | response status body =>
    rw [hanswer] at h
    unfold Answer.report at h
    dsimp only at h ⊢
    split_ifs at h ⊢ with hstatus hothers
    · unfold onStream
      cases hpeek : peekStreamError serde [] body with
      | healthy head stream => simp [hpeek] at h
      | errored error =>
        rw [hpeek] at h
        dsimp only at h ⊢
        split_ifs at h ⊢
        rfl
      | unavailable => rfl
    · obtain ⟨hcredits, h401, h429, h403, hserver⟩ :
          ¬ isOutOfCredits status (rawBody body) = true ∧ status ≠ 401 ∧ status ≠ 429 ∧
          status ≠ 403 ∧
            ¬ (500 ≤ status ∧ status ≤ 599) := by simpa [not_or] using hothers
      unfold onStatus
      rw [if_neg hcredits, if_neg h401, if_neg h429, if_neg h403, if_neg hserver]
      rfl

theorem errors_noteStatus (status : Nat) (model : String) :
    (pool.noteStatus now credential status model).errors id = pool.errors id := by
  rcases noteStatus_cases now credential status model pool with ⟨-, h⟩ | ⟨-, keys, h⟩ | h <;> rw [h]
  · rfl
  · exact errors_congr ((errCounts_congr (accounts_removeAll keys _)).trans rfl)

theorem errors_respond (h : turn.answer.report serde ≠ .counted) :
    (respond serde generation turn credential call).pool.errors id = call.pool.errors id := by
  unfold respond
  cases hanswer : turn.answer with
  | transportError err =>
    rw [hanswer] at h
    exact absurd rfl h
  | response status body =>
    rw [hanswer] at h
    unfold Answer.report at h
    dsimp only at h ⊢
    split_ifs at h ⊢ with hstatus hothers
    · unfold onStream
      cases hpeek : peekStreamError serde [] body with
      | healthy head stream => rfl
      | errored error =>
        rw [hpeek] at h
        dsimp only at h ⊢
        split_ifs at h ⊢
        · rw [pool_failover]
          rfl
        · exact absurd rfl h
      | unavailable =>
        rw [hpeek] at h
        exact absurd rfl h
    · unfold onStatus
      dsimp only
      split_ifs with hcredits h401 h429 h403 hserver
      · rw [pool_failover]
        rfl
      · unfold onUnauthorized
        dsimp only
        split_ifs
        · cases turn.refresh with
          | ok tokens => rfl
          | error message => exact errors_noteStatus 401 generation.model
        · exact errors_noteStatus 401 generation.model
      · rw [pool_failover]
        exact errors_noteStatus 429 generation.model
      · exact errors_noteStatus 403 generation.model
      · rfl
      · exact absurd hothers (by simp [hcredits, h401, h429, h403, hserver])
    · exact absurd rfl h

end Errors

namespace Traffic
variable {serde : Serde} {generation : Generation} {call : Call} {credential : Credential} {i : Nat}
  {traffic : Traffic} {id : String}

/-- The error counter cools the account: the answer is an error that is counted, and two are
counted already. -/
def Trips (serde : Serde) (id : String) (traffic : Traffic) : Event → Prop
  | .receive i turn => turn.answer.report serde = .counted ∧ 2 ≤ traffic.pool.errors id ∧
      ((traffic.flights i).bind Flight.sent).map Credential.uid = some id
  | _ => False

instance (serde : Serde) (id : String) (traffic : Traffic) (event : Event) :
    Decidable (Trips serde id traffic event) :=
  match event with
  | .receive _ _ => inferInstanceAs (Decidable (_ ∧ _))
  | .start _ _ | .send _ _ => .isFalse nofun

/-- A generation starts only where no error is counted. -/
def Unbroken (serde : Serde) (event : Event) (traffic : Traffic) : Prop :=
  match event with
  | .receive i turn => turn.answer.report serde = .started →
      ∀ credential ∈ (traffic.flights i).bind Flight.sent, traffic.pool.errors credential.uid = 0
  | _ => True

/-- The errors that are counted are the last of the account's row. -/
def Counted (traffic : Traffic) : Prop :=
  ∀ id, List.replicate (traffic.pool.errors id) .counted <:+ traffic.row id

theorem row_report (id owner : String) (report : Report) {traffic' : Traffic}
    (h : traffic'.reports = traffic.reports ++ [(owner, report)]) :
    traffic'.row id = traffic.row id ++ if owner = id ∧ report ≠ .other then [report] else [] := by
  unfold row
  rw [h, List.filterMap_append]
  by_cases hmarked : owner = id ∧ report ≠ .other <;> simp [hmarked]

theorem perform_start (serde : Serde) (i : Nat) (generation : Generation) (traffic : Traffic) :
    ∃ flights, traffic.perform serde (.start i generation) =
      { traffic with flights := flights } := by
  rcases hflight : traffic.flights i with _ | flight
  · exact ⟨Function.update traffic.flights i (some ⟨generation, .new traffic.pool, none⟩),
      by simp only [Traffic.perform, hflight]⟩
  · exact ⟨traffic.flights, by simp only [Traffic.perform, hflight]⟩

theorem perform_send (serde : Serde) (i : Nat) (turn : Turn) (traffic : Traffic) :
    traffic.perform serde (.send i turn) = traffic ∨ ∃ generation call,
      traffic.flights i = some ⟨generation, call, none⟩ ∧
      let selected := { call with pool := traffic.pool }.select generation turn
      traffic.perform serde (.send i turn) = { traffic with
        pool := selected.2
        flights := Function.update traffic.flights i
          (selected.1.map fun credential => ⟨generation, call, some credential⟩) } := by
  rcases hflight : traffic.flights i with _ | ⟨generation, call, _ | credential⟩
  · exact .inl (by simp only [Traffic.perform, hflight])
  · exact .inr ⟨generation, call, rfl, by simp only [Traffic.perform, hflight]⟩
  · exact .inl (by simp only [Traffic.perform, hflight])

theorem perform_receive (serde : Serde) (i : Nat) (turn : Turn) (traffic : Traffic) :
    traffic.perform serde (.receive i turn) = traffic ∧
    (traffic.flights i).bind Flight.sent = none ∨
      ∃ generation call credential, traffic.flights i = some ⟨generation, call, some credential⟩ ∧
        let next := respond serde generation turn credential { call with pool := traffic.pool }
        traffic.perform serde (.receive i turn) = ⟨next.pool,
          Function.update traffic.flights i (next.flight generation),
          traffic.reports ++ [(credential.uid, turn.answer.report serde)]⟩ := by
  rcases hflight : traffic.flights i with _ | ⟨generation, call, _ | credential⟩
  · exact .inl ⟨by simp only [Traffic.perform, hflight], rfl⟩
  · exact .inl ⟨by simp only [Traffic.perform, hflight], rfl⟩
  · exact .inr ⟨generation, call, credential, rfl, by simp only [Traffic.perform, hflight]⟩

theorem counted_of_same {traffic' : Traffic} (h : traffic.Counted)
    (hreports : traffic'.reports = traffic.reports)
    (herrors : ∀ id, traffic'.pool.errors id = traffic.pool.errors id) : traffic'.Counted := by
  intro id
  unfold row
  rw [hreports, herrors]
  exact h id

theorem Counted.respond {turn : Turn} (h : traffic.Counted)
    (hstarted : turn.answer.report serde = .started → traffic.pool.errors credential.uid = 0)
      {traffic' : Traffic}
    (hpool : traffic'.pool =
      (Call.respond serde generation turn credential { call with pool := traffic.pool }).pool)
    (hreports : traffic'.reports = traffic.reports ++
      [(credential.uid, turn.answer.report serde)]) :
    traffic'.Counted := by
  intro id
  obtain ⟨earlier, hrow⟩ := h id
  rw [row_report id credential.uid _ hreports, ← hrow, hpool]
  by_cases hcounted : turn.answer.report serde = .counted
  · rw [respond_counted hcounted, hcounted]
    by_cases hid : credential.uid = id
    · subst hid
      rw [if_pos ⟨rfl, nofun⟩, errors_noteErrorThreshold]
      -- the third error starts the count anew
      split_ifs
      · exact List.nil_suffix
      · exact ⟨earlier, by rw [List.append_assoc, List.replicate_succ']⟩
    · rw [if_neg fun hmarked => hid hmarked.1, errors_noteErrorThreshold_ne (Ne.symm hid),
        List.append_nil]
      exact ⟨earlier, rfl⟩
  · rw [errors_respond hcounted]
    by_cases hmarked : credential.uid = id ∧ turn.answer.report serde ≠ .other
    · -- the generation has started, where no error is counted
      obtain ⟨rfl, hreport⟩ := hmarked
      have hnone : traffic.pool.errors credential.uid = 0 := by
        refine hstarted ?_
        cases hkind : turn.answer.report serde with
        | counted => exact absurd hkind hcounted
        | started => rfl
        | other => exact absurd hkind hreport
      rw [hnone]
      exact List.nil_suffix
    · rw [if_neg hmarked, List.append_nil]
      exact ⟨earlier, rfl⟩

theorem Counted.perform {event : Event} (h : traffic.Counted)
    (hunbroken : Unbroken serde event traffic) :
    (traffic.perform serde event).Counted := by
  cases event with
  | start i generation =>
    obtain ⟨flights, hstart⟩ := perform_start serde i generation traffic
    rw [hstart]
    exact counted_of_same h rfl fun _ => rfl
  | send i turn =>
    rcases perform_send serde i turn traffic with hsend | ⟨generation, call, -, hsend⟩ <;>
      rw [hsend]
    · exact h
    · exact counted_of_same h rfl fun id => errors_select generation turn _
  | receive i turn =>
    rcases perform_receive serde i turn traffic with ⟨hreceive, -⟩ | ⟨generation, call, credential,
      hflight, hreceive⟩ <;>
      rw [hreceive]
    · exact h
    · exact h.respond (fun hstarted => hunbroken hstarted credential (by rw [hflight]; rfl)) rfl rfl

theorem trips_counted {event : Event} (h : traffic.Counted)
    (htrips : traffic.Trips serde id event) :
    [.counted, .counted, .counted] <:+ (traffic.perform serde event).row id := by
  cases event with
  | receive i turn =>
    obtain ⟨hcounted, htwo, hsent⟩ := htrips
    rcases perform_receive serde i turn traffic with ⟨-, hnone⟩ |
      ⟨generation, call, credential, hflight, hreceive⟩
    · rw [hnone] at hsent
      cases hsent
    · rw [hflight] at hsent
      obtain rfl : credential.uid = id := Option.some.inj hsent
      obtain ⟨earlier, hrow⟩ := h credential.uid
      obtain ⟨more, hmore⟩ := Nat.exists_eq_add_of_le' htwo
      rw [hreceive, row_report _ _ _ rfl, ← hrow, hcounted, if_pos ⟨rfl, nofun⟩, hmore]
      exact ⟨earlier ++ List.replicate more .counted, by
        rw [List.replicate_add]
        simp⟩
  | start i generation => cases htrips
  | send i turn => cases htrips

section Lone

theorem pool_noCredential (generation : Generation) (turn : Turn) (pool : Pool) :
    (noCredential generation turn pool).pool = pool ∧
    (noCredential generation turn pool).flight generation = none := by
  unfold noCredential
  cases pool.allCooledUntil turn.now turn.nowSecs generation.model <;> exact ⟨rfl, rfl⟩

/-- Where nothing comes between, the two events of a turn are a turn of the loop. -/
theorem perform_turn (serde : Serde) (turn : Turn)
    (hflight : traffic.flights i = some ⟨generation, call, none⟩)
    (hpool : call.pool = traffic.pool) :
    let traffic' := (traffic.perform serde (.send i turn)).perform serde (.receive i turn)
    traffic'.pool = (call.step serde generation turn).pool ∧
      traffic'.flights i = (call.step serde generation turn).flight generation := by
  have hsend : traffic.perform serde (.send i turn) = { traffic with
      pool := (call.select generation turn).2
      flights := Function.update traffic.flights i
        ((call.select generation turn).1.map fun credential =>
          ⟨generation, call, some credential⟩) } := by
    simp only [Traffic.perform, hflight, ← hpool]
  rw [hsend]
  unfold Call.step
  dsimp only
  cases hselected : (call.select generation turn).1 with
  | none =>
    obtain ⟨hsame, hended⟩ := pool_noCredential generation turn (call.select generation turn).2
    simp [Traffic.perform, hsame, hended]
  | some credential => simp [Traffic.perform]

theorem run_of_ended (serde : Serde) (h : traffic.flights i = none) (turns : List Turn) :
    Runs.run (perform serde) (turns.flatMap fun turn => [.send i turn, .receive i turn]) traffic =
      traffic := by
  induction turns with
  | nil => rfl
  | cons turn turns ih =>
    have hturn : (traffic.perform serde (.send i turn)).perform serde (.receive i turn) =
        traffic := by
      simp [Traffic.perform, h]
    rw [List.flatMap_cons, Runs.run_append]
    exact (congrArg (Runs.run (perform serde) _) hturn).trans ih

/-- A call that has the traffic to itself is the loop of `generate`. -/
theorem run_lone (serde : Serde) (turns : List Turn)
    (hflight : traffic.flights i = some ⟨generation, call, none⟩)
    (hpool : call.pool = traffic.pool) {pool : Pool} {outcome : GenerateOutcome}
    (hended : (generate serde generation turns call).ending = some (pool, outcome)) :
    (Runs.run (perform serde) (turns.flatMap fun turn => [.send i turn, .receive i turn])
      traffic).pool = pool := by
  induction turns generalizing traffic call with
  | nil => cases hended
  | cons turn turns ih =>
    rw [List.flatMap_cons, Runs.run_append]
    obtain ⟨hturn, hnext⟩ := perform_turn serde turn hflight hpool
    unfold generate at hended
    cases hstep : call.step serde generation turn with
    | again call' =>
      rw [hstep] at hended hturn hnext
      exact ih hnext hturn.symm hended
    | done pool' outcome' =>
      rw [hstep] at hended hturn hnext
      cases hended
      exact (congrArg Traffic.pool (run_of_ended serde hnext turns)).trans hturn

def loneCall (answer : Answer) : List Event :=
  let turn : Turn := ⟨fun _ => true, 0, answer, 0, 0, .error ""⟩
  [.start 0 (.new none (.obj [("model", .str "m")]) "m" 0), .send 0 turn, .receive 0 turn]

def onlyAnn : Pool := ⟨[ann], smallLimits, .initial⟩

end Lone

end Traffic
end Lobster.Upstream
