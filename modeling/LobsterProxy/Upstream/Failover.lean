import LobsterProxy.Upstream.Generate
import Mathlib.Data.List.Chain

/-! Whom a generation call asks after an account has run out: the cooldowns keep the
account away, unless a retry after a refresh passes the pick by. -/

namespace Lobster.Upstream
open PoolState Pool Call

def quotaStream (serde : Serde) (body : List StreamItem) : Bool :=
  match peekStreamError serde [] body with
  | .errored error => error.isQuotaExhausted
  | _ => false

/-- HTTP 429, an out-of-credits body, or a 200 stream that opens with the quota error. -/
def Answer.burns (serde : Serde) : Answer → Bool
  | .transportError _ => false
  | .response status body => status = 429 || isOutOfCredits status (rawBody body) ||
      (status = 200 && quotaStream serde body)

def Answer.isUnauthorized : Answer → Bool
  | .response status _ => status = 401
  | .transportError _ => false

theorem not_burns_of_unauthorized (serde : Serde) {answer : Answer}
    (h : answer.isUnauthorized = true) : ¬ answer.burns serde = true := by
  cases answer with
  | transportError err => exact Bool.false_ne_true
  | response status body =>
    obtain rfl : status = 401 := of_decide_eq_true h
    simp [Answer.burns, isOutOfCredits]

def LimitConfig.cooldown (limits : LimitConfig) : Nat :=
  min (fromSecs limits.hardCreditCooldownSecs) (fromSecs (max limits.modelCooldownSecs 1))

/-- What burning an account does to the pool. -/
structure Burnt (now : Nat) (model : String) (credential : Credential) (pool pool' : Pool) :
    Prop where
  cools : Cools model credential.uid (now + pool.limits.cooldown) pool'.state
  others :
    ∀ id ≠ credential.uid, ∀ now, pool'.state.healthy now model id = pool.state.healthy now model id
  limits : pool'.limits = pool.limits
  entries : pool'.entries = pool.entries

section Burnt
variable {now : Nat} {model : String} {credential : Credential}

theorem burnt_noteHardCredit (pool : Pool) :
    Burnt now model credential pool (pool.noteHardCredit now credential) where
  cools := (cools_coolDown _ _).mono (Nat.add_le_add_left (Nat.min_le_left _ _) _)
  others _ hne _ := healthy_coolDown hne _ _ _
  limits := rfl
  entries := rfl

theorem burnt_setCredits (pool : Pool) : Burnt now model credential pool
    ((pool.setCredits credential.uid 0).noteHardCredit now credential) where
  cools := (burnt_noteHardCredit (pool.setCredits credential.uid 0)).cools
  others id hne now := (healthy_coolDown hne _ _ _).trans (healthy_congr rfl now model id)
  limits := rfl
  entries := rfl

theorem burnt_noteStatus (pool : Pool) :
    Burnt now model credential pool (pool.noteStatus now credential 429 model) where
  cools := cools_noteStatus_429.mono (Nat.add_le_add_left (Nat.min_le_right _ _) _)
  others _ hne _ := healthy_noteStatus_429 hne _
  limits := by
    unfold noteStatus
    rw [if_neg (by decide), if_pos rfl]
  entries := by
    unfold noteStatus
    rw [if_neg (by decide), if_pos rfl]

end Burnt

section Step
variable {serde : Serde} {generation : Generation} {turn : Turn} {call call' : Call}

theorem failover_again {pool : Pool} (h : failover generation turn pool call = .again call') :
    call' = { call with pool := pool, failoverCount := (call.failoverCount + 1) % 2 ^ 32 } ∧
      ¬ maxFailovers pool < (call.failoverCount + 1) % 2 ^ 32 := by
  unfold failover at h
  dsimp only at h
  split_ifs at h with hspent
  · cases h
  · exact ⟨(Next.again.inj h).symm, hspent⟩

/-- The loop goes on after a failover, which burns the account, or after the refresh of
a first 401. -/
inductive Again (serde : Serde) (generation : Generation) (turn : Turn) (credential : Credential)
    (call call' : Call) : Prop where
  | failover (hburns : turn.answer.burns serde = true)
      (hburnt : Burnt turn.answeredAt generation.model credential call.pool call'.pool)
      (hcount : call'.failoverCount = (call.failoverCount + 1) % 2 ^ 32)
      (hbudget : ¬ maxFailovers call'.pool < call'.failoverCount)
      (hretried : call'.retried401Account = call.retried401Account)
  | refreshed (hanswer : turn.answer.isUnauthorized = true) (hfirst : call.retried401Account = none)
      (accessToken refreshToken : String)
        (hrefresh : turn.refresh = .ok (accessToken, refreshToken))
      (hpool : call'.pool = call.pool.applyRefresh credential.uid accessToken refreshToken)
      (hcount : call'.failoverCount = call.failoverCount)
      (hretried : call'.retried401Account = some credential.safeName)

variable {credential : Credential}

theorem again_of_failover {pool : Pool} (h : failover generation turn pool call = .again call')
    (hburns : turn.answer.burns serde = true)
    (hburnt : Burnt turn.answeredAt generation.model credential call.pool pool) :
    Again serde generation turn credential call call' := by
  obtain ⟨rfl, hbudget⟩ := failover_again h
  exact .failover hburns hburnt rfl hbudget rfl

theorem again_onStream {body : List StreamItem} (hanswer : turn.answer = .response 200 body)
    (h : onStream serde generation turn credential body call = .again call') :
    Again serde generation turn credential call call' := by
  unfold onStream at h
  dsimp only at h
  split at h
  · cases h
  · next error hpeek =>
    split_ifs at h with hquota
    · refine again_of_failover h ?_ (burnt_setCredits call.pool)
      have hstream : quotaStream serde body = true := by
        unfold quotaStream
        rw [hpeek]
        exact hquota
      rw [hanswer]
      simp [Answer.burns, hstream]
    · cases h
  · cases h

theorem again_onUnauthorized (hanswer : turn.answer.isUnauthorized = true)
    (h : onUnauthorized generation turn credential call = .again call') :
    Again serde generation turn credential call call' := by
  unfold onUnauthorized at h
  dsimp only at h
  split_ifs at h with hfirst
  · split at h
    · next accessToken refreshToken hrefresh =>
      obtain rfl := Next.again.inj h
      exact .refreshed hanswer (Option.isNone_iff_eq_none.mp hfirst) _ _ hrefresh rfl rfl rfl
    · cases h
  · cases h

theorem again_onStatus {status : Nat} {body : List StreamItem}
    (hanswer : turn.answer = .response status body)
    (h : onStatus generation turn credential status (rawBody body) call = .again call') :
    Again serde generation turn credential call call' := by
  unfold onStatus at h
  dsimp only at h
  split_ifs at h with hcredits h401 h429
  · refine again_of_failover h ?_ (burnt_noteHardCredit call.pool)
    rw [hanswer]
    simp [Answer.burns, hcredits]
  · refine again_onUnauthorized ?_ h
    rw [hanswer]
    exact decide_eq_true h401
  · refine again_of_failover h ?_ (burnt_noteStatus call.pool)
    rw [hanswer]
    simp [Answer.burns, h429]
  all_goals cases h

theorem again_respond (h : respond serde generation turn credential call = .again call') :
    Again serde generation turn credential call call' := by
  unfold respond at h
  split at h
  · cases h
  · next status body hanswer =>
    split_ifs at h with hstatus
    · subst hstatus
      exact again_onStream hanswer h
    · exact again_onStatus hanswer h

theorem noCredential_ne_again {pool : Pool} : noCredential generation turn pool ≠ .again call' := by
  intro h
  unfold noCredential at h
  split at h <;> cases h

theorem again_step (h : call.step serde generation turn = .again call') :
    ∃ credential, (call.select generation turn).1 = some credential ∧
      Again serde generation turn credential
        { call with pool := (call.select generation turn).2 } call' := by
  unfold step at h
  dsimp only at h
  split at h
  · exact absurd h noCredential_ne_again
  · next credential hselected => exact ⟨credential, hselected, again_respond h⟩

end Step

namespace Visit
variable (serde : Serde) (generation : Generation)

def request (v : Visit) : Option Credential := (v.call.select generation v.turn).1

def pool (v : Visit) : Pool := (v.call.select generation v.turn).2

def burns (v : Visit) : Bool := v.turn.answer.burns serde

def Usable (v : Visit) (credential : Credential) : Prop :=
  v.call.pool.Usable v.turn.now generation.model v.turn.present credential

def refreshes (v : Visit) : Bool :=
  v.turn.answer.isUnauthorized && v.call.retried401Account.isNone && v.turn.refresh.toOption.isSome

/-- An account is burned while no retry is pending, or the failover budget ends with it;
and whom the pool finds under a refreshed account's name is healthy. -/
def Steady (v : Visit) : Prop :=
  (v.burns serde = true → v.call.retried401Account = none ∨
    maxFailovers (v.pool generation) < (v.call.failoverCount + 1) % 2 ^ 32) ∧
  (v.refreshes = true → ∀ credential ∈ v.request generation,
    ∀ found ∈ (v.pool generation).credentialBySafeName credential.safeName,
      (v.pool generation).state.healthy v.turn.now generation.model found.uid = true)

end Visit

/-- No request goes to an account that has been burned before it, and the one right after
goes to a usable account if there is one. -/
structure Retires (serde : Serde) (generation : Generation) (visits : List Visit) : Prop where
  never : visits.Pairwise fun v w => v.burns serde = true →
    ∀ burned ∈ v.request generation, ∀ later ∈ w.request generation, later.uid ≠ burned.uid
  next : visits.IsChain fun v w => v.burns serde = true →
    (∃ credential, w.Usable generation credential) →
      ∃ credential ∈ w.request generation, w.Usable generation credential

section Run
variable {serde : Serde} {generation : Generation} {limits : LimitConfig} {deadline : Nat}

/-- No clock of the call sees a burned account healthy, and no retry leads to one. -/
structure Guarded (generation : Generation) (limits : LimitConfig) (deadline : Nat)
    (burned : List String) (call : Call) : Prop where
  limits : call.pool.limits = limits
  cools : ∀ id ∈ burned, Cools generation.model id deadline call.pool.state
  retry : ∀ name ∈ call.retried401Account, ∀ found ∈ call.pool.credentialBySafeName name,
    found.uid ∉ burned

theorem select_pool (generation : Generation) (turn : Turn) (call : Call) :
    (call.select generation turn).2.state.cooldowns = call.pool.state.cooldowns ∧
      (call.select generation turn).2.limits = call.pool.limits := by
  unfold select
  split
  · exact ⟨rfl, rfl⟩
  · exact ⟨cooldowns_pick .., limits_pick ..⟩

theorem select_of_none (generation : Generation) (turn : Turn) {call : Call}
    (h : call.retried401Account = none) :
    call.select generation turn =
      call.pool.pick turn.now generation.sessionFp generation.model turn.present := by
  unfold select
  rw [h]
  rfl

theorem request_not_burned {burned : List String} {call : Call} {turn : Turn}
    (h : Guarded generation limits deadline burned call) (hnow : turn.now < deadline)
    {credential : Credential} (hrequest : (call.select generation turn).1 = some credential) :
    credential.uid ∉ burned := by
  have hpicked (hpick : (call.pool.pick turn.now generation.sessionFp generation.model
      turn.present).1 = some credential) : credential.uid ∉ burned := by
    intro hmem
    have hhealthy := (pick_usable hpick).2.2
    rw [h.cools _ hmem turn.now hnow] at hhealthy
    cases hhealthy
  unfold select at hrequest
  split at hrequest
  · next found hfound =>
    obtain ⟨name, hname, hfound⟩ := Option.bind_eq_some_iff.mp hfound
    cases hrequest
    exact h.retry name hname credential hfound
  · exact hpicked hrequest

theorem credentialBySafeName_applyRefresh {pool : Pool} {uid accessToken refreshToken name : String}
    {found : Credential}
    (h : (pool.applyRefresh uid accessToken refreshToken).credentialBySafeName name = some found) :
    ∃ found', pool.credentialBySafeName name = some found' ∧ found.uid = found'.uid := by
  unfold credentialBySafeName Pool.applyRefresh at h
  rw [List.find?_map] at h
  obtain ⟨found', hfound, rfl⟩ := Option.map_eq_some_iff.mp h
  refine ⟨found', ?_, ?_⟩
  · unfold credentialBySafeName
    rw [← hfound]
    congr 1
    funext c
    dsimp only [Function.comp]
    split_ifs <;> rfl
  · split_ifs <;> rfl

theorem Burnt.cools_cons {now : Nat} {model : String} {credential : Credential} {pool pool' : Pool}
    (h : Burnt now model credential pool pool') (hdeadline : deadline ≤ now + pool.limits.cooldown)
    {burned : List String} (hcools : ∀ id ∈ burned, Cools model id deadline pool.state) :
    ∀ id ∈ credential.uid :: burned, Cools model id deadline pool'.state := by
  intro id hid
  by_cases heq : id = credential.uid
  · rw [heq]
    exact h.cools.mono hdeadline
  · intro now hnow
    rw [h.others id heq]
    exact hcools id ((List.mem_cons.mp hid).resolve_left heq) now hnow

/-- The accounts burned so far, after one more turn. -/
def burnedAfter (serde : Serde) (turn : Turn) (credential : Credential) (burned : List String) :
    List String := if turn.answer.burns serde then credential.uid :: burned else burned

theorem guarded_step {burned : List String} {call call' : Call} {turn : Turn}
    (h : Guarded generation limits deadline burned call) (hnow : turn.now < deadline)
    (hdeadline : deadline ≤ turn.answeredAt + limits.cooldown)
    (hsteady : (⟨call, turn⟩ : Visit).Steady serde generation)
    (hstep : call.step serde generation turn = .again call') :
    ∃ credential, (call.select generation turn).1 = some credential ∧
      Guarded generation limits deadline (burnedAfter serde turn credential burned) call' ∧
      (turn.answer.burns serde = true → call'.retried401Account = none) := by
  obtain ⟨hcooldowns, hlimits⟩ := select_pool generation turn call
  obtain ⟨credential, hrequest, hagain⟩ := again_step hstep
  have hcools :
      ∀ id ∈ burned, Cools generation.model id deadline (call.select generation turn).2.state :=
    fun id hid => (h.cools id hid).congr hcooldowns
  refine ⟨credential, hrequest, ?_⟩
  unfold burnedAfter
  cases hagain with
  | failover hburns hburnt hcount hbudget hretried =>
    have hnone : call'.retried401Account = none := by
      refine hretried.trans ((hsteady.1 hburns).resolve_right ?_)
      unfold maxFailovers at hbudget ⊢
      rw [hburnt.entries, hcount] at hbudget
      exact hbudget
    rw [if_pos hburns]
    refine ⟨⟨?_, hburnt.cools_cons ?_ hcools, ?_⟩, fun _ => hnone⟩
    · exact hburnt.limits.trans (hlimits.trans h.limits)
    · rw [show (call.select generation turn).2.limits = limits from hlimits.trans h.limits]
      exact hdeadline
    · intro name hname
      rw [hnone] at hname
      cases hname
  | refreshed hanswer hfirst accessToken refreshToken hrefresh hpool _ hretried =>
    replace hfirst : call.retried401Account = none := hfirst
    have hburns := not_burns_of_unauthorized serde hanswer
    have hrefreshes : (⟨call, turn⟩ : Visit).refreshes = true := by
      unfold Visit.refreshes
      dsimp only
      rw [hanswer, hfirst, hrefresh]
      rfl
    rw [if_neg hburns]
    refine ⟨⟨?_, ?_, ?_⟩, fun hburns' => absurd hburns' hburns⟩
    · rw [hpool]
      exact hlimits.trans h.limits
    · rw [hpool]
      exact hcools
    · intro name hname found hfound hmem
      rw [hretried] at hname
      obtain rfl := Option.some.inj hname
      rw [hpool] at hfound
      obtain ⟨found', hfound', huid⟩ := credentialBySafeName_applyRefresh hfound
      have hhealthy := hsteady.2 hrefreshes credential hrequest found' hfound'
      rw [← huid] at hhealthy
      exact absurd ((hcools _ hmem turn.now hnow).symm.trans hhealthy) Bool.false_ne_true

variable {turns : List Turn} {call : Call}

theorem mem_head?_generate {w : Visit}
    (h : w ∈ (generate serde generation turns call).visits.head?) :
    w.call = call := by
  cases turns with
  | nil => cases h
  | cons turn rest =>
    unfold generate at h
    split at h
    · obtain rfl := Option.some.inj h
      rfl
    · obtain rfl := Option.some.inj h
      rfl

/-- From a guarded state on no request goes to a burned account. -/
theorem retires_of_guarded {burned : List String}
    (h : Guarded generation limits deadline burned call)
    (hturns : ∀ turn ∈ turns, turn.now < deadline ∧ deadline ≤ turn.answeredAt + limits.cooldown)
    (hsteady : ∀ v ∈ (generate serde generation turns call).visits, v.Steady serde generation) :
    Retires serde generation (generate serde generation turns call).visits ∧
      ∀ v ∈ (generate serde generation turns call).visits,
        ∀ credential ∈ v.request generation, credential.uid ∉ burned := by
  induction turns generalizing burned call with
  | nil => exact ⟨⟨List.Pairwise.nil, List.IsChain.nil⟩, List.forall_mem_nil _⟩
  | cons turn rest ih =>
    obtain ⟨⟨hnow, hdeadline⟩, hrest⟩ := List.forall_mem_cons.mp hturns
    have hfirst :
        ∀ credential ∈ (⟨call, turn⟩ : Visit).request generation, credential.uid ∉ burned :=
      fun _ hrequest => request_not_burned h hnow hrequest
    unfold generate at hsteady ⊢
    split at hsteady
    · exact ⟨⟨List.pairwise_singleton _ _, List.IsChain.singleton _⟩,
        fun v hv => List.mem_singleton.mp hv ▸ hfirst⟩
    · next call' hstep =>
      obtain ⟨hsteady, hsteadyRest⟩ := List.forall_mem_cons.mp hsteady
      obtain ⟨credential, hrequest, hguarded, hnone⟩ := guarded_step h hnow hdeadline hsteady hstep
      obtain ⟨hretires, hburned⟩ := ih hguarded hrest hsteadyRest
      refine ⟨⟨List.pairwise_cons.mpr ⟨?_, hretires.never⟩,
        List.isChain_cons.mpr ⟨?_, hretires.next⟩⟩,
        List.forall_mem_cons.mpr ⟨hfirst, ?_⟩⟩
      · intro w hw hburns burned' hburned' later hlater heq
        obtain rfl := Option.some.inj (hburned'.symm.trans hrequest)
        refine hburned w hw later hlater ?_
        unfold burnedAfter
        rw [if_pos (show turn.answer.burns serde = true from hburns), heq]
        exact List.mem_cons_self
      · intro w hw hburns hsome
        obtain ⟨usable, husable⟩ := hsome
        have hfree : w.call.retried401Account = none := by
          rw [mem_head?_generate hw]
          exact hnone hburns
        obtain ⟨picked, hpicked⟩ := Option.isSome_iff_exists.mp (pick_isSome husable)
        refine ⟨picked, ?_, pick_usable hpicked⟩
        unfold Visit.request
        rw [select_of_none generation w.turn hfree]
        exact hpicked
      · intro w hw later hlater hmem
        refine hburned w hw later hlater ?_
        unfold burnedAfter
        split_ifs
        · exact List.mem_cons_of_mem _ hmem
        · exact hmem

def twoAccounts : Pool where
  entries :=
    [⟨"a", "acct-a", "a.json", "tok-a", "rt-a"⟩, ⟨"b", "acct-b", "b.json", "tok-b", "rt-b"⟩]
  limits := ⟨3600, 1000, 60, 3600, 60⟩
  state := { PoolState.initial with credits := AList.insert "b" 5 ∅ }

def turnOf (answer : Answer) : Turn := ⟨fun _ => true, 0, answer, 0, 0, .ok ("tok-2", "rt-2")⟩

def hello : Generation := .new none (.obj [("model", .str "m")]) "m" 0

instance (serde : Serde) (generation : Generation) (v : Visit) :
    Decidable (v.Steady serde generation) :=
  inferInstanceAs (Decidable (_ ∧ _))

end Run

end Lobster.Upstream
