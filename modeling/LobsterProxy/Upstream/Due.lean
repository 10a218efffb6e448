import LobsterProxy.Upstream.Refresh

/-! The pass that refreshes what is due. The pass counts a keepalive as due, the refresh
itself looks at the expiry once more. -/

namespace Lobster.Upstream
open Server

variable {serde : Serde} {urlSafe : List Char → Option (List UInt8)} {marginSecs nowSecs : Int}
  {keepaliveSecs : Nat} {turn : RefreshTurn} {data : CredentialData}

/-- Both checks of the refresh find that it is needed. -/
def NeededThroughout (marginSecs : Int) (turn : RefreshTurn) (data : CredentialData) : Prop :=
  data.needsRefresh marginSecs turn.checked = true ∧
  data.needsRefresh marginSecs turn.rechecked = true

theorem ensureFresh_of_needed (h : NeededThroughout marginSecs turn data) :
    ensureFresh serde urlSafe marginSecs turn data =
      let ended := performRefresh serde urlSafe turn.nowMillis turn.answer data
      ⟨ended.data, ended.requested, ended.result.map fun () => .refreshed⟩ := by
  unfold ensureFresh
  rw [h.1, h.2]
  rfl

theorem ensureFresh_of_not_needed (h : ¬ NeededThroughout marginSecs turn data) :
    ensureFresh serde urlSafe marginSecs turn data = ⟨data, false, .ok .alreadyFresh⟩ := by
  unfold ensureFresh
  cases hchecked : data.needsRefresh marginSecs turn.checked with
  | false => rfl
  | true =>
    have hrechecked : data.needsRefresh marginSecs turn.rechecked = false :=
      Bool.eq_false_iff.mpr fun hneeded => h ⟨hchecked, hneeded⟩
    rw [hrechecked]
    rfl

theorem requested_finishRefresh (answer : RefreshAnswer) (data : CredentialData) :
    (finishRefresh serde urlSafe answer data).requested = true := by
  unfold finishRefresh
  cases readRenewal serde urlSafe data answer.fetched answer.readAt <;> rfl

theorem performRefresh_of_token (serde : Serde) (urlSafe : List Char → Option (List UInt8))
    (nowMillis : Int)
    (answer : RefreshAnswer) (h : data.refreshToken ≠ "") :
    performRefresh serde urlSafe nowMillis answer data =
      finishRefresh serde urlSafe answer data := by
  obtain ⟨hnone, -⟩ | ⟨-, request, hrequest⟩ := refreshRequest_cases nowMillis data
  · exact absurd hnone h
  · unfold performRefresh
    rw [hrequest]

theorem performRefresh_of_no_token (serde : Serde) (urlSafe : List Char → Option (List UInt8))
    (nowMillis : Int)
    (answer : RefreshAnswer) (h : data.refreshToken = "") :
    ∃ err, performRefresh serde urlSafe nowMillis answer data =
      ⟨data, none, false, .error err⟩ := by
  obtain ⟨-, err, hrequest⟩ | ⟨hsome, -⟩ := refreshRequest_cases nowMillis data
  · unfold performRefresh
    rw [hrequest]
    exact ⟨err, rfl⟩
  · exact absurd h hsome

theorem requested_performRefresh (nowMillis : Int) (answer : RefreshAnswer)
    (data : CredentialData) :
    (performRefresh serde urlSafe nowMillis answer data).requested = true ↔
      data.refreshToken ≠ "" := by
  by_cases h : data.refreshToken = ""
  · obtain ⟨err, hperform⟩ := performRefresh_of_no_token serde urlSafe nowMillis answer h
    rw [hperform]
    exact iff_of_false Bool.false_ne_true fun hne => hne h
  · rw [performRefresh_of_token serde urlSafe nowMillis answer h]
    exact iff_of_true (requested_finishRefresh answer data) h

theorem requested_ensureFresh : (ensureFresh serde urlSafe marginSecs turn data).requested = true ↔
    NeededThroughout marginSecs turn data ∧ data.refreshToken ≠ "" := by
  by_cases h : NeededThroughout marginSecs turn data
  · rw [ensureFresh_of_needed h]
    exact (requested_performRefresh ..).trans (iff_and_self.mpr fun _ => h)
  · rw [ensureFresh_of_not_needed h]
    exact iff_of_false Bool.false_ne_true fun hboth => h hboth.1

theorem lastRefreshSecs_finishRefresh {answer : RefreshAnswer}
    (h : (finishRefresh serde urlSafe answer data).result = .ok ()) :
    (finishRefresh serde urlSafe answer data).data.lastRefreshSecs =
      (normTs (some (ofI64 answer.appliedAt))).getD 0 := by
  unfold finishRefresh at h ⊢
  cases hrenewal : readRenewal serde urlSafe data answer.fetched answer.readAt with
  | error err =>
    rw [hrenewal] at h
    cases h
  | ok renewal =>
    rw [hrenewal] at h
    dsimp only at h ⊢
    unfold applyRefresh at h ⊢
    dsimp only at h ⊢
    cases hwrite : answer.write with
    | error err =>
      rw [hwrite] at h
      cases h
    | ok _ =>
      rw [hwrite] at h
      dsimp only at h ⊢
      cases hparsed : parseCredential (renewedRaw renewal answer.appliedAt
          (currentRaw serde answer.file data) data) with
      | error err =>
        rw [hparsed] at h
        cases h
      | ok parsed => exact lastRefreshSecs_renewedRaw hparsed

theorem lastRefreshSecs_ensureFresh
    (h : (ensureFresh serde urlSafe marginSecs turn data).result = .ok .refreshed) :
    (ensureFresh serde urlSafe marginSecs turn data).data.lastRefreshSecs =
      (normTs (some (ofI64 turn.answer.appliedAt))).getD 0 := by
  by_cases hneeded : NeededThroughout marginSecs turn data
  · rw [ensureFresh_of_needed hneeded] at h ⊢
    dsimp only at h ⊢
    by_cases htoken : data.refreshToken = ""
    · obtain ⟨err, hperform⟩ :=
        performRefresh_of_no_token serde urlSafe turn.nowMillis turn.answer htoken
      rw [hperform] at h
      cases h
    · rw [performRefresh_of_token serde urlSafe turn.nowMillis turn.answer htoken] at h ⊢
      refine lastRefreshSecs_finishRefresh ?_
      cases hresult : (finishRefresh serde urlSafe turn.answer data).result with
      | error err =>
        rw [hresult] at h
        cases h
      | ok _ => rfl
  · rw [ensureFresh_of_not_needed hneeded] at h
    cases h

namespace DueVisit

/-- What is asked of a pass for a credential that is due: a request goes out, a success is
counted for a refresh only, and a keepalive moves the last refresh on. -/
structure Kept (visit : DueVisit) : Prop where
  requested : visit.after.requested = true
  recorded : visit.recorded = true → visit.after.result = .ok .refreshed
  advanced : visit.keepalive = true → visit.after.result = .ok .refreshed →
    visit.before.data.lastRefreshSecs < visit.turn.answer.appliedAt →
    visit.turn.answer.appliedAt < 10 ^ 12 →
      visit.before.data.lastRefreshSecs < visit.after.data.lastRefreshSecs

/-- The refresh finds the credential due by its expiry, and able to be refreshed. -/
def Warranted (marginSecs : Int) (visit : DueVisit) : Prop :=
  NeededThroughout marginSecs visit.turn visit.before.data ∧ visit.before.data.refreshToken ≠ ""

/-- The visit is that of a credential in a pass. -/
structure Made (serde : Serde) (urlSafe : List Char → Option (List UInt8)) (marginSecs : Int)
    (keepaliveSecs : Nat) (nowSecs : Int) (visit : DueVisit) : Prop where
  keepalive : visit.keepalive = visit.before.data.keepaliveDue marginSecs keepaliveSecs nowSecs
  after : visit.after = ensureFresh serde urlSafe marginSecs visit.turn visit.before.data

variable {visit : DueVisit}

theorem Made.kept_iff (h : visit.Made serde urlSafe marginSecs keepaliveSecs nowSecs) :
    visit.Kept ↔ visit.Warranted marginSecs := by
  constructor
  · intro hkept
    have hrequested := hkept.requested
    rw [h.after] at hrequested
    exact requested_ensureFresh.mp hrequested
  · intro hwarranted
    refine ⟨?_, fun hrecorded => ?_, fun hkeepalive hrefreshed hlater hyear => ?_⟩
    · rw [h.after]
      exact requested_ensureFresh.mpr hwarranted
    · unfold recorded at hrecorded
      rw [h.after, ensureFresh_of_needed hwarranted.1] at hrecorded ⊢
      dsimp only at hrecorded ⊢
      cases hresult :
        (performRefresh serde urlSafe visit.turn.nowMillis visit.turn.answer
        visit.before.data).result with
      | error err =>
        rw [hresult] at hrecorded
        cases hrecorded
      | ok _ => rfl
    · rw [h.after] at hrefreshed ⊢
      have hpast : 0 < visit.before.data.lastRefreshSecs := by
        rw [h.keepalive] at hkeepalive
        unfold CredentialData.keepaliveDue at hkeepalive
        simp only [Bool.and_eq_true, decide_eq_true_eq] at hkeepalive
        exact hkeepalive.1.1.2
      rw [lastRefreshSecs_ensureFresh hrefreshed, normTs_ofI64 (hpast.trans hlater) hyear]
      exact hlater

end DueVisit

section Pass
variable {turns : Nat → RefreshTurn} {instants : Nat → Nat}

theorem refreshEach_cons (i : Nat) (live : LiveCredential) (rest : List LiveCredential)
    (pool : Pool) :
    ((live.data.expiryDue marginSecs nowSecs ||
        live.data.keepaliveDue marginSecs keepaliveSecs nowSecs) = false ∧
      (refreshEach marginSecs keepaliveSecs nowSecs serde urlSafe turns instants i
        (live :: rest) pool).visits =
        (refreshEach marginSecs keepaliveSecs nowSecs serde urlSafe turns instants
          (i + 1) rest pool).visits) ∨
    ((live.data.expiryDue marginSecs nowSecs ||
        live.data.keepaliveDue marginSecs keepaliveSecs nowSecs) = true ∧
      ∃ pool',
        (refreshEach marginSecs keepaliveSecs nowSecs serde urlSafe turns instants i
          (live :: rest) pool).visits =
        ⟨live, live.data.keepaliveDue marginSecs keepaliveSecs nowSecs, turns i,
          ensureFresh serde urlSafe marginSecs (turns i) live.data⟩ ::
            (refreshEach marginSecs keepaliveSecs nowSecs serde urlSafe turns instants
              (i + 1) rest pool').visits) := by
  cases hdue : live.data.expiryDue marginSecs nowSecs ||
      live.data.keepaliveDue marginSecs keepaliveSecs nowSecs with
  | false =>
    have hskip : (!live.data.expiryDue marginSecs nowSecs &&
        !live.data.keepaliveDue marginSecs keepaliveSecs nowSecs) = true := by
      rw [← Bool.not_or, hdue]
      rfl
    refine .inl ⟨rfl, ?_⟩
    rw [refreshEach, if_pos hskip]
  | true =>
    have hvisit : ¬ (!live.data.expiryDue marginSecs nowSecs &&
        !live.data.keepaliveDue marginSecs keepaliveSecs nowSecs) = true := by
      rw [← Bool.not_or, hdue]
      exact Bool.false_ne_true
    rw [refreshEach]
    exact .inr ⟨rfl, _, congrArg DuePass.visits (if_neg hvisit)⟩

/-- The credentials that are due are visited, in their order, and no others. -/
theorem before_refreshEach (i : Nat) (credentials : List LiveCredential) (pool : Pool) :
    (refreshEach marginSecs keepaliveSecs nowSecs serde urlSafe turns instants i credentials
      pool).visits.map
      DueVisit.before = credentials.filter fun live =>
        live.data.expiryDue marginSecs nowSecs || live.data.keepaliveDue marginSecs keepaliveSecs
          nowSecs := by
  induction credentials generalizing i pool with
  | nil => rfl
  | cons live rest ih =>
    rcases refreshEach_cons i live rest pool with ⟨hdue, hvisits⟩ | ⟨hdue, pool', hvisits⟩
    · rw [hvisits, List.filter_cons_of_neg (by simp [hdue])]
      exact ih (i + 1) pool
    · rw [hvisits, List.filter_cons_of_pos (by simp [hdue]), List.map_cons]
      exact congrArg (live :: ·) (ih (i + 1) pool')

theorem made_refreshEach (i : Nat) (credentials : List LiveCredential) (pool : Pool) :
    ∀ visit ∈ (refreshEach marginSecs keepaliveSecs nowSecs serde urlSafe turns instants i
      credentials pool).visits, visit.Made serde urlSafe marginSecs keepaliveSecs nowSecs := by
  induction credentials generalizing i pool with
  | nil => exact List.forall_mem_nil _
  | cons live rest ih =>
    rcases refreshEach_cons i live rest pool with ⟨-, hvisits⟩ | ⟨-, pool', hvisits⟩
    · rw [hvisits]
      exact ih (i + 1) pool
    · rw [hvisits]
      exact List.forall_mem_cons.mpr ⟨⟨rfl, rfl⟩, ih (i + 1) pool'⟩

end Pass

/-- A pass keeps its word for the credentials that are due exactly if each of them has a
refresh token and both checks of its refresh find its expiry within the margin. -/
theorem refreshDue_kept_iff (serde : Serde) (urlSafe : List Char → Option (List UInt8))
    (turns : Nat → RefreshTurn) (instants : Nat → Nat) (marginSecs : Int) (keepaliveSecs : Nat)
    (nowSecs : Int) (credentials : List LiveCredential) (pool : Pool) :
    let pass :=
      refreshDue marginSecs keepaliveSecs nowSecs serde urlSafe turns instants credentials pool
    (∀ visit ∈ pass.visits, visit.Kept) ↔ ∀ visit ∈ pass.visits, visit.Warranted marginSecs :=
  forall₂_congr fun visit hvisit => (made_refreshEach 0 credentials pool visit hvisit).kept_iff

def tokens (accessToken refreshToken : String) (expiresAtSecs lastRefreshSecs : Int) :
    CredentialData :=
  ⟨.obj [], "1001", "", "ann", "", "", "", accessToken, refreshToken, expiresAtSecs,
  lastRefreshSecs⟩

def lostAt (nowSecs : Int) : RefreshTurn :=
  ⟨nowSecs, nowSecs, 0, ⟨.error "timed out", nowSecs, nowSecs, none, .ok ()⟩⟩

/-- A day after the last refresh and long before the expiry a success is counted, and no
request has gone out. -/
theorem refreshDue_not_kept : ¬ ∀ (serde : Serde) (urlSafe : List Char → Option (List UInt8))
    (turns : Nat → RefreshTurn) (instants : Nat → Nat) (marginSecs : Int) (keepaliveSecs : Nat)
      (nowSecs : Int)
    (credentials : List LiveCredential) (pool : Pool),
      ∀ visit ∈ (refreshDue marginSecs keepaliveSecs nowSecs
      serde urlSafe turns instants credentials pool).visits, visit.Kept := by
  intro h
  have hkept :=
    h .emptyObject (fun _ => none) (fun _ => lostAt 100000) (fun _ => 0) 600 86400 100000
    [⟨"ann-file", "/home/ann/credential.json", tokens "tok-1" "rt-1" 200000 5⟩]
      (.new ⟨60, 2, 60, 3600, 60⟩)
    _ List.mem_cons_self
  exact absurd hkept.requested (by decide +kernel)

end Lobster.Upstream
