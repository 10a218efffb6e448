import LobsterProxy.Base.Gate
import LobsterProxy.Upstream.Due

/-! Refreshes of one credential at the same time. Before a token expires a call looks at the
expiry on both sides of the gate; after a rejected token it goes straight through. -/

namespace Lobster.Upstream
open Gate Server

/-- The clock in seconds, and in milliseconds for the request. -/
structure Clock where
  secs : Int
  millis : Int

abbrev RefreshProtocol (ω : Type) :=
  Protocol CredentialData Clock Json RefreshAnswer (Except ApiError ω)

section Protocols
variable (serde : Serde) (urlSafe : List Char → Option (List UInt8))

def ensureProtocol (marginSecs : Int) : RefreshProtocol RefreshOutcome where
  enter data now := if data.needsRefresh marginSecs now.secs then none else some (.ok .alreadyFresh)
  recheck data now :=
    if data.needsRefresh marginSecs now.secs then (refreshRequest now.millis data).mapError .error
    else .error (.ok .alreadyFresh)
  finish data answer :=
    let ended := finishRefresh serde urlSafe answer data
    (ended.data, ended.result.map fun () => .refreshed)

/-- After a rejected token; the expiry is not looked at, nor the token. -/
def forceProtocol : RefreshProtocol Unit where
  enter _ _ := none
  recheck data now := (refreshRequest now.millis data).mapError .error
  finish data answer :=
    let ended := finishRefresh serde urlSafe answer data
    (ended.data, ended.result)

end Protocols

def isRefreshed : Except ApiError RefreshOutcome → Bool
  | .ok .refreshed => true
  | _ => false

variable {serde : Serde} {urlSafe : List Char → Option (List UInt8)} {marginSecs : Int}
    {data : CredentialData}

theorem toBool_recheck_forceProtocol (now : Clock) :
    ((forceProtocol serde urlSafe).recheck data now).toBool = true ↔ data.refreshToken ≠ "" := by
  unfold forceProtocol
  obtain ⟨hnone, err, hrequest⟩ | ⟨hsome, request, hrequest⟩ :=
    refreshRequest_cases now.millis data <;>
    dsimp only <;> rw [hrequest]
  · exact iff_of_false Bool.false_ne_true fun hne => hne hnone
  · exact iff_of_true rfl hsome

def BeyondMargin (marginSecs : Int) (data : CredentialData) (now : Clock) : Prop :=
  data.needsRefresh marginSecs now.secs = false

instance (marginSecs : Int) (data : CredentialData) (now : Clock) :
    Decidable (BeyondMargin marginSecs data now) :=
  inferInstanceAs (Decidable (_ = _))

theorem doubleChecked_ensureProtocol (serde : Serde) (urlSafe : List Char → Option (List UInt8))
    (marginSecs : Int) :
    DoubleChecked (ensureProtocol serde urlSafe marginSecs) (BeyondMargin marginSecs)
      (.ok .alreadyFresh)
      isRefreshed where
  enter data now h := if_neg (Bool.eq_false_iff.mp h)
  recheck data now h := if_neg (Bool.eq_false_iff.mp h)
  looked data now result h := by
    unfold BeyondMargin
    cases hneeded : data.needsRefresh marginSecs now.secs with
    | false =>
      simp only [ensureProtocol, hneeded] at h
      have hresult : result = .ok .alreadyFresh := by
        rcases h with h | h
        · exact (Option.some.inj h).symm
        · exact (Except.error.inj h).symm
      exact ⟨hresult ▸ rfl, fun _ => rfl⟩
    | true =>
      -- what is left is a credential without a refresh token
      simp only [ensureProtocol, hneeded, if_true, reduceCtorEq, false_or] at h
      obtain ⟨-, err, hrequest⟩ | ⟨-, request, hrequest⟩ := refreshRequest_cases now.millis data <;>
        rw [hrequest] at h
      · cases h
        exact ⟨rfl, nofun⟩
      · cases h
  finish data answer h := by
    unfold ensureProtocol at h
    dsimp only at h
    cases hresult : (finishRefresh serde urlSafe answer data).result with
    | error err =>
      rw [hresult] at h
      cases h
    | ok _ =>
      rw [hresult] at h
      cases h

def RefreshTurn.events (turn : RefreshTurn) (returned : Clock) : List (Event Clock RefreshAnswer) :=
  [.call 0 ⟨turn.checked, turn.nowMillis⟩, .acquire 0 ⟨turn.rechecked, turn.nowMillis⟩,
  .answer 0 returned turn.answer]

theorem after_lone (serde : Serde) (urlSafe : List Char → Option (List UInt8)) (marginSecs : Int)
    (turn : RefreshTurn) (returned : Clock) (data : CredentialData) :
    let s := after (ensureProtocol serde urlSafe marginSecs) data (turn.events returned)
    let freshened := ensureFresh serde urlSafe marginSecs turn data
    s.data = freshened.data ∧ s.log.any Entry.isRequested = freshened.requested ∧
      s.log.filterMap Entry.result = [freshened.result] := by
  by_cases hneeded : NeededThroughout marginSecs turn data
  · obtain ⟨hchecked, hrechecked⟩ := hneeded
    rw [ensureFresh_of_needed ⟨hchecked, hrechecked⟩]
    obtain ⟨hnone, err, hrequest⟩ | ⟨hsome, request, hrequest⟩ :=
      refreshRequest_cases turn.nowMillis data
    · simp [after, RefreshTurn.events, perform, State.idle, State.leave, ensureProtocol,
        performRefresh, hchecked, hrechecked, hrequest, Except.mapError, Except.map,
        Entry.isRequested, Entry.result]
    · rw [performRefresh_of_token serde urlSafe turn.nowMillis turn.answer hsome]
      simp [after, RefreshTurn.events, perform, State.idle, State.leave, ensureProtocol, hchecked,
        hrechecked, hrequest, Except.mapError, requested_finishRefresh, Entry.isRequested,
        Entry.result, List.filterMap_cons]
  · rw [ensureFresh_of_not_needed hneeded]
    cases hchecked : data.needsRefresh marginSecs turn.checked with
    | false =>
      simp [after, RefreshTurn.events, perform, State.idle, State.leave, ensureProtocol, hchecked,
        Entry.isRequested, Entry.result]
    | true =>
      have hrechecked : data.needsRefresh marginSecs turn.rechecked = false :=
        Bool.eq_false_iff.mpr fun h => hneeded ⟨hchecked, h⟩
      simp [after, RefreshTurn.events, perform, State.idle, State.leave, ensureProtocol, hchecked,
        hrechecked, Entry.isRequested, Entry.result]

/-- What is asked of calls that share a refresh: one is made, whoever returns after it finds
the token fresh, and nobody goes away with a token that expires within the margin. -/
structure SharedRefresh (marginSecs : Int)
    (log : List (Entry CredentialData Clock Json (Except ApiError RefreshOutcome))) : Prop where
  once : log.countP (Entry.isAnswered isRefreshed) ≤ 1
  followers : log.Pairwise fun earlier later =>
    earlier.isAnswered isRefreshed = true → later.IsSettled (.ok .alreadyFresh)
  beyond : ∀ i outcome answered now data, .returned i (.ok outcome) answered now data ∈ log →
    BeyondMargin marginSecs data now

/-- Any number of calls in any order share one refresh, if the expiry that it brings stays
beyond the margin. -/
theorem ensureFresh_shared (serde : Serde) (urlSafe : List Char → Option (List UInt8))
    (marginSecs : Int)
    (data : CredentialData) (events : List (Event Clock RefreshAnswer))
    (hlasting : Lasting (ensureProtocol serde urlSafe marginSecs)
      (BeyondMargin marginSecs) isRefreshed events
      (.idle data)) :
    SharedRefresh marginSecs (after (ensureProtocol serde urlSafe marginSecs) data events).log := by
  have hwave := wave_of_lasting (doubleChecked_ensureProtocol serde urlSafe marginSecs) hlasting
  refine ⟨hwave.once, hwave.followers, fun i outcome answered now data hmem =>
    hwave.sound _ hmem ?_⟩
  cases outcome with
  | refreshed => exact .inr rfl
  | alreadyFresh => exact .inl rfl

def hourTokens : Serde where
  toString _ := ""
  fromSlice _ := some (.obj [("code", .ofNat 0), ("data", .obj [("accessToken", .str "tok-2"),
    ("refreshToken", .str "rt-2"), ("expiresIn", .ofNat 3600)])])
  fromStr _ := none

def answeredAt (nowSecs : Int) : RefreshAnswer :=
  ⟨.ok (200, .ok []), nowSecs, nowSecs, none, .ok ()⟩

/-- Three calls, of which the first refreshes, the second waits and the third comes later. -/
def threeCalls : List (Event Clock RefreshAnswer) :=
  [.call 0 ⟨100000, 0⟩, .call 1 ⟨100000, 0⟩, .acquire 0 ⟨100000, 0⟩,
  .answer 0 ⟨100001, 0⟩ (answeredAt 100001),
    .acquire 1 ⟨100001, 0⟩, .call 2 ⟨100002, 0⟩]

theorem ensureFresh_shared_threeCalls :
    SharedRefresh 600 (after (ensureProtocol hourTokens (fun _ => none) 600)
    (tokens "tok-1" "rt-1" 100200 5) threeCalls).log :=
  ensureFresh_shared hourTokens (fun _ => none) 600 (tokens "tok-1" "rt-1" 100200 5) threeCalls
    (by decide +kernel)

/-- Whoever goes on from the gate, with a refresh token, finds that no refresh has succeeded. -/
def Unreplaced :
    Event Clock RefreshAnswer → State CredentialData Clock Json (Except ApiError Unit) → Prop
  | .acquire i _, s => s.phase i = .waiting → s.holder = none → s.data.refreshToken ≠ "" →
      s.log.countP (Entry.isAnswered Except.toBool) = 0
  | _, _ => True

theorem unreplaced_iff (event : Event Clock RefreshAnswer)
    (s : State CredentialData Clock Json (Except ApiError Unit)) :
    Unanswered (forceProtocol serde urlSafe) Except.toBool event s ↔ Unreplaced event s := by
  cases event with
  | acquire i now =>
    exact forall_congr'
      fun _ => forall_congr' fun _ => imp_congr_left (toBool_recheck_forceProtocol now)
  | call | answer | abandon => exact Iff.rfl

/-- Calls whose token was rejected share one refresh exactly in the runs where nobody is
still to go through the gate when one has succeeded. -/
theorem forceRefresh_shared_iff (serde : Serde) (urlSafe : List Char → Option (List UInt8))
    (data : CredentialData) (events : List (Event Clock RefreshAnswer)) :
    Single Except.toBool (after (forceProtocol serde urlSafe) data events).log ↔
      Runs.Meets (perform (forceProtocol serde urlSafe)) Unreplaced events (.idle data) :=
  (single_iff data events).trans
    ⟨fun h => h.imp fun event s => (unreplaced_iff event s).mp,
    fun h => h.imp fun event s => (unreplaced_iff event s).mpr⟩

/-- Two calls with the same token; the second waits for the first to replace it, and
replaces it again. -/
theorem forceRefresh_not_shared : ¬ ∀ (serde : Serde) (urlSafe : List Char → Option (List UInt8))
    (data : CredentialData) (events : List (Event Clock RefreshAnswer)),
    Single Except.toBool (after (forceProtocol serde urlSafe) data events).log := by
  intro h
  have honce := (h hourTokens (fun _ => none) (tokens "tok-1" "rt-1" 200000 5)
    [.call 0 ⟨100000, 0⟩, .call 1 ⟨100000, 0⟩, .acquire 0 ⟨100000, 0⟩,
    .answer 0 ⟨100001, 0⟩ (answeredAt 100001),
      .acquire 1 ⟨100001, 0⟩, .answer 1 ⟨100002, 0⟩ (answeredAt 100002)]).once
  exact absurd honce (by decide +kernel)

end Lobster.Upstream
