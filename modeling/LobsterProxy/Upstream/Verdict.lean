import LobsterProxy.Upstream.Framing

/-! The verdict on the head of a response against the cuts that the transport makes. -/

namespace Lobster.Upstream
open Text

inductive Verdict where
  | healthy
  | errored (error : StreamError)
  | unavailable
  deriving DecidableEq, Repr

def Peek.verdict : Peek → Verdict
  | healthy _ _ => .healthy
  | errored error => .errored error
  | unavailable => .unavailable

def verdict (serde : Serde) (chunks : List (List UInt8)) : Verdict :=
  (peekStreamError serde [] (chunks.map .ok)).verdict

def firstFrame : List UInt8 → List UInt8
  | [] => []
  | b :: rest => if b = 10 ∧ rest.head? = some 10 then [10, 10] else b :: firstFrame rest

section FirstFrame
variable {body head : List UInt8}

theorem hasFrameEnd_cons (b : UInt8) (rest : List UInt8) :
    hasFrameEnd (b :: rest) = true ↔ (b = 10 ∧ rest.head? = some 10) ∨ hasFrameEnd rest = true := by
  have hlead : [10] <+: rest ↔ rest.head? = some 10 := by
    cases rest with
    | nil => simp
    | cons c more => simp [List.cons_prefix_cons, eq_comm]
  unfold hasFrameEnd contains
  rw [decide_eq_true_iff, decide_eq_true_iff, List.infix_cons_iff, List.cons_prefix_cons, hlead,
    eq_comm (a := b)]

theorem firstFrame_isPrefix (body : List UInt8) : firstFrame body <+: body := by
  induction body with
  | nil => exact List.nil_prefix
  | cons b rest ih =>
    rw [firstFrame]
    split_ifs with hend
    · obtain ⟨rfl, hnext⟩ := hend
      obtain ⟨more, rfl⟩ := List.head?_eq_some_iff.mp hnext
      exact List.prefix_append [10, 10] more
    · exact (List.prefix_cons_inj b).mpr ih

theorem hasFrameEnd_firstFrame (h : hasFrameEnd body = true) :
    hasFrameEnd (firstFrame body) = true := by
  induction body with
  | nil => exact h
  | cons b rest ih =>
    rw [firstFrame]
    split_ifs with hend
    · rfl
    · exact (hasFrameEnd_cons b _).mpr
        (.inr (ih (((hasFrameEnd_cons b rest).mp h).resolve_left hend)))

theorem firstFrame_least (hlead : head <+: body) (h : hasFrameEnd head = true) :
    firstFrame body <+: head := by
  induction body generalizing head with
  | nil => exact List.nil_prefix
  | cons b rest ih =>
    obtain ⟨more, hmore⟩ := hlead
    cases head with
    | nil => cases h
    | cons a head =>
      obtain ⟨rfl, rfl⟩ := List.cons.inj hmore
      rw [firstFrame]
      rcases (hasFrameEnd_cons a head).mp h with ⟨rfl, hnext⟩ | h
      · obtain ⟨tail, rfl⟩ := List.head?_eq_some_iff.mp hnext
        rw [if_pos ⟨rfl, rfl⟩]
        exact List.prefix_append [10, 10] tail
      · split_ifs with hend
        · obtain ⟨rfl, hnext⟩ := hend
          cases head with
          | nil => cases h
          | cons c tail =>
            obtain rfl := Option.some.inj hnext
            exact List.prefix_append [10, 10] tail
        · exact (List.prefix_cons_inj a).mpr (ih (List.prefix_append head more) h)

end FirstFrame

section Indifference
variable {serde : Serde} {head : List UInt8} {chunks : List (List UInt8)}

theorem verdict_quiet (h : scanPrefixForStreamError serde chunks.flatten = none) :
    verdict serde chunks = if Inspected chunks.flatten then .healthy else .unavailable := by
  have hpeek := @peek_quiet serde [] chunks h
  unfold verdict
  rw [List.nil_append] at hpeek
  split_ifs at hpeek ⊢
  · obtain ⟨head, rest, hpeek, -⟩ := hpeek
    rw [hpeek]
    rfl
  · rw [hpeek]
    rfl

theorem peek_firstFrame {found : StreamError × Nat} {body : List UInt8}
    (hlength : (firstFrame body).length ≤ maxPrefixInspectBytes)
    (h : scanPrefixForStreamError serde (firstFrame body) = some found)
    (hbody : head ++ chunks.flatten = body) :
    peekStreamError serde head (chunks.map .ok) = .errored found.1 := by
  have hwhole : scanPrefixForStreamError serde body = some found := by
    obtain ⟨more, hmore⟩ := firstFrame_isPrefix body
    rw [← hmore]
    exact scanPrefix_append h more
  have hfound {head' : List UInt8} {found' : StreamError × Nat} (hlead : head' <+: body)
      (h' : scanPrefixForStreamError serde head' = some found') : found' = found := by
    obtain ⟨more, hmore⟩ := hlead
    have hsame := scanPrefix_append h' more
    rw [hmore, hwhole] at hsame
    exact (Option.some.inj hsame).symm
  -- before the frame is complete nothing is decided
  have hundecided {head' : List UInt8} (hlead : head' <+: body)
      (hnone : scanPrefixForStreamError serde head' = none) : ¬ Inspected head' := by
    have hnot : ¬ firstFrame body <+: head' := by
      rintro ⟨more, rfl⟩
      cases (scanPrefix_append h more).symm.trans hnone
    rintro (hend | hlong)
    · exact hnot (firstFrame_least hlead hend)
    · exact hnot (List.prefix_of_prefix_length_le (firstFrame_isPrefix body) hlead
        (hlength.trans hlong))
  induction chunks generalizing head with
  | nil =>
    rw [List.flatten_nil, List.append_nil] at hbody
    subst hbody
    exact peek_found hwhole []
  | cons bytes rest ih =>
    have hlead : head <+: body := ⟨_, hbody⟩
    cases hscan : scanPrefixForStreamError serde head with
    | some found' =>
      rw [peek_found hscan, hfound hlead hscan]
    | none =>
      rw [List.map_cons, peek_on hscan (hundecided hlead hscan)]
      refine ih ?_
      rw [← hbody, List.flatten_cons, List.append_assoc]

theorem scanPrefix_nil (serde : Serde) : scanPrefixForStreamError serde [] = none := by
  cases hscan : scanPrefixForStreamError serde [] with
  | none => rfl
  | some found => cases hasFrameEnd_of_scan hscan

theorem not_inspected_nil : ¬ Inspected [] := by decide

theorem verdict_whole {body : List UInt8} {found : StreamError × Nat}
    (h : scanPrefixForStreamError serde body = some found) :
    verdict serde [body] = .errored found.1 := by
  unfold verdict
  rw [List.map_singleton, peek_on (scanPrefix_nil serde) not_inspected_nil, List.nil_append,
    peek_found h]
  rfl

/-- A cut behind a head that is inspected no further lets the rest pass unseen. -/
theorem verdict_cut (h : scanPrefixForStreamError serde head = none) (hinspected : Inspected head)
    (rest : List UInt8) : verdict serde [head, rest] = .healthy := by
  unfold verdict
  rw [List.map_cons, peek_on (scanPrefix_nil serde) not_inspected_nil, List.nil_append,
    peek_inspected h hinspected]
  rfl

/-- An error that the scan finds in the body is found in the first frame already, and that
frame is not too long to be inspected. -/
def Decisive (serde : Serde) (body : List UInt8) : Prop :=
  (scanPrefixForStreamError serde body).isSome = true →
    (firstFrame body).length ≤ maxPrefixInspectBytes ∧
      (scanPrefixForStreamError serde (firstFrame body)).isSome = true

instance (serde : Serde) (body : List UInt8) : Decidable (Decisive serde body) := by
  unfold Decisive
  infer_instance

/-- The verdict does not depend on the cuts exactly when the error, if any, is decisive. -/
theorem verdict_indifferent_iff (serde : Serde) (body : List UInt8) :
    (∀ chunks chunks' : List (List UInt8), chunks.flatten = body → chunks'.flatten = body →
      verdict serde chunks = verdict serde chunks') ↔ Decisive serde body := by
  constructor
  · intro hindifferent herror
    obtain ⟨found, hfound⟩ := Option.isSome_iff_exists.mp herror
    have hcut {head : List UInt8} (hlead : head <+: body) (hinspected : Inspected head) :
        (scanPrefixForStreamError serde head).isSome = true := by
      obtain ⟨rest, hrest⟩ := hlead
      cases hscan : scanPrefixForStreamError serde head with
      | some found => rfl
      | none =>
        have hsame := hindifferent [head, rest] [body] (by simpa using hrest) (by simp)
        rw [verdict_cut hscan hinspected, verdict_whole hfound] at hsame
        cases hsame
    constructor
    · by_contra hlong
      have hlonger := (firstFrame_isPrefix body).length_le
      have hlength : (body.take maxPrefixInspectBytes).length = maxPrefixInspectBytes :=
        List.length_take_of_le ((Nat.not_le.mp hlong).le.trans hlonger)
      obtain ⟨found', hfound'⟩ :=
        Option.isSome_iff_exists.mp (hcut (List.take_prefix _ body) (.inr hlength.ge))
      have hshort :=
        (firstFrame_least (List.take_prefix _ body) (hasFrameEnd_of_scan hfound')).length_le
      exact hlong (hshort.trans hlength.le)
    · exact hcut (firstFrame_isPrefix body)
        (.inl (hasFrameEnd_firstFrame (hasFrameEnd_of_scan hfound)))
  · intro hdecisive chunks chunks' hchunks hchunks'
    cases hscan : scanPrefixForStreamError serde body with
    | none =>
      rw [verdict_quiet (hchunks ▸ hscan), verdict_quiet (hchunks' ▸ hscan), hchunks, hchunks']
    | some found =>
      obtain ⟨hlength, hfirst⟩ := hdecisive (by rw [hscan]; rfl)
      obtain ⟨found', hfound⟩ := Option.isSome_iff_exists.mp hfirst
      unfold verdict
      rw [peek_firstFrame hlength hfound hchunks, peek_firstFrame hlength hfound hchunks']

def keepAliveThenError : List (List UInt8) :=
  [": ping\n\n".toUTF8.data.toList, "event:error\ndata:\x7b\x7d\n\n".toUTF8.data.toList]

/-- In one chunk the error is found; cut behind the comment, the body is healthy. -/
theorem verdict_not_indifferent :
    verdict .emptyObject [keepAliveThenError.flatten] =
        .errored ⟨none, "upstream returned an error event"⟩ ∧
      verdict .emptyObject keepAliveThenError = .healthy := by
  decide +kernel

end Indifference

end Lobster.Upstream
