import LobsterProxy.Base.Emitter
import LobsterProxy.Base.Snoc
import LobsterProxy.Chat.Chunk

/-! The order in which a stream opens its output items, read off the deltas. -/

namespace Lobster.Responses
open Chat Trace

inductive Opening where
  | reasoning
  | message
  | call (index : Int)
  deriving DecidableEq, Repr

namespace Opening

def index? : Opening → Option Int
  | call index => some index
  | _ => none

def isCall (x : Opening) : Bool := x.index?.isSome

end Opening

def named (expose : Bool) : Delta → List Opening
  | .finish _ => []
  | .reasoning _ => if expose then [.reasoning] else []
  | .content _ => [.message]
  | .toolCalls calls => calls.map fun call => .call call.index

def openings (expose : Bool) (deltas : List Delta) : List Opening :=
  (deltas.flatMap (named expose)).eraseDups

/-- The message is one of the items before the first call. -/
def messageClosed (o : List Opening) : Bool :=
  (o.takeWhile fun x => !x.isCall).any (· = .message) && o.any Opening.isCall

/-- Nothing follows the reasoning, a message that is not the last item is the first one
with a call right after it, and the calls come by their indices. -/
structure InLifecycleOrder (o : List Opening) : Prop where
  reasoningLast : .reasoning ∉ o.dropLast
  messageFirst : .message ∈ o.dropLast → ∃ index rest, o = .message :: .call index :: rest
  ascending : (o.filterMap Opening.index?).Pairwise (· < ·)

/-- Neither the reasoning nor a message that no first call has followed was opened before. -/
def Fits (o : List Opening) (x : Opening) : Prop :=
  .reasoning ∉ o ∧ (.message ∈ o → messageClosed (o ++ [x]) = true)

section Closed
variable {o : List Opening} {x : Opening}

theorem calls_snoc_item (hx : x.isCall = false) :
    (o ++ [x]).filterMap Opening.index? = o.filterMap Opening.index? := by
  have hnone : x.index? = none := by simpa [Opening.isCall] using hx
  rw [List.filterMap_append, List.filterMap_cons_none hnone, List.filterMap_nil, List.append_nil]

theorem messageClosed_snoc (o : List Opening) (x : Opening) : messageClosed (o ++ [x]) =
    if o.any Opening.isCall then messageClosed o else x.isCall && o.any (· = .message) := by
  unfold messageClosed
  rw [Snoc.any_takeWhile_snoc, List.any_append, ← List.not_any_eq_all_not]
  cases hany : o.any Opening.isCall with
  | true => simp
  | false =>
    have hwhole : o.takeWhile (fun x => !x.isCall) = o := by
      apply List.takeWhile_eq_self_iff.mpr
      intro y hy
      simpa using List.any_eq_false.mp hany y hy
    rw [hwhole]
    cases x <;> simp [Opening.isCall, Opening.index?]

theorem messageClosed_of_quiet (h : o.any Opening.isCall = false) : messageClosed o = false := by
  unfold messageClosed
  rw [h, Bool.and_false]

theorem messageClosed_snoc_item (hx : x.isCall = false) :
    messageClosed (o ++ [x]) = messageClosed o := by
  rw [messageClosed_snoc, hx]
  split_ifs with hany
  · rfl
  · rw [messageClosed_of_quiet (Bool.eq_false_iff.mpr hany), Bool.false_and]

theorem messageClosed_of_not_mem (h : .message ∉ o) : messageClosed o = false := by
  unfold messageClosed
  rw [Bool.and_eq_false_iff]
  left
  apply List.any_eq_false.mpr
  intro y hy
  have hmem := (List.takeWhile_prefix _).subset hy
  have hne : y ≠ .message := by
    rintro rfl
    exact h hmem
  simp [hne]

theorem messageClosed_first (index : Int) (rest : List Opening) :
    messageClosed (.message :: .call index :: rest) = true := by
  simp [messageClosed, Opening.isCall, Opening.index?]

theorem first_of_messageClosed {pre : List Opening} (hreasoning : .reasoning ∉ pre)
    (hmessage : .message ∉ pre) (h : messageClosed (pre ++ [.message] ++ [x]) = true) :
    pre = [] ∧ ∃ index, x = .call index := by
  cases pre with
  | nil =>
    refine ⟨rfl, ?_⟩
    cases x with
    | call index => exact ⟨index, rfl⟩
    | _ => cases h
  | cons y pre =>
    cases y with
    | reasoning => exact absurd List.mem_cons_self hreasoning
    | message => exact absurd List.mem_cons_self hmessage
    | call index => simp [messageClosed, Opening.isCall, Opening.index?] at h

theorem legal_fits_iff : Legal Fits o ↔ .reasoning ∉ o.dropLast ∧
    (.message ∈ o.dropLast → ∃ index rest, o = .message :: .call index :: rest) := by
  induction o using List.reverseRecOn with
  | nil => exact iff_of_true legal_nil ⟨List.not_mem_nil, fun h => absurd h List.not_mem_nil⟩
  | append_singleton o x ih =>
    rw [legal_snoc_iff, ih, List.dropLast_concat]
    constructor
    · rintro ⟨⟨hlast, hfirst⟩, hreasoning, hclosed⟩
      refine ⟨hreasoning, fun hmem => ?_⟩
      rcases List.eq_nil_or_concat o with rfl | ⟨pre, y, rfl⟩
      · cases hmem
      · rw [List.concat_eq_append] at *
        rw [List.dropLast_concat] at hlast hfirst
        by_cases hpre : .message ∈ pre
        · obtain ⟨index, rest, heq⟩ := hfirst hpre
          exact ⟨index, rest ++ [x], by rw [heq]; rfl⟩
        · have hy : y = .message := by simpa [hpre, eq_comm] using hmem
          subst hy
          obtain ⟨rfl, index, rfl⟩ := first_of_messageClosed hlast hpre (hclosed hmem)
          exact ⟨index, [], rfl⟩
    · rintro ⟨hreasoning, hfirst⟩
      refine ⟨⟨fun hmem => hreasoning (List.dropLast_subset o hmem), fun hmem => ?_⟩,
      hreasoning, ?_⟩
      · obtain ⟨index, rest, heq⟩ := hfirst (List.dropLast_subset o hmem)
        clear ih hfirst hreasoning
        rcases o with _ | ⟨y, _ | ⟨z, o⟩⟩
        · cases hmem
        · cases hmem
        · obtain ⟨hy, htail⟩ := List.cons.inj heq
          obtain ⟨hz, -⟩ := List.cons.inj htail
          exact ⟨index, o, by rw [hy, hz]⟩
      · intro hmem
        obtain ⟨index, rest, heq⟩ := hfirst hmem
        rw [heq]
        exact messageClosed_first index rest

end Closed

end Lobster.Responses
