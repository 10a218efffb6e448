import LobsterProxy.Base.Snoc
import LobsterProxy.Chat.Chunk

/-! The order of text and tool calls in a stream of deltas: a message is open from
the first text on, and the first tool call closes it. -/

namespace Lobster.Chat

namespace Delta

def isContent : Delta → Bool
  | content _ => true
  | _ => false

def isCall : Delta → Bool
  | toolCalls calls => !calls.isEmpty
  | _ => false

end Delta

def textFirst (deltas : List Delta) : Bool :=
  (deltas.takeWhile fun delta => !delta.isCall).any Delta.isContent

/-- Text comes both before and after the first tool call. -/
def textResumes (deltas : List Delta) : Bool :=
  textFirst deltas && (deltas.dropWhile fun delta => !delta.isCall).any Delta.isContent

/-- Whether a message is open (or closed again), and whether no tool call has come. -/
abbrev Phase := Option Bool × Bool

def Phase.next : Phase → Delta → Phase
  | (closed, quiet), .content _ => (some (closed.getD false), quiet)
  | (closed, true), .toolCalls (_ :: _) => (closed.map fun _ => true, false)
  | phase, _ => phase

def phaseOf (deltas : List Delta) : Phase := deltas.foldl Phase.next (none, true)

variable {deltas : List Delta} {delta : Delta}

theorem isContent_eq_false (h : delta.isCall = true) : delta.isContent = false := by
  cases delta <;> first | rfl | cases h

theorem textFirst_snoc : textFirst (deltas ++ [delta]) =
    (textFirst deltas || (!deltas.any Delta.isCall && delta.isContent)) := by
  unfold textFirst
  rw [Snoc.any_takeWhile_snoc, ← List.not_any_eq_all_not]
  cases hcall : delta.isCall with
  | true => rw [isContent_eq_false hcall]; rfl
  | false => rfl

def textLater (deltas : List Delta) : Bool :=
  (deltas.dropWhile fun delta => !delta.isCall).any Delta.isContent

theorem textLater_snoc : textLater (deltas ++ [delta]) =
    (textLater deltas || (deltas.any Delta.isCall && delta.isContent)) := by
  unfold textLater
  rw [Snoc.any_dropWhile_snoc, ← List.not_any_eq_all_not]
  cases hcall : delta.isCall with
  | true => rw [isContent_eq_false hcall, Bool.and_false, Bool.and_false]
  | false => simp

theorem textFirst_eq_false (h : deltas.any Delta.isContent = false) : textFirst deltas = false := by
  refine List.any_eq_false.mpr fun d hd => List.any_eq_false.mp h d ?_
  exact (List.takeWhile_prefix _).subset hd

theorem textFirst_of_quiet (h : deltas.any Delta.isCall = false) :
    textFirst deltas = deltas.any Delta.isContent := by
  unfold textFirst
  rw [List.takeWhile_eq_self_iff.mpr fun d hd => by simpa using List.any_eq_false.mp h d hd]

theorem textLater_of_quiet (h : deltas.any Delta.isCall = false) : textLater deltas = false := by
  unfold textLater
  rw [List.dropWhile_eq_nil_iff.mpr fun d hd => by simpa using List.any_eq_false.mp h d hd]
  rfl

theorem phaseOf_snoc : phaseOf (deltas ++ [delta]) = (phaseOf deltas).next delta := by
  unfold phaseOf
  rw [List.foldl_append]
  rfl

/-- The phase, read off the deltas so far. -/
theorem phaseOf_eq (deltas : List Delta) : phaseOf deltas =
    (if deltas.any Delta.isContent then some (textFirst deltas && deltas.any Delta.isCall)
      else none, !deltas.any Delta.isCall) := by
  induction deltas using List.reverseRecOn with
  | nil => rfl
  | append_singleton deltas delta ih =>
    rw [phaseOf_snoc, ih, textFirst_snoc, List.any_append, List.any_append]
    have hquiet : deltas.any Delta.isCall = false → textFirst deltas = deltas.any Delta.isContent :=
      textFirst_of_quiet
    have hnone : deltas.any Delta.isContent = false → textFirst deltas = false := textFirst_eq_false
    generalize textFirst deltas = first at *
    generalize deltas.any Delta.isCall = called at *
    generalize deltas.any Delta.isContent = before at *
    cases delta with
    | finish reason => cases called <;> simp [Phase.next, Delta.isCall, Delta.isContent]
    | reasoning text => cases called <;> simp [Phase.next, Delta.isCall, Delta.isContent]
    | content text =>
      cases called <;> cases before <;> simp_all [Phase.next, Delta.isCall, Delta.isContent]
    | toolCalls calls =>
      cases calls <;> cases called <;> cases before <;>
        simp_all [Phase.next, Delta.isCall, Delta.isContent]

theorem textResumes_snoc : textResumes (deltas ++ [delta]) =
    (textResumes deltas || (delta.isContent && (phaseOf deltas).1 == some true)) := by
  have hresumes (deltas : List Delta) : textResumes deltas =
      (textFirst deltas && textLater deltas) := rfl
  rw [hresumes, hresumes, textFirst_snoc, textLater_snoc, phaseOf_eq]
  cases hcalled : deltas.any Delta.isCall with
  | true => cases htext : deltas.any Delta.isContent with
    | true => cases textFirst deltas <;> cases textLater deltas <;> cases delta.isContent <;> rfl
    | false => simp [textFirst_eq_false htext]
  | false => simp [textLater_of_quiet hcalled]

end Lobster.Chat
