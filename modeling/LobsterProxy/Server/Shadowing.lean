import LobsterProxy.Server.Pump
import LobsterProxy.Shadow.Recall

/-! The shadow store at both ends of a generation: a request is restored from it, and the
end of the pump updates it. -/

namespace Lobster.Server
open Deepseek Shadow ReasoningShadowStore

section
variable (hash : String → Fin (2 ^ 64))

def applyUpdate (now checked : Nat) (session : String) (update : Option ShadowUpdate)
    (store : ReasoningShadowStore) : ReasoningShadowStore :=
  match update with
  | some (.store toolIds reasoning) => store.store hash now checked session toolIds reasoning
  | some .clear => store.clearSession session
  | none => store

def prepareBody (serde : Serde) (clock : Nat → Nat) (session : Option String) (body : Fields)
    (store : ReasoningShadowStore) : Fields × ReasoningShadowStore :=
  let (restored, store) := match session with
    | some session => restoreInto hash clock body session store
    | none => (body, store)
  ((stripHistoricalReasoning serde restored).1, store)

end

theorem prepareBody_turn {hash : String → Fin (2 ^ 64)} (serde : Serde) {clock : Nat → Nat}
    {session : String} {body : Fields} {before after calls : List Json} {message : Json}
    {limits : ShadowLimits} {entry : ShadowEntry} {store : ReasoningShadowStore}
    (hmessages : body.get? "messages" = some (.arr (before ++ message :: after)))
    (huser : ∃ m ∈ before, isUserMessage m = true)
    (hrole : isAssistantMessage message = true)
      (hcalls : message.get? "tool_calls" = some (.arr calls))
    (hids : callIds calls ≠ []) (hafter : ∀ m ∈ after, m.getStr? "role" = some "tool")
    (h : Retains hash limits session (callIds calls) entry store)
    (hfresh : ∀ index, expired limits (clock index) entry = false) :
    ∃ history, history.length = before.length ∧
      (prepareBody hash serde clock (some session) body store).1.get? "messages" =
        some (.arr (history ++ recalled entry.reasoning message :: after)) := by
  have htail : ∀ m ∈ message :: after, isUserMessage m = false := by
    intro m hm
    unfold isUserMessage
    rcases List.mem_cons.mp hm with rfl | hm
    · rw [of_decide_eq_true hrole]
      rfl
    · rw [hafter m hm]
      rfl
  have hothers : ∀ m ∈ after, isAssistantMessage m = false := by
    intro m hm
    unfold isAssistantMessage
    rw [hafter m hm]
    rfl
  have hboundary := reasoningEpochBoundary_lt huser htail
  obtain ⟨restored, hsame, hrestored⟩ :=
    restoreInto_turn hmessages hboundary.le hrole hcalls hids hothers h hfresh
  have hlength : restored.length = before.length := by simpa using congrArg List.length hsame
  have hrecalled : isUserMessage (recalled entry.reasoning message) = isUserMessage message := by
    unfold isUserMessage
    rw [role_recalled]
  have hstart : reasoningEpochBoundary (restored ++ recalled entry.reasoning message :: after) =
      reasoningEpochBoundary (before ++ message :: after) := by
    refine reasoningEpochBoundary_congr ?_
    rw [List.map_append, List.map_append, List.map_cons, List.map_cons, hsame, hrecalled]
  obtain ⟨history, hhistory, hstripped⟩ := stripHistoricalReasoning_epoch serde hrestored
    (by rw [hstart, hlength]; exact hboundary.le)
  exact ⟨history, hhistory.trans hlength, hstripped⟩

end Lobster.Server
