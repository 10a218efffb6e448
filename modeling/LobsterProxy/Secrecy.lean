import LobsterProxy.Anthropic.Hidden
import LobsterProxy.Responses.Hidden

/-! Reasoning that is not exposed is not seen: neither frontend lets it show in what the
client gets. -/

namespace Lobster
open Chat

/-- Chunks that differ in their reasoning alone give the same answer on both frontends,
streamed or not, up to the random ids of a Responses stream. -/
theorem run_indifferent_to_reasoning (serde : Serde) {hex hex' : Nat → String}
    (hinj : Function.Injective hex) (hinj' : Function.Injective hex') (id : String)
    (createdAt : UInt64) (model : String) {chunks chunks' : List Json}
    (h : chunks.map hideReasoning = chunks'.map hideReasoning) :
    (let first := Anthropic.StreamConverter.run chunks (.new id false)
      let second := Anthropic.StreamConverter.run chunks' (.new id false)
      first.2 = second.2 ∧
        first.1.nonstreamResponse serde = second.1.nonstreamResponse serde) ∧
    (let first := Responses.ResponsesConverter.run hex createdAt model false chunks none
      let second := Responses.ResponsesConverter.run hex' createdAt model false chunks' none
      first.2.map Responses.Frame.nameless = second.2.map Responses.Frame.nameless ∧
        first.1.nonstreamResponse.nameless = second.1.nonstreamResponse.nameless) :=
  ⟨Anthropic.StreamConverter.run_hides_reasoning serde id chunks chunks' h,
    Responses.ResponsesConverter.run_hides_reasoning hinj hinj' createdAt model h⟩

theorem run_indifferent_to_reasoning_thought :
    let hex (n : Nat) : String := String.ofList (List.replicate n '0')
    let chunk (delta : Fields) : Json := .obj [("choices", .arr [.obj [("delta", .obj delta)]])]
    let chunks := [chunk [("reasoning_content", .str "hm"), ("content", .str "hello")]]
    let chunks' := [chunk [("content", .str "hello")]]
    (let first := Anthropic.StreamConverter.run chunks (.new "msg" false)
      let second := Anthropic.StreamConverter.run chunks' (.new "msg" false)
      first.2 = second.2 ∧
        first.1.nonstreamResponse .emptyObject = second.1.nonstreamResponse .emptyObject) ∧
    (let first := Responses.ResponsesConverter.run hex 0 "m" false chunks none
      let second := Responses.ResponsesConverter.run hex 0 "m" false chunks' none
      first.2.map Responses.Frame.nameless = second.2.map Responses.Frame.nameless ∧
        first.1.nonstreamResponse.nameless = second.1.nonstreamResponse.nameless) := by
  have hinj := Responses.zeros_injective
  exact run_indifferent_to_reasoning .emptyObject hinj hinj "msg" 0 "m" rfl

end Lobster
