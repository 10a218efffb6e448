import LobsterProxy.Anthropic.StreamWellFormed
import LobsterProxy.Base.Twins
import LobsterProxy.Chat.Hidden

/-! With exposure off, the stream and the response do not depend on the reasoning. -/

namespace Lobster.Anthropic
open Chat Emitter

namespace StreamConverter

def veil (c : StreamConverter) : StreamConverter := { c with thinkingAccum := "" }

/-- Converters that hide their reasoning and differ in it at most. -/
def Veiled (c c' : StreamConverter) : Prop := c.exposeThinking = false ∧ c.veil = c'.veil

section Steps

theorem Veiled.field {α : Type} {c c' : StreamConverter} (h : Veiled c c')
    (f : StreamConverter → α) :
    f c.veil = f c'.veil := congrArg f h.2

theorem twins_of_veil {f : Emitter StreamConverter Event}
    (hveil : ∀ c, f c.veil = ((f c).1.veil, (f c).2))
    (hexpose : ∀ c, (f c).1.exposeThinking = c.exposeThinking) : Twins Veiled id f f := by
  rintro c c' ⟨hhidden, hsame⟩
  have hstep := hveil c
  rw [hsame, hveil c'] at hstep
  obtain ⟨hstate, hout⟩ := Prod.mk.inj hstep
  exact ⟨⟨(hexpose c).trans hhidden, hstate.symm⟩, by rw [hout]⟩

theorem twins_ensureStarted : Twins Veiled id ensureStarted ensureStarted := by
  refine twins_of_veil (fun c => ?_) fun c => ?_ <;> cases hstarted : c.started <;>
    simp [ensureStarted, veil, hstarted]

theorem twins_closeThinking : Twins Veiled id closeThinking closeThinking := by
  refine twins_of_veil (fun c => ?_) fun c => ?_ <;> cases hopen : c.thinkingOpen <;>
    simp [closeThinking, veil, hopen]

theorem twins_openText : Twins Veiled id openText openText := by
  refine twins_of_veil (fun c => ?_) fun c => ?_ <;> cases hopen : c.textOpen <;>
    simp [openText, veil, hopen]

theorem twins_closeText : Twins Veiled id closeText closeText := by
  refine twins_of_veil (fun c => ?_) fun c => ?_ <;> cases hopen : c.textOpen <;>
    simp [closeText, veil, hopen]

theorem twins_closeTools : Twins Veiled id closeTools closeTools :=
  twins_of_veil (fun _ => rfl) fun _ => rfl

theorem twins_feedSlot (call : ToolCallDelta) :
    Twins Veiled id (feedSlot call) (feedSlot call) := by
  refine twins_of_veil (fun c => ?_) fun c => ?_ <;> cases hfind : c.tools.find? call.index <;>
    simp [feedSlot, slotFor, veil, hfind]

theorem twins_feedContent (content : String) :
    Twins Veiled id (feedContent content) (feedContent content) := by
  have haccum : Twins Veiled id
      (silent fun c => { c with textAccum := c.textAccum ++ content } :
      Emitter StreamConverter Event)
      (silent fun c => { c with textAccum := c.textAccum ++ content }) :=
    twins_of_veil (fun _ => rfl) fun _ => rfl
  have hdelta : Twins Veiled id
      (fun c : StreamConverter => (c, [Event.contentBlockDelta c.textIdx (.text content)]))
      fun c => (c, [Event.contentBlockDelta c.textIdx (.text content)]) :=
    twins_of_veil (fun _ => rfl) fun _ => rfl
  exact twins_closeThinking.andThen (haccum.andThen (twins_openText.andThen hdelta))

theorem twins_feedReasoning (text : String) : Twins Veiled id (feedReasoning text) skip := by
  rintro c c' ⟨hhidden, hsame⟩
  have hfed : feedReasoning text c = ({ c with thinkingAccum := c.thinkingAccum ++ text }, []) := by
    unfold feedReasoning
    dsimp only
    rw [if_neg (by rw [hhidden]; exact Bool.false_ne_true)]
  rw [hfed]
  exact ⟨⟨hhidden, hsame⟩, rfl⟩

theorem twins_feedDelta (delta : Delta) (h : delta.isReasoning = false) :
    Twins Veiled id (feedDelta delta) (feedDelta delta) := by
  cases delta with
  | finish reason => exact twins_of_veil (fun _ => rfl) fun _ => rfl
  | reasoning text => cases h
  | content text => exact twins_feedContent text
  | toolCalls calls =>
    exact twins_forEach (fun call => twins_closeThinking.andThen (twins_feedSlot call)) calls

theorem twins_feedChunk (chunk : Json) :
    Twins Veiled id (feedChunk chunk) (feedChunk (hideReasoning chunk)) := by
  have hnote : Twins Veiled id (silent (noteChunk chunk) : Emitter StreamConverter Event)
      (silent (noteChunk (hideReasoning chunk))) := by
    have hsame : noteChunk (hideReasoning chunk) = noteChunk chunk := by
      unfold noteChunk
      rw [chunkModel_hideReasoning, chunkUsage_hideReasoning]
    rw [hsame]
    exact twins_of_veil (fun _ => rfl) fun _ => rfl
  have hdeltas : Twins Veiled id (forEach feedDelta (chunkDeltas chunk))
      (forEach feedDelta (chunkDeltas (hideReasoning chunk))) := by
    rw [chunkDeltas_hideReasoning]
    refine twins_forEach_filter (fun delta hp => ?_) (fun delta hp => ?_) _
    · exact twins_feedDelta delta (by simpa using hp)
    · cases delta with
      | reasoning text => exact twins_feedReasoning text
      | _ => cases hp
  intro c c' h
  have hfinished : c.finished = c'.finished := h.field finished
  unfold feedChunk
  rw [← hfinished]
  split_ifs
  · exact ⟨h, rfl⟩
  · exact (hnote.andThen (twins_ensureStarted.andThen hdeltas)) c c' h

theorem twins_finish : Twins Veiled id finish finish := by
  have hset :
      Twins Veiled id (silent fun c => { c with finished := true } : Emitter StreamConverter Event)
      (silent fun c => { c with finished := true }) :=
    twins_of_veil (fun _ => rfl) fun _ => rfl
  have htail (reason : String) : Twins Veiled id
      (fun c : StreamConverter =>
        (c, [Event.messageDelta reason (c.usage.elim 0 Usage.output), Event.messageStop]))
      fun c => (c, [Event.messageDelta reason (c.usage.elim 0 Usage.output), Event.messageStop]) :=
    twins_of_veil (fun _ => rfl) fun _ => rfl
  intro c c' h
  have hfinished : c.finished = c'.finished := h.field finished
  have hreason : c.finishReason = c'.finishReason := h.field finishReason
  unfold finish finishWithStop
  rw [← hfinished, ← hreason]
  split_ifs
  · exact ⟨h, rfl⟩
  · exact (hset.andThen (twins_closeThinking.andThen (twins_closeText.andThen
      (twins_closeTools.andThen (htail _))))) c c' h

theorem nonstreamResponse_veiled (serde : Serde) {c c' : StreamConverter} (h : Veiled c c') :
    c.nonstreamResponse serde = c'.nonstreamResponse serde := by
  have hresponse (c : StreamConverter) (hhidden : c.exposeThinking = false) :
      c.nonstreamResponse serde = c.veil.nonstreamResponse serde := by
    simp [nonstreamResponse, nonstreamContent, veil, hhidden]
  have hhidden : c'.exposeThinking = false := (h.field exposeThinking).symm.trans h.1
  rw [hresponse c h.1, hresponse c' hhidden, h.2]

end Steps

theorem run_hides_reasoning (serde : Serde) (hex : String) (chunks chunks' : List Json)
    (h : chunks.map hideReasoning = chunks'.map hideReasoning) :
    (run chunks (new hex false)).2 = (run chunks' (new hex false)).2 ∧
      (run chunks (new hex false)).1.nonstreamResponse serde =
        (run chunks' (new hex false)).1.nonstreamResponse serde := by
  have hrun (chunks : List Json) := (twins_forEach_map twins_feedChunk chunks).andThen twins_finish
    (new hex false) (new hex false) ⟨rfl, rfl⟩
  obtain ⟨hstate, hout⟩ := hrun chunks
  obtain ⟨hstate', hout'⟩ := hrun chunks'
  rw [← h] at hstate' hout'
  rw [List.map_id, List.map_id] at hout hout'
  unfold run
  refine ⟨hout.trans hout'.symm, ?_⟩
  rw [nonstreamResponse_veiled serde hstate, nonstreamResponse_veiled serde hstate']

end StreamConverter
end Lobster.Anthropic
