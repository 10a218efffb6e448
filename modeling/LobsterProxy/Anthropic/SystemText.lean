import LobsterProxy.Anthropic.Request
import LobsterProxy.Upstream.Body

/-! What becomes of an Anthropic request's system texts on the way to the
outgoing body. -/

namespace Lobster.Anthropic
open Conversion Deepseek Upstream

def systemBlockText (block : Json) : Option String :=
  if block.getStr? "type" = some "text" then block.getStr? "text" else none

/-- The non-empty system texts of a request, after the billing-header strip. -/
def systemTexts (request : Json) : List String :=
  match (stripBillingInAnthropicSystem request).get? "system" with
  | some (.str text) => [text].filter (fun t => t ≠ "")
  | some (.arr blocks) => (blocks.filterMap systemBlockText).filter (fun t => t ≠ "")
  | _ => []

/-- The texts stand in the characters verbatim, in order, without overlap. -/
inductive OccurInOrder : List String → List Char → Prop
  | nil (s : List Char) : OccurInOrder [] s
  | cons {t : String} {ts : List String} (a : List Char) {b : List Char} :
      OccurInOrder ts b → OccurInOrder (t :: ts) (a ++ (t.toList ++ b))

def messageChars (message : Json) : List Char :=
  match message.get? "content" with
  | some (.str text) => text.toList
  | some (.arr parts) => parts.flatMap (fun part => (part.getStrD "text").toList)
  | _ => []

def CarriesBefore (texts : List String) (body : Json) (conversation : List Json) : Prop :=
  ∃ before, body.get? "messages" = some (.arr (before ++ conversation)) ∧
    OccurInOrder texts (before.flatMap messageChars)

/-- Every system text is carried ahead of the conversation, in the converted body
and in what `filterBody` sends. -/
def SystemCarried (serde : Serde) (request : Json) (converted : Converted) : Prop :=
  ∃ messages conversation, request.get? "messages" = some (.arr messages) ∧
    convertMessages serde messages = .ok conversation ∧
    CarriesBefore (systemTexts request) converted.chatBody conversation ∧
    ∀ model, CarriesBefore (systemTexts request) (filterBody converted.chatBody model) conversation

theorem occurInOrder_nil_iff {texts : List String} (h : ∀ t ∈ texts, t ≠ "") :
    OccurInOrder texts [] ↔ texts = [] := by
  constructor
  · intro ho
    cases texts with
    | nil => rfl
    | cons t ts =>
      exfalso
      generalize hs : ([] : List Char) = s at ho
      cases ho with
      | cons a hrest =>
        have ht : t.toList = [] := by
          have := (List.append_eq_nil_iff.mp hs.symm).2
          exact (List.append_eq_nil_iff.mp this).1
        exact h t List.mem_cons_self (String.toList_eq_nil_iff.mp ht)
  · rintro rfl
    exact .nil []

theorem systemTexts_ne_empty (request : Json) : ∀ t ∈ systemTexts request, t ≠ "" := by
  intro t ht
  unfold systemTexts at ht
  split at ht
  · simpa using (List.mem_filter.mp ht).2
  · simpa using (List.mem_filter.mp ht).2
  · cases ht

theorem convertObject_messages {serde : Serde} {defaultModel : String} {object : Fields}
    {converted : Converted} (h : convertObject serde defaultModel object = .ok converted) :
    ∃ messages conversation, object.get? "messages" = some (.arr messages) ∧
      convertMessages serde messages = .ok conversation ∧
      converted.chatBody.get? "messages" = some (.arr conversation) := by
  unfold convertObject at h
  obtain ⟨maxTokens, -, h⟩ := bind_eq_ok.mp h
  obtain ⟨stop, -, h⟩ := bind_eq_ok.mp h
  obtain ⟨messages, hmessages, h⟩ := bind_eq_ok.mp h
  obtain ⟨messages', hnonempty, h⟩ := bind_eq_ok.mp h
  obtain ⟨conversation, hconversation, h⟩ := bind_eq_ok.mp h
  obtain ⟨tools, -, h⟩ := bind_eq_ok.mp h
  obtain ⟨toolChoice, -, h⟩ := bind_eq_ok.mp h
  cases h
  obtain ⟨v, hv, hitems⟩ := Option.bind_eq_some_iff.mp (orInvalid_eq_ok.mp hmessages)
  have hsame : messages = messages' := by
    unfold nonEmptyMessages at hnonempty
    split at hnonempty
    · exact absurd hnonempty invalid_ne_ok
    · exact Except.ok.inj hnonempty
  subst hsame
  refine ⟨messages, conversation, by rw [hv, Json.asArray_eq_some.mp hitems], hconversation, ?_⟩
  unfold chatFields
  rw [Json.get?_obj, Fields.get?_insertSome_ne _ _ (by decide),
    Fields.get?_insertSome_ne _ _ (by decide), Fields.get?_insert_self]

theorem convertRequest_messages {serde : Serde} {defaultModel : String} {request : Json}
    {converted : Converted} (h : convertRequest serde defaultModel request = .ok converted) :
    ∃ messages conversation, request.get? "messages" = some (.arr messages) ∧
      convertMessages serde messages = .ok conversation ∧
      converted.chatBody.get? "messages" = some (.arr conversation) := by
  unfold convertRequest at h
  obtain ⟨fields, hfields, h⟩ := bind_eq_ok.mp h
  obtain ⟨messages, conversation, hm, hc, hb⟩ := convertObject_messages h
  have hrequest := Json.asObject_eq_some.mp (orInvalid_eq_ok.mp hfields)
  subst hrequest
  refine ⟨messages, conversation, ?_, hc, hb⟩
  rw [Json.get?_obj, ← get?_stripBillingInAnthropicSystem fields (by decide), ← hm]
  unfold stripBillingInAnthropicSystem
  split <;> rfl

theorem checks_congr {a b : Fields}
    (h : ∀ key, key ≠ "system" → key ≠ "messages" → a.get? key = b.get? key) :
    stopSequences a = stopSequences b ∧ requestTools a = requestTools b ∧
      thinkingRequested a = thinkingRequested b ∧
      ∀ thinking, requestToolChoice a thinking = requestToolChoice b thinking := by
  refine ⟨?_, ?_, ?_, fun thinking => ?_⟩
  · unfold stopSequences
    rw [h _ (by decide) (by decide)]
  · unfold requestTools
    rw [h _ (by decide) (by decide)]
  · unfold thinkingRequested
    rw [h _ (by decide) (by decide)]
  · unfold requestToolChoice
    rw [h _ (by decide) (by decide)]

theorem convertObject_congr (serde : Serde) (defaultModel : String) {a b : Fields}
    (h : ∀ key, key ≠ "system" → a.get? key = b.get? key) :
    convertObject serde defaultModel a = convertObject serde defaultModel b := by
  obtain ⟨hstop, htools, hthinking, hchoice⟩ := checks_congr fun key hsystem _ => h key hsystem
  have hchat (n : UInt64) (stop : Option Json) (ms : List Json) (tools choice : Option Json) :
      chatFields defaultModel a n stop ms tools choice =
        chatFields defaultModel b n stop ms tools choice := by
    simp only [chatFields, h "temperature" (by decide), h "top_p" (by decide),
      h "top_k" (by decide)]
  unfold convertObject
  simp only [hstop, htools, hthinking, hchoice, hchat, h "max_tokens" (by decide),
    h "messages" (by decide), h "model" (by decide)]

def withSystem (base : Fields) (system : Json) : Json := .obj (base.insert "system" system)

theorem convertRequest_ignores_system (serde : Serde) (defaultModel : String) (base : Fields)
    (s s' : Json) : convertRequest serde defaultModel (withSystem base s) =
      convertRequest serde defaultModel (withSystem base s') := by
  have hobj (v : Json) : ∃ fields : Fields,
      stripBillingInAnthropicSystem (withSystem base v) = .obj fields := by
    unfold withSystem stripBillingInAnthropicSystem
    split <;> exact ⟨_, rfl⟩
  obtain ⟨fields, hfields⟩ := hobj s
  obtain ⟨fields', hfields'⟩ := hobj s'
  have hread (key : String) (hkey : key ≠ "system") : fields.get? key = fields'.get? key := by
    have h₁ := get?_stripBillingInAnthropicSystem (base.insert "system" s) hkey
    have h₂ := get?_stripBillingInAnthropicSystem (base.insert "system" s') hkey
    unfold withSystem at hfields hfields'
    rw [hfields, Fields.get?_insert_ne _ _ (Ne.symm hkey)] at h₁
    rw [hfields', Fields.get?_insert_ne _ _ (Ne.symm hkey)] at h₂
    exact h₁.trans h₂.symm
  unfold convertRequest
  rw [hfields, hfields']
  exact convertObject_congr serde defaultModel hread

theorem carriesBefore_iff {texts : List String} {body : Json} {conversation : List Json}
    (htexts : ∀ t ∈ texts, t ≠ "") (hbody : body.get? "messages" = some (.arr conversation)) :
    CarriesBefore texts body conversation ↔ texts = [] := by
  constructor
  · rintro ⟨before, hmessages, ho⟩
    rw [hbody] at hmessages
    have hnil : before = [] := by simpa using hmessages
    subst hnil
    exact (occurInOrder_nil_iff htexts).mp ho
  · rintro rfl
    exact ⟨[], hbody, .nil _⟩

/-- A system text reaches the outgoing body only when there is none to carry, and
two requests that differ in system texts alone send the same body. -/
theorem convertRequest_systemCarried_iff (serde : Serde) (defaultModel : String) :
    (∀ request converted, convertRequest serde defaultModel request = .ok converted →
      (SystemCarried serde request converted ↔ systemTexts request = [])) ∧
    ∀ base s s' converted converted' model,
      convertRequest serde defaultModel (withSystem base s) = .ok converted →
      convertRequest serde defaultModel (withSystem base s') = .ok converted' →
      ((systemTexts (withSystem base s) ≠ systemTexts (withSystem base s') →
          filterBody converted.chatBody model ≠ filterBody converted'.chatBody model) ↔
        systemTexts (withSystem base s) = systemTexts (withSystem base s')) := by
  constructor
  · intro request converted h
    obtain ⟨messages, conversation, hm, hc, hb⟩ := convertRequest_messages h
    have htexts := systemTexts_ne_empty request
    constructor
    · rintro ⟨messages', conversation', hm', hc', hcarried, -⟩
      have heq : messages = messages' := by simpa [hm] using hm'
      subst heq
      have heq : conversation = conversation' := by simpa [hc] using hc'
      subst heq
      exact (carriesBefore_iff htexts hb).mp hcarried
    · intro hnil
      refine ⟨messages, conversation, hm, hc, (carriesBefore_iff htexts hb).mpr hnil,
      fun model => ?_⟩
      exact (carriesBefore_iff htexts ((get?_filterBody_messages _ model).trans hb)).mpr hnil
  · intro base s s' converted converted' model h h'
    have heq : converted = converted' := by
      rw [convertRequest_ignores_system serde defaultModel base s s'] at h
      simpa [h] using h'
    subst heq
    constructor
    · intro hdiffer
      by_contra hne
      exact hdiffer hne rfl
    · intro hsame hne
      exact absurd hsame hne

def greeting : Fields :=
  [("max_tokens", Json.ofNat 1),
    ("messages", .arr [.obj [("role", .str "user"), ("content", .str "hi")]])]

def convertedGreeting : Converted where
  chatBody := .obj [("model", .str "m"), ("max_tokens", Json.ofNat 1),
    ("messages", .arr [.obj [("role", .str "user"), ("content", .str "hi")]])]
  thinkingRequested := false
  clientModel := none

theorem convertRequest_systemCarried_iff_greeting :
    SystemCarried Serde.emptyObject (.obj greeting) convertedGreeting :=
  ((convertRequest_systemCarried_iff Serde.emptyObject "m").1 (.obj greeting) convertedGreeting
    rfl).mpr
    (by decide)

theorem convertRequest_drops_system :
    convertRequest Serde.emptyObject "m" (withSystem greeting (.str "Be brief.")) =
      .ok convertedGreeting ∧
    convertRequest Serde.emptyObject "m" (withSystem greeting (.str "Be kind.")) =
      .ok convertedGreeting ∧
    systemTexts (withSystem greeting (.str "Be brief.")) = ["Be brief."] ∧
    systemTexts (withSystem greeting (.str "Be kind.")) = ["Be kind."] ∧
    ¬ SystemCarried Serde.emptyObject (withSystem greeting (.str "Be brief."))
      convertedGreeting := by
  refine ⟨rfl, rfl, by decide, by decide, ?_⟩
  rintro ⟨messages, conversation, hm, hc, hcarried, -⟩
  have hmessages : [.obj [("role", .str "user"), ("content", .str "hi")]] = messages :=
    Json.arr.inj (Option.some.inj hm)
  subst hmessages
  have hconversation : [.obj [("role", .str "user"), ("content", .str "hi")]] = conversation :=
    Except.ok.inj hc
  subst hconversation
  exact absurd ((carriesBefore_iff (by decide) rfl).mp hcarried) (by decide)

end Lobster.Anthropic
