import LobsterProxy.Chat.Chunk

/-! Chunks without their reasoning. -/

namespace Lobster.Chat

def onField (key : String) (f : Json → Json) : Json → Json
  | .obj fields => .obj (fields.map fun e => if e.1 = key then (e.1, f e.2) else e)
  | v => v

def onItems (f : Json → Json) : Json → Json
  | .arr items => .arr (items.map f)
  | v => v

def dropField (key : String) : Json → Json
  | .obj fields => .obj (fields.filter fun e => e.1 ≠ key)
  | v => v

def hideReasoning : Json → Json :=
  onField "choices" (onItems (onField "delta" (dropField "reasoning_content")))

def Delta.isReasoning : Delta → Bool
  | reasoning _ => true
  | _ => false

theorem get?_onField (key other : String) (f : Json → Json) (v : Json) :
    (onField key f v).get? other = if other = key then (v.get? other).map f else v.get? other := by
  cases v with
  | obj fields =>
    unfold onField
    rw [Json.get?_obj, Json.get?_obj]
    induction fields with
    | nil => simp
    | cons e fields ih =>
      obtain ⟨k, w⟩ := e
      rw [List.map_cons]
      by_cases hk : k = key
      · rw [if_pos hk, Fields.get?_cons, Fields.get?_cons, ih]
        by_cases hother : k = other
        · subst hother
          simp [hk]
        · simp [hother]
      · rw [if_neg hk, Fields.get?_cons, Fields.get?_cons, ih]
        by_cases hother : k = other
        · subst hother
          simp [hk]
        · simp [hother]
  | _ => simp [onField, Json.get?]

theorem get?_dropField (key other : String) (v : Json) :
    (dropField key v).get? other = if other = key then none else v.get? other := by
  cases v with
  | obj fields =>
    unfold dropField
    rw [Json.get?_obj, Json.get?_obj]
    induction fields with
    | nil => simp
    | cons e fields ih =>
      obtain ⟨k, w⟩ := e
      by_cases hk : k = key
      · rw [List.filter_cons_of_neg (by simpa using hk), ih, Fields.get?_cons]
        by_cases hother : other = key
        · simp [hother]
        · simp [hother, hk, Ne.symm hother]
      · rw [List.filter_cons_of_pos (by simpa using hk), Fields.get?_cons, ih, Fields.get?_cons]
        by_cases hother : k = other
        · subst hother
          simp [hk]
        · simp [hother]
  | _ => simp [dropField, Json.get?]

theorem getStr?_dropField {key other : String} (h : other ≠ key) (v : Json) :
    (dropField key v).getStr? other = v.getStr? other := by
  unfold Json.getStr?
  rw [get?_dropField, if_neg h]

theorem asArray_onItems (f : Json → Json) (v : Json) :
    (onItems f v).asArray = v.asArray.map (List.map f) := by
  cases v <;> rfl

theorem chunkModel_hideReasoning (chunk : Json) :
    chunkModel (hideReasoning chunk) = chunkModel chunk := by
  unfold chunkModel hideReasoning Json.getStr?
  rw [get?_onField, if_neg (by decide)]

theorem chunkUsage_hideReasoning (chunk : Json) :
    chunkUsage (hideReasoning chunk) = chunkUsage chunk := by
  unfold chunkUsage hideReasoning
  rw [get?_onField, if_neg (by decide)]

theorem choiceDeltas_hide (choice : Json) :
    choiceDeltas (onField "delta" (dropField "reasoning_content") choice) =
      (choiceDeltas choice).filter fun delta => !delta.isReasoning := by
  have hfinish : (onField "delta" (dropField "reasoning_content") choice).getStr? "finish_reason" =
      choice.getStr? "finish_reason" := by
    unfold Json.getStr?
    rw [get?_onField, if_neg (by decide)]
  have hkeep {α : Type} (make : α → Delta) (h : ∀ a, (make a).isReasoning = false) (as : List α) :
      (as.map make).filter (fun delta => !delta.isReasoning) = as.map make :=
    List.filter_eq_self.mpr fun delta hdelta => by
      obtain ⟨a, -, rfl⟩ := List.mem_map.mp hdelta
      simp [h]
  have hdrop (texts : List String) :
      (texts.map Delta.reasoning).filter (fun delta => !delta.isReasoning) = [] :=
    List.filter_eq_nil_iff.mpr fun delta hdelta => by
      obtain ⟨a, -, rfl⟩ := List.mem_map.mp hdelta
      simp [Delta.isReasoning]
  unfold choiceDeltas
  rw [hfinish, get?_onField, if_pos rfl]
  cases choice.get? "delta" with
  | none => exact (hkeep _ (fun _ => rfl) _).symm
  | some delta =>
    have hreasoning :
        nonEmptyStr (dropField "reasoning_content" delta) "reasoning_content" = [] := by
      unfold nonEmptyStr Json.getStr?
      rw [get?_dropField, if_pos rfl]
      rfl
    have hcontent : nonEmptyStr (dropField "reasoning_content" delta) "content" =
        nonEmptyStr delta "content" := by
      unfold nonEmptyStr
      rw [getStr?_dropField (by decide)]
    have hcalls : (dropField "reasoning_content" delta).get? "tool_calls" =
        delta.get? "tool_calls" := by
      rw [get?_dropField, if_neg (by decide)]
    simp only [Option.map_some, hreasoning, hcontent, hcalls, List.filter_append, hdrop,
      List.map_nil]
    rw [hkeep Delta.finish fun _ => rfl, hkeep Delta.content fun _ => rfl, hkeep _ fun _ => rfl]

theorem chunkDeltas_hideReasoning (chunk : Json) : chunkDeltas (hideReasoning chunk) =
    (chunkDeltas chunk).filter fun delta => !delta.isReasoning := by
  have hchoices : (((hideReasoning chunk).get? "choices").bind Json.asArray).getD [] =
      (((chunk.get? "choices").bind Json.asArray).getD []).map
        (onField "delta" (dropField "reasoning_content")) := by
    unfold hideReasoning
    rw [get?_onField, if_pos rfl]
    cases chunk.get? "choices" with
    | none => rfl
    | some choices =>
      rw [Option.map_some, Option.bind_some, asArray_onItems, Option.bind_some]
      cases choices.asArray <;> rfl
  unfold chunkDeltas
  rw [hchoices, List.flatMap_map, List.filter_flatMap]
  exact List.flatMap_congr fun choice _ => choiceDeltas_hide choice

end Lobster.Chat
