import LobsterProxy.Base.Json

/-! The outgoing request body: passthrough keys of the converted body, with
streaming forced. -/

namespace Lobster.Upstream

def passthroughBodyKeys : List String :=
  ["model", "messages", "tools", "tool_choice", "temperature", "top_p", "top_k", "max_tokens",
    "stop", "presence_penalty", "frequency_penalty", "reasoning_effort", "prompt_cache_key", "user"]

/-- The members of `object` under `keys`, inserted in the order of `keys`. -/
def copyKeys (object : Fields) (keys : List String) (out : Fields) : Fields :=
  keys.foldl (fun out key => out.insertSome key (object.get? key)) out

def filterBody (body : Json) (model : String) : Json :=
  let object := body.asObject.getD []
  let out := copyKeys object passthroughBodyKeys []
  let out := (out.insert "model" (.str model)).insert "stream" (.bool true)
  .obj (if out.containsKey "stream_options" then out
    else out.insert "stream_options" (.obj [("include_usage", .bool true)]))

theorem get?_copyKeys (object : Fields) (keys : List String) (out : Fields) (key : String) :
    (copyKeys object keys out).get? key =
      if key ∈ keys then (object.get? key).or (out.get? key) else out.get? key := by
  induction keys generalizing out with
  | nil => rfl
  | cons k rest ih =>
    change (copyKeys object rest (out.insertSome k (object.get? k))).get? key = _
    rw [ih]
    by_cases hk : k = key
    · subst hk
      cases h : object.get? k <;> simp [Fields.insertSome]
    · rw [Fields.get?_insertSome_ne _ _ hk]
      simp [Ne.symm hk]

theorem get?_filterBody (body : Json) (model : String) {key : String}
    (hkey : key ∈ passthroughBodyKeys) (hmodel : key ≠ "model") (hstream : key ≠ "stream")
    (hoptions : key ≠ "stream_options") : (filterBody body model).get? key = body.get? key := by
  have hcopy : (copyKeys (body.asObject.getD []) passthroughBodyKeys []).get? key =
      body.get? key := by
    rw [get?_copyKeys, if_pos hkey]
    cases body <;> simp [Json.asObject, Json.get?]
  have hforced : (((copyKeys (body.asObject.getD []) passthroughBodyKeys []).insert "model"
      (.str model)).insert "stream" (.bool true)).get? key = body.get? key := by
    rw [Fields.get?_insert_ne _ _ (Ne.symm hstream), Fields.get?_insert_ne _ _ (Ne.symm hmodel),
      hcopy]
  unfold filterBody
  simp only [Json.get?_obj]
  split_ifs
  · exact hforced
  · rw [Fields.get?_insert_ne _ _ (Ne.symm hoptions), hforced]

theorem get?_filterBody_messages (body : Json) (model : String) :
    (filterBody body model).get? "messages" = body.get? "messages" :=
  get?_filterBody body model (by decide) (by decide) (by decide) (by decide)

end Lobster.Upstream
