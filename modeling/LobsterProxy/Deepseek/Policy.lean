import LobsterProxy.Base.Json
import Mathlib.Data.List.Sort
import Mathlib.Data.String.Basic

/-! The request policy of the served model: billing-header strip, canonical JSON
and the exposure decision. -/

namespace Lobster.Deepseek

def billingHeaderPrefix : String := "x-anthropic-billing-header:"

/-- Length of the leading billing-header line, in characters of the text. -/
def stripLeadingBillingHeader (text : List Char) : Nat :=
  if billingHeaderPrefix.toList.isPrefixOf text then
    let start := billingHeaderPrefix.toList.length
    let lineEnd := start + (text.drop start).findIdx (fun c => c = '\n' || c = '\r')
    match text.drop lineEnd with
    | '\r' :: '\n' :: _ => lineEnd + 2
    | '\r' :: _ => lineEnd + 1
    | '\n' :: _ => lineEnd + 1
    | _ => lineEnd
  else 0

def stripBillingText (text : String) : String :=
  let cut := stripLeadingBillingHeader text.toList
  if 0 < cut then String.ofList (text.toList.drop cut) else text

def stripBillingBlock (block : Json) : Json :=
  if block.getStr? "type" = some "text" then
    match block.get? "text" with
    | some (.str text) => block.set "text" (.str (stripBillingText text))
    | _ => block
  else block

def stripBillingInAnthropicSystem (request : Json) : Json :=
  match request.get? "system" with
  | some (.str text) => request.set "system" (.str (stripBillingText text))
  | some (.arr blocks) => request.set "system" (.arr (blocks.map stripBillingBlock))
  | _ => request

mutual

def writeCanonical (serde : Serde) : Json → String
  | .obj fields =>
    let sorted := (writeCanonicalFields serde fields).insertionSort (fun a b => a.1 ≤ b.1)
    "\x7b" ++ ",".intercalate (sorted.map Prod.snd) ++ "\x7d"
  | .arr items => "[" ++ ",".intercalate (writeCanonicalItems serde items) ++ "]"
  | other => serde.toString other

def writeCanonicalItems (serde : Serde) : List Json → List String
  | [] => []
  | item :: rest => writeCanonical serde item :: writeCanonicalItems serde rest

/-- Each entry as its key, to sort by, and its text `"key":value`. -/
def writeCanonicalFields (serde : Serde) : List (String × Json) → List (String × String)
  | [] => []
  | (key, value) :: rest =>
    (key, serde.toString (.str key) ++ ":" ++ writeCanonical serde value) ::
      writeCanonicalFields serde rest

end

def canonicalJsonString (serde : Serde) (value : Json) : String := writeCanonical serde value

inductive ThinkingExposure where
  | requested
  | notRequested
  deriving DecidableEq, Repr

def resolveExposure (thinking : Option Json) : ThinkingExposure :=
  match thinking.bind (fun value => value.getStr? "type") with
  | some "enabled" => .requested
  | _ => .notRequested

theorem get?_stripBillingInAnthropicSystem (fields : Fields) {key : String} (h : key ≠ "system") :
    (stripBillingInAnthropicSystem (.obj fields)).get? key = fields.get? key := by
  unfold stripBillingInAnthropicSystem
  split
  · exact Fields.get?_insert_ne fields _ (Ne.symm h)
  · exact Fields.get?_insert_ne fields _ (Ne.symm h)
  · rfl

end Lobster.Deepseek
