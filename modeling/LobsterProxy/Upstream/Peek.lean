import LobsterProxy.Base.Json
import LobsterProxy.Base.Text

/-! The head of a 200 response: an early `event:error` frame decides before any output. -/

namespace Lobster.Upstream
open Text

def quotaExhaustedCode : Int := 40201

structure StreamError where
  code : Option Int
  message : String
  deriving DecidableEq, Repr

def StreamError.isQuotaExhausted (error : StreamError) : Bool :=
  error.code = some quotaExhaustedCode

def parseStreamError (payload : Json) : Option StreamError :=
  (payload.get? "error").map fun error =>
    ⟨(error.get? "code").bind Json.asI64, (error.getStr? "message").getD "upstream error"⟩

def maxPrefixInspectBytes : Nat := 8 * 1024

structure BlockScan where
  isError : Bool
  payload : Option (List Char)
  sawData : Bool

def scanLine (scan : BlockScan) (line : List Char) : BlockScan :=
  match stripPrefix "event:".toList line with
  | some event => if trim event = "error".toList then { scan with isError := true } else scan
  | none =>
    match stripPrefix "data:".toList line with
    | none => scan
    | some data =>
      let data := trim data
      if data = "[DONE]".toList then scan
      else if scan.isError then { scan with payload := some data }
      else { scan with sawData := true }

section Scan
variable (serde : Serde)

def blockError (payload : Option (List Char)) : StreamError :=
  ((payload.bind fun payload => serde.fromStr (String.ofList payload)).bind parseStreamError).getD
    ⟨none, "upstream returned an error event"⟩

/-- `total` is the length of the text; a block that reaches it is not complete. -/
def scanBlocks (total : Nat) : Nat → Bool → List (List Char) → Option (StreamError × Nat)
  | _, _, [] => none
  | offset, sawData, block :: rest =>
    if total ≤ offset + len block then none
    else
      let nextOffset := offset + len block + 2
      let scan := (lines block).foldl scanLine ⟨false, none, sawData⟩
      if scan.isError then some (blockError serde scan.payload, nextOffset)
      -- data before any error: the stream has begun
      else if scan.sawData then none
      else scanBlocks total nextOffset scan.sawData rest

def scanPrefixForStreamError (bytes : List UInt8) : Option (StreamError × Nat) :=
  let text := fromUtf8Lossy bytes
  scanBlocks serde (len text) 0 false (split ['\n', '\n'] text)

abbrev StreamItem := Except String (List UInt8)

inductive Peek where
  | healthy (head : List UInt8) (stream : List StreamItem)
  | errored (error : StreamError)
  | unavailable

def hasFrameEnd (bytes : List UInt8) : Bool := contains bytes [10, 10]

def peekStreamError (head : List UInt8) : List StreamItem → Peek
  | [] =>
    match scanPrefixForStreamError serde head with
    | some (error, _) => .errored error
    | none =>
      if hasFrameEnd head ∨ maxPrefixInspectBytes ≤ head.length then
        .healthy head [] else .unavailable
  | item :: rest =>
    match scanPrefixForStreamError serde head with
    | some (error, _) => .errored error
    | none =>
      if hasFrameEnd head ∨ maxPrefixInspectBytes ≤ head.length then .healthy head (item :: rest)
      else
        match item with
        | .ok bytes => peekStreamError (head ++ bytes) rest
        | .error _ => .unavailable

end Scan

end Lobster.Upstream
