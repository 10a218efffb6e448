import LobsterProxy.Base.Text

/-! The text of errors that reach a client or a log line, without credentials. -/

namespace Lobster.Redaction
open Text

def maxPublicTextChars : Nat := 1024

def redacted : List Char := "[REDACTED]".toList

def looksLikeJwt (value : List Char) : Bool :=
  match value.splitOn '.' with
  | [a, b, c] => 8 ≤ len a && 8 ≤ len b && 2 ≤ len c &&
      [a, b, c].all fun segment => segment.all fun c => c.isAlphanum || c = '-' || c = '_'
  | _ => false

def truncateChars (input : List Char) (max : Nat) : List Char :=
  if max < input.length then input.take max ++ [Char.ofNat 0x2026] else input

def isPunctuation (c : Char) : Bool := ",;:\"'()[]".toList.contains c

def sensitivePrefixes : List (List Char) :=
  ["authorization=", "authorization:", "x-api-key=", "x-api-key:", "api_key=", "api-key=",
    "access_token=", "refresh_token=", "refreshtoken=", "accesstoken=", "x-refresh-token:",
    "cookie="].map String.toList

/-- Whether the word is redacted, and whether it redacts the next one. -/
def readWord (redactNext : Bool) (word : List Char) : Bool × Bool :=
  let trimmed := trimMatches isPunctuation word
  let lower := toAsciiLowercase trimmed
  let sensitiveAssignment := sensitivePrefixes.any fun lead => lead.isPrefixOf lower
  let sensitiveValue := redactNext || sensitiveAssignment || "sk-".toList.isPrefixOf lower ||
    "bearer".toList.isPrefixOf lower || looksLikeJwt trimmed
  (sensitiveValue,
    lower = "bearer".toList || lower = "authorization:".toList || lower = "x-api-key:".toList)

def sanitizeWords : Bool → List (List Char) → List (List Char)
  | _, [] => []
  | redactNext, word :: rest =>
    let read := readWord redactNext word
    (if read.1 then redacted else word) :: sanitizeWords read.2 rest

def removeSecrets (input : List Char) (exactSecrets : List String) : List Char :=
  exactSecrets.foldl (fun output secret =>
    if secret = "" then output else replace secret.toList redacted output) input

def sanitizeText (input : String) (exactSecrets : List String) : String :=
  let words := splitWhitespace (removeSecrets input.toList exactSecrets)
  String.ofList (truncateChars ([' '].intercalate (sanitizeWords false words)) maxPublicTextChars)

example : sanitizeText "token abc, bearer xyz; done" ["abc"] =
    "token [REDACTED], [REDACTED] [REDACTED] done" := by decide

end Lobster.Redaction
