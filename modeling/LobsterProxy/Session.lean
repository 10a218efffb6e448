import LobsterProxy.Base.Json
import LobsterProxy.Base.Tagged
import LobsterProxy.Base.Text

/-! Session identity: what a request says of its session, keyed with the server secret. The
raw identifier of a client goes no further. -/

namespace Lobster
open Text Tagged

/-- The headers of a request, under their lowercase names. -/
abbrev HeaderMap := List (String × List UInt8)

namespace HeaderMap

def get? (headers : HeaderMap) (name : String) : Option (List UInt8) := headers.lookup name

def isVisibleAscii (b : UInt8) : Bool := (32 ≤ b && b < 127) || b = 9

def toStr (value : List UInt8) : Option (List Char) :=
  if value.all isVisibleAscii then some (value.map fun b => Char.ofNat b.toNat) else none

/-- A text without the white space around it, when there is more. -/
def trimmed (text : List Char) : Option String :=
  (some (String.ofList (trim text))).filter fun text => text ≠ ""

def filled (headers : HeaderMap) (name : String) : Option String :=
  ((headers.get? name).bind toStr).bind trimmed

end HeaderMap

namespace Session

def maxClientSessionBytes : Nat := 512

inductive SessionSource where
  | anthropicMetadataUser
  | anthropicMetadataSession
  | sessionAffinityHeader
  | sessionIdHeader
  deriving DecidableEq, Repr

structure ResolvedSession where
  fingerprint : String
  source : SessionSource
  deriving DecidableEq, Repr

def validSessionHint (value : String) : Option String :=
  if value ≠ "" ∧ value.utf8ByteSize ≤ maxClientSessionBytes then some value else none

def metadataSession (request : Json) (field : String) : Option String :=
  ((((request.get? "metadata").bind Json.asObject).bind fun metadata => metadata.get? field).bind
    Json.asStr).bind validSessionHint

def headerSession (headers : HeaderMap) (name : String) : Option String :=
  ((headers.get? name).bind HeaderMap.toStr).bind fun value =>
  validSessionHint (String.ofList value)

/-- The first hint there is, in the order of priority, and where it stands. -/
def sessionHint (headers : HeaderMap) (request : Json) : Option (String × SessionSource) :=
  ((metadataSession request "user_id").map fun raw => (raw, .anthropicMetadataUser)) <|>
  ((metadataSession request "session_id").map fun raw => (raw, .anthropicMetadataSession)) <|>
  ((headerSession headers "x-session-affinity").map fun raw => (raw, .sessionAffinityHeader)) <|>
  ((headerSession headers "x-session-id").map fun raw => (raw, .sessionIdHeader))

def sessionDomain : List UInt8 := toUtf8 "lobsterai-proxy/session/v1".toList

section Keyed
variable (mac : Mac) (secret : List UInt8)

def domainInput (domain : List UInt8) (rawId : String) : List UInt8 :=
  frame 0 domain (toUtf8 rawId.toList)

def fingerprintDomain (domain : List UInt8) (rawId : String) : String :=
  String.ofList (mac.digits secret 8 (domainInput domain rawId))

def fingerprint (rawSessionId : String) : String :=
  fingerprintDomain mac secret sessionDomain rawSessionId

def resolveAnthropicSession (headers : HeaderMap) (request : Json) : Option ResolvedSession :=
  (sessionHint headers request).map fun (raw, source) => ⟨fingerprint mac secret raw, source⟩

def safeNameDomain : List UInt8 := toUtf8 "lobsterai-proxy/cred-safe-name/v1".toList

def safeName (uid : String) : String :=
  String.ofList ("acct-".toList ++ mac.digits secret 4 (domainInput safeNameDomain uid))

variable {mac secret} {domain other : List UInt8} {raw more : String}

/-- Identifiers with one fingerprint are one identifier in one domain, or their digests start
with the same eight bytes. -/
theorem eq_or_collide_of_fingerprint (hdomain : 0 ∉ domain) (hother : 0 ∉ other)
    (h : fingerprintDomain mac secret domain raw = fingerprintDomain mac secret other more) :
    domain = other ∧ raw = more ∨
      Collide (mac.short secret 8) (domainInput domain raw) (domainInput other more) := by
  have hshort := Mac.digits_eq_iff.mp (String.ofList_injective h)
  rcases eq_or_collide hdomain hother hshort with ⟨hdomains, hbodies⟩ | hcollide
  · exact .inl ⟨hdomains, String.toList_injective (toUtf8_injective hbodies)⟩
  · exact .inr hcollide

theorem sessionDomain_unmarked : 0 ∉ sessionDomain := by decide +kernel

theorem safeNameDomain_unmarked : 0 ∉ safeNameDomain := by decide +kernel

/-- Two accounts under one name are one account, or their digests start with the same bytes. -/
theorem eq_or_collide_of_safeName (h : safeName mac secret raw = safeName mac secret more) :
    raw = more ∨ Collide (mac.short secret 4) (domainInput safeNameDomain raw)
      (domainInput safeNameDomain more) := by
  have hdigits := List.append_cancel_left (String.ofList_injective h)
  have hshort := Mac.digits_eq_iff.mp hdigits
  rcases eq_or_collide safeNameDomain_unmarked safeNameDomain_unmarked
    hshort with ⟨-, hbodies⟩ | hcollide
  · exact .inl (String.toList_injective (toUtf8_injective hbodies))
  · exact .inr hcollide

end Keyed
end Session
end Lobster
