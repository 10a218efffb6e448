/-! The terminal API error of one request. -/

namespace Lobster.Server

structure ApiError where
  status : Nat
  kind : String
  message : String
  requestId : Option String
  retryAfterSecs : Option Int
  deriving DecidableEq, Repr

namespace ApiError

def new (status : Nat) (kind message : String) : ApiError := ⟨status, kind, message, none, none⟩

def invalidRequest (message : String) : ApiError := new 400 "invalid_request_error" message

def authentication (message : String) : ApiError := new 401 "authentication_error" message

def upstream (status : Nat) (message : String) : ApiError :=
  new (if 500 ≤ status ∧ status < 600 then status else 502) "api_error" message

end ApiError
end Lobster.Server
