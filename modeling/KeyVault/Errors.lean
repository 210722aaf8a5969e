import KeyVault.JsValue

/-!
# The error registry

The codes and messages of errors.js, and what a program of the vault can throw.
-/

namespace Errors

open JsValue

inductive Err where
  | malformedRequest
  | unauthorized
  | unknownOperation
  | methodNotAllowed
  | unknownEndpoint
  | invalidRequestData
  | keyNotFound
  | incompatibleKeyType
  | invalidInputToken
  | operationDisabled
  | invalidAcl
  | keyNotAvailable
  | operationNotPermitted
  | internalError
  deriving DecidableEq, Repr

namespace Err

def code : Err → Nat
  | malformedRequest => 1000
  | unauthorized => 1001
  | unknownOperation => 1002
  | methodNotAllowed => 1003
  | unknownEndpoint => 1004
  | invalidRequestData => 1100
  | keyNotFound => 1101
  | incompatibleKeyType => 1102
  | invalidInputToken => 1103
  | operationDisabled => 1104
  | invalidAcl => 1105
  | keyNotAvailable => 1106
  | operationNotPermitted => 1107
  | internalError => 1900

/-- `ERR_MESSAGE`. -/
def message : Err → String
  | malformedRequest => "Malformed request"
  | unauthorized => "Unauthorized"
  | unknownOperation => "Unknown operation"
  | methodNotAllowed => "Method not allowed"
  | unknownEndpoint => "Unknown endpoint"
  | invalidRequestData => "Invalid request data"
  | keyNotFound => "Key not found"
  | incompatibleKeyType => "Incompatible key type"
  | invalidInputToken => "Invalid input token"
  | operationDisabled => "Operation disabled"
  | invalidAcl => "Invalid ACL"
  | keyNotAvailable => "Key not available"
  | operationNotPermitted => "Operation not permitted"
  | internalError => "Internal error"

theorem code_injective : Function.Injective code := by
  intro a b h
  cases a <;> cases b <;> first | rfl | simp [code] at h

end Err

/-- An exception: `ApiError` with its `maskedDenial` mark, `KekUnavailableError`, or
any other `Error`, of which only the message matters. -/
inductive Thrown where
  | api (errorCode : Err) (message : String) (maskedDenial : Bool)
  | kekUnavailable (embeddingKeyId : String)
  | error (message : String)
  deriving DecidableEq, Repr

namespace Thrown

/-- `new ApiError(errorCode, message)`: an empty message counts as none. -/
def apiError (errorCode : Err) (message : String) : Thrown :=
  api errorCode (if message = "" then errorCode.message else message) false

/-- `new ApiError(errorCode)`. -/
def ofCode (errorCode : Err) : Thrown := api errorCode errorCode.message false

def message : Thrown → String
  | api _ message _ => message
  | kekUnavailable _ => "Embedding key not available"
  | error message => message

end Thrown

/-- A check of the source: throw unless the condition holds. -/
def require (condition : Bool) (e : Thrown) : Except Thrown Unit :=
  if condition then .ok () else .error e

@[simp] theorem require_true (e : Thrown) : require true e = .ok () := rfl

@[simp] theorem require_false (e : Thrown) : require false e = .error e := rfl

theorem require_ok {condition : Bool} {e : Thrown} {u : Unit} :
    require condition e = .ok u ↔ condition = true := by
  cases condition <;> simp [require]

theorem ok_bind {ε α β : Type} (a : α) (f : α → Except ε β) :
    (Except.ok a >>= f) = f a := rfl

theorem error_of_bind {ε α β : Type} {r : Except ε α} {f : α → Except ε β} {e : ε}
    (h : (r >>= f) = .error e) : r = .error e ∨ ∃ a, r = .ok a ∧ f a = .error e := by
  cases r with
  | ok a => exact Or.inr ⟨a, rfl, h⟩
  | error e' =>
    cases h
    exact Or.inl rfl

/-- A sequence that ends well has come through its first part. -/
theorem ok_of_bind {ε α β : Type} {r : Except ε α} {f : α → Except ε β} {b : β}
    (h : (r >>= f) = .ok b) : ∃ a, r = .ok a ∧ f a = .ok b := by
  cases r with
  | ok a => exact ⟨a, rfl, h⟩
  | error e => cases h

end Errors
