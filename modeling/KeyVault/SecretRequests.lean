import KeyVault.AclInvariant
import KeyVault.AuditTrail
import KeyVault.SecretFlow

/-!
# Requests and the secret

The key of generate-key goes under the active KEK and nowhere else, and what a handler
has come to reaches the response and the chain by way of the dispatcher.
-/

namespace SecretRequests

open JsValue Acl AclNormal AclInvariant AuditTrail KeyGen Errors Programs Vault KeyStore
  Handlers KeyOperations
  KeyInvariant KeyLifecycle RequestChecks SecretTerms SealedVault SecretFlow ServerAuth Server

variable {L : Libraries} {R : Reading} {m : Secret} {cfg : Config} {user : VaultUser} {data : Json}
  {P : Prop}

/-- The response shows the secret only where `P`, or where it is a success and `E`. -/
def Confined (R : Reading) (m : Secret) (P E : Prop) (r : Response) : Prop :=
  Shows R m r.body → P ∨ (r.isOk ∧ E)

variable {E : Prop}

/-- An accepted envelope takes its id and its data from the request. -/
structure Reads (envelope : Json) (env : Envelope) : Prop where
  op : isUuid env.op = true
  data : envelope.get? "data" = some env.data

/-- The body of the request shows the secret. -/
def Tells (R : Reading) (m : Secret) (req : HttpRequest) : Prop :=
  ∃ envelope, req.body = .text (some envelope) ∧ Shows R m envelope

theorem Confined.mono {E' : Prop} {r : Response} (h : Confined R m P E r) (hE : E → E') :
    Confined R m P E' r := fun hshows => (h hshows).imp_right fun hok => ⟨hok.1, hE hok.2⟩

end SecretRequests
