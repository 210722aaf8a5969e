import KeyVault.AclNormal
import KeyVault.KeyOperations
import KeyVault.RequestChecks
import KeyVault.SealedVault
import KeyVault.Server

/-!
# Where a secret can flow

Every program of the vault is followed with what its calls are answered in a vault that
keeps the secret. It writes nothing that shows the secret, and apart from export-key it
tells the caller nothing of it unless the request did.
-/

namespace SecretFlow

open JsValue Acl AclNormal KeyGen Errors Programs Vault KeyStore Handlers KeyOperations KeyInvariant
  RequestChecks SecretTerms SealedVault ServerAuth Server

variable {L : Libraries} {R : Reading} {m : Secret} {cfg : Config} {user : VaultUser} {data : Json}
  {P : Prop} {α β : Type}

/-- The exception hides the secret from the caller unless `P`. -/
def Refuses (R : Reading) (m : Secret) (P : Prop) (e : Thrown) : Prop :=
  ∀ errorCode message masked, e = .api errorCode message masked → ¬ P → Hides R m (.str message)

def comesTo (R : Reading) (m : Secret) (P : Prop) (Q : α → Prop) : Except Thrown α → Prop
  | .ok a => Q a
  | .error e => Refuses R m P e

/-- In a vault that keeps the secret, the program writes nothing that shows it and refuses
without showing it, and its result satisfies `Q`. -/
def Discreet (R : Reading) (m : Secret) (P : Prop) (Q : α → Prop) (p : Api α) : Prop :=
  p.Trusts (answers R m) (writes R m) (comesTo R m P Q)

theorem Discreet.bind {Q : α → Prop} {Q' : β → Prop} {p : Api α} {f : α → Api β}
    (hp : Discreet R m P Q p) (hf : ∀ a, Q a → Discreet R m P Q' (f a)) :
    Discreet R m P Q' (p >>= f) := Prog.Trusts.bind hp hf fun _ he => he

theorem Discreet.mono {Q Q' : α → Prop} {p : Api α} (hp : Discreet R m P Q p)
    (h : ∀ a, Q a → Q' a) : Discreet R m P Q' p := by
  refine Prog.Trusts.mono hp fun r hr => ?_
  cases r with
  | ok a => exact h a hr
  | error e => exact hr

/-- The result shows nothing to the caller unless `P`, and nothing to the audit chain. -/
structure HidingResult (R : Reading) (m : Secret) (P : Prop) (result : HandlerResult) : Prop where
  data : ∀ v, result.data = some v → ¬ P → Hides R m v
  audit : ∀ fields, result.audit = some fields → Hides R m (.obj fields)

theorem HidingResult.mono {P' : Prop} {result : HandlerResult} (h : HidingResult R m P result)
    (hP : P → P') : HidingResult R m P' result :=
  ⟨fun v hv hP' => h.data v hv fun hp => hP' (hP hp), h.audit⟩

end SecretFlow
