import KeyVault.Fixtures
import KeyVault.Revocation
import KeyVault.SecretCommands
import KeyVault.ServedRequests

/-!
# Secrets stay in the vault

Over any interleaving of requests, commands, sweeps and restarts, the vault keeps a
secret, and whoever learns it from a response has it, in the end, from a successful
export-key. What was exported may come back by other ways: a user can have the key
encrypted by create-jwe and opened by decrypt-jwe.
-/

namespace Confinement

open JsValue Acl Errors Programs Interleaving Vault KeyStore Handlers KeyOperations SecretTerms
  SealedVault SecretFlow SecretRequests SecretCommands ServerAuth Server AuditTrail Freshness
  Processes ServedRequests

variable {L : Libraries} {R : Reading} {m : Secret} {processes : ThreadId → Process} {w : World}
  {schedule : Schedule Turn}

/-- A process whose KEKs are trusted and whose command line, if it has one, is harmless. -/
def Guarded (R : Reading) (m : Secret) : Process → Prop
  | .request cfg _ => Trusted R m cfg.kek
  | .admin o _ => Harmless R m o
  | .sweep _ => True
  | .restart => True

/-- The private part of a key of 128 bits. -/
def secretText : String := "VGhpc0lzQVNlY3JldEtleQ"

def bobsJwk : Json :=
  .obj [("kty", .str "oct"), ("k", .str secretText), ("kid", .str Fixtures.keyId1)]

/-- A reader who opens no token. -/
def plainly : Reading where
  term := fun _ => none
  header := fun _ => none
  kek := fun _ => False
  compact := by rintro s t ⟨⟩

end Confinement
