import KeyVault.AdminOptions
import KeyVault.CommandCalls
import KeyVault.EntryTexts
import KeyVault.Processes
import KeyVault.SecretRequests

/-!
# Commands and the secret

An administrator's command line holds no secret of a key: ids are UUIDs, addresses are
written in digits. What a command adds to that are words of the source and what the vault
keeps, and rewrap moves a key from one KEK to the other.
-/

namespace SecretCommands

open JsValue Acl AclNormal AclInvariant AdminOptions Errors Programs Vault KeyStore IpMatch
  EntryTexts Handlers CommandCalls SecretTerms SealedVault SecretFlow SecretRequests
  ServerAuth KvAdmin
  Processes

variable {L : Libraries} {R : Reading} {m : Secret} {o : Opts} {user : VaultUser}

/-- The options of a command bring no secret in, and its KEKs are trusted. -/
structure Harmless (R : Reading) (m : Secret) (o : Opts) : Prop where
  parsed : Parsed o
  actor : Hides R m (.str o.actor)
  kek : ∀ manager, o.kek = .ok manager → Trusted R m manager

end SecretCommands
