import KeyVault.CallEffects
import KeyVault.Handlers
import KeyVault.KeyInvariant
import KeyVault.KeySpecs
import KeyVault.SecretTerms

/-!
# A vault that keeps a secret

The libraries as constructors and destructors of terms, the vault states in which no
event, no user, and no column of a key row gives the secret away, what a call is answered
in such a state, and what it may write there.
-/

namespace SealedVault

open JsValue KeyGen Errors Programs Interleaving Vault KeyStore Handlers CallEffects InsertionMap
  KeyInvariant KeySpecs SecretTerms Tables

/-- A token shows nothing but what its term does. -/
structure Opaque (R : Reading) (m : Secret) (token : String) : Prop where
  clear : ¬ m.text.toList <:+: token.toList
  header : ∀ header, R.header token = some header → Hides R m header

/-- The manager's keys are KEKs, and its ids are no secret. -/
def Trusted (R : Reading) (m : Secret) (manager : KekManager) : Prop :=
  ∀ k ∈ manager.all, R.kek k.secretJwk ∧ R.kek k.wrapJwk ∧ Hides R m (.str k.kid)

/-- The text is an encryption under a KEK, of a key that is none. -/
def Embedded (R : Reading) (token : String) : Prop :=
  ∃ key claims, R.term token = some (.encrypted key claims) ∧ R.kek key ∧
    ∀ jwk, claims.get? "key" = some jwk → ¬ R.kek jwk

structure HidingUser (R : Reading) (m : Secret) (user : VaultUser) : Prop where
  userId : Hides R m (.str user.userId)
  data : ∃ props, user.data = .obj props ∧ Hides R m (.obj props)

structure HidingKey (R : Reading) (m : Secret) (row : VaultKey) : Prop where
  keyId : Hides R m (.str row.keyId)
  kty : Hides R m (.str row.kty)
  alg : Hides R m (.str row.alg)
  publicKey : ∀ jwk, row.publicKey = some jwk → Hides R m jwk
  acl : Hides R m row.acl
  embeddingKeyId : Hides R m (.str row.embeddingKeyId)
  embedded : Embedded R row.embeddedKey
  embeddedKey : Hides R m (.str row.embeddedKey)

/-- What `generateVaultKey` returns for the row and for the answer. -/
structure HidingGenerated (R : Reading) (m : Secret) (g : GeneratedKey) : Prop where
  kid : Hides R m (.str g.kid)
  kty : Hides R m (.str g.kty)
  alg : Hides R m (.str g.alg)
  publicKey : ∀ jwk, g.publicKey = some jwk → Hides R m jwk
  secretKey : ¬ R.kek g.secretKey

/-- What a call is answered in a vault that keeps the secret. -/
def answers (R : Reading) (m : Secret) : (c : Call) → Ans c → Prop
  | .userByTokenHash _, a => ∀ user, a = .ok (some user) → HidingUser R m user
  | .userById _, a => ∀ user, a = .ok (some user) → HidingUser R m user
  | .insertUser _, a => ∀ userId, a = .ok userId → Hides R m (.str userId)
  | .keyById _, a => ∀ row, a = .ok (some row) → HidingKey R m row
  | .keysByAclUser _, a => ∀ rows, a = .ok rows → ∀ row ∈ rows, HidingKey R m row
  | .keysNotEmbeddedWith _, a => ∀ rows, a = .ok rows → ∀ row ∈ rows, HidingKey R m row
  | .generateVaultKey spec, a => ∀ g, a = .ok g → Resolved spec → HidingGenerated R m g
  | .jweEncrypt _ jwk payload _, a => ∀ token, a = .ok token →
      R.term token = some (.encrypted jwk payload) ∧ Opaque R m token
  | .jweDecrypt token jwk, a => ∀ payload, a = .ok payload →
      ∃ key, R.term token = some (.encrypted key payload) ∧ (R.kek key → R.kek jwk)
  | .jwtEncode _ jwk payload, a =>
      (∀ token, a = .ok token → R.term token = some (.signed jwk payload) ∧ Opaque R m token) ∧
      ∀ message, a = .error message → isInvalidClaim message = true →
        Shows R m (.str message) → Shows R m payload
  | .jwtDecode token _, a => ∀ payload, a = .ok payload →
      ∃ key, R.term token = some (.signed key payload)
  | .cacheLookup _ _, a => ∀ jwk, a.2 = some jwk → ¬ R.kek jwk
  | _, _ => True

/-- What a call may write. -/
def writes (R : Reading) (m : Secret) : Call → Prop
  | .insertUser data => ∃ props, data = .obj props ∧ Hides R m (.obj props)
  | .setUserData _ data => ∃ props, data = .obj props ∧ Hides R m (.obj props)
  | .insertKey key => HidingKey R m key
  | .updateKeyAcl _ acl => Hides R m acl
  | .updateKeyEmbedding _ embeddingKeyId embeddedKey =>
      Hides R m (.str embeddingKeyId) ∧ Embedded R embeddedKey ∧ Hides R m (.str embeddedKey)
  | .recordEvent type fields =>
      Hides R m (.str ("tr-key-vault:" ++ type)) ∧ Hides R m (.obj fields)
  | .cacheFill _ entry _ => ¬ R.kek entry.jwk
  | _ => True

variable {L : Libraries} {R : Reading} {m : Secret}

section

variable {n : Nat} {spec : KeySpec}

end

end SealedVault
