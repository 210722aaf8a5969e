import KeyVault.Vault

/-!
# KEK manager and key store

kek.js and keystore.js: wrapping and unwrapping stored keys under the configured
KEKs, the unwrap cache, the validity window, generation, revocation, listing and
the expiry sweep. Each is the program of its source function.
-/

namespace KeyStore

open JsValue Acl KeyGen Errors Programs Vault

/-- A validated KEK descriptor. -/
structure Kek where
  kid : String
  wrapAlg : String
  secretJwk : Json
  wrapJwk : Json
  deriving DecidableEq

/-- The constructor of the source throws on a duplicate id. -/
structure KekManager where
  active : Kek
  retired : List Kek
  distinct : ((active :: retired).map Kek.kid).Nodup

namespace KekManager

def all (m : KekManager) : List Kek := m.active :: m.retired

def byId (m : KekManager) (kid : String) : Option Kek := m.all.find? (fun k => k.kid == kid)

theorem byId_mem {m : KekManager} {kid : String} {k : Kek} (h : m.byId kid = some k) :
    k ∈ m.all ∧ k.kid = kid :=
  ⟨List.mem_of_find?_eq_some h, by simpa using List.find?_some h⟩

end KekManager

/-- Server options; the KEKs are already loaded. -/
structure Config where
  allowExportKey : Bool
  trustedProxyHops : Int
  kek : KekManager
  cacheMaxEntries : Nat
  cacheTtlSeconds : Nat
  expiryGraceSeconds : Nat

/-- The claims that `embed` encrypts. -/
def embedClaims (kid : String) (iat : Nat) (nbf exp : Option Json) (secretJwk : Json) : Json :=
  .obj (literal [("kid", some (.str kid)), ("iat", some (.num iat)), ("nbf", nbf), ("exp", exp),
    ("key", some secretJwk)])

def embed (m : KekManager) (secretJwk : Json) (kid : String) (iat : Nat) (nbf exp : Option Json) :
    Api (String × String) := do
  let embeddedKey ← orThrow (← ask (.jweEncrypt m.active.wrapAlg m.active.wrapJwk
    (embedClaims kid iat nbf exp secretJwk) none))
  return (m.active.kid, embeddedKey)

/-- The consistency rules of `extract` on decrypted claims. -/
def embeddedJwk (claims : Json) (expectedKid : String) : Except Thrown Json :=
  match claims.isPlainObject, claims.get? "key" with
  | true, some (.obj key) => do
    require (key.lookup "kid" == some (.str expectedKid)) (.error "Embedded key kid mismatch")
    require ((claims.get? "kid").all (fun kid => kid == .str expectedKid))
      (.error "Embedded key claims kid mismatch")
    return .obj key
  | _, _ => throw (.error "Embedded key payload is not a key embedding")

def extract (m : KekManager) (embeddingKeyId embeddedKey expectedKid : String) : Api Json :=
  match m.byId embeddingKeyId with
  | none => throw (.kekUnavailable embeddingKeyId)
  | some kek => do
    let claims ← orThrow (← ask (.jweDecrypt embeddedKey kek.secretJwk))
    embeddedJwk claims expectedKid

theorem embedClaims_kid (kid : String) (iat : Nat) (nbf exp : Option Json) (jwk : Json) :
    (embedClaims kid iat nbf exp jwk).get? "kid" = some (.str kid) := by
  simp [embedClaims, literal, List.lookup]

theorem embedClaims_key (kid : String) (iat : Nat) (nbf exp : Option Json) (jwk : Json) :
    (embedClaims kid iat nbf exp jwk).get? "key" = some jwk := by
  cases nbf <;> cases exp <;> simp [embedClaims, literal, List.lookup]

theorem embedClaims_nbf (kid : String) (iat : Nat) (nbf exp : Option Json) (jwk : Json) :
    (embedClaims kid iat nbf exp jwk).get? "nbf" = nbf := by
  cases nbf <;> cases exp <;> simp [embedClaims, literal, List.lookup]

theorem embedClaims_exp (kid : String) (iat : Nat) (nbf exp : Option Json) (jwk : Json) :
    (embedClaims kid iat nbf exp jwk).get? "exp" = exp := by
  cases nbf <;> cases exp <;> simp [embedClaims, literal, List.lookup]

/-- What `embed` has put in comes out under the same kid. -/
theorem embeddedJwk_embedClaims {jwk : Json} {kid : String} (h : jwk.get? "kid" = some (.str kid))
    (iat : Nat) (nbf exp : Option Json) :
    embeddedJwk (embedClaims kid iat nbf exp jwk) kid = .ok jwk := by
  have hplain : (embedClaims kid iat nbf exp jwk).isPlainObject = true := rfl
  cases jwk with
  | obj props =>
    have hkid : (props.lookup "kid" == some (.str kid)) = true := by
      rw [show props.lookup "kid" = some (.str kid) from h]
      exact beq_self_eq_true _
    simp only [embeddedJwk, hplain, embedClaims_key, embedClaims_kid, hkid, require_true,
      Option.all_some, beq_self_eq_true]
    rfl
  | _ => cases h

/-- What `extract` returns when the library itself does not fail. -/
def extracted (L : Libraries) (m : KekManager) (embeddingKeyId embeddedKey expectedKid : String) :
    Except Thrown Json :=
  match m.byId embeddingKeyId with
  | none => .error (.kekUnavailable embeddingKeyId)
  | some kek => do
    let claims ← orThrow (L.jweDecrypt embeddedKey kek.secretJwk)
    embeddedJwk claims expectedKid

/-- What `generate` returns to the handler. -/
structure Generated where
  kid : String
  kty : String
  alg : String
  publicKey : Option Json

/-- The parameters of the INSERT of `generate`. -/
def newKey (generated : GeneratedKey) (acl : AclMap) (nbf exp : Option Nat)
    (embeddingKeyId embeddedKey : String) : VaultKey where
  keyId := generated.kid
  kty := generated.kty
  alg := generated.alg
  notBefore := nbf
  expiresAt := exp
  publicKey := generated.publicKey
  embeddingKeyId := embeddingKeyId
  embeddedKey := embeddedKey
  acl := Acl.toJson acl

/-- Whole seconds as a claim. -/
def secondsClaim (seconds : Option Nat) : Option Json := seconds.map (fun n => .num n)

/-- The part of `generate` after the key generation. -/
def storeGenerated (cfg : Config) (acl : AclMap) (nbf exp : Option Nat)
    (generated : GeneratedKey) : Api Generated := do
  let now ← ask .dateNow
  let embedded ← embed cfg.kek generated.secretKey generated.kid (now / 1000)
    (secondsClaim nbf) (secondsClaim exp)
  let _ ← orThrow (← ask (.insertKey
    (newKey generated acl nbf exp embedded.1 embedded.2)))
  return ⟨generated.kid, generated.kty, generated.alg, generated.publicKey⟩

def generate (cfg : Config) (spec : KeySpec) (acl : AclMap) (nbf exp : Option Nat) :
    Api Generated := do
  let generated ← orThrow (← ask (.generateVaultKey spec))
  storeGenerated cfg acl nbf exp generated

def loadKey (kid : String) : Api (Option VaultKey) := do
  orThrow (← ask (.keyById kid))

/-- Both comparisons are negated, so an invalid date restricts nothing. -/
def inWindow (row : VaultKey) (now : Nat) : Bool :=
  !(row.notBefore.bind getTime).any (fun t => now < t) &&
    !(row.expiresAt.bind getTime).any (fun t => t ≤ now)

def unwrap (L : Libraries) (cfg : Config) (row : VaultKey) : Api Json :=
  if cfg.cacheMaxEntries < 1 then extract cfg.kek row.embeddingKeyId row.embeddedKey row.keyId
  else do
    let embHash := L.sha256 row.embeddedKey
    let (now, cached) ← ask (.cacheLookup row.keyId embHash)
    match cached with
    | some jwk => return jwk
    | none =>
      let jwk ← extract cfg.kek row.embeddingKeyId row.embeddedKey row.keyId
      ask (.cacheFill row.keyId ⟨embHash, jwk, now + cfg.cacheTtlSeconds * 1000⟩
        cfg.cacheMaxEntries)
      return jwk

def cacheClear : Api Unit := ask .cacheClear

def revoke (kid : String) : Api Bool := do
  let deleted ← orThrow (← ask (.deleteKey kid))
  ask (.cacheDelete kid)
  return deleted

def listed (row : VaultKey) : Json :=
  .obj [("kid", .str row.keyId), ("kty", .str row.kty), ("alg", .str row.alg)]

def listKeys (userId : String) (userData : Json) : Api (List Json) := do
  let rows ← orThrow (← ask (.keysByAclUser userId))
  let now ← ask .dateNow
  return (rows.filter (fun row => inWindow row now && effectiveAny userData row.acl userId)).map
    listed

def sweep (cfg : Config) : Api Nat := do
  orThrow (← ask (.sweepExpiredKeys cfg.expiryGraceSeconds))

end KeyStore
