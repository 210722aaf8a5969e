import KeyVault.Server
import KeyVault.Timestamps

/-!
# A small vault

Concrete libraries, keys and callers that the runs on fixed inputs start from.
-/

namespace Fixtures

open JsValue Acl KeyGen Programs Vault KeyStore Server

def aliceId : String := "a11ce000-0000-4000-8000-000000000001"
def bobId : String := "b0b00000-0000-4000-8000-000000000002"
def keyId1 : String := "c0000000-0000-4000-8000-000000000001"
def keyId2 : String := "c0000000-0000-4000-8000-000000000002"
def opId : String := "d0000000-0000-4000-8000-000000000001"

/-- Unrestricted users. -/
def alice : VaultUser := ⟨aliceId, none, .obj []⟩
def bob : VaultUser := ⟨bobId, none, .obj []⟩

/-- Libraries that refuse every key and every token. -/
def bare : Libraries where
  sha256 := id
  randomUUID := fun _ _ => aliceId
  genRandomUuid := fun _ => aliceId
  cipherKeyGen := fun _ _ => .error "no generator"
  macKeyGen := fun _ _ _ => .error "no generator"
  ecKeyGen := fun _ _ => .error "no generator"
  rsaKeyGen := fun _ _ => .error "no generator"
  mlKemKeyGen := fun _ _ => .error "no generator"
  jweEncrypt := fun _ _ _ _ _ => .error "no encryption"
  jweDecrypt := fun _ _ => .error "no decryption"
  jwtEncode := fun _ _ _ _ => .error "no signature"
  jwtDecode := fun _ _ _ => .error "no signature"
  parseSegment := fun _ => none
  toTimestamp := Timestamps.toTimestamp

def kek : Kek where
  kid := "kek-1"
  wrapAlg := "A256KW"
  secretJwk := .obj [("kty", .str "oct"), ("kid", .str "kek-1")]
  wrapJwk := .obj [("kty", .str "oct"), ("kid", .str "kek-1")]

def manager : KekManager := ⟨kek, [], by decide⟩

def config : Config where
  allowExportKey := false
  trustedProxyHops := 0
  kek := manager
  cacheMaxEntries := 4
  cacheTtlSeconds := 300
  expiryGraceSeconds := 0

/-- An HMAC key that only Bob owns. -/
def bobsKey : KeyRow where
  keyId := keyId1
  kty := "oct"
  alg := "HS256"
  notBefore := none
  expiresAt := none
  publicKey := none
  embeddingKeyId := "kek-1"
  embeddedKey := "sealed"
  acl := .obj [(bobId, .arr [.str "owner"])]
  createdAt := 0
  updatedAt := 0

def holding (row : KeyRow) : World := { fresh 0 with keys := Tables.Table.empty.insert row }

theorem holding_find (row : KeyRow) : (holding row).keys.find row.keyId = some row := by
  have hnone : (Tables.Table.empty : KeyTable).find row.keyId = none := rfl
  rw [Tables.Table.find_eq_some_iff]
  simp only [holding, Tables.Table.insert_rows (t := Tables.Table.empty) hnone]
  exact ⟨List.mem_append_right _ (List.mem_singleton_self row), trivial⟩

/-- The JWK inside Bob's row. -/
def bobsJwk : Json := .obj [("kty", .str "oct"), ("k", .str "c2VjcmV0"), ("kid", .str keyId1)]

/-- Libraries that open Bob's row, with the digest of its embedding. -/
def opening : Libraries :=
  { bare with
    sha256 := fun s =>
      if s = "sealed" then "c9d0036bed6744bcdf692fc980d8717d7e5f5a4f4e8266b4a84982602fb1cd09"
      else s
    jweDecrypt := fun token jwk =>
      if token = "sealed" ∧ jwk = kek.secretJwk then .ok (embedClaims keyId1 0 none none bobsJwk)
      else .error "no decryption" }

/-- A request to revoke Bob's key. -/
def revokeEnvelope (user : String) : Envelope where
  user := user
  op := opId
  request := "revoke-key"
  data := .obj [("kid", .str keyId1)]
  named := by decide
  plain := rfl

def kek2 : Kek := { kek with
  kid := "kek-2"
  secretJwk := .obj [("kty", .str "oct"), ("kid", .str "kek-2")]
  wrapJwk := .obj [("kty", .str "oct"), ("kid", .str "kek-2")] }

/-- The second KEK is active and the first one retired. -/
def rotated : KekManager := ⟨kek2, [kek], by decide⟩

def wrapSpec : KeySpec where
  alg := "A128KW"
  kty := some "oct"
  kind := some .aes
  use := some "enc"
  keyOps := ["wrapKey", "unwrapKey"]
  bits := some 128

def wrapKey : GeneratedKey := octKey wrapSpec ⟨.str "c2VjcmV0", keyId1⟩

def wrapClaims : Json := embedClaims keyId1 0 none none wrapKey.secretKey

/-- A token of `wrapKey`. Its first part is the header with `alg` and `kid` in base64url. -/
def wrapToken : String :=
  "eyJhbGciOiJBMTI4S1ciLCJraWQiOiJjMDAwMDAwMC0wMDAwLTQwMDAtODAwMC0wMDAwMDAwMDAwMDEifQ" ++
    ".x8jJysvMzc7P0NHS09TV1g.AAECAwQFBgcICQoL.1NXW19g.EBESExQVFhcYGRobHB0eHw"

/-- Libraries that generate `wrapKey` once, wrap it under either KEK, and encrypt one
payload with it. -/
def working : Libraries :=
  { bare with
    cipherKeyGen := fun n alg =>
      if n = 0 ∧ alg = "A128KW" then .ok ⟨.str "c2VjcmV0", keyId1⟩ else .error "no generator"
    jweEncrypt := fun _ alg jwk payload _ =>
      if payload = wrapClaims ∧ jwk = kek.wrapJwk then .ok "sealed-1"
      else if payload = wrapClaims ∧ jwk = kek2.wrapJwk then .ok "sealed-2"
      else if payload = .str "hello" ∧ alg = "A128KW" ∧ jwk = wrapKey.secretKey then .ok wrapToken
      else .error "no encryption"
    jweDecrypt := fun token jwk =>
      if token = "sealed-1" ∧ jwk = kek.secretJwk then .ok wrapClaims
      else if token = "sealed-2" ∧ jwk = kek2.secretJwk then .ok wrapClaims
      else if token = wrapToken ∧ jwk = wrapKey.secretKey then .ok (.str "hello")
      else .error "no decryption"
    parseSegment := fun segment =>
      if segment = Handlers.firstSegment wrapToken then
        some (.obj [("alg", .str "A128KW"), ("kid", .str keyId1)])
      else none }

/-- Its header leads to its key. -/
theorem working_header : working.parseSegment (Handlers.firstSegment wrapToken) =
    some (.obj [("alg", .str "A128KW"), ("kid", .str keyId1)]) := by
  simp only [working, if_true]

theorem working_opens :
    working.jweDecrypt wrapToken wrapKey.secretKey = .ok (.str "hello") := by
  have hfirst : wrapToken ≠ "sealed-1" := by decide +kernel
  have hsecond : wrapToken ≠ "sealed-2" := by decide +kernel
  simp only [working, hfirst, hsecond, false_and, if_false, and_self, if_true]

def generateEnvelope : Envelope where
  user := aliceId
  op := opId
  request := "generate-key"
  data := .obj [("alg", .str "A128KW")]
  named := by decide
  plain := rfl

/-- A request to encrypt with the generated key. -/
def encryptEnvelope : Envelope where
  user := aliceId
  op := opId
  request := "create-jwe"
  data := .obj [("kid", .str keyId1), ("data", .str "hello")]
  named := by decide
  plain := rfl

/-- A request to open the token. -/
def decryptEnvelope : Envelope where
  user := aliceId
  op := opId
  request := "decrypt-jwe"
  data := .obj [("token", .str wrapToken)]
  named := by decide
  plain := rfl

/-- A JWK with nothing but its key id. -/
def idOnly : Jwk := ⟨[("kid", .str keyId1)], keyId1, rfl⟩

/-- Libraries that generate and encrypt whatever they are asked for. -/
def obliging : Libraries :=
  { bare with
    cipherKeyGen := fun _ _ => .ok ⟨.str "c2VjcmV0", keyId1⟩
    macKeyGen := fun _ _ _ => .ok ⟨.str "c2VjcmV0", keyId1⟩
    ecKeyGen := fun _ _ => .ok ⟨idOnly, idOnly, rfl⟩
    rsaKeyGen := fun _ _ => .ok ⟨idOnly, idOnly, rfl⟩
    mlKemKeyGen := fun _ _ => .ok ⟨idOnly, idOnly, rfl⟩
    jweEncrypt := fun _ _ _ _ _ => .ok "sealed" }

/-- A request to generate a key from these data. -/
def generating (props : Props) : Envelope where
  user := aliceId
  op := opId
  request := "generate-key"
  data := .obj props
  named := by decide
  plain := rfl

theorem bare_generates_nothing (n : Nat) (spec : KeySpec) (g : GeneratedKey) :
    generateVaultKey bare n spec ≠ .ok g := by
  unfold generateVaultKey
  split <;> simp [bare, Except.map]

end Fixtures
