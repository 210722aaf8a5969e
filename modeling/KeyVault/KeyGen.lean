import KeyVault.Errors

/-!
# Key generation

keygen.js: the algorithm matrix, the resolution of generation parameters, and the
stamping of what the tr-jwk generators return.
-/

namespace KeyGen

open JsValue

inductive Kind where
  | aes
  | hmac
  | ec
  | rsa
  | mlKem
  deriving DecidableEq, Repr

/-- A row of `KEYGEN_ALGS`; every member may be absent. -/
structure AlgRow where
  kty : Option String := none
  kind : Option Kind := none
  bits : Option Nat := none
  minBits : Option Nat := none
  curves : List String := []
  defaultCurve : Option String := none
  defaultModulus : Option Nat := none
  variant : Option String := none
  use : Option String := none
  keyOps : List String := []
  deriving DecidableEq, Repr

def aes (bits : Nat) (keyOps : List String) : AlgRow :=
  { kty := some "oct", kind := some .aes, bits := some bits, use := some "enc", keyOps := keyOps }

def hmac (minBits : Nat) : AlgRow :=
  { kty := some "oct", kind := some .hmac, minBits := some minBits, use := some "sig",
    keyOps := ["sign", "verify"] }

def ec (curves : List String) (defaultCurve use : String) : AlgRow :=
  { kty := some "EC", kind := some .ec, curves := curves, defaultCurve := some defaultCurve,
    use := some use }

def rsa (defaultModulus : Nat) (use : String) : AlgRow :=
  { kty := some "RSA", kind := some .rsa, defaultModulus := some defaultModulus, use := some use }

def mlKem (variant : String) : AlgRow :=
  { kty := some "AKP", kind := some .mlKem, variant := some variant, use := some "enc" }

def keygenAlgs : List (String × AlgRow) :=
  [("A128GCM", aes 128 ["encrypt", "decrypt"]),
    ("A192GCM", aes 192 ["encrypt", "decrypt"]),
    ("A256GCM", aes 256 ["encrypt", "decrypt"]),
    ("A128GCMKW", aes 128 ["wrapKey", "unwrapKey"]),
    ("A192GCMKW", aes 192 ["wrapKey", "unwrapKey"]),
    ("A256GCMKW", aes 256 ["wrapKey", "unwrapKey"]),
    ("A128KW", aes 128 ["wrapKey", "unwrapKey"]),
    ("A192KW", aes 192 ["wrapKey", "unwrapKey"]),
    ("A256KW", aes 256 ["wrapKey", "unwrapKey"]),
    ("HS256", hmac 256),
    ("HS384", hmac 384),
    ("HS512", hmac 512),
    ("ECDH-ES", ec ["P-256", "P-384", "P-521"] "P-521" "enc"),
    ("ES256", ec ["P-256"] "P-256" "sig"),
    ("ES384", ec ["P-384"] "P-384" "sig"),
    ("ES512", ec ["P-521"] "P-521" "sig"),
    ("RSA-OAEP", rsa 2048 "enc"),
    ("RSA-OAEP-256", rsa 4096 "enc"),
    ("RS256", rsa 2048 "sig"),
    ("RS384", rsa 3072 "sig"),
    ("RS512", rsa 4096 "sig"),
    ("ML-KEM-512@spinium.com", mlKem "ML-KEM-512"),
    ("ML-KEM-768@spinium.com", mlKem "ML-KEM-768"),
    ("ML-KEM-1024@spinium.com", mlKem "ML-KEM-1024")]

def octMaxBits : Nat := 4096
def rsaModulusMin : Nat := 2048
def rsaModulusMax : Nat := 16384

/-- `KEYGEN_ALGS[alg]`: an inherited name finds a value without any of the members. -/
def lookupAlg (alg : String) : Option AlgRow :=
  match keygenAlgs.lookup alg with
  | some row => some row
  | none => if objectPrototype.contains alg then some {} else none

structure KeySpec where
  alg : String
  kty : Option String
  kind : Option Kind
  use : Option String
  keyOps : List String
  variant : Option String := none
  crv : Option String := none
  bits : Option Nat := none
  modulusLength : Option Nat := none
  deriving DecidableEq, Repr

def check (condition : Bool) (message : String) : Except String Unit :=
  if condition then .ok () else .error message

/-- A `keyLength` within limits: a safe integer by its bounds. -/
def inLimits (keyLength : Json) (lo hi : Nat) : Option Nat :=
  match keyLength with
  | .num n => if (lo : Int) ≤ n ∧ n ≤ hi then some n.toNat else none
  | _ => none

def resolveMlKem (a : AlgRow) (keyLength : Option Json) (spec : KeySpec) :
    Except String KeySpec :=
  if a.kind = some .mlKem then do
    check keyLength.isNone "keyLength is not applicable to ML-KEM keys"
    return { spec with variant := a.variant }
  else return spec

def resolveCurve (a : AlgRow) (crv keyLength : Option Json) (spec : KeySpec) :
    Except String KeySpec :=
  if a.kind = some .ec then do
    check keyLength.isNone "keyLength is not applicable to EC keys"
    match crv with
    | none => return { spec with crv := a.defaultCurve }
    | some (.str c) =>
      check (a.curves.contains c) "Curve does not match algorithm"
      return { spec with crv := some c }
    | some _ => throw "Curve does not match algorithm"
  else do
    check crv.isNone "crv is only applicable to EC keys"
    return spec

def resolveLength (a : AlgRow) (keyLength : Option Json) (spec : KeySpec) :
    Except String KeySpec :=
  match a.kind with
  | some .aes => do
    check (keyLength.all (fun l => l == .num (a.bits.getD 0))) "keyLength does not match algorithm"
    return { spec with bits := a.bits }
  | some .hmac =>
    match keyLength with
    | none => return { spec with bits := a.minBits }
    | some l =>
      match inLimits l (a.minBits.getD 0) octMaxBits with
      | some n =>
        if n % 8 = 0 then return { spec with bits := some n }
        else throw "Invalid keyLength for algorithm"
      | none => throw "Invalid keyLength for algorithm"
  | some .rsa =>
    match keyLength with
    | none => return { spec with modulusLength := a.defaultModulus }
    | some l =>
      match inLimits l rsaModulusMin rsaModulusMax with
      | some n => return { spec with modulusLength := some n }
      | none => throw "Invalid keyLength for algorithm"
  | _ => return spec

def resolveKeyGenParams (params : Json) : Except String KeySpec := do
  check params.isPlainObject "Invalid key generation parameters"
  match params.get? "alg" with
  | some (.str alg) =>
    match lookupAlg alg with
    | some a =>
      check ((params.get? "kty").all (fun kty => a.kty.any (fun k => kty == .str k)))
        "Key type does not match algorithm"
      let spec : KeySpec :=
        { alg := alg, kty := a.kty, kind := a.kind, use := a.use, keyOps := a.keyOps }
      let spec ← resolveMlKem a (params.get? "keyLength") spec
      let spec ← resolveCurve a (params.get? "crv") (params.get? "keyLength") spec
      resolveLength a (params.get? "keyLength") spec
    | none => throw "Unsupported algorithm"
  | _ => throw "Unsupported algorithm"

/-- A generated oct key: the material and the key id. -/
structure OctJwk where
  k : Json
  kid : String

/-- A generated JWK object; it carries its key id. -/
structure Jwk where
  props : Props
  kid : String
  hasKid : props.lookup "kid" = some (.str kid)

/-- A generated pair; both halves share the key id. -/
structure JwkPair where
  secretKey : Jwk
  publicKey : Jwk
  sharedKid : secretKey.kid = publicKey.kid

/-- What `generateVaultKey` returns. -/
structure GeneratedKey where
  kid : String
  kty : String
  alg : String
  secretKey : Json
  publicKey : Option Json
  deriving DecidableEq

def octKey (spec : KeySpec) (jwk : OctJwk) : GeneratedKey where
  kid := jwk.kid
  kty := "oct"
  alg := spec.alg
  secretKey := .obj (literal
    [("kty", some (.str "oct")), ("k", some jwk.k), ("alg", some (.str spec.alg)),
      ("key_ops", some (.arr (spec.keyOps.map .str))), ("use", spec.use.map .str),
      ("kid", some (.str jwk.kid))])
  publicKey := none

/-- One half of `stampPair`. -/
def stamp (props : Props) (alg use : Option String) : Props :=
  let props := deleteProp props "key_ops"
  let props := alg.elim props (fun a => setProp props "alg" (.str a))
  use.elim props (fun u => setProp props "use" (.str u))

def pairKey (spec : KeySpec) (kty : String) (jwkAlg : Option String) (pair : JwkPair) :
    GeneratedKey where
  kid := pair.secretKey.kid
  kty := kty
  alg := spec.alg
  secretKey := .obj (stamp pair.secretKey.props jwkAlg spec.use)
  publicKey := some (.obj (stamp pair.publicKey.props jwkAlg spec.use))

def jwtAlgs : List String :=
  ["HS256", "HS384", "HS512", "ES256", "ES384", "ES512", "RS256", "RS384", "RS512"]

def jweAlgs : List String :=
  ["A128GCMKW", "A192GCMKW", "A256GCMKW", "A128KW", "A192KW", "A256KW", "ECDH-ES", "RSA-OAEP",
    "RSA-OAEP-256", "ML-KEM-512@spinium.com", "ML-KEM-768@spinium.com", "ML-KEM-1024@spinium.com"]

theorem stamp_lookup_kid (props : Props) (alg use : Option String) :
    (stamp props alg use).lookup "kid" = props.lookup "kid" := by
  have hdel : (deleteProp props "key_ops").lookup "kid" = props.lookup "kid" :=
    lookup_deleteProp_ne (by decide)
  cases alg with
  | none =>
    cases use with
    | none => exact hdel
    | some u => exact (lookup_setProp_ne _ (by decide)).trans hdel
  | some a =>
    have halg := (lookup_setProp_ne (.str a) (show "kid" ≠ "alg" by decide)).trans hdel
    cases use with
    | none => exact halg
    | some u => exact (lookup_setProp_ne _ (by decide)).trans halg

theorem octKey_secret_kid (spec : KeySpec) (jwk : OctJwk) :
    (octKey spec jwk).secretKey.get? "kid" = some (.str (octKey spec jwk).kid) := by
  cases h : spec.use <;> simp [octKey, literal, h, List.lookup]

theorem pairKey_secret_kid (spec : KeySpec) (kty : String) (jwkAlg : Option String)
    (pair : JwkPair) :
    (pairKey spec kty jwkAlg pair).secretKey.get? "kid" =
      some (.str (pairKey spec kty jwkAlg pair).kid) :=
  (stamp_lookup_kid _ _ _).trans pair.secretKey.hasKid

theorem pairKey_public_kid (spec : KeySpec) (kty : String) (jwkAlg : Option String)
    (pair : JwkPair) : ∃ jwk, (pairKey spec kty jwkAlg pair).publicKey = some jwk ∧
      jwk.get? "kid" = some (.str (pairKey spec kty jwkAlg pair).kid) := by
  refine ⟨_, rfl, ?_⟩
  have h := pair.publicKey.hasKid
  rw [← pair.sharedKid] at h
  exact (stamp_lookup_kid _ _ _).trans h

end KeyGen
