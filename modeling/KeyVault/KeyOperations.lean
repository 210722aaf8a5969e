import KeyVault.CallEffects
import KeyVault.Handlers

/-!
# The shape of a key operation

Seven operations work on one stored key. Each checks its data and resolves a kid,
authorizes the row, checks that the row fits, takes one half of the key, and
finishes. `KeyOperation` is that shape, and the handlers of the source have it;
what is proved of the shape holds for all of them.
-/

namespace KeyOperations

open JsValue Acl KeyGen Errors Programs Vault KeyStore Handlers CallEffects

/-- Which half of the key an operation takes. -/
inductive KeyHalf where
  | stored
  | publicOrSecret
  | secret
  deriving DecidableEq, Repr

structure KeyOperation where
  opClass : OpClass
  target : Except Thrown String
  fits : VaultKey → Except Thrown Unit
  half : KeyHalf
  finish : String → VaultKey → Json → Api HandlerResult

def keyHalf (L : Libraries) (cfg : Config) (row : VaultKey) : KeyHalf → Api Json
  | .stored => return row.publicKey.getD .null
  | .publicOrSecret => publicHalf L cfg row
  | .secret => unwrapKey L cfg row

def onRow (L : Libraries) (cfg : Config) (K : KeyOperation) (kid : String) (row : VaultKey) :
    Api HandlerResult := do
  K.fits row
  let jwk ← keyHalf L cfg row K.half
  K.finish kid row jwk

def access (L : Libraries) (cfg : Config) (user : VaultUser) (K : KeyOperation) :
    Api HandlerResult := do
  let kid ← K.target
  let row ← authorizedKey user kid K.opClass
  onRow L cfg K kid row

def kidOnly (data : Json) : Except Thrown String := do
  checkProps data ["kid"]
  requireKid (data.get? "kid")

def tokenText (data : Json) : String :=
  match data.get? "token" with
  | some (.str t) => t
  | _ => ""

def tokenHeader (L : Libraries) (data : Json) : Json :=
  match decodeProtectedHeader L (data.get? "token") with
  | .ok (_, header) => header
  | .error _ => .null

def tokenTarget (L : Libraries) (data : Json) : Except Thrown String := do
  checkProps data ["token", "kid"]
  let (_, header) ← decodeProtectedHeader L (data.get? "token")
  resolveKid (data.get? "kid") header

def fitsAlgs (algs : List String) (row : VaultKey) : Except Thrown Unit :=
  require (algs.contains row.alg) (.ofCode .incompatibleKeyType)

/-- The key serves the token's kind, and the token names exactly its algorithm. -/
def fitsToken (algs : List String) (header : Json) (row : VaultKey) : Except Thrown Unit := do
  fitsAlgs algs row
  require (header.get? "alg" == some (.str row.alg)) (.ofCode .invalidInputToken)

def publicKeyOp (data : Json) : KeyOperation where
  opClass := .exportPublicKey
  target := kidOnly data
  fits := fun row => require (!(row.kty == "oct")) (.ofCode .incompatibleKeyType)
  half := .stored
  finish := fun kid _ jwk => return ⟨some (.obj [("key", jwk)]), auditKid kid⟩

def createJwtOp (data : Json) : KeyOperation where
  opClass := .sign
  target := do
    checkProps data ["kid", "data"]
    let kid ← requireKid (data.get? "kid")
    require ((data.get? "data").any Json.isPlainObject)
      (.apiError .invalidRequestData "JWT payload must be an object")
    return kid
  fits := fitsAlgs jwtAlgs
  half := .secret
  finish := fun kid row jwk => do
    signed kid (← ask (.jwtEncode row.alg jwk ((data.get? "data").getD .null)))

def verifyJwtOp (L : Libraries) (data : Json) : KeyOperation where
  opClass := .verify
  target := tokenTarget L data
  fits := fitsToken jwtAlgs (tokenHeader L data)
  half := .publicOrSecret
  finish := fun kid _ jwk => do
    opened kid (tokenHeader L data) verificationError (← ask (.jwtDecode (tokenText data) jwk))

def createJweOp (data : Json) : KeyOperation where
  opClass := .encrypt
  target := do
    checkProps data ["kid", "data", "compress"]
    let kid ← requireKid (data.get? "kid")
    require (data.get? "data").isSome (.apiError .invalidRequestData "JWE payload is required")
    require (compressValues.contains (data.get? "compress"))
      (.apiError .invalidRequestData "Invalid compress")
    return kid
  fits := fitsAlgs jweAlgs
  half := .publicOrSecret
  finish := fun kid row jwk => do
    let token ← orThrow (← ask (.jweEncrypt row.alg jwk ((data.get? "data").getD .null)
      (some ((data.get? "compress").getD (.bool false)))))
    return ⟨some (.obj [("token", .str token)]), auditKid kid⟩

def decryptJweOp (L : Libraries) (data : Json) : KeyOperation where
  opClass := .decrypt
  target := tokenTarget L data
  fits := fitsToken jweAlgs (tokenHeader L data)
  half := .secret
  finish := fun kid _ jwk => do
    opened kid (tokenHeader L data) (fun _ => .ofCode .invalidInputToken)
      (← ask (.jweDecrypt (tokenText data) jwk))

def revokeKeyOp (data : Json) : KeyOperation where
  opClass := .revokeKey
  target := kidOnly data
  fits := fun _ => .ok ()
  half := .stored
  finish := fun kid _ _ => do
    let revoked ← revoke kid
    require revoked (.ofCode .keyNotFound)
    return ⟨some (.obj [("kid", .str kid), ("revoked", .bool true)]), auditKid kid⟩

def exportKeyOp (cfg : Config) (data : Json) : KeyOperation where
  opClass := .exportSecretKey
  target := do
    let kid ← kidOnly data
    require cfg.allowExportKey (.ofCode .operationDisabled)
    return kid
  fits := fun _ => .ok ()
  half := .secret
  finish := fun kid _ jwk => return ⟨some (.obj [("key", jwk)]), auditKid kid⟩

def keyOperation (L : Libraries) (cfg : Config) (data : Json) : Operation → Option KeyOperation
  | .publicKey => some (publicKeyOp data)
  | .createJwt => some (createJwtOp data)
  | .verifyJwt => some (verifyJwtOp L data)
  | .createJwe => some (createJweOp data)
  | .decryptJwe => some (decryptJweOp L data)
  | .revokeKey => some (revokeKeyOp data)
  | .exportKey => some (exportKeyOp cfg data)
  | .healthcheck => none
  | .generateKey => none
  | .listKeys => none

/-- The class a key operation requires on its row. -/
def requiredClass : Operation → Option OpClass
  | .publicKey => some .exportPublicKey
  | .createJwt => some .sign
  | .verifyJwt => some .verify
  | .createJwe => some .encrypt
  | .decryptJwe => some .decrypt
  | .revokeKey => some .revokeKey
  | .exportKey => some .exportSecretKey
  | .healthcheck => none
  | .generateKey => none
  | .listKeys => none

variable {L : Libraries} {cfg : Config} {user : VaultUser} {data : Json}

theorem keyOperation_class {op : Operation} {K : KeyOperation}
    (h : keyOperation L cfg data op = some K) : requiredClass op = some K.opClass := by
  cases op <;> cases h <;> rfl

theorem decoded_token {token : String} {header : Json}
    (h : decodeProtectedHeader L (data.get? "token") = .ok (token, header)) :
    token = tokenText data ∧ header = tokenHeader L data := by
  refine ⟨?_, by simp only [tokenHeader, h]⟩
  simp only [decodeProtectedHeader] at h
  simp only [tokenText]
  cases ht : data.get? "token" with
  | none => simp [ht] at h
  | some v =>
    cases v with
    | str t =>
      simp only [ht] at h ⊢
      split at h
      · cases h
      · split at h
        · cases h
          rfl
        · cases h
    | _ => simp [ht] at h

theorem publicKey_eq : publicKey user data = access L cfg user (publicKeyOp data) := by
  simp only [publicKey, access, publicKeyOp, kidOnly, onRow, keyHalf, Prog.liftM_bind, bind_assoc,
    pure_bind]

theorem createJwt_eq : createJwt L cfg user data = access L cfg user (createJwtOp data) := by
  simp only [createJwt, access, createJwtOp, fitsAlgs, onRow, keyHalf, Prog.liftM_bind, bind_assoc,
    pure_bind, Prog.liftM_pure]

theorem verifyJwt_eq :
    verifyJwt L cfg user data = access L cfg user (verifyJwtOp L data) := by
  simp only [verifyJwt, access, verifyJwtOp, tokenTarget, fitsToken, fitsAlgs, onRow, keyHalf,
    Prog.liftM_bind, bind_assoc]
  cases htoken : decodeProtectedHeader L (data.get? "token") with
  | error e => rfl
  | ok t =>
    obtain ⟨token, header⟩ := t
    obtain ⟨rfl, rfl⟩ := decoded_token htoken
    simp only [Prog.liftM_eq, Prog.done_ok_bind]

theorem createJwe_eq : createJwe L cfg user data = access L cfg user (createJweOp data) := by
  simp only [createJwe, access, createJweOp, fitsAlgs, onRow, keyHalf, Prog.liftM_bind, bind_assoc,
    pure_bind, Prog.liftM_pure]

theorem decryptJwe_eq :
    decryptJwe L cfg user data = access L cfg user (decryptJweOp L data) := by
  simp only [decryptJwe, access, decryptJweOp, tokenTarget, fitsToken, fitsAlgs, onRow, keyHalf,
    Prog.liftM_bind, bind_assoc]
  cases htoken : decodeProtectedHeader L (data.get? "token") with
  | error e => rfl
  | ok t =>
    obtain ⟨token, header⟩ := t
    obtain ⟨rfl, rfl⟩ := decoded_token htoken
    simp only [Prog.liftM_eq, Prog.done_ok_bind]

theorem revokeKey_eq : revokeKey user data = access L cfg user (revokeKeyOp data) := by
  simp only [revokeKey, access, revokeKeyOp, kidOnly, onRow, keyHalf, Prog.liftM_bind, bind_assoc,
    pure_bind]
  rfl

theorem exportKey_eq : exportKey L cfg user data = access L cfg user (exportKeyOp cfg data) := by
  simp only [exportKey, access, exportKeyOp, kidOnly, onRow, keyHalf, Prog.liftM_bind, bind_assoc,
    pure_bind, Prog.liftM_pure]
  rfl

/-- Every handler of a key operation has the common shape. -/
theorem handler_access {op : Operation} {K : KeyOperation}
    (h : keyOperation L cfg data op = some K) :
    handler L cfg user data op = access L cfg user K := by
  cases op with
  | publicKey => cases h; exact publicKey_eq
  | createJwt => cases h; exact createJwt_eq
  | verifyJwt => cases h; exact verifyJwt_eq
  | createJwe => cases h; exact createJwe_eq
  | decryptJwe => cases h; exact decryptJwe_eq
  | revokeKey => cases h; exact revokeKey_eq
  | exportKey => cases h; exact exportKey_eq
  | healthcheck => cases h
  | generateKey => cases h
  | listKeys => cases h

end KeyOperations
