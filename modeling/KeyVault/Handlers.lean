import KeyVault.KeyStore

/-!
# Operation handlers

serverhandlers.js: the ten operations as programs. A handler returns the response
data and the audit fields, or throws.
-/

namespace Handlers

open JsValue Acl KeyGen Errors Programs Vault KeyStore

inductive Operation where
  | healthcheck
  | generateKey
  | publicKey
  | createJwt
  | verifyJwt
  | createJwe
  | decryptJwe
  | revokeKey
  | exportKey
  | listKeys
  deriving DecidableEq, Repr

namespace Operation

def request : Operation → String
  | healthcheck => "healthcheck"
  | generateKey => "generate-key"
  | publicKey => "public-key"
  | createJwt => "create-jwt"
  | verifyJwt => "verify-jwt"
  | createJwe => "create-jwe"
  | decryptJwe => "decrypt-jwe"
  | revokeKey => "revoke-key"
  | exportKey => "export-key"
  | listKeys => "list-keys"

def all : List Operation :=
  [healthcheck, generateKey, publicKey, createJwt, verifyJwt, createJwe, decryptJwe, revokeKey,
    exportKey, listKeys]

theorem request_injective : Function.Injective request := by
  intro a b h
  cases a <;> cases b <;> first | rfl | exact absurd h (by decide)

/-- The catalogue entry of a request string. -/
def ofRequest (request : String) : Option Operation := all.find? (fun op => op.request == request)

@[simp] theorem ofRequest_request (op : Operation) : ofRequest op.request = some op := by
  cases op <;> decide

theorem ofRequest_eq_some {r : String} {op : Operation} (h : ofRequest r = some op) :
    op.request = r := by
  simpa using List.find?_some h

end Operation

/-- `{ data, audit }`; a missing member is `undefined`. -/
structure HandlerResult where
  data : Option Json
  audit : Option Props
  deriving DecidableEq

def checkProps (data : Json) (allowed : List String) : Except Thrown Unit :=
  match data with
  | .obj props =>
    match (keys props).find? (fun p => !allowed.contains p) with
    | some prop => .error (.apiError .invalidRequestData ("Unknown property: " ++ prop))
    | none => .ok ()
  | _ => .error (.ofCode .invalidRequestData)

def requireKid (kid : Option Json) : Except Thrown String :=
  match kid with
  | some (.str s) =>
    if isUuid s then .ok (toLowerCase s) else .error (.apiError .invalidRequestData "Invalid kid")
  | _ => .error (.apiError .invalidRequestData "Invalid kid")

/-- `token.split('.')[0]`. -/
def firstSegment (token : String) : String :=
  String.ofList (token.toList.takeWhile (fun c => !(c == '.')))

/-- The token text together with its decoded protected header. -/
def decodeProtectedHeader (L : Libraries) (token : Option Json) : Except Thrown (String × Json) :=
  match token with
  | some (.str t) =>
    if t = "" then .error (.ofCode .invalidInputToken)
    else match L.parseSegment (firstSegment t) with
      | some (.obj props) => .ok (t, .obj props)
      | _ => .error (.ofCode .invalidInputToken)
  | _ => .error (.ofCode .invalidInputToken)

def headerKid (header : Json) : Except Thrown (Option String) :=
  match header.get? "kid" with
  | none => .ok none
  | some (.str s) =>
    if isUuid s then .ok (some (toLowerCase s)) else .error (.ofCode .invalidInputToken)
  | some _ => .error (.ofCode .invalidInputToken)

def requestKid (dataKid : Option Json) : Except Thrown (Option String) :=
  if dataKid.isSome then (requireKid dataKid).map some else .ok none

def resolveKid (dataKid : Option Json) (header : Json) : Except Thrown String := do
  let reqKid ← requestKid dataKid
  let hdrKid ← headerKid header
  match reqKid, hdrKid with
  | some r, some h => if r = h then return r else throw (.ofCode .invalidInputToken)
  | some r, none => return r
  | none, some h => return h
  | none, none => throw (.ofCode .invalidInputToken)

/-- The effective right on a row: the ACL grant and the mask of the user. -/
def granted (user : VaultUser) (row : VaultKey) (opClass : OpClass) : Bool :=
  aclAllows row.acl user.userId opClass && allowedOpsAllows user.data opClass

def maskedDenial : Thrown := .api .keyNotFound Err.keyNotFound.message true

def authorizedKey (user : VaultUser) (kid : String) (opClass : OpClass) : Api VaultKey := do
  match ← loadKey kid with
  | none => throw (.ofCode .keyNotFound)
  | some row =>
    if granted user row opClass then do
      let now ← ask .dateNow
      if inWindow row now then return row else throw (.ofCode .keyNotFound)
    else throw maskedDenial

def unwrapKey (L : Libraries) (cfg : Config) (row : VaultKey) : Api Json :=
  (unwrap L cfg row).tryCatch (fun e => match e with
    | .kekUnavailable _ => throw (.ofCode .keyNotAvailable)
    | e => throw e)

/-- The key half of a row that needs no secret: the public JWK of an asymmetric key. -/
def publicHalf (L : Libraries) (cfg : Config) (row : VaultKey) : Api Json :=
  if row.kty = "oct" then unwrapKey L cfg row else return row.publicKey.getD .null

def checkTimes (data : Json) (now : Nat) : Except Thrown Unit := do
  require ((data.get? "nbf").all Json.isUnixTs) (.apiError .invalidRequestData "Invalid nbf")
  match data.get? "exp" with
  | none => return ()
  | some exp =>
    require (exp.isUnixTs && decide (now < exp.toNat)) (.apiError .invalidRequestData "Invalid exp")
    require ((data.get? "nbf").all (fun nbf => decide (nbf.toNat < exp.toNat)))
      (.apiError .invalidRequestData "Invalid exp")

def checkReturnPublicKey (data : Json) (spec : KeySpec) : Except Thrown Unit := do
  require ((data.get? "returnPublicKey").all (fun v => v == .bool true || v == .bool false))
    (.apiError .invalidRequestData "Invalid returnPublicKey")
  require (!(data.get? "returnPublicKey" == some (.bool true) && spec.kty == some "oct"))
    (.apiError .invalidRequestData "returnPublicKey is only applicable to asymmetric keys")

/-- The submitted ACL with the caller's own entry replaced by one that includes `owner`. -/
def mergeSelf (self : String) (acl : Props) : Except String Props :=
  let merged := objectAssign [] acl
  let selfKey := (keys merged).find? (fun u => toLowerCase u == self)
  let selfOps := match selfKey with
    | some k => (merged.lookup k).getD .null
    | none => .arr []
  let merged := selfKey.elim merged (deleteProp merged)
  match selfOps with
  | .arr ops =>
    .ok (setProp merged self
      (.arr (ops ++ if ops.contains (.str "owner") then [] else [.str "owner"])))
  | _ => .error "ACL ops must be an array"

def explicitAcl (self : String) (acl : Json) : Except String AclMap :=
  match acl with
  | .obj props => do
    let merged ← mergeSelf self props
    validateAcl (.obj merged)
  | _ => .error "ACL must be an object"

/-- The candidate co-owners of a user: syntactic UUIDs, without duplicates and self. -/
def coOwnerCandidates (self : String) (userData : Json) : List String :=
  let rawCo := match userData.get? "coOwners" with
    | some (.arr items) => items
    | _ => []
  ((rawCo.filterMap (fun u => match u with
    | .str s => if isUuid s then some (toLowerCase s) else none
    | _ => none)).eraseDups).filter (fun u => !(u == self))

def ownersAcl (self : String) (coOwners : List String) : Json :=
  .obj (coOwners.foldl (fun acl u => setProp acl u (.arr [.str "owner"]))
    [(self, .arr [.str "owner"])])

def existingCoOwners (candidates : List String) : Api (List String) :=
  if candidates.length > 0 then do
    let missing ← orThrow (← ask (.missingUsers candidates))
    return candidates.filter (fun u => !missing.contains u)
  else return []

def resolveAcl (user : VaultUser) (data : Json) : Api AclMap := do
  let self := toLowerCase user.userId
  match data.get? "acl" with
  | some acl =>
    match explicitAcl self acl with
    | .error message => throw (.apiError .invalidAcl message)
    | .ok acl =>
      let missing ← orThrow (← ask (.missingUsers (acl.map Prod.fst)))
      if missing.length > 0 then throw (.apiError .invalidAcl "Unknown ACL user") else return acl
  | none =>
    let coOwners ← existingCoOwners (coOwnerCandidates self user.data)
    match validateAcl (ownersAcl self coOwners) with
    | .error message => throw (.error message)
    | .ok acl => return acl

def generateKeyProps : List String :=
  ["alg", "kty", "crv", "keyLength", "nbf", "exp", "acl", "returnPublicKey"]

def generateKeySpec (user : VaultUser) (data : Json) : Except Thrown KeySpec := do
  require (allowedOpsAllows user.data .generateKey) (.ofCode .operationNotPermitted)
  checkProps data generateKeyProps
  (resolveKeyGenParams data).mapError (Thrown.apiError .invalidRequestData)

def generateKeyResult (data : Json) (acl : AclMap) (generated : Generated) : HandlerResult where
  data := some (.obj (literal [("kid", some (.str generated.kid)),
    ("key", if data.get? "returnPublicKey" = some (.bool true)
      then some (generated.publicKey.getD .null) else none)]))
  audit := some (literal [("kid", some (.str generated.kid)), ("kty", some (.str generated.kty)),
    ("alg", some (.str generated.alg)), ("aclUsers", some (.arr (acl.map (fun e => .str e.1)))),
    ("nbf", data.get? "nbf"), ("exp", data.get? "exp")])

def generateKey (cfg : Config) (user : VaultUser) (data : Json) : Api HandlerResult := do
  let spec ← generateKeySpec user data
  let now ← ask .dateNow
  checkTimes data (now / 1000)
  checkReturnPublicKey data spec
  let acl ← resolveAcl user data
  let generated ← generate cfg spec acl ((data.get? "nbf").map Json.toNat)
    ((data.get? "exp").map Json.toNat)
  return generateKeyResult data acl generated

def auditKid (kid : String) : Option Props := some [("kid", .str kid)]

def healthcheck (data : Json) : Api HandlerResult := do
  checkProps data []
  let uptime ← ask .uptime
  return ⟨some (.obj [("uptime", .num uptime)]), none⟩

def publicKey (user : VaultUser) (data : Json) : Api HandlerResult := do
  checkProps data ["kid"]
  let kid ← requireKid (data.get? "kid")
  let row ← authorizedKey user kid .exportPublicKey
  require (!(row.kty == "oct")) (.ofCode .incompatibleKeyType)
  return ⟨some (.obj [("key", row.publicKey.getD .null)]), auditKid kid⟩

/-- `/^Invalid JWT claim/`. -/
def isInvalidClaim (message : String) : Bool :=
  "Invalid JWT claim".toList.isPrefixOf message.toList

/-- What create-jwt makes of the library's answer. -/
def signed (kid : String) : Except String String → Except Thrown HandlerResult
  | .ok token => .ok ⟨some (.obj [("token", .str token)]), auditKid kid⟩
  | .error message =>
    if isInvalidClaim message then .error (.apiError .invalidRequestData message)
    else .error (.error message)

def createJwt (L : Libraries) (cfg : Config) (user : VaultUser) (data : Json) :
    Api HandlerResult := do
  checkProps data ["kid", "data"]
  let kid ← requireKid (data.get? "kid")
  require ((data.get? "data").any Json.isPlainObject)
    (.apiError .invalidRequestData "JWT payload must be an object")
  let row ← authorizedKey user kid .sign
  require (jwtAlgs.contains row.alg) (.ofCode .incompatibleKeyType)
  let jwk ← unwrapKey L cfg row
  signed kid (← ask (.jwtEncode row.alg jwk ((data.get? "data").getD .null)))

/-- Failed verification; only the two time messages are passed on. -/
def verificationError (message : String) : Thrown :=
  if message = "JWT token expired" ∨ message = "JWT token not yet valid" then
    .apiError .invalidInputToken message
  else .ofCode .invalidInputToken

/-- What verify-jwt and decrypt-jwe make of the library's answer. -/
def opened (kid : String) (header : Json) (refusal : String → Thrown) :
    Except String Json → Except Thrown HandlerResult
  | .ok payload => .ok ⟨some (.obj [("header", header), ("data", payload)]), auditKid kid⟩
  | .error message => .error (refusal message)

def verifyJwt (L : Libraries) (cfg : Config) (user : VaultUser) (data : Json) :
    Api HandlerResult := do
  checkProps data ["token", "kid"]
  let (token, header) ← decodeProtectedHeader L (data.get? "token")
  let kid ← resolveKid (data.get? "kid") header
  let row ← authorizedKey user kid .verify
  require (jwtAlgs.contains row.alg) (.ofCode .incompatibleKeyType)
  require (header.get? "alg" == some (.str row.alg)) (.ofCode .invalidInputToken)
  let jwk ← publicHalf L cfg row
  opened kid header verificationError (← ask (.jwtDecode token jwk))

def compressValues : List (Option Json) :=
  [none, some (.bool false), some (.bool true), some (.str "auto")]

def createJwe (L : Libraries) (cfg : Config) (user : VaultUser) (data : Json) :
    Api HandlerResult := do
  checkProps data ["kid", "data", "compress"]
  let kid ← requireKid (data.get? "kid")
  require (data.get? "data").isSome (.apiError .invalidRequestData "JWE payload is required")
  require (compressValues.contains (data.get? "compress"))
    (.apiError .invalidRequestData "Invalid compress")
  let row ← authorizedKey user kid .encrypt
  require (jweAlgs.contains row.alg) (.ofCode .incompatibleKeyType)
  let jwk ← publicHalf L cfg row
  let token ← orThrow (← ask (.jweEncrypt row.alg jwk ((data.get? "data").getD .null)
    (some ((data.get? "compress").getD (.bool false)))))
  return ⟨some (.obj [("token", .str token)]), auditKid kid⟩

def decryptJwe (L : Libraries) (cfg : Config) (user : VaultUser) (data : Json) :
    Api HandlerResult := do
  checkProps data ["token", "kid"]
  let (token, header) ← decodeProtectedHeader L (data.get? "token")
  let kid ← resolveKid (data.get? "kid") header
  let row ← authorizedKey user kid .decrypt
  require (jweAlgs.contains row.alg) (.ofCode .incompatibleKeyType)
  require (header.get? "alg" == some (.str row.alg)) (.ofCode .invalidInputToken)
  let jwk ← unwrapKey L cfg row
  opened kid header (fun _ => .ofCode .invalidInputToken) (← ask (.jweDecrypt token jwk))

def revokeKey (user : VaultUser) (data : Json) : Api HandlerResult := do
  checkProps data ["kid"]
  let kid ← requireKid (data.get? "kid")
  let _ ← authorizedKey user kid .revokeKey
  let revoked ← revoke kid
  require revoked (.ofCode .keyNotFound)
  return ⟨some (.obj [("kid", .str kid), ("revoked", .bool true)]), auditKid kid⟩

def exportKey (L : Libraries) (cfg : Config) (user : VaultUser) (data : Json) :
    Api HandlerResult := do
  checkProps data ["kid"]
  let kid ← requireKid (data.get? "kid")
  require cfg.allowExportKey (.ofCode .operationDisabled)
  let row ← authorizedKey user kid .exportSecretKey
  let jwk ← unwrapKey L cfg row
  return ⟨some (.obj [("key", jwk)]), auditKid kid⟩

def listKeys (user : VaultUser) (data : Json) : Api HandlerResult := do
  checkProps data []
  require (allowedOpsAllows user.data .listKeys) (.ofCode .operationNotPermitted)
  let keys ← KeyStore.listKeys user.userId user.data
  return ⟨some (.obj [("keys", .arr keys)]), some [("keyCount", .num keys.length)]⟩

/-- The handler table. -/
def handler (L : Libraries) (cfg : Config) (user : VaultUser) (data : Json) :
    Operation → Api HandlerResult
  | .healthcheck => healthcheck data
  | .generateKey => generateKey cfg user data
  | .publicKey => publicKey user data
  | .createJwt => createJwt L cfg user data
  | .verifyJwt => verifyJwt L cfg user data
  | .createJwe => createJwe L cfg user data
  | .decryptJwe => decryptJwe L cfg user data
  | .revokeKey => revokeKey user data
  | .exportKey => exportKey L cfg user data
  | .listKeys => listKeys user data

end Handlers
