import KeyVault.IpMatch
import KeyVault.KeyStore
import KeyVault.ServerAuth

/-!
# Administrative commands

kvadmin.js: each command as the sequence of its statements and its audit append.
Options are already parsed; `list-users` is modelled without the table it prints,
and `verify-audit`, which only asks the audit library, is left out.
-/

namespace KvAdmin

open JsValue Acl Errors Programs Vault KeyStore IpMatch ServerAuth

inductive Command where
  | addUser
  | setToken
  | revokeToken
  | setUserData
  | removeUser
  | listUsers
  | updateAcl
  | rewrap
  deriving DecidableEq, Repr

def Command.name : Command → String
  | addUser => "add-user"
  | setToken => "set-token"
  | revokeToken => "revoke-token"
  | setUserData => "set-user-data"
  | removeUser => "remove-user"
  | listUsers => "list-users"
  | updateAcl => "update-acl"
  | rewrap => "rewrap"

/-- The parsed options; `kek` is what the embedding key files come to. -/
structure Opts where
  actor : String
  user : Option String := none
  kid : Option String := none
  acl : Option Props := none
  allowedIP : List String := []
  allowAll : Bool := false
  allowedOps : List String := []
  clearAllowedOps : Bool := false
  coOwner : List String := []
  clearCoOwners : Bool := false
  nbf : Option Nat := none
  exp : Option Nat := none
  clearNbf : Bool := false
  clearExp : Bool := false
  kek : Except String KekManager := .error "Command rewrap requires --embedding-key-file"

def requireOpt {α : Type} (command : Command) (name : String) : Option α → Except Thrown α
  | some v => .ok v
  | none => .error (.error ("Command " ++ command.name ++ " requires --" ++ name))

def joinComma : List String → String
  | [] => ""
  | [s] => s
  | s :: rest => s ++ ", " ++ joinComma rest

def strings (l : List String) : Json := .arr (l.map .str)

def allowAllList : List String := ["0.0.0.0/0", "0::/0"]

def allowedIPFromOpts (o : Opts) : Except Thrown (List String) :=
  if o.allowAll then
    if o.allowedIP.length > 0 then .error (.error "--allow-all conflicts with --allowed-ip")
    else .ok allowAllList
  else
    let invalid := o.allowedIP.filter (fun e => (parseEntry (.str e)).isNone)
    if invalid.length > 0 then
      .error (.error ("Invalid allowedIP entries: " ++ joinComma invalid))
    else .ok o.allowedIP

def allowedOpsFromOpts (o : Opts) : Except Thrown (Option Json) :=
  match o.allowedOps with
  | [] => .ok none
  | [op] =>
    if toLowerCase op = "none" then .ok (some (.arr []))
    else validated [op]
  | list => validated list
where
  validated (list : List String) : Except Thrown (Option Json) :=
    match validateAllowedOps list [] with
    | .error message => .error (.error message)
    | .ok classes => .ok (some (strings (classes.map OpClass.name)))

def coOwnersFromOpts (o : Opts) : Option Json :=
  match o.coOwner with
  | [] => none
  | list => some (strings list.eraseDups)

/-- `await ctx.audit.event('admin:' ...)`; strict coupling. -/
def event (command : Command) (fields : Props) : Api Unit := do
  orThrow (← ask (.recordEvent ("admin:" ++ command.name) fields))

/-- `Object.assign({}, user.data)`. -/
def copyData (user : VaultUser) : Props := objectAssign [] (ownProps user.data)

def existingUser (userId : String) : Api VaultUser := do
  match ← orThrow (← ask (.userById userId)) with
  | some user => return user
  | none => throw (.error "User not found")

def newUserData (o : Opts) (allowedIP : List String) (now : Nat) (allowedOps : Option Json) :
    Props :=
  literal [("allowedIP", some (strings allowedIP)), ("iat", some (.num now)),
    ("nbf", secondsClaim o.nbf), ("exp", secondsClaim o.exp), ("allowedOps", allowedOps),
    ("coOwners", coOwnersFromOpts o)]

def addUser (o : Opts) : Api (Option String) := do
  let allowedIP ← allowedIPFromOpts o
  let now ← ask .dateNow
  let allowedOps ← allowedOpsFromOpts o
  let userId ← orThrow
      (← ask (.insertUser (.obj (newUserData o allowedIP (now / 1000) allowedOps))))
  event .addUser (literal [("actor", some (.str o.actor)), ("userId", some (.str userId)),
    ("allowedIP", some (strings allowedIP)), ("allowedOps", allowedOps),
    ("coOwners", coOwnersFromOpts o)])
  return some userId

def userFields (o : Opts) (userId : String) : Props :=
  [("actor", .str o.actor), ("userId", .str userId)]

/-- The document that set-token and revoke-token write back. -/
def stampedData (user : VaultUser) (now : Nat) : Json :=
  .obj (setProp (copyData user) "auth_token_ts" (.num (now / 1000 : Nat)))

def setToken (L : Libraries) (o : Opts) : Api (Option String) := do
  let userId ← requireOpt .setToken "user" o.user
  let user ← existingUser userId
  let token ← ask .randomUUID
  let now ← ask .dateNow
  let _ ← orThrow (← ask (.setUserToken userId (some (tokenHash L token))))
  let _ ← orThrow (← ask (.setUserData userId (stampedData user now)))
  event .setToken (userFields o userId)
  return some token

def revokeToken (o : Opts) : Api (Option String) := do
  let userId ← requireOpt .revokeToken "user" o.user
  let user ← existingUser userId
  let now ← ask .dateNow
  let _ ← orThrow (← ask (.setUserToken userId none))
  let _ ← orThrow (← ask (.setUserData userId (stampedData user now)))
  event .revokeToken (userFields o userId)
  return none

/-- One property of set-user-data: cleared, set or left alone. -/
def editProp (data : Props) (name : String) (clear : Bool) (value : Option Json)
    (conflict : String) : Except Thrown Props :=
  if clear then
    if value.isSome then .error (.error conflict) else .ok (deleteProp data name)
  else .ok (value.elim data (setProp data name))

def editAllowedIP (o : Opts) (data : Props) : Except Thrown Props :=
  if o.allowAll || o.allowedIP.length > 0 then
    (allowedIPFromOpts o).map (fun l => setProp data "allowedIP" (strings l))
  else .ok data

def editUserData (o : Opts) (user : VaultUser) : Except Thrown Props := do
  let data ← editAllowedIP o (copyData user)
  let data ← editProp data "nbf" o.clearNbf (secondsClaim o.nbf) "--clear-nbf conflicts with --nbf"
  let data ← editProp data "exp" o.clearExp (secondsClaim o.exp) "--clear-exp conflicts with --exp"
  let allowedOps ← allowedOpsFromOpts o
  let data ← editProp data "allowedOps" o.clearAllowedOps allowedOps
    "--clear-allowed-ops conflicts with --allowed-ops"
  editProp data "coOwners" o.clearCoOwners (coOwnersFromOpts o)
    "--clear-co-owners conflicts with --co-owner"

def setUserData (o : Opts) : Api (Option String) := do
  let userId ← requireOpt .setUserData "user" o.user
  let user ← existingUser userId
  let data ← editUserData o user
  let _ ← orThrow (← ask (.setUserData userId (.obj data)))
  event .setUserData (literal [("actor", some (.str o.actor)), ("userId", some (.str userId)),
    ("allowedIP", data.lookup "allowedIP"), ("allowedOps", data.lookup "allowedOps"),
    ("coOwners", data.lookup "coOwners"), ("nbf", data.lookup "nbf"), ("exp", data.lookup "exp")])
  return none

def removeUser (o : Opts) : Api (Option String) := do
  let userId ← requireOpt .removeUser "user" o.user
  let removed ← orThrow (← ask (.removeUser userId))
  require removed (.error "User not found")
  event .removeUser (userFields o userId)
  return none

def listUsers (o : Opts) : Api (Option String) := do
  let users ← orThrow (← ask .listUsers)
  event .listUsers [("actor", .str o.actor), ("userCount", .num users.length)]
  return none

def updateAcl (o : Opts) : Api (Option String) := do
  let kid ← requireOpt .updateAcl "kid" o.kid
  let aclInput ← requireOpt .updateAcl "acl" o.acl
  let acl ← (validateAcl (.obj aclInput)).mapError (fun e => Thrown.error ("Invalid ACL: " ++ e))
  let missing ← orThrow (← ask (.missingUsers (acl.map Prod.fst)))
  require (missing.length == 0) (.error ("Invalid ACL: unknown user(s) " ++ joinComma missing))
  let row ← orThrow (← ask (.keyById kid))
  require row.isSome (.error "Key not found")
  let _ ← orThrow (← ask (.updateKeyAcl kid (Acl.toJson acl)))
  event .updateAcl [("actor", .str o.actor), ("kid", .str kid),
    ("aclUsers", strings (acl.map Prod.fst))]
  return none

/-- `Math.floor(date.getTime() / 1000)`; `NaN` becomes `null` in the claims. -/
def dateSeconds (micros : Option Nat) : Option Json :=
  micros.map (fun m => (getTime m).elim .null (fun ms => .num (ms / 1000 : Nat)))

/-- One turn of the rewrap loop: whether the row was rewrapped or skipped. -/
def rewrapRow (m : KekManager) (row : VaultKey) : Api Bool := do
  match ← (extract m row.embeddingKeyId row.embeddedKey row.keyId).attempt with
  | .error _ => return false
  | .ok secretJwk =>
    let now ← ask .dateNow
    let (embeddingKeyId, embeddedKey) ← embed m secretJwk row.keyId (now / 1000)
      (dateSeconds row.notBefore) (dateSeconds row.expiresAt)
    let _ ← orThrow (← ask (.updateKeyEmbedding row.keyId embeddingKeyId embeddedKey))
    return true

def rewrapRows (m : KekManager) : List VaultKey → Nat → Nat → Api (Nat × Nat)
  | [], rewrapped, skipped => return (rewrapped, skipped)
  | row :: rest, rewrapped, skipped => do
    if ← rewrapRow m row then rewrapRows m rest (rewrapped + 1) skipped
    else rewrapRows m rest rewrapped (skipped + 1)

def rewrap (o : Opts) : Api (Option String) := do
  let m ← o.kek.mapError Thrown.error
  let rows ← orThrow (← ask (.keysNotEmbeddedWith m.active.kid))
  let (rewrapped, skipped) ← rewrapRows m rows 0 0
  event .rewrap [("actor", .str o.actor), ("activeKek", .str m.active.kid),
    ("rewrapped", .num rewrapped), ("skipped", .num skipped)]
  return none

/-- The command table; the result is what is printed once, a user id or a token. -/
def command (L : Libraries) (o : Opts) : Command → Api (Option String)
  | .addUser => addUser o
  | .setToken => setToken L o
  | .revokeToken => revokeToken o
  | .setUserData => setUserData o
  | .removeUser => removeUser o
  | .listUsers => listUsers o
  | .updateAcl => updateAcl o
  | .rewrap => rewrap o

end KvAdmin
