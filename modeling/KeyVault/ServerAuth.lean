import KeyVault.IpMatch
import KeyVault.KeyStore

/-!
# Authentication

serverauth.js: the token digest and the checks on the caller. Every failure is the
same refusal; the reason only reaches the debug log and is left out.
-/

namespace ServerAuth

open JsValue Errors Programs Vault KeyStore IpMatch

/-- What the server can receive as a body; `none` is a text that `JSON.parse` refuses. -/
inductive RequestBody where
  | tooLarge
  | aborted
  | text (parsed : Option Json)
  deriving DecidableEq

/-- An HTTP request; `pathname` is absent when its URL does not parse. -/
structure HttpRequest where
  method : String
  pathname : Option String
  contentType : Option String
  authorization : Option String
  xForwardedFor : Option String
  remoteAddress : Option String
  body : RequestBody
  deriving DecidableEq

def tokenHash (L : Libraries) (token : String) : String := L.sha256 (toLowerCase token)

/-- The group of `/^Bearer\s+(\S+)$/`. -/
def bearer (header : String) : Option String :=
  let cs := header.toList
  let tail := cs.drop 6
  let credential := tail.dropWhile isJsSpace
  if cs.take 6 = "Bearer".toList ∧ credential.length < tail.length ∧ credential ≠ [] ∧
      !credential.any isJsSpace then some (String.ofList credential)
  else none

/-- The account window and the client address of a known user. -/
def admitted (user : VaultUser) (clientIp : Option String) (now : Nat) : Bool :=
  let data := if user.data.isPlainObject then user.data else .obj []
  !(data.get? "nbf").any (fun nbf => nbf.isUnixTs && now < nbf.toNat) &&
    !(data.get? "exp").any (fun exp => exp.isUnixTs && exp.toNat < now) &&
    clientIp.any (fun ip => ipAllowed ip (data.get? "allowedIP"))

def authenticate (L : Libraries) (cfg : Config) (req : HttpRequest) (claimedUser : String) :
    Api (Option VaultUser) :=
  let clientIp := deriveClientIp req.remoteAddress req.xForwardedFor cfg.trustedProxyHops
  match bearer (req.authorization.getD "") with
  | none => return none
  | some token =>
    if !isUuid token then return none
    else do
      let hash := tokenHash L token
      match ← orThrow (← ask (.userByTokenHash hash)) with
      | none => return none
      | some user =>
        if user.authToken = some hash ∧ claimedUser = toLowerCase user.userId then do
          let now ← ask .dateNow
          return if admitted user clientIp (now / 1000) then some user else none
        else return none

end ServerAuth
