import KeyVault.Handlers
import KeyVault.ServerAuth

/-!
# The HTTP server

server.js: the request envelope, the dispatch on the operation name, and the audit
appends before the response. The handler table is an object literal, so that a
name inherited from `Object.prototype` finds a handler too.
-/

namespace Server

open JsValue Errors Programs Vault KeyStore ServerAuth Handlers

structure Response where
  httpStatus : Nat
  body : Json
  close : Bool := false
  deriving DecidableEq

def errorBody (errorCode : Err) (message : Option String) (op : Option String) : Json :=
  .obj (literal [("status", some (.str "error")), ("op", op.map .str),
    ("errorCode", some (.num errorCode.code)),
    ("message", some (.str (message.getD errorCode.message)))])

def okBody (op : String) (data : Option Json) : Json :=
  .obj (literal [("status", some (.str "ok")), ("op", some (.str op)), ("data", data)])

namespace Response

def isOk (r : Response) : Prop := r.body.get? "status" = some (.str "ok")

def errorCode (r : Response) : Option Json := r.body.get? "errorCode"

instance (r : Response) : Decidable r.isOk := inferInstanceAs (Decidable (_ = _))

end Response

/-- An accepted envelope; `op` and `user` are in lower case. -/
structure Envelope where
  user : String
  op : String
  request : String
  data : Json
  named : request ≠ ""
  plain : data.isPlainObject = true

def malformed (message op : Option String) : Response :=
  ⟨400, errorBody .malformedRequest message op, false⟩

/-- `/^application\/json\s*(;.*)?$/i`. -/
def isJsonContentType (header : String) : Bool :=
  let cs := header.toList
  let expected := "application/json".toList
  if (cs.take expected.length).map Char.toLower = expected then
    match (cs.drop expected.length).dropWhile isJsSpace with
    | [] => true
    | c :: rest => c == ';' && !rest.any isLineTerminator
  else false

def envelopeProps : List String := ["user", "op", "request", "data"]

def parseUuid : Option Json → Option String
  | some (.str s) => if isUuid s then some (toLowerCase s) else none
  | _ => none

def parseEnvelope (envelope : Json) : Except Response Envelope :=
  match envelope with
  | .obj props =>
    match parseUuid (props.lookup "op") with
    | none => .error (malformed (some "Invalid op") none)
    | some op =>
      match (keys props).find? (fun p => !envelopeProps.contains p) with
      | some prop => .error (malformed (some ("Unknown property: " ++ prop)) (some op))
      | none =>
        match parseUuid (props.lookup "user"), props.lookup "request", props.lookup "data" with
        | some user, some (.str request), some (.obj data) =>
          if h : request ≠ "" then .ok ⟨user, op, request, .obj data, h, rfl⟩
          else .error (malformed none (some op))
        | _, _, _ => .error (malformed none (some op))
  | _ => .error (malformed none none)

/-- The members of `Object.prototype`, called as plain functions. Two of them return:
`toString` a string, which has no `data`, and `Object` its own argument. -/
def inherited (name : String) (user : VaultUser) : Except Thrown HandlerResult :=
  if name = "toString" then .ok ⟨none, none⟩
  else if name = "constructor" then .ok ⟨some user.data, none⟩
  else .error (.error "Cannot convert undefined or null to object")

/-- `handlers[request]`. -/
def lookupHandler (L : Libraries) (cfg : Config) (request : String) :
    Option (VaultUser → Json → Api HandlerResult) :=
  match Operation.ofRequest request with
  | some op => some (fun user data => handler L cfg user data op)
  | none =>
    if objectPrototype.contains request then some (fun user _ => liftM (inherited request user))
    else none

/-- `Object.keys(handlers)` without `healthcheck`. -/
def auditedOps : List String :=
  (Operation.all.map Operation.request).filter (fun r => !(r == "healthcheck"))

/-- A failed operation as the response and the audit see it. -/
structure Failure where
  errorCode : Err
  message : String
  maskedDenial : Bool
  httpStatus : Nat
  deriving DecidableEq

def caught : Thrown → Failure
  | .api errorCode message maskedDenial => ⟨errorCode, message, maskedDenial, 200⟩
  | _ => ⟨.internalError, Err.internalError.message, false, 500⟩

abbrev Outcome := Except Failure HandlerResult

def outcomeJson : Outcome → Json
  | .ok _ => .str "ok"
  | .error f => .num f.errorCode.code

def dataKid (data : Json) : Option String := parseUuid (data.get? "kid")

def eventFields (user : VaultUser) (env : Envelope) (outcome : Outcome) : Props :=
  let fields : Props := [("userId", .str user.userId), ("op", .str env.op)]
  let fields := match outcome with
    | .ok ⟨_, some audit⟩ => objectAssign fields audit
    | _ => (dataKid env.data).elim fields (fun kid => setProp fields "kid" (.str kid))
  setProp fields "outcome" (outcomeJson outcome)

def deniedFields (user : VaultUser) (env : Envelope) : Props :=
  literal [("userId", some (.str user.userId)), ("op", some (.str env.op)),
    ("kid", (dataKid env.data).map .str)]

def isMaskedDenial : Outcome → Bool
  | .ok _ => false
  | .error f => f.maskedDenial

def appendEvents (user : VaultUser) (env : Envelope) (outcome : Outcome) : Api Unit := do
  orThrow (← ask (.recordEvent env.request (eventFields user env outcome)))
  if isMaskedDenial outcome then
    orThrow (← ask (.recordEvent "denied" (deniedFields user env)))
  else return ()

def internalError (op : Option String) : Response := ⟨500, errorBody .internalError none op, false⟩

def answer (op : String) : Outcome → Response
  | .ok result => ⟨200, okBody op result.data, false⟩
  | .error f => ⟨f.httpStatus, errorBody f.errorCode (some f.message) (some op), false⟩

/-- `handleApi` from the handler lookup on: the caller is authenticated. -/
def dispatch (L : Libraries) (cfg : Config) (user : VaultUser) (env : Envelope) : Api Response :=
  match lookupHandler L cfg env.request with
  | none => return ⟨200, errorBody .unknownOperation none (some env.op), false⟩
  | some handler => do
    let outcome := (← (handler user env.data).attempt).mapError caught
    if auditedOps.contains env.request then
      match ← (appendEvents user env outcome).attempt with
      | .ok () => return answer env.op outcome
      | .error _ => return internalError (some env.op)
    else return answer env.op outcome

def handleEnvelope (L : Libraries) (cfg : Config) (req : HttpRequest) (env : Envelope) :
    Api Response := do
  match ← authenticate L cfg req env.user with
  | none => return ⟨403, errorBody .unauthorized none (some env.op), false⟩
  | some user => dispatch L cfg user env

def handleApi (L : Libraries) (cfg : Config) (req : HttpRequest) : Api Response :=
  if isJsonContentType (req.contentType.getD "") then
    match req.body with
    | .tooLarge =>
      return ⟨400, errorBody .malformedRequest (some "Request body too large") none, true⟩
    | .aborted => return ⟨400, errorBody .malformedRequest none none, true⟩
    | .text none => return malformed none none
    | .text (some envelope) =>
      match parseEnvelope envelope with
      | .error response => return response
      | .ok env => handleEnvelope L cfg req env
  else return malformed (some "Content-Type must be application/json") none

def handleRequest (L : Libraries) (cfg : Config) (req : HttpRequest) : Api Response :=
  match req.pathname with
  | none => return malformed none none
  | some pathname =>
    if pathname = "/api/v1" then
      if req.method = "POST" then handleApi L cfg req
      else return ⟨405, errorBody .methodNotAllowed none none, false⟩
    else if pathname = "/healthz" then
      if req.method = "GET" then return ⟨200, .obj [("status", .str "ok")], false⟩
      else return ⟨405, errorBody .methodNotAllowed none none, false⟩
    else if pathname = "/readyz" then
      if req.method = "GET" then do
        match ← ask .ping with
        | .ok () => return ⟨200, .obj [("status", .str "ok")], false⟩
        | .error _ =>
          return ⟨503, errorBody .internalError (some "Database not available") none, false⟩
      else return ⟨405, errorBody .methodNotAllowed none none, false⟩
    else return ⟨404, errorBody .unknownEndpoint none none, false⟩

/-- The listener of `createServer`: what escapes a request is an internal error. -/
def serveRequest (L : Libraries) (cfg : Config) (req : HttpRequest) : Api Response :=
  (handleRequest L cfg req).tryCatch (fun _ => return internalError none)

end Server
