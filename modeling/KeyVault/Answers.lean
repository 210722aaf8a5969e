import KeyVault.RequestChecks
import KeyVault.Revocation
import KeyVault.ServedRequests

/-!
# The catalogue of answers

API.md lists the error codes of every operation, and errors.js asks for short fixed
messages. Whatever the other processes do and whichever calls fail, a request is answered
from that catalogue.
-/

namespace Answers

open JsValue Acl KeyGen Errors Programs Interleaving Vault KeyStore Handlers KeyOperations
  ServerAuth Server AuditTrail Processes RequestChecks ServedRequests

/-- The codes that an operation can fail with, besides an internal error. -/
def documented : Operation → List Err
  | .healthcheck => [.invalidRequestData]
  | .generateKey => [.operationNotPermitted, .invalidRequestData, .invalidAcl]
  | .publicKey => [.invalidRequestData, .keyNotFound, .incompatibleKeyType]
  | .createJwt => [.invalidRequestData, .keyNotFound, .incompatibleKeyType, .keyNotAvailable]
  | .verifyJwt =>
    [.invalidRequestData, .keyNotFound, .incompatibleKeyType, .invalidInputToken, .keyNotAvailable]
  | .createJwe => [.invalidRequestData, .keyNotFound, .incompatibleKeyType, .keyNotAvailable]
  | .decryptJwe =>
    [.invalidRequestData, .keyNotFound, .incompatibleKeyType, .invalidInputToken, .keyNotAvailable]
  | .revokeKey => [.invalidRequestData, .keyNotFound]
  | .exportKey => [.invalidRequestData, .operationDisabled, .keyNotFound, .keyNotAvailable]
  | .listKeys => [.invalidRequestData, .operationNotPermitted]

/-- An exception of an operation. `lost` says that the wrapping KEK of a loaded row is not
configured, and an `Error` of a library, of the database or of the runtime is internal. -/
inductive Refusal (lost : Prop) (op : Operation) (data : Json) : Thrown → Prop where
  | rejected {errorCode : Err} {e : Thrown} : errorCode ∈ documented op →
      errorCode ≠ .keyNotAvailable → Rejection data errorCode e → Refusal lost op data e
  | masked : .keyNotFound ∈ documented op → Refusal lost op data maskedDenial
  | unavailable : .keyNotAvailable ∈ documented op → lost →
      Refusal lost op data (.ofCode .keyNotAvailable)
  | acl {message : String} : op = .generateKey → message ∈ "Unknown ACL user" :: aclTexts →
      Refusal lost op data (.apiError .invalidAcl message)
  | claim {message : String} : op = .createJwt → isInvalidClaim message = true →
      Refusal lost op data (.apiError .invalidRequestData message)
  | time {message : String} : op = .verifyJwt →
      message ∈ ["JWT token expired", "JWT token not yet valid"] →
        Refusal lost op data (.apiError .invalidInputToken message)
  | internal (message : String) : Refusal lost op data (.error message)

section

variable {L : Libraries} {cfg : Config} {user : VaultUser} {data : Json} {op : Operation}
  {lost : Prop} {α β : Type}

def comesTo (lost : Prop) (op : Operation) (data : Json) (Q : α → Prop) : Except Thrown α → Prop
  | .ok a => Q a
  | .error e => Refusal lost op data e

/-- A loaded row whose wrapping KEK is not configured. -/
def tells (cfg : Config) (lost : Prop) : (c : Call) → Ans c → Prop
  | .keyById _, .ok (some row) => cfg.kek.byId row.embeddingKeyId = none → lost
  | _, _ => True

/-- The program fails with refusals only, and its result satisfies `Q`. -/
def Refusing (cfg : Config) (lost : Prop) (op : Operation) (data : Json) (Q : α → Prop)
    (p : Api α) : Prop :=
  p.Trusts (tells cfg lost) (fun _ => True) (comesTo lost op data Q)

theorem refusing_ask {Q : β → Prop} {c : Call} {f : Ans c → Api β}
    (hf : ∀ a, tells cfg lost c a → Refusing cfg lost op data Q (f a)) :
    Refusing cfg lost op data Q (ask c >>= f) := ⟨trivial, hf⟩

theorem refusing_lift {Q : β → Prop} {r : Except Thrown α} {f : α → Api β}
    (hok : ∀ a, r = .ok a → Refusing cfg lost op data Q (f a))
    (herror : ∀ e, r = .error e → Refusal lost op data e) :
    Refusing cfg lost op data Q (liftM r >>= f) := by
  cases r with
  | ok a => exact hok a rfl
  | error e => exact herror e rfl

theorem refusing_orThrow {Q : β → Prop} {r : Except String α} {f : α → Api β}
    (hok : ∀ a, r = .ok a → Refusing cfg lost op data Q (f a)) :
    Refusing cfg lost op data Q (liftM (orThrow r) >>= f) := by
  cases r with
  | ok a => exact hok a rfl
  | error message => exact Refusal.internal message

theorem Refusing.bind {Q : α → Prop} {R : β → Prop} {p : Api α} {f : α → Api β}
    (hp : Refusing cfg lost op data Q p) (hf : ∀ a, Q a → Refusing cfg lost op data R (f a)) :
    Refusing cfg lost op data R (p >>= f) := Prog.Trusts.bind hp hf fun _ he => he

/-- A rejection whose codes the operation documents. -/
theorem refusal_rejects {errorCodes : List Err} {e : Thrown} (h : Rejects data errorCodes e)
    (hsub : errorCodes ⊆ documented op) (hkek : Err.keyNotAvailable ∉ errorCodes) :
    Refusal lost op data e := by
  obtain ⟨errorCode, hcode, hrejection⟩ := h
  refine .rejected (hsub hcode) ?_ hrejection
  rintro rfl
  exact hkek hcode

theorem refusal_ofCode {errorCode : Err} (h : errorCode ∈ documented op)
    (hkek : errorCode ≠ .keyNotAvailable) : Refusal lost op data (.ofCode errorCode) :=
  .rejected h hkek (.ofCode _)

theorem targetErrors_documented (op : Operation) :
    targetErrors op ⊆ documented op ∧ .keyNotAvailable ∉ targetErrors op := by
  cases op <;> decide

theorem fitsErrors_documented (op : Operation) :
    fitsErrors op ⊆ documented op ∧ .keyNotAvailable ∉ fitsErrors op := by
  cases op <;> decide

theorem keyNotFound_documented {K : KeyOperation} (hK : keyOperation L cfg data op = some K) :
    .keyNotFound ∈ documented op := by
  cases op <;> cases hK <;> decide

theorem keyNotAvailable_documented {K : KeyOperation} (hK : keyOperation L cfg data op = some K)
    (hhalf : K.half ≠ .stored) : .keyNotAvailable ∈ documented op := by
  cases op <;> cases hK <;> first | decide | exact absurd rfl hhalf

theorem authorizedKey_refusing (hop : .keyNotFound ∈ documented op) (kid : String)
    (opClass : OpClass) :
    Refusing cfg lost op data (fun row => cfg.kek.byId row.embeddingKeyId = none → lost)
      (authorizedKey user kid opClass) := by
  simp only [authorizedKey, loadKey, bind_assoc]
  refine refusing_ask fun answer hanswer => refusing_orThrow fun found hfound => ?_
  subst hfound
  cases found with
  | none => exact refusal_ofCode hop (by decide)
  | some row =>
    dsimp only
    split
    · refine refusing_ask fun now _ => ?_
      split
      · exact hanswer
      · exact refusal_ofCode hop (by decide)
    · exact .masked hop

/-- An unwrap fails because the KEK is not configured, or with an internal error. -/
def unwraps (m : KekManager) (embeddingKeyId : String) : Except Thrown Json → Prop
  | .ok _ => True
  | .error e => (e = .kekUnavailable embeddingKeyId ∧ m.byId embeddingKeyId = none) ∨
      ∃ message, e = .error message

section

variable {A : (c : Call) → Ans c → Prop}

theorem trusts_ask {Q : Except Thrown β → Prop} {c : Call} {f : Ans c → Api β}
    (hf : ∀ a, A c a → (f a).Trusts A (fun _ => True) Q) :
    (ask c >>= f).Trusts A (fun _ => True) Q := ⟨trivial, hf⟩

theorem extract_unwraps (m : KekManager) (embeddingKeyId embeddedKey kid : String) :
    (extract m embeddingKeyId embeddedKey kid).Trusts A (fun _ => True)
      (unwraps m embeddingKeyId) := by
  unfold extract
  cases hkek : m.byId embeddingKeyId with
  | none => exact Or.inl ⟨rfl, hkek⟩
  | some kek =>
    refine trusts_ask fun answer _ => ?_
    cases answer with
    | error message => exact Or.inr ⟨message, rfl⟩
    | ok claims =>
      simp only [orThrow_ok, Prog.liftM_eq, Prog.done_ok_bind]
      cases hjwk : embeddedJwk claims kid with
      | ok jwk => trivial
      | error e => exact Or.inr (embeddedJwk_error hjwk)

theorem unwrap_unwraps (row : VaultKey) :
    (unwrap L cfg row).Trusts A (fun _ => True) (unwraps cfg.kek row.embeddingKeyId) := by
  unfold unwrap
  split
  · exact extract_unwraps _ _ _ _
  · refine trusts_ask fun answer _ => ?_
    obtain ⟨now, cached⟩ := answer
    cases cached with
    | some jwk => trivial
    | none =>
      refine Prog.Trusts.bind (extract_unwraps _ _ _ _) (fun jwk _ => ?_) fun e he => he
      exact trusts_ask fun _ _ => trivial

end

theorem unwrapKey_refusing {row : VaultKey} (hop : .keyNotAvailable ∈ documented op)
    (hrow : cfg.kek.byId row.embeddingKeyId = none → lost) :
    Refusing cfg lost op data (fun _ => True) (unwrapKey L cfg row) := by
  refine Prog.Trusts.tryCatch (unwrap_unwraps row) (fun _ _ => trivial) fun e he => ?_
  rcases he with ⟨rfl, hnone⟩ | ⟨message, rfl⟩
  · exact .unavailable hop (hrow hnone)
  · exact .internal message

theorem keyHalf_refusing {K : KeyOperation} (hK : keyOperation L cfg data op = some K)
    {row : VaultKey}
    (hrow : cfg.kek.byId row.embeddingKeyId = none → lost) :
    Refusing cfg lost op data (fun _ => True) (keyHalf L cfg row K.half) := by
  cases hhalf : K.half with
  | stored => trivial
  | secret => exact unwrapKey_refusing (keyNotAvailable_documented hK (by rw [hhalf]; decide)) hrow
  | publicOrSecret =>
    simp only [keyHalf, publicHalf]
    split
    · exact unwrapKey_refusing (keyNotAvailable_documented hK (by rw [hhalf]; decide)) hrow
    · trivial

theorem finish_refusing {K : KeyOperation} (hK : keyOperation L cfg data op = some K) (kid : String)
    (row : VaultKey) (jwk : Json) :
    Refusing cfg lost op data (fun _ => True) (K.finish kid row jwk) := by
  cases op with
  | publicKey => cases hK; trivial
  | exportKey => cases hK; trivial
  | createJwt =>
    cases hK
    refine refusing_ask fun answer _ => ?_
    cases answer with
    | ok token => trivial
    | error message =>
      simp only [signed]
      split
      · rename_i hclaim
        exact .claim rfl hclaim
      · exact .internal message
  | verifyJwt =>
    cases hK
    refine refusing_ask fun answer _ => ?_
    cases answer with
    | ok payload => trivial
    | error message =>
      simp only [opened, verificationError]
      split
      · rename_i htime
        exact .time rfl (by simpa using htime)
      · exact refusal_ofCode (by decide) (by decide)
  | createJwe =>
    cases hK
    exact refusing_ask fun answer _ => refusing_orThrow fun token _ => trivial
  | decryptJwe =>
    cases hK
    refine refusing_ask fun answer _ => ?_
    cases answer with
    | ok payload => trivial
    | error message => exact refusal_ofCode (by decide) (by decide)
  | revokeKey =>
    cases hK
    refine Refusing.bind (Q := fun _ => True) ?_ fun revoked _ => ?_
    · exact refusing_ask fun answer _ => refusing_orThrow fun deleted _ =>
        refusing_ask fun _ _ => trivial
    · refine refusing_lift (fun _ _ => trivial) fun e he => ?_
      rw [require_error he]
      exact refusal_ofCode (by decide) (by decide)
  | healthcheck => cases hK
  | generateKey => cases hK
  | listKeys => cases hK

theorem access_refusing {K : KeyOperation} (hK : keyOperation L cfg data op = some K) :
    Refusing cfg lost op data (fun _ => True) (access L cfg user K) := by
  refine refusing_lift (fun kid _ => ?_) fun e he => ?_
  · refine (authorizedKey_refusing (keyNotFound_documented hK) kid K.opClass).bind
      fun row hrow => ?_
    refine refusing_lift (fun _ _ => ?_) fun e he => ?_
    · exact (keyHalf_refusing hK hrow).bind fun jwk _ => finish_refusing hK kid row jwk
    · exact refusal_rejects (fits_rejects hK he) (fitsErrors_documented op).1
        (fitsErrors_documented op).2
  · exact refusal_rejects (target_rejects hK he) (targetErrors_documented op).1
      (targetErrors_documented op).2

theorem checkProps_refusal {allowed : List String} {e : Thrown}
    (h : checkProps data allowed = .error e) : Refusal lost op data e := by
  refine refusal_rejects (checkProps_rejects h) ?_ (by decide)
  cases op <;> decide

theorem healthcheck_refusing :
    Refusing cfg lost .healthcheck data (fun _ => True) (healthcheck data) :=
  refusing_lift (fun _ _ => refusing_ask fun _ _ => trivial) fun _ he => checkProps_refusal he

theorem listKeys_refusing :
    Refusing cfg lost .listKeys data (fun _ => True) (Handlers.listKeys user data) := by
  refine refusing_lift (fun _ _ => ?_) fun _ he => checkProps_refusal he
  refine refusing_lift (fun _ _ => ?_) fun e he => ?_
  · refine Refusing.bind (Q := fun _ => True) ?_ fun keys _ => trivial
    exact refusing_ask fun answer _ => refusing_orThrow fun rows _ =>
      refusing_ask fun now _ => trivial
  · rw [require_error he]
    exact refusal_ofCode (by decide) (by decide)

theorem resolveAcl_refusing :
    Refusing cfg lost .generateKey data (fun _ => True) (resolveAcl user data) := by
  unfold resolveAcl
  dsimp only
  split
  · split
    · rename_i message hacl
      exact .acl rfl (List.mem_cons_of_mem _ (explicitAcl_text hacl))
    · refine refusing_ask fun answer _ => refusing_orThrow fun missing _ => ?_
      split
      · exact .acl rfl List.mem_cons_self
      · trivial
  · refine Refusing.bind (Q := fun _ => True) ?_ fun coOwners _ => ?_
    · unfold existingCoOwners
      split
      · exact refusing_ask fun answer _ => refusing_orThrow fun missing _ => trivial
      · trivial
    · split
      · exact .internal _
      · trivial

theorem generate_refusing {spec : KeySpec} {acl : AclMap} {nbf exp : Option Nat} :
    Refusing cfg lost op data (fun _ => True) (generate cfg spec acl nbf exp) := by
  refine refusing_ask fun answer _ => refusing_orThrow fun g _ => refusing_ask fun now _ => ?_
  refine Refusing.bind (Q := fun _ => True) ?_ fun embedded _ => ?_
  · exact refusing_ask fun answer _ => refusing_orThrow fun token _ => trivial
  · exact refusing_ask fun answer _ => refusing_orThrow fun kid _ => trivial

theorem generateKey_refusing :
    Refusing cfg lost .generateKey data (fun _ => True) (generateKey cfg user data) := by
  refine refusing_lift (fun spec _ => refusing_ask fun now _ => ?_) fun e he =>
    refusal_rejects (generateKeySpec_rejects he) (by decide) (by decide)
  refine refusing_lift (fun _ _ => ?_) fun e he =>
    refusal_rejects (checkTimes_rejects he) (by decide) (by decide)
  refine refusing_lift (fun _ _ => ?_) fun e he =>
    refusal_rejects (checkReturnPublicKey_rejects he) (by decide) (by decide)
  exact resolveAcl_refusing.bind fun acl _ => generate_refusing.bind fun _ _ => trivial

theorem handler_refusing (op : Operation) :
    Refusing cfg lost op data (fun _ => True) (handler L cfg user data op) := by
  cases hK : keyOperation L cfg data op with
  | some K =>
    rw [handler_access hK]
    exact access_refusing hK
  | none =>
    cases op with
    | healthcheck => exact healthcheck_refusing
    | generateKey => exact generateKey_refusing
    | listKeys => exact listKeys_refusing
    | _ => cases hK

end

/-- The answers to a valid envelope. A name of `Object.prototype` may be called with
success. -/
inductive Documented (lost : Prop) (env : Envelope) : Response → Prop where
  | unauthorized : Documented lost env (unauthorized env)
  | unknownOperation : Operation.ofRequest env.request = none →
      Documented lost env ⟨200, errorBody .unknownOperation none (some env.op), false⟩
  | success (data : Option Json) :
      Operation.ofRequest env.request ≠ none ∨ objectPrototype.contains env.request = true →
        Documented lost env ⟨200, okBody env.op data, false⟩
  | refused {op : Operation} {errorCode : Err} {message : String} {masked : Bool} :
      Operation.ofRequest env.request = some op →
        Refusal lost op env.data (.api errorCode message masked) →
          Documented lost env ⟨200, errorBody errorCode (some message) (some env.op), false⟩
  | internal : Documented lost env (internalError (some env.op))

section

variable {L : Libraries} {cfg : Config} {req : HttpRequest} {user : VaultUser} {env : Envelope}
  {lost : Prop} {A : (c : Call) → Ans c → Prop}

/-- What the program comes to, if it comes to a result. -/
def Replies (A : (c : Call) → Ans c → Prop) (Q : Response → Prop) (p : Api Response) : Prop :=
  p.Trusts A (fun _ => True) (fun r => ∀ response, r = .ok response → Q response)

theorem replies_done {Q : Response → Prop} {response : Response} (h : Q response) :
    Replies A Q (.done (.ok response)) := by
  rintro _ ⟨⟩
  exact h

theorem replies_attempt {Q : Response → Prop} {α : Type} {R : Except Thrown α → Prop} {p : Api α}
    {f : Except Thrown α → Api Response} (hp : p.Trusts A (fun _ => True) R)
    (hf : ∀ r, R r → Replies A Q (f r)) : Replies A Q (p.attempt >>= f) := by
  have hattempt : p.attempt.Trusts A (fun _ => True) fun r => ∃ a, r = .ok a ∧ R a :=
    hp.attempt fun r hr => ⟨r, rfl, hr⟩
  refine Prog.Trusts.bind hattempt (fun r hr => ?_) fun e he => ?_
  · obtain ⟨_, ⟨⟩, hR⟩ := hr
    exact hf r hR
  · obtain ⟨_, ⟨⟩, -⟩ := he

theorem trusts_any {α : Type} (p : Api α) : p.Trusts A (fun _ => True) (fun _ => True) := by
  induction p with
  | done r => trivial
  | call c next ih => exact ⟨trivial, fun a _ => ih a⟩

theorem respond_documented {outcome : Outcome} (h : Documented lost env (answer env.op outcome)) :
    Replies A (Documented lost env) (if auditedOps.contains env.request then do
        match ← (appendEvents user env outcome).attempt with
        | .ok () => return answer env.op outcome
        | .error _ => return internalError (some env.op)
      else return answer env.op outcome) := by
  split
  · refine replies_attempt (trusts_any _) fun appended _ => ?_
    cases appended with
    | ok _ => exact replies_done h
    | error e => exact replies_done .internal
  · exact replies_done h

theorem answer_documented {op : Operation} (hop : Operation.ofRequest env.request = some op)
    {r : Except Thrown HandlerResult} (hr : comesTo lost op env.data (fun _ => True) r) :
    Documented lost env (answer env.op (r.mapError caught)) := by
  cases r with
  | ok result => exact .success result.data (Or.inl (by rw [hop]; nofun))
  | error e =>
    cases e with
    | api errorCode message masked => exact .refused hop hr
    | kekUnavailable id => exact .internal
    | error message => exact .internal

theorem inherited_documented {name : String} (hname : objectPrototype.contains env.request = true) :
    Documented lost env (answer env.op ((inherited name user).mapError caught)) := by
  unfold inherited
  split
  · exact .success none (Or.inr hname)
  · split
    · exact .success (some user.data) (Or.inr hname)
    · exact .internal

theorem dispatch_documented :
    Replies (tells cfg lost) (Documented lost env) (dispatch L cfg user env) := by
  unfold dispatch lookupHandler
  cases hop : Operation.ofRequest env.request with
  | some op =>
    exact replies_attempt (handler_refusing op) fun r hr =>
      respond_documented (answer_documented hop hr)
  | none =>
    dsimp only
    by_cases hproto : objectPrototype.contains env.request = true
    · simp only [hproto, if_true]
      refine replies_attempt (R := fun r => r = inherited env.request user) rfl ?_
      rintro _ rfl
      exact respond_documented (inherited_documented hproto)
    · simp only [hproto]
      exact replies_done (.unknownOperation hop)

theorem handleEnvelope_documented :
    Replies (tells cfg lost) (Documented lost env) (handleEnvelope L cfg req env) := by
  refine Prog.Trusts.bind (trusts_any (authenticate L cfg req env.user)) (fun caller _ => ?_)
    fun _ _ _ h => by cases h
  cases caller with
  | none => exact replies_done .unauthorized
  | some user => exact dispatch_documented

def endpoints : List String := ["/api/v1", "/healthz", "/readyz"]

/-- The messages about a malformed request; the own message of code 1000 is the default. -/
inductive MalformedText (req : HttpRequest) : Option String → Prop where
  | plain : MalformedText req none
  | contentType : MalformedText req (some "Content-Type must be application/json")
  | tooLarge : req.body = .tooLarge → MalformedText req (some "Request body too large")
  | op : MalformedText req (some "Invalid op")
  | unknownProperty {props : Props} {prop : String} : req.body = .text (some (.obj props)) →
      prop ∈ keys props → MalformedText req (some ("Unknown property: " ++ prop))

/-- The answers to a request. -/
inductive Catalogued (lost : Prop) (req : HttpRequest) : Response → Prop where
  | noEndpoint {pathname : String} : req.pathname = some pathname → pathname ∉ endpoints →
      Catalogued lost req ⟨404, errorBody .unknownEndpoint none none, false⟩
  | wrongMethod {pathname : String} : req.pathname = some pathname → pathname ∈ endpoints →
      Catalogued lost req ⟨405, errorBody .methodNotAllowed none none, false⟩
  | alive : req.pathname = some "/healthz" ∨ req.pathname = some "/readyz" → req.method = "GET" →
      Catalogued lost req ⟨200, .obj [("status", .str "ok")], false⟩
  | notReady : req.pathname = some "/readyz" → req.method = "GET" → Catalogued lost req
      ⟨503, errorBody .internalError (some "Database not available") none, false⟩
  | malformed {message op : Option String} (close : Bool) : envelopeOf req = none →
      MalformedText req message →
        Catalogued lost req ⟨400, errorBody .malformedRequest message op, close⟩
  | envelope {env : Envelope} {r : Response} : envelopeOf req = some env → Documented lost env r →
      Catalogued lost req r
  | internal : Catalogued lost req (internalError none)

theorem parseEnvelope_malformed {envelope : Json} {r : Response}
    (hbody : req.body = .text (some envelope)) (h : parseEnvelope envelope = .error r) :
    ∃ message op, MalformedText req message ∧
      r = ⟨400, errorBody .malformedRequest message op, false⟩ := by
  unfold parseEnvelope at h
  split at h
  · split at h
    · cases h
      exact ⟨_, _, .op, rfl⟩
    · split at h
      · rename_i hprop
        cases h
        exact ⟨_, _, .unknownProperty hbody (List.mem_of_find?_eq_some hprop), rfl⟩
      · split at h
        · split at h
          · cases h
          · cases h
            exact ⟨_, _, .plain, rfl⟩
        · cases h
          exact ⟨_, _, .plain, rfl⟩
  · cases h
    exact ⟨_, _, .plain, rfl⟩

theorem handleApi_catalogued (henv : envelopeOf req = none) (hpath : req.pathname = some "/api/v1")
    (hmethod : req.method = "POST") :
    Replies (tells cfg lost) (Catalogued lost req) (handleApi L cfg req) := by
  unfold handleApi
  split
  · rename_i htype
    cases hbody : req.body with
    | tooLarge => exact replies_done (.malformed true henv (.tooLarge hbody))
    | aborted => exact replies_done (.malformed true henv .plain)
    | text parsed =>
      cases parsed with
      | none => exact replies_done (.malformed false henv .plain)
      | some envelope =>
        dsimp only
        cases hparse : parseEnvelope envelope with
        | ok env =>
          simp [envelopeOf, hpath, hmethod, htype, hbody, hparse, Except.toOption] at henv
        | error response =>
          obtain ⟨message, op, htext, rfl⟩ := parseEnvelope_malformed hbody hparse
          exact replies_done (.malformed false henv htext)
  · exact replies_done (.malformed false henv .contentType)

theorem handleRequest_catalogued :
    Replies (tells cfg lost) (Catalogued lost req) (handleRequest L cfg req) := by
  cases henv : envelopeOf req with
  | some env =>
    rw [handleRequest_envelope henv]
    exact Prog.Trusts.mono handleEnvelope_documented fun _ hr _ heq => .envelope henv (hr _ heq)
  | none =>
    unfold handleRequest
    cases hpath : req.pathname with
    | none => exact replies_done (.malformed false henv .plain)
    | some pathname =>
      dsimp only
      split
      · rename_i hapi
        rw [hapi] at hpath
        split
        · rename_i hmethod
          exact handleApi_catalogued henv hpath hmethod
        · exact replies_done (.wrongMethod hpath (by decide))
      · rename_i hapi
        split
        · rename_i hhealth
          rw [hhealth] at hpath
          split
          · rename_i hmethod
            exact replies_done (.alive (Or.inl hpath) hmethod)
          · exact replies_done (.wrongMethod hpath (by decide))
        · rename_i hhealth
          split
          · rename_i hready
            rw [hready] at hpath
            split
            · rename_i hmethod
              refine trusts_ask fun answer _ => ?_
              cases answer with
              | ok _ => exact replies_done (.alive (Or.inr hpath) hmethod)
              | error message => exact replies_done (.notReady hpath hmethod)
            · exact replies_done (.wrongMethod hpath (by decide))
          · rename_i hready
            exact replies_done (.noEndpoint hpath (by simp [endpoints, hapi, hhealth, hready]))

theorem serveRequest_catalogued :
    Replies (tells cfg lost) (Catalogued lost req) (serveRequest L cfg req) :=
  Prog.Trusts.tryCatch handleRequest_catalogued (fun _ h => h) fun _ _ => replies_done .internal

/-- A key is not available only where its KEK is lost. -/
theorem refusal_lost {op : Operation} {data : Json} {message : String} {masked : Bool}
    (h : Refusal lost op data (.api .keyNotAvailable message masked)) : lost := by
  generalize he : Thrown.api .keyNotAvailable message masked = e at h
  cases h with
  | rejected _ hcode hrejection =>
    cases hrejection with
    | unknownProperty => cases he
    | text => cases he
    | ofCode =>
      cases he
      exact absurd rfl hcode
  | masked => cases he
  | unavailable _ hlost => exact hlost
  | acl => cases he
  | claim => cases he
  | time => cases he
  | internal => cases he

theorem errorBody_code (errorCode : Err) (message op : Option String) (status : Nat)
    (close : Bool) :
    (Response.mk status (errorBody errorCode message op) close).errorCode =
      some (.num errorCode.code) := by
  cases op <;> rfl

theorem okBody_code (op : String) (data : Option Json) (status : Nat) (close : Bool) :
    (Response.mk status (okBody op data) close).errorCode = none := by
  cases data <;> rfl

theorem code_ne {errorCode : Err} {message op : Option String} {status : Nat} {close : Bool}
    (h : errorCode ≠ .keyNotAvailable) :
    (Response.mk status (errorBody errorCode message op) close).errorCode ≠
      some (.num Err.keyNotAvailable.code) := by
  rw [errorBody_code]
  intro heq
  exact h (Err.code_injective (by simpa using heq))

theorem documented_available {r : Response} (h : Documented lost env r) (hlost : ¬ lost) :
    r.errorCode ≠ some (.num Err.keyNotAvailable.code) := by
  cases h with
  | unauthorized => exact code_ne (by decide)
  | unknownOperation => exact code_ne (by decide)
  | success data =>
    rw [okBody_code]
    nofun
  | refused hop hrefusal =>
    refine code_ne ?_
    rintro rfl
    exact hlost (refusal_lost hrefusal)
  | internal => exact code_ne (by decide)

theorem catalogued_available {r : Response} (h : Catalogued lost req r) (hlost : ¬ lost) :
    r.errorCode ≠ some (.num Err.keyNotAvailable.code) := by
  cases h with
  | noEndpoint => exact code_ne (by decide)
  | wrongMethod => exact code_ne (by decide)
  | alive => nofun
  | notReady => exact code_ne (by decide)
  | malformed => exact code_ne (by decide)
  | envelope _ hdocumented => exact documented_available hdocumented hlost
  | internal => exact code_ne (by decide)

variable {processes : ThreadId → Process} {w : World} {schedule : Schedule Turn} {i : ThreadId}
  {r : Response}

/-- The thread has loaded a row whose wrapping KEK is not configured. -/
def LostKek (cfg : Config) (trace : List (Entry Ans World)) (i : ThreadId) : Prop :=
  ∃ kid row, Made trace i (.keyById kid) (.ok (some row)) ∧ cfg.kek.byId row.embeddingKeyId = none

theorem tells_lost {trace : List (Entry Ans World)} {c : Call} {a : Ans c} (h : Made trace i c a) :
    tells cfg (LostKek cfg trace i) c a := by
  cases c with
  | keyById kid =>
    cases a with
    | error message => trivial
    | ok found =>
      cases found with
      | none => trivial
      | some row => exact fun hnone => ⟨kid, row, h, hnone⟩
  | _ => trivial

theorem runs_catalogued (hprocess : processes i = .request cfg req)
    (hdone : (runs L processes w schedule).threads i = .done (.ok (some r))) :
    Catalogued (LostKek cfg (runs L processes w schedule).state.trace i) req r :=
  (request_plays hprocess hdone).trusts serveRequest_catalogued (fun _ _ => tells_lost) r rfl

end

def unavailable : Response :=
  ⟨200, errorBody .keyNotAvailable (some "Key not available") (some Fixtures.opId), false⟩

end Answers
