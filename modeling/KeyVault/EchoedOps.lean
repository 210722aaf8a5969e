import KeyVault.Fixtures

/-!
# The op of an answer

From the envelope's `op` on, every exit of `handleApi` answers with it. One call on the
way is outside its handlers: a user lookup that fails is caught by the listener, which
does not know the op any more. The calls are answered here by any handler at all, so
that every pattern of failures and every interleaving with other requests is covered.
-/

namespace EchoedOps

open JsValue Errors Programs Vault KeyStore Handlers ServerAuth Server

variable {L : Libraries} {cfg : Config} {user : VaultUser} {env : Envelope} {req : HttpRequest}
  {op : String}

/-- The response carries this op. -/
def Echoes (op : String) (response : Response) : Prop :=
  response.body.get? "op" = some (.str op)

/-- The program ends with a response that carries this op. -/
def Answers (op : String) (p : Api Response) : Prop :=
  p.Ends (fun r => ∃ response, r = .ok response ∧ Echoes op response)

theorem echoes_errorBody (status : Nat) (errorCode : Err) (message : Option String) (close : Bool) :
    Echoes op ⟨status, errorBody errorCode message (some op), close⟩ := by
  simp [Echoes, errorBody, literal, List.lookup]

theorem echoes_answer (outcome : Outcome) : Echoes op (answer op outcome) := by
  cases outcome with
  | ok result => simp [Echoes, answer, okBody, literal, List.lookup]
  | error f => exact echoes_errorBody _ _ _ _

theorem answers_pure {response : Response} (h : Echoes op response) :
    Answers op (return response) := ⟨response, rfl, h⟩

/-- What an attempt comes to never escapes. -/
theorem answers_attempt {α : Type} (p : Api α) {f : Except Thrown α → Api Response}
    (hf : ∀ r, Answers op (f r)) : Answers op (p.attempt >>= f) := by
  refine Prog.Ends.bind p.ends_attempt (fun r _ => hf r) ?_
  rintro e ⟨a, ha⟩
  cases ha

/-- An authenticated request is answered with its op, whatever its handler and the audit
appends do. -/
theorem dispatch_answers : Answers env.op (dispatch L cfg user env) := by
  unfold dispatch
  split
  · exact answers_pure (echoes_errorBody _ _ _ _)
  · apply answers_attempt
    intro r
    dsimp only
    split
    · apply answers_attempt
      intro appended
      cases appended with
      | ok _ => exact answers_pure (echoes_answer _)
      | error _ => exact answers_pure (echoes_errorBody _ _ _ _)
    · exact answers_pure (echoes_answer _)

/-- An envelope with a valid op is refused with it or accepted with it. -/
theorem parseEnvelope_op {props : Props} {text : String}
    (hop : props.lookup "op" = some (.str text))
    (huuid : isUuid text = true) :
    match parseEnvelope (.obj props) with
    | .ok env => env.op = toLowerCase text
    | .error response => Echoes (toLowerCase text) response := by
  have hparsed : parseUuid (props.lookup "op") = some (toLowerCase text) := by
    simp only [hop, parseUuid, huuid, if_true]
  simp only [parseEnvelope, hparsed]
  split
  · rename_i env henv
    split at henv
    · cases henv
    · split at henv
      · split at henv
        · cases henv
          rfl
        · cases henv
      · cases henv
  · rename_i response hresponse
    split at hresponse
    · cases hresponse
      exact echoes_errorBody _ _ _ _
    · split at hresponse
      · split at hresponse
        · cases hresponse
        · cases hresponse
          exact echoes_errorBody _ _ _ _
      · cases hresponse
        exact echoes_errorBody _ _ _ _

/-- The token digest that `authenticate` looks up. -/
def lookedUp (L : Libraries) (req : HttpRequest) : Option String :=
  (bearer (req.authorization.getD "")).bind (fun token =>
    if isUuid token then some (tokenHash L token) else none)

/-- Without a token that can be looked up, the refusal carries the op. -/
theorem handleEnvelope_refused (h : lookedUp L req = none) :
    Answers env.op (handleEnvelope L cfg req env) := by
  have hnone : authenticate L cfg req env.user = return none := by
    unfold authenticate
    unfold lookedUp at h
    cases hbearer : bearer (req.authorization.getD "") with
    | none => rfl
    | some token =>
      rw [hbearer, Option.bind_some] at h
      have hnot : isUuid token = false := by
        by_contra hyes
        simp [hyes] at h
      simp [hnot]
  rw [handleEnvelope, hnone]
  exact answers_pure (echoes_errorBody _ _ _ _)

/-- What `authenticate` makes of the row that the lookup has found. -/
def accept (L : Libraries) (cfg : Config) (req : HttpRequest) (env : Envelope) (token : String) :
    Option VaultUser → Api (Option VaultUser)
  | none => return none
  | some user =>
    if user.authToken = some (tokenHash L token) ∧ env.user = toLowerCase user.userId then do
      let now ← ask .dateNow
      return if admitted user
          (IpMatch.deriveClientIp req.remoteAddress req.xForwardedFor cfg.trustedProxyHops)
          (now / 1000) then some user else none
    else return none

/-- What `handleEnvelope` answers to the caller. -/
def respond (L : Libraries) (cfg : Config) (env : Envelope) : Option VaultUser → Api Response
  | none => return ⟨403, errorBody .unauthorized none (some env.op), false⟩
  | some user => dispatch L cfg user env

theorem respond_answers (L : Libraries) (cfg : Config) (env : Envelope)
    (caller : Option VaultUser) :
    Answers env.op (respond L cfg env caller) := by
  cases caller with
  | none => exact answers_pure (echoes_errorBody _ _ _ _)
  | some user => exact dispatch_answers

/-- The lookup comes first; after it, every way ends in an answer with the op. -/
theorem handleEnvelope_lookup {hash : String} (h : lookedUp L req = some hash) :
    ∃ rest : Option VaultUser → Api Response, (∀ found, Answers env.op (rest found)) ∧
      handleEnvelope L cfg req env =
        Prog.call (.userByTokenHash hash) (fun found => Prog.done (orThrow found) >>= rest) := by
  unfold lookedUp at h
  cases hbearer : bearer (req.authorization.getD "") with
  | none =>
    rw [hbearer] at h
    cases h
  | some token =>
    rw [hbearer, Option.bind_some] at h
    split at h
    · rename_i huuid
      cases h
      refine ⟨fun found => accept L cfg req env token found >>= respond L cfg env,
        fun found => ?_, ?_⟩
      · cases found with
        | none => exact respond_answers L cfg env none
        | some user =>
          simp only [accept]
          split
          · exact fun now => respond_answers L cfg env _
          · exact respond_answers L cfg env none
      · simp only [handleEnvelope, authenticate, hbearer, huuid, Bool.not_true, Bool.false_eq_true,
          if_false]
        refine congrArg (Prog.call _) (funext fun found => ?_)
        cases found with
        | error message => rfl
        | ok found =>
          cases found with
          | none => rfl
          | some user => rfl
    · cases h

/-- A POST to the API whose body is an object with this op. -/
structure Carries (req : HttpRequest) (props : Props) (text : String) : Prop where
  path : req.pathname = some "/api/v1"
  method : req.method = "POST"
  body : req.body = .text (some (.obj props))
  op : props.lookup "op" = some (.str text)
  uuid : isUuid text = true

theorem not_echoes_none (status : Nat) (errorCode : Err) (message : Option String) (close : Bool) :
    ¬ Echoes op ⟨status, errorBody errorCode message none, close⟩ := by
  simp [Echoes, errorBody, literal, List.lookup]

theorem serveRequest_api {props : Props} {text : String} (h : Carries req props text) :
    serveRequest L cfg req =
      (if isJsonContentType (req.contentType.getD "") then
        match parseEnvelope (.obj props) with
        | .error response => return response
        | .ok env => handleEnvelope L cfg req env
      else return malformed (some "Content-Type must be application/json") none :
        Api Response).tryCatch (fun _ => return internalError none) := by
  have hrequest : handleRequest L cfg req = handleApi L cfg req := by
    simp only [handleRequest, h.path, h.method, if_true]
  rw [serveRequest, hrequest]
  refine congrArg (Prog.tryCatch · _) ?_
  unfold handleApi
  generalize hbody : req.body = body
  rw [h.body] at hbody
  subst hbody
  rfl

/-- The listener adds nothing to a program that ends with an answer. -/
theorem answers_served {p : Api Response} (hp : Answers op p) :
    Answers op (p.tryCatch (fun _ => return internalError none)) := by
  refine Prog.Ends.tryCatch hp (fun _ hr => hr) ?_
  rintro e ⟨response, heq, -⟩
  cases heq

universe u

variable {S : Type u}

theorem Answers.run {p : Api Response} (hp : Answers op p) (h : Handler Ans S) (s : S) :
    ∃ response s', p.run h s = (.ok response, s') ∧ Echoes op response := by
  obtain ⟨response, hresult, hechoes⟩ := Prog.Ends.run hp h s
  exact ⟨response, (p.run h s).2, by rw [← hresult], hechoes⟩

/-- The answer carries the op in lower case exactly when the content type lets the body be
read and the lookup of the token's user, if it comes to that, does not fail. -/
theorem op_echoed_iff (L : Libraries) (cfg : Config) (req : HttpRequest) (h : Handler Ans S) (s : S)
    {props : Props} {text : String} (hreq : Carries req props text) :
    (∃ response s', (serveRequest L cfg req).run h s = (.ok response, s') ∧
      Echoes (toLowerCase text) response) ↔
    isJsonContentType (req.contentType.getD "") = true ∧
      ¬ ∃ env hash message, parseEnvelope (.obj props) = .ok env ∧ lookedUp L req = some hash ∧
        (h (.userByTokenHash hash) s).1 = .error message := by
  rw [serveRequest_api hreq]
  by_cases hjson : isJsonContentType (req.contentType.getD "") = true
  · have hparsed := parseEnvelope_op hreq.op hreq.uuid
    simp only [hjson, if_true, true_and]
    cases henvelope : parseEnvelope (.obj props) with
    | error response =>
      rw [henvelope] at hparsed
      have hanswers := (answers_served (answers_pure hparsed)).run h s
      refine ⟨fun _ => ?_, fun _ => hanswers⟩
      rintro ⟨env, hash, message, henv, -⟩
      cases henv
    | ok env =>
      rw [henvelope] at hparsed
      dsimp only at hparsed ⊢
      rw [← hparsed]
      cases hlookup : lookedUp L req with
      | none =>
        have hrefused : Answers env.op (handleEnvelope L cfg req env) :=
          handleEnvelope_refused hlookup
        have hanswers := (answers_served hrefused).run h s
        refine ⟨fun _ => ?_, fun _ => hanswers⟩
        rintro ⟨env', hash, message, -, hhash, -⟩
        cases hhash
      | some hash =>
        obtain ⟨rest, hrest, hprogram⟩ := @handleEnvelope_lookup L cfg env req hash hlookup
        rw [hprogram]
        cases hanswer : (h (.userByTokenHash hash) s).1 with
        | error message =>
          constructor
          · rintro ⟨response, s', hrun, hechoes⟩
            simp only [Prog.tryCatch, Prog.run_call, hanswer] at hrun
            cases hrun
            exact absurd hechoes (not_echoes_none _ _ _ _)
          · intro hnot
            exact absurd ⟨env, hash, message, rfl, rfl, hanswer⟩ hnot
        | ok found =>
          constructor
          · rintro - ⟨env', hash', message, henv, hhash, hfails⟩
            cases hhash
            rw [hanswer] at hfails
            cases hfails
          · intro _
            have hanswers := (answers_served (hrest found)).run h (h (.userByTokenHash hash) s).2
            simp only [Prog.tryCatch, Prog.run_call, hanswer]
            exact hanswers
  · simp only [hjson, Bool.false_eq_true, if_false, false_and, iff_false]
    rintro ⟨response, s', hrun, hechoes⟩
    cases hrun
    exact not_echoes_none _ _ _ _ hechoes

/-- A request for a list of keys. -/
def listing : HttpRequest where
  method := "POST"
  pathname := some "/api/v1"
  contentType := some "application/json"
  authorization := some ("Bearer " ++ Fixtures.aliceId)
  xForwardedFor := none
  remoteAddress := some "127.0.0.1"
  body := .text (some (.obj [("user", .str Fixtures.aliceId), ("op", .str Fixtures.opId),
    ("request", .str "list-keys"), ("data", .obj [])]))

theorem listing_carries : Carries listing [("user", .str Fixtures.aliceId),
    ("op", .str Fixtures.opId), ("request", .str "list-keys"), ("data", .obj [])] Fixtures.opId :=
  ⟨rfl, rfl, rfl, rfl, by decide⟩

/-- On an empty vault whose calls succeed, the refusal carries the op. -/
theorem op_echoed_refusal :
    ∃ response s', (serveRequest Fixtures.bare Fixtures.config listing).run
        (serve Fixtures.bare 0) (quiet (fresh 0)) = (.ok response, s') ∧
      Echoes (toLowerCase Fixtures.opId) response := by
  refine (op_echoed_iff Fixtures.bare Fixtures.config listing (serve Fixtures.bare 0)
    (quiet (fresh 0)) listing_carries).mpr ⟨by decide +kernel, ?_⟩
  rintro ⟨env, hash, message, -, -, hfails⟩
  cases hfails

/-- The database refuses the lookup, and the op is lost. -/
theorem op_lost :
    ((serveRequest Fixtures.bare Fixtures.config listing).run (serve Fixtures.bare 0)
        ⟨[{ fails := some "connection lost" }], fresh 0⟩).1 = .ok (internalError none) ∧
      ¬ Echoes (toLowerCase Fixtures.opId) (internalError none) :=
  ⟨by decide +kernel, not_echoes_none _ _ _ _⟩

end EchoedOps
