import KeyVault.Dispatch
import KeyVault.Fixtures

/-!
# Strict audit coupling

A success response belongs to a catalogue operation, and to one whose event is in
the chain. The handler table is an object literal, so that the catalogue and the
names that find a handler differ by the members of `Object.prototype`.
-/

namespace StrictCoupling

open JsValue Errors Programs Vault KeyStore Handlers HandlerCalls Server Dispatch

variable {L : Libraries} {cfg : Config} {user : VaultUser} {env : Envelope}
  {i : Interleaving.ThreadId}

def InCatalogue (request : String) : Prop := ∃ op : Operation, request = op.request

/-- Success means a catalogue operation with its event; any other name is unknown. -/
structure Coupled (request : String) (before : World) (response : Response) (after : World) :
    Prop where
  ok : response.isOk → InCatalogue request ∧
    (request ≠ "healthcheck" → AuditedOk request before after)
  unknown : ¬ InCatalogue request → response.httpStatus = 200 ∧
    response.errorCode = some (.num Err.unknownOperation.code)

theorem catalogue_coupled {op : Operation} (hop : env.request = op.request) (s : Session) :
    ∃ r s', (dispatch L cfg user env).run (serve L i) s = (.ok r, s') ∧
      Coupled env.request s.world r s'.world := by
  have hfound : lookupHandler L cfg env.request =
      some (fun user data => handler L cfg user data op) := by
    rw [hop, lookupHandler_request]
  refine ⟨_, _, dispatch_run hfound s, ?_, fun h => absurd ⟨op, hop⟩ h⟩
  intro hok
  refine ⟨⟨op, hop⟩, fun hne => ?_⟩
  have haudited : auditedOps.contains env.request = true := by
    rw [hop, auditedOps_request]
    rintro rfl
    exact hne hop
  have hfinal := afterwards_audited haudited hok
  rwa [AuditedOk, handler_events] at hfinal

theorem foreign_response {request : String} (h : ¬ InCatalogue request) :
    ∀ op : Operation, request ≠ op.request := fun op hop => h ⟨op, hop⟩

theorem unknown_coupled (hcat : ¬ InCatalogue env.request)
    (hproto : env.request ∉ objectPrototype) (s : Session) :
    ∃ r s', (dispatch L cfg user env).run (serve L i) s = (.ok r, s') ∧
      Coupled env.request s.world r s'.world := by
  have hfound : lookupHandler L cfg env.request = none := by
    simp only [lookupHandler, ofRequest_eq_none (foreign_response hcat), List.contains_eq_mem,
      hproto, decide_false, Bool.false_eq_true, if_false]
  refine ⟨⟨200, errorBody .unknownOperation none (some env.op), false⟩, s, ?_, ?_, ?_⟩
  · simp only [dispatch, hfound]
    rfl
  · intro hok
    simp [Response.isOk, errorBody, literal, List.lookup] at hok
  · intro _
    exact ⟨rfl, rfl⟩

theorem prototype_foreign {request : String} (h : request ∈ objectPrototype) :
    ¬ InCatalogue request := by
  rintro ⟨op, rfl⟩
  cases op <;> exact absurd h (by decide)

/-- An inherited name is answered by what the member of `Object.prototype` does. -/
theorem prototype_response (h : env.request ∈ objectPrototype) (s : Session) :
    (dispatch L cfg user env).run (serve L i) s =
      (.ok (answer env.op ((inherited env.request user).mapError caught)), s) := by
  have hforeign := foreign_response (prototype_foreign h)
  have hfound : lookupHandler L cfg env.request =
      some (fun user _ => liftM (inherited env.request user)) := by
    simp only [lookupHandler, ofRequest_eq_none hforeign, List.contains_eq_mem, h, decide_true,
      if_true]
  rw [dispatch_run hfound s]
  simp only [Prog.liftM_eq, Prog.run_done, afterwards, auditedOps_foreign hforeign,
    Bool.false_eq_true, if_false]

theorem inherited_code (request : String) (user : VaultUser) :
    (answer env.op ((inherited request user).mapError caught)).errorCode ≠
      some (.num Err.unknownOperation.code) := by
  unfold inherited
  split
  · simp [answer, Except.mapError, Response.errorCode, okBody, literal, List.lookup]
  · split
    · simp [answer, Except.mapError, Response.errorCode, okBody, literal, List.lookup]
    · simp [answer, Except.mapError, caught, Response.errorCode, errorBody, literal, List.lookup,
        Err.code]

/-- Exactly the names inherited from `Object.prototype` escape the coupling. -/
theorem coupled_iff (L : Libraries) (cfg : Config) (user : VaultUser) (env : Envelope)
    (i : Interleaving.ThreadId) (s : Session) :
    (∃ r s', (dispatch L cfg user env).run (serve L i) s = (.ok r, s') ∧
      Coupled env.request s.world r s'.world) ↔ env.request ∉ objectPrototype := by
  constructor
  · rintro ⟨r, s', hrun, hcoupled⟩ hproto
    rw [prototype_response hproto] at hrun
    cases hrun
    exact inherited_code _ _ (hcoupled.unknown (prototype_foreign hproto)).2
  · intro hproto
    by_cases hcat : InCatalogue env.request
    · obtain ⟨op, hop⟩ := hcat
      exact catalogue_coupled hop s
    · exact unknown_coupled hcat hproto s

def toStringEnvelope : Envelope where
  user := Fixtures.aliceId
  op := Fixtures.opId
  request := "toString"
  data := .obj []
  named := by decide
  plain := rfl

/-- The request "toString" succeeds outside the catalogue and leaves no event. -/
theorem toString_uncoupled :
    (dispatch Fixtures.bare Fixtures.config Fixtures.alice toStringEnvelope).run
        (serve Fixtures.bare 0) (quiet (fresh 0)) =
      (.ok ⟨200, okBody Fixtures.opId none, false⟩, quiet (fresh 0)) ∧
    ¬ Coupled "toString" (fresh 0) ⟨200, okBody Fixtures.opId none, false⟩ (fresh 0) := by
  refine ⟨rfl, fun h => ?_⟩
  exact prototype_foreign (by decide) (h.ok rfl).1

end StrictCoupling
