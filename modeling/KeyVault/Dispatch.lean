import KeyVault.HandlerCalls
import KeyVault.Server

/-!
# What a dispatched request comes to

The run of one authenticated request as three facts: which handler runs, which
events are appended after it, and which response is sent.
-/

namespace Dispatch

open JsValue Errors Programs Vault KeyStore Handlers CallEffects HandlerCalls Server

variable {L : Libraries} {cfg : Config} {user : VaultUser} {env : Envelope}
  {i : Interleaving.ThreadId}

theorem record_cases (type : String) (fields : Props) (s : Session) :
    (∃ message, (s.turns.headD {}).fails = some message ∧
      serve L i (.recordEvent type fields) s = (.error message, s.pass)) ∨
    ((s.turns.headD {}).fails = none ∧ ∃ w : World,
      serve L i (.recordEvent type fields) s = (.ok (), ⟨s.turns.tail, w⟩) ∧
      w.events = s.world.events ++ [⟨"tr-key-vault:" ++ type, w.clock, fields⟩] ∧
      w.keys = s.world.keys ∧ w.users = s.world.users) := by
  cases hf : (s.turns.headD {}).fails with
  | some message =>
    refine Or.inl ⟨message, rfl, ?_⟩
    simp only [serve,
      perform_fails hf (show failure message (.recordEvent type fields) = _ from rfl),
      Session.pass]
  | none =>
    refine Or.inr ⟨rfl, (effect L i (.recordEvent type fields)
      (s.world.tick (s.turns.headD {}).elapsed)).2, ?_, rfl, rfl, rfl⟩
    simp only [serve, perform_succeeds hf]
    rfl

/-- The events of one outcome, in order. -/
def outcomeEvents (user : VaultUser) (env : Envelope) (outcome : Outcome) :
    List (String × Props) :=
  (env.request, eventFields user env outcome) ::
    if isMaskedDenial outcome then [("denied", deniedFields user env)] else []

/-- Appended events, apart from their timestamps. -/
def unstamped (events : List AuditEvent) : List (String × Props) :=
  events.map (fun e => (e.type, e.fields))

theorem appendEvents_ok {outcome : Outcome} {s s' : Session}
    (h : (appendEvents user env outcome).run (serve L i) s = (.ok (), s')) :
    ∃ new, s'.world.events = s.world.events ++ new ∧
      unstamped new =
        (outcomeEvents user env outcome).map (fun e => ("tr-key-vault:" ++ e.1, e.2)) := by
  simp only [appendEvents, ask_bind, Prog.run_call] at h
  rcases record_cases (L := L) (i := i) env.request (eventFields user env outcome) s with
    ⟨message, -, hr⟩ | ⟨-, w, hr, hev, -, -⟩
  · simp [hr] at h
  · simp only [hr, orThrow_ok, Prog.liftM_eq, Prog.done_ok_bind] at h
    cases hm : isMaskedDenial outcome with
    | false =>
      simp only [hm, Bool.false_eq_true, if_false, Prog.pure_eq, Prog.run_done] at h
      cases h
      exact ⟨_, hev, by simp [unstamped, outcomeEvents, hm]⟩
    | true =>
      simp only [hm, if_true, Prog.run_call] at h
      rcases record_cases (L := L) (i := i) "denied" (deniedFields user env) ⟨s.turns.tail, w⟩ with
        ⟨message, -, hr'⟩ | ⟨-, w', hr', hev', -, -⟩
      · simp [hr'] at h
      · simp only [hr', orThrow_ok, Prog.run_done] at h
        cases h
        refine ⟨[⟨"tr-key-vault:" ++ env.request, w.clock, eventFields user env outcome⟩,
          ⟨"tr-key-vault:denied", w'.clock, deniedFields user env⟩], ?_, ?_⟩
        · rw [hev']
          simp only [hev, List.append_assoc, List.cons_append, List.nil_append]
          rfl
        · simp [unstamped, outcomeEvents, hm]

theorem appendEvents_succeeds (L : Libraries) (i : Interleaving.ThreadId) (user : VaultUser)
    (env : Envelope) (outcome : Outcome) {s : Session}
    (h : ∀ t ∈ s.turns.take 2, t.fails = none) :
    ∃ s', (appendEvents user env outcome).run (serve L i) s = (.ok (), s') := by
  have hfirst : (s.turns.headD {}).fails = none := by
    cases hs : s.turns with
    | nil => rfl
    | cons t rest => exact h t (by simp [hs])
  have hsecond : (s.turns.tail.headD {}).fails = none := by
    rcases hs : s.turns with _ | ⟨t, _ | ⟨t', rest⟩⟩
    · rfl
    · rfl
    · exact h t' (by simp [hs])
  simp only [appendEvents, ask_bind, Prog.run_call]
  rcases record_cases (L := L) (i := i) env.request (eventFields user env outcome) s with
    ⟨message, hf, -⟩ | ⟨-, w, hr, -⟩
  · rw [hfirst] at hf
    cases hf
  · simp only [hr, orThrow_ok, Prog.liftM_eq, Prog.done_ok_bind]
    cases isMaskedDenial outcome with
    | false => exact ⟨_, rfl⟩
    | true =>
      simp only [if_true, Prog.run_call]
      rcases record_cases (L := L) (i := i) "denied" (deniedFields user env) ⟨s.turns.tail, w⟩ with
        ⟨message, hf, -⟩ | ⟨-, w', hr', -⟩
      · rw [hsecond] at hf
        cases hf
      · exact ⟨_, by rw [hr']; rfl⟩

theorem appendEvents_keys (L : Libraries) (i : Interleaving.ThreadId) (user : VaultUser)
    (env : Envelope) (outcome : Outcome) (s : Session) :
    ((appendEvents user env outcome).run (serve L i) s).2.world.keys = s.world.keys := by
  refine run_keys ?_ s
  refine calls_ask rfl fun _ => calls_lift fun _ => ?_
  cases isMaskedDenial outcome with
  | false => trivial
  | true => exact calls_ask rfl fun _ => Prog.calls_done _

/-- What runs after the handler has come to an outcome. -/
def afterwards (L : Libraries) (i : Interleaving.ThreadId) (user : VaultUser) (env : Envelope)
    (outcome : Outcome) (s : Session) : Response × Session :=
  if auditedOps.contains env.request then
    match (appendEvents user env outcome).run (serve L i) s with
    | (.ok (), s') => (answer env.op outcome, s')
    | (.error _, s') => (internalError (some env.op), s')
  else (answer env.op outcome, s)

theorem dispatch_run {found : VaultUser → Json → Api HandlerResult}
    (h : lookupHandler L cfg env.request = some found) (s : Session) :
    (dispatch L cfg user env).run (serve L i) s =
      let r := (found user env.data).run (serve L i) s
      (.ok (afterwards L i user env (r.1.mapError caught) r.2).1,
        (afterwards L i user env (r.1.mapError caught) r.2).2) := by
  simp only [dispatch, h, afterwards]
  rw [Prog.run_bind_ok (Prog.run_attempt _ _ s)]
  split
  · rw [Prog.run_bind_ok (Prog.run_attempt _ _ _)]
    generalize (appendEvents user env _).run (serve L i) _ = r
    obtain ⟨result, s'⟩ := r
    cases result with
    | ok u => rfl
    | error e => rfl
  · rfl

theorem lookupHandler_request (op : Operation) :
    lookupHandler L cfg op.request =
      some (fun user data => handler L cfg user data op) := by
  simp only [lookupHandler, Operation.ofRequest_request]

theorem dispatch_request (L : Libraries) (cfg : Config) (user : VaultUser)
    (i : Interleaving.ThreadId) {op : Operation} (hop : env.request = op.request) (s : Session) :
    (dispatch L cfg user env).run (serve L i) s =
      let r := (handler L cfg user env.data op).run (serve L i) s
      (.ok (afterwards L i user env (r.1.mapError caught) r.2).1,
        (afterwards L i user env (r.1.mapError caught) r.2).2) := by
  have hfound : lookupHandler L cfg env.request =
      some (fun user data => handler L cfg user data op) := by
    rw [hop, lookupHandler_request]
  exact dispatch_run hfound s

theorem auditedOps_request (op : Operation) :
    auditedOps.contains op.request = true ↔ op ≠ .healthcheck := by
  cases op <;> decide

theorem ofRequest_eq_none {request : String} (h : ∀ op : Operation, request ≠ op.request) :
    Operation.ofRequest request = none := by
  cases ho : Operation.ofRequest request with
  | none => rfl
  | some op => exact absurd (Operation.ofRequest_eq_some ho).symm (h op)

theorem auditedOps_foreign {request : String} (h : ∀ op : Operation, request ≠ op.request) :
    auditedOps.contains request = false := by
  simp only [List.contains_eq_mem, decide_eq_false_iff_not]
  intro hmem
  obtain ⟨op, -, hop⟩ := List.mem_map.mp (List.mem_filter.mp hmem).1
  exact h op hop.symm

theorem answer_ok_iff (op : String) (outcome : Outcome) :
    (answer op outcome).isOk ↔ ∃ result, outcome = .ok result := by
  cases outcome with
  | ok result => simp [answer, Response.isOk, okBody, literal, List.lookup]
  | error f => simp [answer, Response.isOk, errorBody, literal, List.lookup]

theorem internalError_not_ok (op : Option String) : ¬ (internalError op).isOk := by
  simp [internalError, Response.isOk, errorBody, literal, List.lookup]

/-- An event of this type with outcome "ok" is among those appended since `before`. -/
def AuditedOk (request : String) (before after : World) : Prop :=
  ∃ new e, after.events = before.events ++ new ∧ e ∈ new ∧
    e.type = "tr-key-vault:" ++ request ∧ e.fields.lookup "outcome" = some (.str "ok")

theorem eventFields_outcome (outcome : Outcome) :
    (eventFields user env outcome).lookup "outcome" = some (outcomeJson outcome) :=
  lookup_setProp_self _ _ _

/-- A successful answer after the appends has its event in the chain. -/
theorem afterwards_audited {outcome : Outcome} {s : Session}
    (haudited : auditedOps.contains env.request = true)
    (hok : (afterwards L i user env outcome s).1.isOk) :
    AuditedOk env.request s.world (afterwards L i user env outcome s).2.world := by
  simp only [afterwards, haudited, if_true] at hok ⊢
  cases hr : (appendEvents user env outcome).run (serve L i) s with
  | mk result s' =>
    simp only [hr] at hok
    cases result with
    | error e => exact absurd hok (internalError_not_ok _)
    | ok u =>
      obtain ⟨result, rfl⟩ := (answer_ok_iff _ _).mp hok
      obtain ⟨new, hnew, hmap⟩ := appendEvents_ok hr
      simp only [outcomeEvents, isMaskedDenial, Bool.false_eq_true, if_false, List.map_cons,
        List.map_nil, unstamped, List.map_eq_cons_iff, List.map_eq_nil_iff] at hmap
      obtain ⟨e, rest, rfl, he, rfl⟩ := hmap
      obtain ⟨htype, hfields⟩ := Prod.mk.inj he
      refine ⟨[e], e, hnew, List.mem_singleton_self e, htype, ?_⟩
      rw [hfields]
      exact eventFields_outcome _

/-- After a handler that ended well the response depends on the append alone. -/
theorem afterwards_ok (L : Libraries) (i : Interleaving.ThreadId) (user : VaultUser)
    {env : Envelope} (result : HandlerResult) (s : Session)
    (haudited : auditedOps.contains env.request = true) :
    ((s.turns.headD {}).fails = none ∧ (afterwards L i user env (.ok result) s).1.isOk) ∨
    ((s.turns.headD {}).fails ≠ none ∧ ¬ (afterwards L i user env (.ok result) s).1.isOk) := by
  simp only [afterwards, haudited, if_true, appendEvents, ask_bind, Prog.run_call]
  rcases record_cases (L := L) (i := i) env.request (eventFields user env (.ok result)) s with
    ⟨message, hf, hr⟩ | ⟨hf, w, hr, -⟩
  · refine Or.inr ⟨by rw [hf]; exact Option.some_ne_none message, ?_⟩
    rw [hr]
    exact internalError_not_ok _
  · refine Or.inl ⟨hf, ?_⟩
    rw [hr]
    exact (answer_ok_iff _ _).mpr ⟨result, rfl⟩

/-- While no append fails, the outcome alone decides the response. -/
theorem afterwards_answer (outcome : Outcome) {s : Session}
    (h : ∀ t ∈ s.turns.take 2, t.fails = none) :
    (afterwards L i user env outcome s).1 = answer env.op outcome := by
  unfold afterwards
  split
  · obtain ⟨s', hs'⟩ := appendEvents_succeeds L i user env outcome h
    rw [hs']
  · rfl

theorem afterwards_keys (outcome : Outcome) (s : Session) :
    (afterwards L i user env outcome s).2.world.keys = s.world.keys := by
  have h := appendEvents_keys L i user env outcome s
  unfold afterwards
  split
  · cases hr : (appendEvents user env outcome).run (serve L i) s with
    | mk r s' =>
      rw [hr] at h
      cases r <;> exact h
  · rfl

/-- An undisturbed request answers what its handler has come to. -/
theorem dispatch_quiet (L : Libraries) (cfg : Config) (user : VaultUser)
    (i : Interleaving.ThreadId) {op : Operation} (hop : env.request = op.request) (w : World) :
    ∃ w', (dispatch L cfg user env).run (serve L i) (quiet w) =
        (.ok (answer env.op
          (((handler L cfg user env.data op).run (serve L i) (quiet w)).1.mapError caught)),
          quiet w') ∧
      w'.keys = ((handler L cfg user env.data op).run (serve L i) (quiet w)).2.world.keys := by
  have hquiet := run_quiet (L := L) (i := i) (dispatch L cfg user env) w
  have hhandler := run_quiet (L := L) (i := i) (handler L cfg user env.data op) w
  have hrun := dispatch_request L cfg user i hop (quiet w)
  generalize (handler L cfg user env.data op).run (serve L i) (quiet w) = r at hrun hhandler ⊢
  refine ⟨_, Prod.ext ?_ hquiet, ?_⟩
  · rw [hrun]
    exact congrArg Except.ok (afterwards_answer _ (by rw [hhandler]; simp [quiet]))
  · rw [hrun]
    exact afterwards_keys _ _

end Dispatch
