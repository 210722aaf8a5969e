import KeyVault.KeyLifecycle

/-!
# The processes of a deployment

Any number of HTTP requests, of any content, administrative commands, sweeps and
restarts interleave over one vault. Each call is a step; a process that is killed is
never scheduled again.
-/

namespace Processes

open Errors Programs Interleaving Vault KeyStore Handlers HandlerCalls ServerAuth Server KvAdmin

inductive Process where
  | request (cfg : Config) (req : HttpRequest)
  | admin (o : Opts) (cmd : Command)
  | sweep (cfg : Config)
  | restart

namespace Process

def program (L : Libraries) : Process → Api (Option Response)
  | request cfg req => do return some (← serveRequest L cfg req)
  | admin o cmd => do
    let _ ← command L o cmd
    return none
  | sweep cfg => do
    let _ ← KeyStore.sweep cfg
    return none
  | restart => do
    cacheClear
    return none

end Process

/-- The recorded run of the processes under a schedule. -/
def runs (L : Libraries) (processes : ThreadId → Process) (w : World)
    (schedule : Schedule Turn) : Pool Ans Thrown (Option Response) (Recorded Ans World) :=
  Pool.exec (record (perform L)) schedule ⟨fun i => (processes i).program L, ⟨w, []⟩⟩

variable {L : Libraries} {processes : ThreadId → Process}

/-- What every call of every process keeps holds in every state of every run. -/
theorem runs_keep {G : Call → Prop} {I : World → Prop}
    (hcalls : ∀ i, ((processes i).program L).Calls G)
    (step : ∀ i t c w, G c → I w → I (perform L i t c w).2) {w : World} (h : I w)
    (schedule : Schedule Turn) : I (runs L processes w schedule).state.now :=
  Pool.exec_calls (I := fun s : Recorded Ans World => I s.now)
    (fun i t c s hc hs => step i t c s.now hc hs) (P := ⟨_, ⟨w, []⟩⟩) hcalls h schedule

/-- The trace of a run leads from the first state to the last one, and every thread has
made its own entries. -/
theorem runs_makes (L : Libraries) (processes : ThreadId → Process) (w : World)
    (schedule : Schedule Turn) :
    let W := runs L processes w schedule
    Linked (perform L) w W.state.trace W.state.now ∧
      ∀ i, Makes i ((processes i).program L) (own i W.state.trace) (W.threads i) :=
  started_makes (perform L) (fun i => (processes i).program L) w schedule

variable {cfg : Config} {user : VaultUser} {env : Envelope} {G : Call → Prop}

theorem authenticate_calls (hread : ∀ hash, G (.userByTokenHash hash)) (hclock : G .dateNow)
    (req : HttpRequest) (claimedUser : String) : (authenticate L cfg req claimedUser).Calls G := by
  simp only [authenticate]
  cases bearer (req.authorization.getD "") with
  | none => trivial
  | some token =>
    dsimp only
    split
    · trivial
    · refine calls_ask (hread _) fun r => calls_lift fun found => ?_
      cases found with
      | none => trivial
      | some user =>
        dsimp only
        split
        · exact calls_ask hclock fun now => trivial
        · trivial

theorem appendEvents_calls (outcome : Outcome)
    (hevent : ∀ type fields, G (.recordEvent type fields)) :
    (appendEvents user env outcome).Calls G := by
  refine calls_ask (hevent _ _) fun r => calls_lift fun _ => ?_
  split
  · exact calls_ask (hevent _ _) fun _ => Prog.calls_done _
  · trivial

/-- The rest of a dispatched request only appends. -/
theorem respond_calls (hevent : ∀ type fields, G (.recordEvent type fields)) (outcome : Outcome) :
    Prog.Calls G (if auditedOps.contains env.request then do
        match ← (appendEvents user env outcome).attempt with
        | .ok () => return answer env.op outcome
        | .error _ => return internalError (some env.op)
      else return answer env.op outcome : Api Response) := by
  split
  · refine (appendEvents_calls outcome hevent).attempt.bind fun r => ?_
    split <;> trivial
  · trivial

/-- A request makes the calls of its handler and its audit appends. -/
theorem dispatch_calls
    (hhandler : ∀ op, env.request = op.request → (handler L cfg user env.data op).Calls G)
    (hevent : ∀ type fields, G (.recordEvent type fields)) : (dispatch L cfg user env).Calls G := by
  unfold dispatch lookupHandler
  cases hop : Operation.ofRequest env.request with
  | some op =>
    exact (hhandler op (Operation.ofRequest_eq_some hop).symm).attempt.bind fun r =>
      respond_calls hevent _
  | none =>
    dsimp only
    by_cases hproto : JsValue.objectPrototype.contains env.request = true
    · simp only [hproto, if_true]
      exact (Prog.Calls.attempt (Prog.calls_done _)).bind fun r => respond_calls hevent _
    · simp only [hproto]
      trivial

/-- Whatever its bytes, a request makes the calls of one authenticated operation and
otherwise only reads. -/
theorem serveRequest_calls (hreads : ∀ c, reads c → G c)
    (hdispatch : ∀ user env, (dispatch L cfg user env).Calls G) (req : HttpRequest) :
    (serveRequest L cfg req).Calls G := by
  refine Prog.Calls.tryCatch ?_ fun _ => trivial
  have happi : (handleApi L cfg req).Calls G := by
    unfold handleApi
    split
    · split
      · trivial
      · trivial
      · trivial
      · split
        · trivial
        · rename_i env _
          refine (authenticate_calls (fun _ => hreads _ ⟨rfl, rfl, rfl⟩)
            (hreads _ ⟨rfl, rfl, rfl⟩) req
            env.user).bind fun caller => ?_
          cases caller with
          | none => trivial
          | some user => exact hdispatch user env
    · trivial
  have hping : ∀ f : Ans .ping → Api Response, (∀ r, (f r).Calls G) → (ask .ping >>= f).Calls G :=
    fun f hf => calls_ask (hreads _ ⟨rfl, rfl, rfl⟩) hf
  unfold handleRequest
  split
  · trivial
  · split
    · split
      · exact happi
      · trivial
    · split
      · split <;> trivial
      · split
        · split
          · refine hping _ fun r => ?_
            split <;> trivial
          · trivial
        · trivial

end Processes
