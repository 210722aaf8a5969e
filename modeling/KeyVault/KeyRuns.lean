import KeyVault.AuditTrail
import KeyVault.KeyLifecycle
import KeyVault.Processes

/-!
# Stored keys over the runs of a deployment

Every process of a deployment is safe for the invariant of stored keys, requests of any
bytes included.
-/

namespace KeyRuns

open JsValue Errors Programs Interleaving Vault KeyStore ServerAuth Server KeyInvariant
  KeyLifecycle AuditTrail Processes

/-- The KEKs that a process has. -/
def manager : Process → Option KekManager
  | .request cfg _ => some cfg.kek
  | .admin o _ => o.kek.toOption
  | .sweep cfg => some cfg.kek
  | .restart => none

/-- Every process knows the same key under a KEK id. -/
def Deployed (kekOf : String → Kek) (processes : ThreadId → Process) : Prop :=
  ∀ i m, manager (processes i) = some m → Agrees kekOf m

variable {L : Libraries} {kekOf : String → Kek} {i : ThreadId} {cfg : Config} {req : HttpRequest}
  {processes : ThreadId → Process}

theorem authenticate_steady (claimedUser : String) (w : World) :
    Steady L kekOf i (authenticate L cfg req claimedUser) w :=
  steady_of_calls (authenticate_calls (G := fun c => harmless c = true) (fun _ => rfl) rfl req
    claimedUser) w

theorem handleRequest_steady (hL : Reliable L kekOf) (hm : Agrees kekOf cfg.kek) (w : World) :
    Steady L kekOf i (handleRequest L cfg req) w := by
  cases henv : envelopeOf req with
  | none => exact steady_of_calls (handleRequest_other (G := fun c => harmless c = true) henv rfl) w
  | some env =>
    rw [handleRequest_envelope henv]
    refine (authenticate_steady env.user w).seq fun caller w' => ?_
    cases caller with
    | none => exact steady_done _ _
    | some user => exact dispatch_steady hL hm env w'

theorem serveRequest_steady (hL : Reliable L kekOf) (hm : Agrees kekOf cfg.kek) (w : World) :
    Steady L kekOf i (serveRequest L cfg req) w := by
  refine Safe.tryCatch ((handleRequest_steady hL hm w).mono fun r w' _ _ => ?_)
  cases r with
  | ok response => trivial
  | error e => exact steady_done _ _

theorem process_steady (hL : Reliable L kekOf) (hp : Deployed kekOf processes) (i : ThreadId)
    (w : World) : Steady L kekOf i ((processes i).program L) w := by
  cases hprocess : processes i with
  | request cfg req =>
    have hm := hp i cfg.kek (by rw [hprocess]; rfl)
    exact (serveRequest_steady hL hm w).seq fun _ _ => steady_done _ _
  | admin o cmd =>
    have hcommand : Steady L kekOf i (KvAdmin.command L o cmd) w := by
      by_cases hcmd : cmd = .rewrap
      · subst hcmd
        exact rewrap_steady hL (fun m hm => hp i m (by rw [hprocess]; exact hm)) w
      · exact steady_of_calls (command_harmless o hcmd) w
    exact hcommand.seq fun _ _ => steady_done _ _
  | sweep cfg =>
    have hcalls : (KeyStore.sweep cfg).Calls (fun c => harmless c = true) :=
      calls_ask rfl fun _ => Prog.calls_done _
    exact (steady_of_calls hcalls w).seq fun _ _ => steady_done _ _
  | restart =>
    have hcalls : cacheClear.Calls (fun c => harmless c = true) :=
      calls_ask rfl fun _ => Prog.calls_done _
    exact (steady_of_calls hcalls w).seq fun _ _ => steady_done _ _

/-- In every run from a sound vault, the vault is sound in every state it passes through. -/
theorem runs_sound (hL : Reliable L kekOf) (hp : Deployed kekOf processes) {w : World}
    (hw : Sound L kekOf w) (schedule : Schedule Turn) :
    Sound L kekOf (runs L processes w schedule).state.now ∧
      Kept (protocol L kekOf) (runs L processes w schedule).state.trace :=
  exec_kept (P := protocol L kekOf) (W := ⟨fun i => (processes i).program L, ⟨w, []⟩⟩) hw
    (fun i => process_steady hL hp i _) (fun _ he => by cases he) schedule

end KeyRuns
