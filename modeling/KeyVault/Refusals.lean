import KeyVault.Answers
import KeyVault.VaultRegistry

/-!
# Why an operation is refused

A key operation that is refused was refused for what it asked, or for what the registry
held at one moment of its execution; and a key that is missing was never registered or
has been dropped.
-/

namespace Refusals

open KeyLifecycle hiding runs runs_sound
open JsValue Acl KeyGen Errors Programs Interleaving Vault KeyStore Handlers
  KeyOperations CallEffects
  Server ServerAuth KeyInvariant Durability KeyHalves Freshness AuditTrail Processes KeyRuns
  ServedRequests LastWrites Registry VaultRegistry

variable {L : Libraries} {kekOf : String → Kek} {i : ThreadId} {cfg : Config} {user : VaultUser}
  {data : Json} {op : Operation} {K : KeyOperation} {kid : String} {e : Thrown} {w w' : World}
  {trace : List (Entry Ans World)}

/-- At one moment of the thread's execution the registry held this under the id, with the
permission that was last written. -/
def HeldThen (L : Libraries) (kekOf : String → Kek) (first : State String KeyItem Json)
    (trace : List (Entry Ans World)) (i : ThreadId) (kid : String)
    (r : Holding KeyItem Json) : Prop :=
  ∃ pre e post, trace = pre ++ e :: post ∧ e.thread = i ∧
    (registryOf L kekOf e.before).held kid = some r ∧
      (LastWrite permits (pre.map (act L kekOf)) kid r.permission ∨
        Untouched permits (pre.map (act L kekOf)) kid ∧
          ∃ q, first.held kid = some q ∧ q.permission = r.permission)

/-- At one moment of the thread's execution the registry held nothing under the id: it was
never used, was not held from the start, or an act of the run had dropped it. -/
def MissingThen (L : Libraries) (kekOf : String → Kek) (first : State String KeyItem Json)
    (trace : List (Entry Ans World)) (i : ThreadId) (kid : String) : Prop :=
  ∃ pre e post, trace = pre ++ e :: post ∧ e.thread = i ∧
    (registryOf L kekOf e.before).held kid = none ∧
      (kid ∉ (registryOf L kekOf e.before).used ∨ (kid ∈ first.used ∧ first.held kid = none) ∨
        ∃ before gone after, pre.map (act L kekOf) = before ++ .drop gone :: after ∧ kid ∈ gone)

/-- The permission of the key and the mask of the user let the class through. -/
def grants (r : Holding KeyItem Json) (user : VaultUser) (opClass : OpClass) : Bool :=
  aclAllows r.permission user.userId opClass && allowedOpsAllows user.data opClass

/-- The reason of a refusal. -/
inductive Refused (L : Libraries) (kekOf : String → Kek) (first : State String KeyItem Json)
    (trace : List (Entry Ans World)) (i : ThreadId) (cfg : Config) (user : VaultUser)
    (K : KeyOperation) : Thrown → Prop
  | request {e : Thrown} (h : K.target = .error e) : Refused L kekOf first trace i cfg user K e
  | missing {kid : String} (target : K.target = .ok kid)
      (h : MissingThen L kekOf first trace i kid) :
      Refused L kekOf first trace i cfg user K (.ofCode .keyNotFound)
  | denied {kid : String} {r : Holding KeyItem Json} (target : K.target = .ok kid)
      (held : HeldThen L kekOf first trace i kid r) (h : grants r user K.opClass = false) :
      Refused L kekOf first trace i cfg user K maskedDenial
  | closed {kid : String} {r : Holding KeyItem Json} {now : Nat} (target : K.target = .ok kid)
      (held : HeldThen L kekOf first trace i kid r) (clock : Made trace i .dateNow now)
      (h : r.item.admits now = false) : Refused L kekOf first trace i cfg user K
        (.ofCode .keyNotFound)
  | misfit {kid : String} {r : Holding KeyItem Json} {e : Thrown} (target : K.target = .ok kid)
      (held : HeldThen L kekOf first trace i kid r) (granted : grants r user K.opClass = true)
      (h : ∀ row, itemOf L kekOf row = r.item → K.fits row = .error e) :
      Refused L kekOf first trace i cfg user K e
  | unavailable {kid : String} {row : VaultKey} (target : K.target = .ok kid)
      (held : HeldThen L kekOf first trace i kid (holding L kekOf row))
      (granted : grants (holding L kekOf row) user K.opClass = true)
      (h : cfg.kek.byId row.embeddingKeyId = none) :
      Refused L kekOf first trace i cfg user K (.ofCode .keyNotAvailable)
  | gone {kid : String} {r : Holding KeyItem Json} (target : K.target = .ok kid)
      (held : HeldThen L kekOf first trace i kid r) (granted : grants r user K.opClass = true)
      (h : MissingThen L kekOf first trace i kid) :
      Refused L kekOf first trace i cfg user K (.ofCode .keyNotFound)
  | failed {kid : String} {r : Holding KeyItem Json} {e : Thrown} (target : K.target = .ok kid)
      (held : HeldThen L kekOf first trace i kid r) (granted : grants r user K.opClass = true)
      (h : ∀ row, itemOf L kekOf row = r.item →
        Plays trace i (K.finish kid row (r.item.half K.half)) (.error e)) :
      Refused L kekOf first trace i cfg user K e

variable {processes : ThreadId → Process} {schedule : Schedule Turn} {env : Envelope}
  {response : Response}

/-- Thread `i` is a request for the operation that was refused. -/
structure Refuses (processes : ThreadId → Process)
    (W : Pool Ans Thrown (Option Response) (Recorded Ans World)) (i : ThreadId) (cfg : Config)
    (env : Envelope) (op : Operation) (response : Response) : Prop where
  process : ∃ req, processes i = .request cfg req ∧ envelopeOf req = some env
  request : env.request = op.request
  done : W.threads i = .done (.ok (some response))
  status : response.httpStatus = 200
  refused : ¬ response.isOk

/-- Alice generates a key, revokes it, and tries to encrypt with it. -/
def revoked : ThreadId → Process
  | 0 => .request Fixtures.config (alices Fixtures.generateEnvelope)
  | 1 => .request Fixtures.config (alices (Fixtures.revokeEnvelope Fixtures.aliceId))
  | 2 => .request Fixtures.config (alices Fixtures.encryptEnvelope)
  | _ => .restart

end Refusals
