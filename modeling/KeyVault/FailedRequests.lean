import KeyVault.Dispatch
import KeyVault.Fixtures

/-!
# Failed requests and the key table

A handler that fails has not written. generate-key inserts and revoke-key deletes
as the last thing that can fail in the handler; the audit append comes after it,
outside any transaction, so an append that fails there leaves the change behind.
-/

namespace FailedRequests

open JsValue Acl KeyGen Errors Programs Vault KeyStore Handlers CallEffects HandlerCalls
  KeyOperations Server Dispatch Tables

variable {L : Libraries} {cfg : Config} {user : VaultUser} {env : Envelope} {data : Json}
  {i : Interleaving.ThreadId}

/-- The program changes the key table when it ends well, and only then. -/
structure Decisive (L : Libraries) (i : Interleaving.ThreadId) {α : Type} (p : Api α) : Prop where
  failed : ∀ s e s', p.run (serve L i) s = (.error e, s') → s'.world.keys = s.world.keys
  ended : ∀ s a s', p.run (serve L i) s = (.ok a, s') → s'.world.keys ≠ s.world.keys

/-- Reading first does not matter. -/
theorem Decisive.after {α β : Type} {p : Api α} {f : α → Api β}
    (hp : p.Calls (fun c => writesKeys c = false)) (hf : ∀ a, Decisive L i (f a)) :
    Decisive L i (p >>= f) := by
  constructor
  · intro s e s' h
    have hkeys := run_keys (L := L) (i := i) hp s
    cases hr : p.run (serve L i) s with
    | mk result s₁ =>
      rw [hr] at hkeys
      cases result with
      | ok a =>
        rw [Prog.run_bind_ok hr] at h
        exact ((hf a).failed _ _ _ h).trans hkeys
      | error e' =>
        rw [Prog.run_bind_error hr] at h
        cases h
        exact hkeys
  · intro s b s' h
    have hkeys := run_keys (L := L) (i := i) hp s
    cases hr : p.run (serve L i) s with
    | mk result s₁ =>
      rw [hr] at hkeys
      cases result with
      | ok a =>
        rw [Prog.run_bind_ok hr] at h
        exact fun heq => (hf a).ended _ _ _ h (heq.trans hkeys.symm)
      | error e' =>
        rw [Prog.run_bind_error hr] at h
        cases h

/-- Nor does what is made of the result. -/
theorem Decisive.then_pure {α β : Type} {p : Api α} (hp : Decisive L i p) (f : α → β) :
    Decisive L i (p >>= fun a => pure (f a)) := by
  constructor
  · intro s e s' h
    cases hr : p.run (serve L i) s with
    | mk result s₁ =>
      cases result with
      | ok a =>
        rw [Prog.run_bind_ok hr] at h
        cases h
      | error e' =>
        rw [Prog.run_bind_error hr] at h
        cases h
        exact hp.failed _ _ _ hr
  · intro s b s' h
    cases hr : p.run (serve L i) s with
    | mk result s₁ =>
      cases result with
      | ok a =>
        rw [Prog.run_bind_ok hr] at h
        cases h
        exact hp.ended _ _ _ hr
      | error e' =>
        rw [Prog.run_bind_error hr] at h
        cases h

theorem Decisive.lift {α β : Type} {r : Except Thrown α} {f : α → Api β}
    (hf : ∀ a, Decisive L i (f a)) : Decisive L i (liftM r >>= f) :=
  Decisive.after (Prog.calls_done r) hf

theorem insert_cases (key : VaultKey) (s : Session) :
    (∃ message s', serve L i (.insertKey key) s = (.error message, s') ∧
      s'.world.keys = s.world.keys) ∨
    ∃ s', serve L i (.insertKey key) s = (.ok key.keyId, s') ∧
      s'.world.keys ≠ s.world.keys := by
  rcases serve_cases L i (.insertKey key) s with ⟨message, answer, -, ha, hs⟩ | hs
  · cases ha
    exact Or.inl ⟨message, _, hs, rfl⟩
  · rw [hs]
    simp only [effect]
    split
    · exact Or.inl ⟨_, _, rfl, rfl⟩
    · split
      · rename_i hfree _
        refine Or.inr ⟨_, rfl, fun heq => ?_⟩
        have hfree' : s.pass.world.keys.find key.keyId = none := by simpa using hfree
        have hnone : s.world.keys.find key.keyId = none := hfree'
        have hin := Table.find_insert_self (t := s.world.keys)
          (r := ⟨key.toColumns L, s.pass.world.clock, s.pass.world.clock⟩) hnone
        have hmem := congrArg (fun t : KeyTable => t.find key.keyId) heq
        exact absurd (hin.symm.trans (hmem.trans hnone)) (by simp)
      · exact Or.inl ⟨_, _, rfl, rfl⟩

theorem delete_cases (kid : String) (s : Session) :
    (∃ r s', serve L i (.deleteKey kid) s = (r, s') ∧ r ≠ .ok true ∧
      s'.world.keys = s.world.keys) ∨
    ∃ s', serve L i (.deleteKey kid) s = (.ok true, s') ∧ s'.world.keys ≠ s.world.keys := by
  rcases serve_cases L i (.deleteKey kid) s with ⟨message, answer, -, ha, hs⟩ | hs
  · cases ha
    exact Or.inl ⟨_, _, hs, by simp, rfl⟩
  · rw [hs]
    simp only [effect]
    cases hfind : s.pass.world.keys.find kid with
    | none => exact Or.inl ⟨_, _, rfl, by simp, Table.erase_of_absent hfind⟩
    | some row =>
      refine Or.inr ⟨_, rfl, fun heq => ?_⟩
      have hmem := congrArg (fun t : KeyTable => t.find kid) heq
      exact absurd ((Table.find_erase_self s.world.keys kid).symm.trans (hmem.trans hfind))
        (by simp)

theorem insert_decisive (key : VaultKey) (g : Generated) :
    Decisive L i (ask (.insertKey key) >>= fun r => liftM (orThrow r) >>= fun _ => pure g) := by
  constructor
  · intro s e s' h
    simp only [ask_bind, Prog.run_call] at h
    rcases insert_cases (L := L) (i := i) key s with ⟨message, s₁, hs, hk⟩ | ⟨s₁, hs, -⟩
    · rw [hs] at h
      cases h
      exact hk
    · rw [hs] at h
      cases h
  · intro s a s' h
    simp only [ask_bind, Prog.run_call] at h
    rcases insert_cases (L := L) (i := i) key s with ⟨message, s₁, hs, -⟩ | ⟨s₁, hs, hk⟩
    · rw [hs] at h
      cases h
    · rw [hs] at h
      cases h
      exact hk

theorem revoke_decisive (kid : String) (result : HandlerResult) :
    Decisive L i (revoke kid >>= fun revoked =>
      liftM (require revoked (.ofCode .keyNotFound)) >>= fun _ => pure result) := by
  have hcache : ∀ s : Session, (serve L i (.cacheDelete kid) s).2.world.keys = s.world.keys :=
    fun s => perform_keys rfl _ _
  constructor
  · intro s e s' h
    simp only [revoke, ask_bind, Prog.call_bind, Prog.run_call] at h
    rcases delete_cases (L := L) (i := i) kid s with ⟨r, s₁, hs, hr, hk⟩ | ⟨s₁, hs, -⟩
    · rw [hs] at h
      cases r with
      | error message => cases h; exact hk
      | ok deleted =>
        cases deleted with
        | true => exact absurd rfl hr
        | false => cases h; exact (hcache s₁).trans hk
    · rw [hs] at h
      cases h
  · intro s a s' h
    simp only [revoke, ask_bind, Prog.call_bind, Prog.run_call] at h
    rcases delete_cases (L := L) (i := i) kid s with ⟨r, s₁, hs, hr, -⟩ | ⟨s₁, hs, hk⟩
    · rw [hs] at h
      cases r with
      | error message => cases h
      | ok deleted =>
        cases deleted with
        | true => exact absurd rfl hr
        | false => cases h
    · rw [hs] at h
      cases h
      exact fun heq => hk ((hcache s₁).symm.trans heq)

theorem generateKey_decisive : Decisive L i (generateKey cfg user data) := by
  refine Decisive.lift fun spec => Decisive.after (calls_ask rfl fun _ => trivial) fun now => ?_
  refine Decisive.lift fun _ => Decisive.lift fun _ => ?_
  refine Decisive.after (resolveAcl_calls.mono fun _ hc => writesKeys_of_offKeys hc.1) fun acl => ?_
  have hgen : ∀ nbf exp, Decisive L i (generate cfg spec acl nbf exp) := fun nbf exp => by
    refine Decisive.after (calls_ask rfl fun _ => trivial) fun r =>
      Decisive.lift fun generated => ?_
    refine Decisive.after (calls_ask rfl fun _ => trivial) fun now' => ?_
    refine Decisive.after ((embed_calls _ _ _ _ _ _).mono fun _ hc => writesKeys_of_offKeys hc.1)
      fun embedded => ?_
    exact insert_decisive _ _
  exact (hgen _ _).then_pure _

theorem access_revoke_decisive : Decisive L i (access L cfg user (revokeKeyOp data)) := by
  refine Decisive.lift fun kid => ?_
  refine Decisive.after ((authorizedKey_calls kid _).mono fun _ hc => hc.1) fun row => ?_
  refine Decisive.lift fun _ => ?_
  exact Decisive.after ((keyHalf_calls row _).mono fun _ hc => writesKeys_of_offKeys hc.1)
    fun _ => revoke_decisive kid _

theorem handler_decisive {op : Operation} (h : op = .generateKey ∨ op = .revokeKey) :
    Decisive L i (handler L cfg user data op) := by
  rcases h with rfl | rfl
  · exact generateKey_decisive
  · rw [handler_access rfl]
    exact access_revoke_decisive

theorem handler_failed {op : Operation} {s s' : Session} {e : Thrown}
    (h : (handler L cfg user data op).run (serve L i) s = (.error e, s')) :
    s'.world.keys = s.world.keys := by
  by_cases hop : op = .generateKey ∨ op = .revokeKey
  · exact (handler_decisive hop).failed _ _ _ h
  · obtain ⟨hgen, hrev⟩ := not_or.mp hop
    have hkeys := handler_keys L cfg user data i hgen hrev s
    rwa [h] at hkeys

/-- A failed response has changed no key, and a change of the table has its event. -/
structure Atomic (request : String) (before : World) (response : Response) (after : World) :
    Prop where
  unchanged : ¬ response.isOk → after.keys = before.keys
  recorded : after.keys ≠ before.keys → AuditedOk request before after

/-- The handler of a writing operation ends well, and the append after it fails. -/
def Torn (L : Libraries) (cfg : Config) (user : VaultUser) (env : Envelope)
    (i : Interleaving.ThreadId) (s : Session) (op : Operation) : Prop :=
  (op = .generateKey ∨ op = .revokeKey) ∧
    ∃ result s₁, (handler L cfg user env.data op).run (serve L i) s = (.ok result, s₁) ∧
      (s₁.turns.headD {}).fails ≠ none

theorem atomic_of_unchanged {request : String} {before after : World} {r : Response}
    (h : after.keys = before.keys) : Atomic request before r after :=
  ⟨fun _ => h, fun hne => absurd h hne⟩

/-- A request leaves the key table as it was, unless it is torn. -/
theorem atomic_iff (L : Libraries) (cfg : Config) (user : VaultUser) (env : Envelope)
    (i : Interleaving.ThreadId) (s : Session) (op : Operation) (hop : env.request = op.request) :
    (∃ r s', (dispatch L cfg user env).run (serve L i) s = (.ok r, s') ∧
      Atomic env.request s.world r s'.world) ↔ ¬ Torn L cfg user env i s op := by
  rw [dispatch_request L cfg user i hop s]
  cases hrun : (handler L cfg user env.data op).run (serve L i) s with
  | mk result s₁ =>
    cases result with
    | error e =>
      have hkeys := handler_failed hrun
      constructor
      · rintro - ⟨-, result, s₂, hok, -⟩
        rw [hrun] at hok
        cases hok
      · intro _
        exact ⟨_, _, rfl, atomic_of_unchanged ((afterwards_keys _ _).trans hkeys)⟩
    | ok result =>
      by_cases hwrites : op = .generateKey ∨ op = .revokeKey
      · have hchanged := (handler_decisive hwrites).ended _ _ _ hrun
        have hhealth : op ≠ .healthcheck := by rcases hwrites with rfl | rfl <;> decide
        have haudited : auditedOps.contains env.request = true := by
          rw [hop, auditedOps_request]
          exact hhealth
        rcases afterwards_ok L i user result s₁ haudited with ⟨hf, hok⟩ | ⟨hf, hfail⟩
        · constructor
          · rintro - ⟨-, result', s₂, hrun', hf'⟩
            rw [hrun] at hrun'
            cases hrun'
            exact hf' hf
          · intro _
            refine ⟨_, _, rfl, fun hnot => absurd hok hnot, fun _ => ?_⟩
            have hevents := handler_events L cfg user env.data i op s
            rw [hrun] at hevents
            have haud := afterwards_audited haudited hok
            rwa [AuditedOk, hevents] at haud
        · constructor
          · rintro ⟨r, s', hr, hatomic⟩
            cases hr
            exact absurd ((afterwards_keys _ _).symm.trans (hatomic.unchanged hfail)) hchanged
          · intro hnot
            exact absurd ⟨hwrites, result, s₁, hrun, hf⟩ hnot
      · obtain ⟨hgen, hrev⟩ := not_or.mp hwrites
        have hkeys := handler_keys L cfg user env.data i hgen hrev s
        rw [hrun] at hkeys
        constructor
        · rintro - ⟨hop', -⟩
          exact hwrites hop'
        · intro _
          exact ⟨_, _, rfl, atomic_of_unchanged ((afterwards_keys _ _).trans hkeys)⟩

/-- The store works; the fifth call, the audit append, fails. -/
def chainDown (w : World) : Session := ⟨[{}, {}, {}, {}, { fails := some "chain down" }], w⟩

/-- Bob's revocation is answered 500, his key is gone, and there is no event. -/
theorem revoke_torn :
    ∃ r s',
      (dispatch Fixtures.bare Fixtures.config Fixtures.bob
        (Fixtures.revokeEnvelope Fixtures.bobId)).run
        (serve Fixtures.bare 0) (chainDown (Fixtures.holding Fixtures.bobsKey)) = (.ok r, s') ∧
      r = internalError (some Fixtures.opId) ∧ s'.world.keys.rows = [] ∧ s'.world.events = [] ∧
      ¬ Atomic "revoke-key" (Fixtures.holding Fixtures.bobsKey) r s'.world := by
  refine ⟨internalError (some Fixtures.opId), _, rfl, rfl, rfl, rfl, fun h => ?_⟩
  have hkeys := congrArg Table.rows (h.unchanged (internalError_not_ok _))
  cases hkeys

theorem atomic_quiet :
    (∃ r s',
      (dispatch Fixtures.bare Fixtures.config Fixtures.bob
        (Fixtures.revokeEnvelope Fixtures.bobId)).run
        (serve Fixtures.bare 0) (quiet (Fixtures.holding Fixtures.bobsKey)) = (.ok r, s') ∧
      Atomic "revoke-key" (Fixtures.holding Fixtures.bobsKey) r s'.world) ↔
    ¬ Torn Fixtures.bare Fixtures.config Fixtures.bob (Fixtures.revokeEnvelope Fixtures.bobId) 0
      (quiet (Fixtures.holding Fixtures.bobsKey)) .revokeKey :=
  atomic_iff Fixtures.bare Fixtures.config Fixtures.bob (Fixtures.revokeEnvelope Fixtures.bobId) 0
    (quiet (Fixtures.holding Fixtures.bobsKey)) .revokeKey rfl

end FailedRequests
