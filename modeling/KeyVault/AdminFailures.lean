import KeyVault.CallEffects
import KeyVault.CommandCalls
import KeyVault.Fixtures
import KeyVault.HandlerCalls

/-!
# Failures of administrative commands

The statements of a command are separate, with no transaction around them. A
command that ends well has appended its event, and a command that fails has not.
Its failure leaves both tables alone, except where a statement or the append fails
that comes after a write of the same command; the earlier writes then stand.
-/

namespace AdminFailures

open JsValue Errors Programs Vault KeyStore ServerAuth KvAdmin CommandCalls CallEffects
  Interleaving Tables

variable {L : Libraries} {i : ThreadId} {α β : Type}

def reports : Except String Bool → Bool
  | .ok changed => changed
  | .error _ => false

/-- A write of either table that was executed and changed a row. -/
def changes : (c : Call) → Ans c → Bool
  | .insertUser _, r => r.isOk
  | .setUserToken _ _, r => reports r
  | .setUserData _ _, r => reports r
  | .removeUser _, r => reports r
  | .insertKey _, r => r.isOk
  | .deleteKey _, r => reports r
  | .updateKeyAcl _ _, r => reports r
  | .updateKeyEmbedding _ _ _, r => reports r
  | .sweepExpiredKeys _, r => r.toOption.any (· ≠ 0)
  | _, _ => false

/-- Neither table has changed. -/
def Untouched (w w' : World) : Prop := w'.users = w.users ∧ w'.keys = w.keys

theorem Untouched.trans {w w' w'' : World} (h : Untouched w w') (h' : Untouched w' w'') :
    Untouched w w'' :=
  ⟨h'.1.trans h.1, h'.2.trans h.2⟩

theorem changes_failure {c : Call} {message : String} {answer : Ans c}
    (h : failure message c = some answer) : changes c answer = false := by
  cases c <;> cases h <;> rfl

theorem reports_found {Row : Type} {row : Option Row} (h : reports (.ok row.isSome) = false) :
    row = none := by
  simpa [reports] using h

/-- A write that reports no row has found none. -/
theorem effect_untouched {c : Call} {w : World} (h : changes c (effect L i c w).1 = false) :
    Untouched w (effect L i c w).2 := by
  by_cases hwrites : writesKeys c = false ∧ writesUsers c = false
  · exact ⟨effect_users hwrites.2 w, effect_keys hwrites.1 w⟩
  cases c with
  | insertUser data =>
    by_cases hdup : (w.users.find (L.genRandomUuid w.seed)).isSome
    · simp only [effect, hdup]
      exact ⟨rfl, rfl⟩
    · simp [effect, hdup, changes, Except.isOk, Except.toBool] at h
  | setUserToken userId hash =>
    simp only [effect] at h ⊢
    split
    · exact ⟨rfl, rfl⟩
    · rename_i hfree
      simp only [hfree] at h
      exact ⟨Table.update_of_absent
        (f := fun u : VaultUser => { u with authToken := hash }) (fun _ => rfl)
        (reports_found h), rfl⟩
  | setUserData userId data =>
    exact ⟨Table.update_of_absent (f := fun u : VaultUser => { u with data := data }) (fun _ => rfl)
      (reports_found h), rfl⟩
  | removeUser userId => exact ⟨Table.erase_of_absent (reports_found h), rfl⟩
  | insertKey key =>
    simp only [effect] at h ⊢
    split
    · exact ⟨rfl, rfl⟩
    · rename_i hfree
      split
      · rename_i hrange
        simp [hfree, hrange, changes, Except.isOk, Except.toBool] at h
      · exact ⟨rfl, rfl⟩
  | deleteKey keyId => exact ⟨rfl, Table.erase_of_absent (reports_found h)⟩
  | updateKeyAcl keyId acl =>
    exact ⟨rfl, Table.update_of_absent
      (f := fun k : KeyRow => { k with acl := acl, updatedAt := w.clock }) (fun _ => rfl)
        (reports_found h)⟩
  | updateKeyEmbedding keyId embeddingKeyId embeddedKey =>
    exact ⟨rfl, Table.update_of_absent (f := fun k : KeyRow => { k with
      embeddingKeyId := embeddingKeyId, embeddedKey := embeddedKey, updatedAt := w.clock })
      (fun _ => rfl) (reports_found h)⟩
  | sweepExpiredKeys graceSeconds =>
    refine ⟨rfl, Table.filter_of_all fun row hrow => ?_⟩
    have hnone : w.keys.rows.filter (expired w.clock graceSeconds) = [] := by
      simpa [changes, effect, Except.toOption] using h
    have hkept := List.filter_eq_nil_iff.mp hnone row hrow
    simpa using hkept
  | _ => exact absurd ⟨rfl, rfl⟩ hwrites

theorem serve_untouched {c : Call} {s : Session} (h : changes c (serve L i c s).1 = false) :
    Untouched s.world (serve L i c s).2.world := by
  rcases serve_cases L i c s with ⟨message, answer, -, -, hs⟩ | hs
  · rw [hs]
    exact ⟨rfl, rfl⟩
  · rw [hs] at h ⊢
    exact effect_untouched (w := s.pass.world) h

/-- Only the failure of a call that satisfies `B` ends the program in an exception. -/
def FailsAt (B : Call → Bool) : Api α → Prop
  | .done r => ∃ a, r = .ok a
  | .call c next => ∀ answer, FailsAt B (next answer) ∨
      (B c = true ∧ (∃ message, failure message c = some answer) ∧
        ∃ e, next answer = .done (.error e))

/-- Once a write was executed, only the failure of a call that satisfies `B` ends the
program in an exception. -/
def Guarded (B : Call → Bool) : Api α → Prop
  | .done _ => True
  | .call c next => ∀ answer, Guarded B (next answer) ∧
      (changes c answer = true → FailsAt B (next answer))

variable {B : Call → Bool}

theorem FailsAt.bind {p : Api α} {f : α → Api β} (hp : FailsAt B p) (hf : ∀ a, FailsAt B (f a)) :
    FailsAt B (p >>= f) := by
  induction p with
  | done r =>
    obtain ⟨a, rfl⟩ := hp
    exact hf a
  | call c next ih =>
    intro answer
    rcases hp answer with hnext | ⟨hB, hfails, e, hdone⟩
    · exact Or.inl (ih answer hnext)
    · exact Or.inr ⟨hB, hfails, e, congrArg (fun p => p >>= f) hdone⟩

theorem FailsAt.attempt (p : Api α) : FailsAt B p.attempt := by
  induction p with
  | done r => exact ⟨r, rfl⟩
  | call c next ih => exact fun answer => Or.inl (ih answer)

theorem Guarded.of_failsAt {p : Api α} (h : FailsAt B p) : Guarded B p := by
  induction p with
  | done r => trivial
  | call c next ih =>
    intro answer
    rcases h answer with hnext | ⟨-, ⟨message, hfails⟩, e, hdone⟩
    · exact ⟨ih answer hnext, fun _ => hnext⟩
    · rw [hdone, changes_failure hfails]
      exact ⟨trivial, fun hchanged => absurd hchanged Bool.false_ne_true⟩

/-- A call that is no write owes nothing. -/
theorem guarded_ask {c : Call} {f : Ans c → Api β} (hc : ∀ answer, changes c answer = false)
    (hf : ∀ answer, Guarded B (f answer)) : Guarded B (ask c >>= f) := by
  intro answer
  refine ⟨hf answer, fun h => ?_⟩
  rw [hc answer] at h
  cases h

theorem guarded_lift {r : Except Thrown α} {f : α → Api β} (hf : ∀ a, Guarded B (f a)) :
    Guarded B (liftM r >>= f) := by
  cases r with
  | ok a => exact hf a
  | error e => trivial

theorem FailsAt.run {p : Api α} (hp : FailsAt B p) {s s' : Session} {e : Thrown}
    (h : p.run (serve L i) s = (.error e, s')) :
    ∃ pre last, trail (serve L i) i p s = pre ++ [last] ∧ B last.call = true ∧
      (∃ message, Vault.failure message last.call = some last.answer) ∧
      Untouched last.before.world s'.world := by
  induction p generalizing s with
  | done r =>
    obtain ⟨a, rfl⟩ := hp
    cases h
  | call c next ih =>
    rcases hp (serve L i c s).1 with hnext | ⟨hB, ⟨message, hfails⟩, e', hdone⟩
    · obtain ⟨pre, last, htrail, hlast⟩ := ih _ hnext h
      exact ⟨_ :: pre, last, congrArg _ htrail, hlast⟩
    · have hs' : (serve L i c s).2 = s' := by
        rw [Prog.run_call, hdone] at h
        exact congrArg Prod.snd h
      refine ⟨[], ⟨i, c, (serve L i c s).1, s, (serve L i c s).2⟩, ?_, hB, ⟨message, hfails⟩, ?_⟩
      · simp only [trail, hdone, List.nil_append]
      · rw [← hs']
        exact serve_untouched (changes_failure hfails)

/-- A failed run of a guarded program has changed neither table, unless its last call
came after a write and failed. -/
theorem Guarded.run {p : Api α} (hp : Guarded B p) {s s' : Session} {e : Thrown}
    (h : p.run (serve L i) s = (.error e, s')) :
    Untouched s.world s'.world ∨
    ∃ pre last, trail (serve L i) i p s = pre ++ [last] ∧
      (∃ x ∈ pre, changes x.call x.answer = true) ∧ B last.call = true ∧
      (∃ message, Vault.failure message last.call = some last.answer) ∧
      Untouched last.before.world s'.world := by
  induction p generalizing s with
  | done r =>
    cases h
    exact Or.inl ⟨rfl, rfl⟩
  | call c next ih =>
    obtain ⟨hnext, hfails⟩ := hp (serve L i c s).1
    cases hwrote : changes c (serve L i c s).1 with
    | true =>
      obtain ⟨pre, last, htrail, hlast⟩ := (hfails hwrote).run h
      exact Or.inr ⟨_ :: pre, last, congrArg _ htrail, ⟨_, List.mem_cons_self, hwrote⟩, hlast⟩
    | false =>
      have hstep := serve_untouched hwrote
      rcases ih _ hnext h with hsame | ⟨pre, last, htrail, ⟨x, hx, hxw⟩, hlast⟩
      · exact Or.inl (hstep.trans hsame)
      · exact Or.inr ⟨_ :: pre, last, congrArg _ htrail, ⟨x, List.mem_cons_of_mem _ hx, hxw⟩, hlast⟩

/-- The calls that a command can fail at after a write of its own. -/
def exposed : Command → Call → Bool
  | _, .recordEvent _ _ => true
  | .setToken, .setUserData _ _ => true
  | .revokeToken, .setUserData _ _ => true
  | .rewrap, .jweEncrypt _ _ _ _ => true
  | .rewrap, .updateKeyEmbedding _ _ _ => true
  | _, _ => false

theorem event_failsAt (cmd : Command) (cmd' : Command) (fields : Props) (out : α) :
    FailsAt (exposed cmd) (event cmd' fields >>= fun _ => pure out) := by
  intro answer
  cases answer with
  | error message => exact Or.inr ⟨by cases cmd <;> rfl, ⟨message, rfl⟩, _, rfl⟩
  | ok _ => exact Or.inl ⟨out, rfl⟩

/-- set-token and revoke-token from the first write on. -/
theorem stamp_failsAt {cmd : Command} (h : cmd = .setToken ∨ cmd = .revokeToken) (userId : String)
    (data : Json) (fields : Props) (out : Option String) :
    FailsAt (exposed cmd) (ask (.setUserData userId data) >>= fun r =>
      liftM (orThrow r) >>= fun _ => event cmd fields >>= fun _ => pure out) := by
  intro answer
  cases answer with
  | error message => exact Or.inr ⟨by rcases h with rfl | rfl <;> rfl, ⟨message, rfl⟩, _, rfl⟩
  | ok _ => exact Or.inl (event_failsAt cmd cmd fields out)

theorem existingUser_guarded (userId : String) {f : VaultUser → Api α}
    (hf : ∀ user, Guarded B (f user)) :
    Guarded B (existingUser userId >>= f) := by
  simp only [existingUser, bind_assoc]
  refine guarded_ask (fun _ => rfl) fun answer => guarded_lift fun found => ?_
  cases found with
  | none => trivial
  | some user => exact hf user

theorem rewrapRow_failsAt (m : KekManager) (row : VaultKey) :
    FailsAt (exposed .rewrap) (rewrapRow m row) := by
  refine FailsAt.bind (FailsAt.attempt _) fun r => ?_
  cases r with
  | error e => exact ⟨false, rfl⟩
  | ok secretJwk =>
    intro now
    refine Or.inl fun encrypted => ?_
    cases encrypted with
    | error message => exact Or.inr ⟨rfl, ⟨message, rfl⟩, _, rfl⟩
    | ok token =>
      refine Or.inl fun updated => ?_
      cases updated with
      | error message => exact Or.inr ⟨rfl, ⟨message, rfl⟩, _, rfl⟩
      | ok _ => exact Or.inl ⟨true, rfl⟩

theorem rewrapRows_failsAt (m : KekManager) (rows : List VaultKey) (rewrapped skipped : Nat) :
    FailsAt (exposed .rewrap) (rewrapRows m rows rewrapped skipped) := by
  induction rows generalizing rewrapped skipped with
  | nil => exact ⟨_, rfl⟩
  | cons row rest ih =>
    refine (rewrapRow_failsAt m row).bind fun done => ?_
    cases done with
    | true => exact ih _ _
    | false => exact ih _ _

theorem command_guarded (L : Libraries) (o : Opts) (cmd : Command) :
    Guarded (exposed cmd) (command L o cmd) := by
  cases cmd with
  | addUser =>
    refine guarded_lift fun allowedIP => guarded_ask (fun _ => rfl) fun now => ?_
    refine guarded_lift fun allowedOps => fun answer => ?_
    have hrest : ∀ userId, FailsAt (exposed .addUser) (event .addUser (literal
        [("actor", some (.str o.actor)), ("userId", some (.str userId)),
        ("allowedIP", some (strings allowedIP)), ("allowedOps", allowedOps),
        ("coOwners", coOwnersFromOpts o)]) >>= fun _ => pure (some userId)) :=
      fun userId => event_failsAt _ _ _ _
    cases answer with
    | error message => exact ⟨trivial, nofun⟩
    | ok userId => exact ⟨Guarded.of_failsAt (hrest userId), fun _ => hrest userId⟩
  | setToken =>
    refine guarded_lift fun userId => existingUser_guarded userId fun user => ?_
    refine guarded_ask (fun _ => rfl) fun token => guarded_ask (fun _ => rfl) fun now answer => ?_
    have hrest := stamp_failsAt (Or.inl rfl) userId (stampedData user now) (userFields o userId)
      (some token)
    cases answer with
    | error message => exact ⟨trivial, nofun⟩
    | ok _ => exact ⟨Guarded.of_failsAt hrest, fun _ => hrest⟩
  | revokeToken =>
    refine guarded_lift fun userId => existingUser_guarded userId fun user => ?_
    refine guarded_ask (fun _ => rfl) fun now answer => ?_
    have hrest := stamp_failsAt (Or.inr rfl) userId (stampedData user now)
      (userFields o userId) none
    cases answer with
    | error message => exact ⟨trivial, nofun⟩
    | ok _ => exact ⟨Guarded.of_failsAt hrest, fun _ => hrest⟩
  | setUserData =>
    refine guarded_lift fun userId => existingUser_guarded userId fun user => ?_
    refine guarded_lift fun data answer => ?_
    cases answer with
    | error message => exact ⟨trivial, nofun⟩
    | ok _ =>
      have hrest := event_failsAt .setUserData .setUserData (literal
        [("actor", some (.str o.actor)), ("userId", some (.str userId)),
        ("allowedIP", data.lookup "allowedIP"), ("allowedOps", data.lookup "allowedOps"),
        ("coOwners", data.lookup "coOwners"), ("nbf", data.lookup "nbf"),
        ("exp", data.lookup "exp")]) (none : Option String)
      exact ⟨Guarded.of_failsAt hrest, fun _ => hrest⟩
  | removeUser =>
    refine guarded_lift fun userId answer => ?_
    have hrest := event_failsAt .removeUser .removeUser (userFields o userId) (none : Option String)
    cases answer with
    | error message => exact ⟨trivial, nofun⟩
    | ok removed =>
      cases removed with
      | false => exact ⟨trivial, nofun⟩
      | true => exact ⟨Guarded.of_failsAt hrest, fun _ => hrest⟩
  | listUsers =>
    refine guarded_ask (fun _ => rfl) fun answer => guarded_lift fun users => ?_
    exact Guarded.of_failsAt (event_failsAt _ _ _ _)
  | updateAcl =>
    refine guarded_lift fun kid => guarded_lift fun aclInput => guarded_lift fun acl => ?_
    refine guarded_ask (fun _ => rfl) fun missing => guarded_lift fun missing => ?_
    refine guarded_lift fun _ => guarded_ask (fun _ => rfl) fun row => guarded_lift fun row => ?_
    refine guarded_lift fun _ answer => ?_
    have hrest := event_failsAt .updateAcl .updateAcl [("actor", .str o.actor), ("kid", .str kid),
      ("aclUsers", strings (acl.map Prod.fst))] (none : Option String)
    cases answer with
    | error message => exact ⟨trivial, nofun⟩
    | ok _ => exact ⟨Guarded.of_failsAt hrest, fun _ => hrest⟩
  | rewrap =>
    refine guarded_lift fun m => guarded_ask (fun _ => rfl) fun answer =>
      guarded_lift fun rows => ?_
    refine Guarded.of_failsAt ((rewrapRows_failsAt m rows 0 0).bind fun counts => ?_)
    exact event_failsAt _ _ _ _

/-- A run that ends well has appended one event of type `admin:` and the command's
name, and a run that fails none. -/
def Recorded (L : Libraries) (i : ThreadId) (cmd : Command) (p : Api α) : Prop :=
  ∀ s : Session, match p.run (serve L i) s with
    | (.ok _, s') => ∃ ts fields, s'.world.events =
        s.world.events ++ [⟨"tr-key-vault:" ++ ("admin:" ++ cmd.name), ts, fields⟩]
    | (.error _, s') => s'.world.events = s.world.events

theorem Recorded.after {cmd : Command} {p : Api α} {f : α → Api β}
    (hp : p.Calls (fun c => appends c = false)) (hf : ∀ a, Recorded L i cmd (f a)) :
    Recorded L i cmd (p >>= f) := by
  intro s
  have hevents := run_events (L := L) (i := i) hp s
  cases hrun : p.run (serve L i) s with
  | mk result s₁ =>
    rw [hrun] at hevents
    cases result with
    | error e => rwa [Prog.run_bind_error hrun]
    | ok a =>
      have hrest := hf a s₁
      rw [Prog.run_bind_ok hrun, ← show s₁.world.events = s.world.events from hevents]
      exact hrest

theorem Recorded.event (cmd : Command) (fields : Props) (out : α) :
    Recorded L i cmd (KvAdmin.event cmd fields >>= fun _ => pure out) := by
  intro s
  simp only [KvAdmin.event, ask_bind, Prog.call_bind, Prog.run_call]
  rcases serve_cases L i (.recordEvent ("admin:" ++ cmd.name) fields) s with
    ⟨message, answer, -, ha, hs⟩ | hs
  · cases ha
    rw [hs]
    rfl
  · rw [hs]
    exact ⟨_, _, rfl⟩

theorem asks_appends (c : Call) (h : asks c = true) : appends c = false := by
  cases c <;> first | rfl | cases h

theorem command_recorded (L : Libraries) (i : ThreadId) (o : Opts) (cmd : Command) :
    Recorded L i cmd (command L o cmd) := by
  have ask : ∀ {c : Call} {f : Ans c → Api (Option String)}, appends c = false →
      (∀ answer, Recorded L i cmd (f answer)) → Recorded L i cmd (Vault.ask c >>= f) :=
    fun hc hf => Recorded.after (calls_ask hc fun _ => trivial) hf
  have lift : ∀ {γ : Type} {r : Except Thrown γ} {f : γ → Api (Option String)},
      (∀ a, Recorded L i cmd (f a)) → Recorded L i cmd (liftM r >>= f) :=
    fun hf => Recorded.after (Prog.calls_done _) hf
  cases cmd with
  | addUser =>
    exact lift fun _ => ask rfl fun _ => lift fun _ => ask rfl fun _ => lift fun _ =>
      Recorded.event _ _ _
  | setToken =>
    exact lift fun _ => Recorded.after (existingUser_calls asks_appends _) fun _ => ask rfl fun _ =>
      ask rfl fun _ => ask rfl fun _ => lift fun _ => ask rfl fun _ => lift fun _ =>
      Recorded.event _ _ _
  | revokeToken =>
    exact lift fun _ => Recorded.after (existingUser_calls asks_appends _) fun _ => ask rfl fun _ =>
      ask rfl fun _ => lift fun _ => ask rfl fun _ => lift fun _ => Recorded.event _ _ _
  | setUserData =>
    exact lift fun _ => Recorded.after (existingUser_calls asks_appends _) fun _ => lift fun _ =>
      ask rfl fun _ => lift fun _ => Recorded.event _ _ _
  | removeUser =>
    exact lift fun _ => ask rfl fun _ => lift fun _ => lift fun _ => Recorded.event _ _ _
  | listUsers => exact ask rfl fun _ => lift fun _ => Recorded.event _ _ _
  | updateAcl =>
    exact lift fun _ => lift fun _ => lift fun _ => ask rfl fun _ => lift fun _ => lift fun _ =>
      ask rfl fun _ => lift fun _ => lift fun _ => ask rfl fun _ => lift fun _ =>
      Recorded.event _ _ _
  | rewrap =>
    exact lift fun _ => ask rfl fun _ => lift fun _ =>
      Recorded.after (rewrapRows_calls asks_appends (fun _ _ => rfl) _ _ _) fun _ =>
        Recorded.event _ _ _

/-- For every state and every pattern of failing calls: a command that ends well has
appended its event. A command that fails has appended none and changed neither table,
or its last call failed, comes after one of its own writes, and found the tables as
they now are. -/
theorem commands_coupled (L : Libraries) (i : ThreadId) (o : Opts) (cmd : Command) (s : Session) :
    let calls := trail (serve L i) i (command L o cmd) s
    match (command L o cmd).run (serve L i) s with
    | (.ok _, s') => ∃ ts fields, s'.world.events =
        s.world.events ++ [⟨"tr-key-vault:" ++ ("admin:" ++ cmd.name), ts, fields⟩]
    | (.error _, s') => s'.world.events = s.world.events ∧
        (Untouched s.world s'.world ∨
          ∃ pre last, calls = pre ++ [last] ∧ (∃ x ∈ pre, changes x.call x.answer = true) ∧
            exposed cmd last.call = true ∧
            (∃ message, Vault.failure message last.call = some last.answer) ∧
            Untouched last.before.world s'.world) := by
  have hrecorded := command_recorded L i o cmd s
  cases hrun : (command L o cmd).run (serve L i) s with
  | mk result s' =>
    rw [hrun] at hrecorded
    cases result with
    | ok out => exact hrecorded
    | error e => exact ⟨hrecorded, (command_guarded L o cmd).run hrun⟩

/-- Bob, with a bearer token. -/
def tokenHolder : World := { fresh 0 with
  users := Table.empty.insert ⟨Fixtures.bobId, some "old", .obj []⟩ }

/-- The second statement that writes fails; the token and the clock are read between. -/
def dataDown : Session := ⟨[{}, {}, {}, {}, { fails := some "connection lost" }], tokenHolder⟩

/-- set-token fails, nothing is logged, and Bob's old token is gone. -/
theorem setToken_torn :
    let o : Opts := { actor := "root", user := some Fixtures.bobId }
    let r := (command Fixtures.bare o .setToken).run (serve Fixtures.bare 0) dataDown
    tokenHolder.users.rows.find? (fun u => u.authToken == some "old") =
        some ⟨Fixtures.bobId, some "old", .obj []⟩ ∧
      r.1 = .error (.error "connection lost") ∧ r.2.world.events = [] ∧
      r.2.world.users.rows = [⟨Fixtures.bobId, some Fixtures.aliceId, .obj []⟩] ∧
      r.2.world.users.rows.find? (fun u => u.authToken == some "old") = none ∧
      r.2.world.users ≠ tokenHolder.users := by
  have hrows : tokenHolder.users.rows = [⟨Fixtures.bobId, some "old", .obj []⟩] := by
    decide +kernel
  have hafter : ((command Fixtures.bare { actor := "root", user := some Fixtures.bobId }
      .setToken).run (serve Fixtures.bare 0) dataDown).2.world.users.rows =
      [⟨Fixtures.bobId, some Fixtures.aliceId, .obj []⟩] := by
    decide +kernel
  refine ⟨by decide +kernel, by decide +kernel, by decide +kernel, hafter, by decide +kernel,
    fun heq => ?_⟩
  have hboth := hafter.symm.trans ((congrArg Table.rows heq).trans hrows)
  exact absurd hboth (by decide)

end AdminFailures
