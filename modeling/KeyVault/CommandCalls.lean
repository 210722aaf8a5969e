import KeyVault.CallEffects
import KeyVault.KvAdmin

/-!
# What the administrative commands can change

Every command reads and appends its event; each of the writing commands has its own
statements besides.
-/

namespace CommandCalls

open JsValue Errors Programs Vault KeyStore KvAdmin CallEffects

/-- Calls of the commands that write neither table nor the chain. -/
def asks : Call → Bool
  | .userById _ => true
  | .listUsers => true
  | .missingUsers _ => true
  | .keyById _ => true
  | .keysNotEmbeddedWith _ => true
  | .jweEncrypt _ _ _ _ => true
  | .jweDecrypt _ _ => true
  | .dateNow => true
  | .randomUUID => true
  | _ => false

/-- The statements of a command that write. -/
def writes (o : Opts) : Command → Call → Prop
  | .addUser, c => ∃ data, c = .insertUser data
  | .setToken, c => ∃ userId, (∃ hash, c = .setUserToken userId (some hash)) ∨
      ∃ data, c = .setUserData userId data
  | .revokeToken, c =>
    ∃ userId, c = .setUserToken userId none ∨ ∃ data, c = .setUserData userId data
  | .setUserData, c => ∃ userId data, c = .setUserData userId data
  | .removeUser, c => ∃ userId, c = .removeUser userId
  | .listUsers, _ => False
  | .updateAcl, c => ∃ kid acl, c = .updateKeyAcl kid acl
  | .rewrap, c => ∃ m, o.kek = .ok m ∧
      ∃ kid embeddedKey, c = .updateKeyEmbedding kid m.active.kid embeddedKey

/-- The calls of a command. -/
def permitted (o : Opts) (cmd : Command) (c : Call) : Prop :=
  asks c = true ∨ (∃ fields, c = .recordEvent ("admin:" ++ cmd.name) fields) ∨ writes o cmd c

variable {L : Libraries} {G : Call → Prop} {o : Opts}

/-- A required option has been given. -/
theorem requireOpt_ok {α : Type} {cmd : Command} {name : String} {value : Option α} {v : α}
    (h : requireOpt cmd name value = .ok v) : value = some v := by
  cases value with
  | none => cases h
  | some w =>
    cases h
    rfl

theorem existingUser_calls (hasks : ∀ c, asks c = true → G c) (userId : String) :
    (existingUser userId).Calls G := by
  refine calls_ask (hasks _ rfl) fun _ => calls_lift fun found => ?_
  cases found <;> trivial

theorem rewrapRow_calls {m : KekManager} (hasks : ∀ c, asks c = true → G c)
    (hwrite : ∀ kid embeddedKey, G (.updateKeyEmbedding kid m.active.kid embeddedKey))
    (row : VaultKey) : (rewrapRow m row).Calls G := by
  have hextract : (extract m row.embeddingKeyId row.embeddedKey row.keyId).Calls G := by
    unfold extract
    cases m.byId row.embeddingKeyId with
    | none => trivial
    | some kek => exact calls_ask (hasks _ rfl) fun _ => calls_lift fun _ => trivial
  refine hextract.attempt.bind fun r => ?_
  cases r with
  | error e => trivial
  | ok secretJwk =>
    refine calls_ask (hasks _ rfl) fun now => calls_ask (hasks _ rfl) fun answer => ?_
    cases answer with
    | error message => trivial
    | ok embeddedKey => exact calls_ask (hwrite _ _) fun _ => calls_lift fun _ => trivial

theorem rewrapRows_calls {m : KekManager} (hasks : ∀ c, asks c = true → G c)
    (hwrite : ∀ kid embeddedKey, G (.updateKeyEmbedding kid m.active.kid embeddedKey))
    (rows : List VaultKey) (rewrapped skipped : Nat) :
    (rewrapRows m rows rewrapped skipped).Calls G := by
  induction rows generalizing rewrapped skipped with
  | nil => trivial
  | cons row rest ih =>
    refine (rewrapRow_calls hasks hwrite row).bind fun done => ?_
    cases done with
    | true => exact ih _ _
    | false => exact ih _ _

/-- A command makes the calls that it may make. -/
theorem command_calls (o : Opts) (cmd : Command) : (command L o cmd).Calls (permitted o cmd) := by
  have hasks : ∀ c, asks c = true → permitted o cmd c := fun c hc => Or.inl hc
  have hevent : ∀ fields (out : Option String),
      (event cmd fields >>= fun _ => pure out).Calls (permitted o cmd) := by
    intro fields out
    refine Prog.Calls.bind ?_ fun _ => trivial
    exact calls_ask (Or.inr (Or.inl ⟨fields, rfl⟩)) fun _ => Prog.calls_done _
  have hwrite : ∀ c, writes o cmd c → permitted o cmd c := fun c hc => Or.inr (Or.inr hc)
  cases cmd with
  | addUser =>
    refine calls_lift fun _ => calls_ask (hasks _ rfl) fun _ => calls_lift fun _ => ?_
    exact calls_ask (hwrite _ ⟨_, rfl⟩) fun _ => calls_lift fun _ => hevent _ _
  | setToken =>
    refine calls_lift fun userId => (existingUser_calls hasks userId).bind fun user => ?_
    refine calls_ask (hasks _ rfl) fun _ => calls_ask (hasks _ rfl) fun _ => ?_
    refine calls_ask (hwrite _ ⟨userId, Or.inl ⟨_, rfl⟩⟩) fun _ => calls_lift fun _ => ?_
    exact calls_ask (hwrite _ ⟨userId, Or.inr ⟨_, rfl⟩⟩) fun _ => calls_lift fun _ => hevent _ _
  | revokeToken =>
    refine calls_lift fun userId => (existingUser_calls hasks userId).bind fun user => ?_
    refine calls_ask (hasks _ rfl) fun _ => ?_
    refine calls_ask (hwrite _ ⟨userId, Or.inl rfl⟩) fun _ => calls_lift fun _ => ?_
    exact calls_ask (hwrite _ ⟨userId, Or.inr ⟨_, rfl⟩⟩) fun _ => calls_lift fun _ => hevent _ _
  | setUserData =>
    refine calls_lift fun userId => (existingUser_calls hasks userId).bind fun user => ?_
    refine calls_lift fun data => ?_
    exact calls_ask (hwrite _ ⟨userId, _, rfl⟩) fun _ => calls_lift fun _ => hevent _ _
  | removeUser =>
    refine calls_lift fun _ => calls_ask (hwrite _ ⟨_, rfl⟩) fun _ => ?_
    exact calls_lift fun _ => calls_lift fun _ => hevent _ _
  | listUsers => exact calls_ask (hasks _ rfl) fun _ => calls_lift fun _ => hevent _ _
  | updateAcl =>
    refine calls_lift fun _ => calls_lift fun _ => calls_lift fun _ => ?_
    refine calls_ask (hasks _ rfl) fun _ => calls_lift fun _ => calls_lift fun _ => ?_
    refine calls_ask (hasks _ rfl) fun _ => calls_lift fun _ => calls_lift fun _ => ?_
    exact calls_ask (hwrite _ ⟨_, _, rfl⟩) fun _ => calls_lift fun _ => hevent _ _
  | rewrap =>
    show (rewrap o).Calls (permitted o .rewrap)
    unfold rewrap
    cases hkek : o.kek with
    | error message => trivial
    | ok m =>
      refine calls_ask (hasks _ rfl) fun _ => calls_lift fun rows => ?_
      refine (rewrapRows_calls hasks (fun kid embeddedKey => ?_) rows 0 0).bind fun _ => hevent _ _
      exact hwrite _ ⟨m, hkek, kid, embeddedKey, rfl⟩

/-- Calls that write no key row. -/
def sparesKeys (c : Call) : Bool := asks c || appends c || writesUsers c

/-- Only update-acl and rewrap write key rows. -/
theorem permitted_cases {cmd : Command} {c : Call} (h : permitted o cmd c) :
    sparesKeys c = true ∨ (cmd = .updateAcl ∧ ∃ kid acl, c = .updateKeyAcl kid acl) ∨
      (cmd = .rewrap ∧ ∃ kid embeddingKeyId embeddedKey,
        c = .updateKeyEmbedding kid embeddingKeyId embeddedKey) := by
  rcases h with hasks | ⟨fields, rfl⟩ | hwrites
  · exact Or.inl (by rw [sparesKeys, hasks]; rfl)
  · exact Or.inl rfl
  · cases cmd with
    | addUser => obtain ⟨data, rfl⟩ := hwrites; exact Or.inl rfl
    | setToken => obtain ⟨userId, ⟨hash, rfl⟩ | ⟨data, rfl⟩⟩ := hwrites <;> exact Or.inl rfl
    | revokeToken => obtain ⟨userId, rfl | ⟨data, rfl⟩⟩ := hwrites <;> exact Or.inl rfl
    | setUserData => obtain ⟨userId, data, rfl⟩ := hwrites; exact Or.inl rfl
    | removeUser => obtain ⟨userId, rfl⟩ := hwrites; exact Or.inl rfl
    | listUsers => cases hwrites
    | updateAcl => exact Or.inr (Or.inl ⟨rfl, hwrites⟩)
    | rewrap =>
      obtain ⟨m, -, kid, embeddedKey, rfl⟩ := hwrites
      exact Or.inr (Or.inr ⟨rfl, kid, m.active.kid, embeddedKey, rfl⟩)

end CommandCalls
