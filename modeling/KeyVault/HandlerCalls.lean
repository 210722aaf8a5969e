import KeyVault.KeyOperations

/-!
# What the handlers can change

No handler writes users or appends an event. Only generate-key inserts keys and
only revoke-key deletes them; the other eight write nothing.
-/

namespace HandlerCalls

open JsValue Acl KeyGen Errors Programs Vault KeyStore Handlers CallEffects KeyOperations

/-- Calls that write neither table nor the chain. -/
def reads (c : Call) : Prop := writesKeys c = false ∧ writesUsers c = false ∧ appends c = false

instance (c : Call) : Decidable (reads c) := inferInstanceAs (Decidable (_ ∧ _ ∧ _))

/-- Calls that leave the key table alone and write nothing else. -/
def aside (c : Call) : Prop := offKeys c = true ∧ writesUsers c = false ∧ appends c = false

theorem reads_of_aside (c : Call) (h : aside c) : reads c :=
  ⟨writesKeys_of_offKeys h.1, h.2⟩

/-- The calls of a handler. -/
def permitted (op : Operation) (c : Call) : Prop :=
  reads c ∨ (op = .generateKey ∧ ∃ key, c = .insertKey key) ∨
    (op = .revokeKey ∧ ∃ kid, c = .deleteKey kid)

variable {L : Libraries} {cfg : Config} {user : VaultUser} {data : Json} {G : Call → Prop}

theorem extract_calls (m : KekManager) (embeddingKeyId embeddedKey kid : String) :
    (extract m embeddingKeyId embeddedKey kid).Calls aside := by
  unfold extract
  cases m.byId embeddingKeyId with
  | none => trivial
  | some kek => exact calls_ask ⟨rfl, rfl, rfl⟩ fun r => calls_lift fun _ => trivial

theorem unwrap_calls (row : VaultKey) : (unwrap L cfg row).Calls aside := by
  unfold unwrap
  split
  · exact extract_calls _ _ _ _
  · refine calls_ask ⟨rfl, rfl, rfl⟩ fun r => ?_
    obtain ⟨now, cached⟩ := r
    cases cached with
    | some jwk => trivial
    | none =>
      refine (extract_calls _ _ _ _).bind fun jwk => ?_
      exact calls_ask ⟨rfl, rfl, rfl⟩ fun _ => trivial

theorem unwrapKey_calls (row : VaultKey) : (unwrapKey L cfg row).Calls aside := by
  refine (unwrap_calls row).tryCatch fun e => ?_
  cases e <;> trivial

theorem keyHalf_calls (row : VaultKey) (half : KeyHalf) :
    (keyHalf L cfg row half).Calls aside := by
  cases half with
  | stored => trivial
  | secret => exact unwrapKey_calls row
  | publicOrSecret =>
    simp only [keyHalf, publicHalf]
    split
    · exact unwrapKey_calls row
    · trivial

theorem authorizedKey_calls (kid : String) (opClass : OpClass) :
    (authorizedKey user kid opClass).Calls reads := by
  refine Prog.Calls.bind (calls_ask ⟨rfl, rfl, rfl⟩ fun _ => trivial) fun found => ?_
  cases found with
  | none => trivial
  | some row =>
    dsimp only
    split
    · refine calls_ask ⟨rfl, rfl, rfl⟩ fun now => ?_
      split
      · trivial
      · trivial
    · trivial

/-- Up to the finish a key operation only reads. -/
theorem access_calls {K : KeyOperation} (hreads : ∀ c, reads c → G c)
    (hfinish : ∀ kid row jwk, (K.finish kid row jwk).Calls G) :
    (access L cfg user K).Calls G := by
  refine calls_lift fun kid => ?_
  refine ((authorizedKey_calls kid K.opClass).mono hreads).bind fun row => ?_
  refine calls_lift fun _ => ?_
  exact (((keyHalf_calls row K.half).mono reads_of_aside).mono hreads).bind fun jwk =>
    hfinish kid row jwk

theorem finish_aside {op : Operation} {K : KeyOperation}
    (h : keyOperation L cfg data op = some K) (hop : op ≠ .revokeKey) (kid : String)
    (row : VaultKey) (jwk : Json) : (K.finish kid row jwk).Calls aside := by
  cases op with
  | publicKey => cases h; trivial
  | exportKey => cases h; trivial
  | createJwt =>
    cases h
    exact calls_ask ⟨rfl, rfl, rfl⟩ fun _ => Prog.calls_done _
  | verifyJwt =>
    cases h
    exact calls_ask ⟨rfl, rfl, rfl⟩ fun _ => Prog.calls_done _
  | createJwe =>
    cases h
    exact calls_ask ⟨rfl, rfl, rfl⟩ fun r => calls_lift fun token => trivial
  | decryptJwe =>
    cases h
    exact calls_ask ⟨rfl, rfl, rfl⟩ fun _ => Prog.calls_done _
  | revokeKey => exact absurd rfl hop
  | healthcheck => cases h
  | generateKey => cases h
  | listKeys => cases h

theorem finish_calls {op : Operation} {K : KeyOperation}
    (h : keyOperation L cfg data op = some K) (kid : String) (row : VaultKey) (jwk : Json) :
    (K.finish kid row jwk).Calls (permitted op) := by
  by_cases hop : op = .revokeKey
  · subst hop
    cases h
    refine Prog.Calls.bind ?_ fun revoked => calls_lift fun _ => trivial
    refine calls_ask (Or.inr (Or.inr ⟨rfl, kid, rfl⟩)) fun r => calls_lift fun deleted => ?_
    exact calls_ask (Or.inl ⟨rfl, rfl, rfl⟩) fun _ => trivial
  · exact (finish_aside h hop kid row jwk).mono fun c hc => Or.inl (reads_of_aside c hc)

/-- The only call of ACL resolution. -/
def asksUsers (c : Call) : Prop := ∃ userIds, c = .missingUsers userIds

theorem existingCoOwners_calls (candidates : List String) :
    (existingCoOwners candidates).Calls asksUsers := by
  unfold existingCoOwners
  split
  · exact calls_ask ⟨_, rfl⟩ fun r => calls_lift fun missing => trivial
  · trivial

theorem resolveAcl_asks : (resolveAcl user data).Calls asksUsers := by
  unfold resolveAcl
  dsimp only
  split
  · split
    · trivial
    · refine calls_ask ⟨_, rfl⟩ fun r => calls_lift fun missing => ?_
      split
      · trivial
      · trivial
  · refine (existingCoOwners_calls _).bind fun coOwners => ?_
    split
    · trivial
    · trivial

theorem resolveAcl_calls : (resolveAcl user data).Calls aside := by
  refine resolveAcl_asks.mono fun c hc => ?_
  obtain ⟨userIds, rfl⟩ := hc
  exact ⟨rfl, rfl, rfl⟩

theorem embed_calls (m : KekManager) (jwk : Json) (kid : String) (iat : Nat)
    (nbf exp : Option Json) : (embed m jwk kid iat nbf exp).Calls aside :=
  calls_ask ⟨rfl, rfl, rfl⟩ fun _ => calls_lift fun _ => trivial

theorem storeGenerated_calls (acl : AclMap) (nbf exp : Option Nat) (generated : GeneratedKey) :
    (storeGenerated cfg acl nbf exp generated).Calls (permitted .generateKey) := by
  refine calls_ask (Or.inl ⟨rfl, rfl, rfl⟩) fun now => ?_
  refine ((embed_calls _ _ _ _ _ _).mono fun _ hc => Or.inl (reads_of_aside _ hc)).bind fun _ => ?_
  exact calls_ask (Or.inr (Or.inl ⟨rfl, _, rfl⟩)) fun r => calls_lift fun _ => trivial

theorem generate_calls (spec : KeySpec) (acl : AclMap) (nbf exp : Option Nat) :
    (generate cfg spec acl nbf exp).Calls (permitted .generateKey) :=
  calls_ask (Or.inl ⟨rfl, rfl, rfl⟩) fun _ => calls_lift fun generated =>
    storeGenerated_calls acl nbf exp generated

theorem generateKey_calls : (generateKey cfg user data).Calls (permitted .generateKey) := by
  refine calls_lift fun spec => calls_ask (Or.inl ⟨rfl, rfl, rfl⟩) fun now => ?_
  refine calls_lift fun _ => calls_lift fun _ => ?_
  refine (resolveAcl_calls.mono fun _ hc => Or.inl (reads_of_aside _ hc)).bind fun acl => ?_
  exact (generate_calls spec acl _ _).bind fun _ => trivial

theorem listKeys_calls : (Handlers.listKeys user data).Calls reads := by
  refine calls_lift fun _ => calls_lift fun _ => Prog.Calls.bind ?_ fun _ => trivial
  refine calls_ask ⟨rfl, rfl, rfl⟩ fun r => calls_lift fun rows => ?_
  exact calls_ask ⟨rfl, rfl, rfl⟩ fun _ => trivial

theorem healthcheck_calls : (healthcheck data).Calls aside :=
  calls_lift fun _ => calls_ask ⟨rfl, rfl, rfl⟩ fun _ => trivial

theorem handler_calls (op : Operation) :
    (handler L cfg user data op).Calls (permitted op) := by
  cases hK : keyOperation L cfg data op with
  | some K =>
    rw [handler_access hK]
    exact access_calls (fun _ hc => Or.inl hc) (finish_calls hK)
  | none =>
    cases op with
    | healthcheck => exact healthcheck_calls.mono fun _ hc => Or.inl (reads_of_aside _ hc)
    | generateKey => exact generateKey_calls
    | listKeys => exact listKeys_calls.mono fun _ hc => Or.inl hc
    | _ => cases hK

theorem permitted_events {op : Operation} {c : Call} (h : permitted op c) : appends c = false := by
  rcases h with h | ⟨_, _, rfl⟩ | ⟨_, _, rfl⟩
  · exact h.2.2
  · rfl
  · rfl

theorem permitted_users {op : Operation} {c : Call} (h : permitted op c) :
    writesUsers c = false := by
  rcases h with h | ⟨_, _, rfl⟩ | ⟨_, _, rfl⟩
  · exact h.2.1
  · rfl
  · rfl

theorem permitted_keys {op : Operation} {c : Call} (h : permitted op c)
    (hgen : op ≠ .generateKey) (hrev : op ≠ .revokeKey) : writesKeys c = false := by
  rcases h with h | ⟨hop, _, rfl⟩ | ⟨hop, _, rfl⟩
  · exact h.1
  · exact absurd hop hgen
  · exact absurd hop hrev

theorem handler_events (L : Libraries) (cfg : Config) (user : VaultUser) (data : Json)
    (i : Interleaving.ThreadId) (op : Operation) (s : Session) :
    ((handler L cfg user data op).run (serve L i) s).2.world.events = s.world.events :=
  run_events ((handler_calls op).mono fun _ => permitted_events) s

theorem handler_keys (L : Libraries) (cfg : Config) (user : VaultUser) (data : Json)
    (i : Interleaving.ThreadId) {op : Operation} (hgen : op ≠ .generateKey)
    (hrev : op ≠ .revokeKey) (s : Session) :
    ((handler L cfg user data op).run (serve L i) s).2.world.keys = s.world.keys :=
  run_keys ((handler_calls op).mono fun _ hc => permitted_keys hc hgen hrev) s

end HandlerCalls
