import KeyVault.AclNormal
import KeyVault.Fixtures
import KeyVault.Processes

/-!
# The ACL column

Only generate-key and update-acl write ACLs, and both write what `validateAcl` has
returned. Every row of every reachable state therefore has its ACL in normal form.
-/

namespace AclInvariant

open JsValue Acl AclNormal Errors Programs Interleaving Vault KeyStore Handlers HandlerCalls
  CallEffects ServerAuth Server KvAdmin CommandCalls Processes Tables

variable {L : Libraries} {cfg : Config} {user : VaultUser} {data : Json} {G : Call → Prop}

/-- Calls that write no ACL. -/
def keepsAcl : Call → Bool
  | .insertKey _ => false
  | .updateKeyAcl _ _ => false
  | _ => true

/-- An ACL that the call writes satisfies `P`. -/
def writesAcl (P : Json → Prop) : Call → Prop
  | .insertKey key => P key.acl
  | .updateKeyAcl _ acl => P acl
  | _ => True

theorem writesAcl_of_keeps {P : Json → Prop} {c : Call} (h : keepsAcl c = true) :
    writesAcl P c := by
  cases c <;> trivial

theorem keepsAcl_of_reads {c : Call} (h : reads c) : keepsAcl c = true := by
  have hkeys := h.1
  cases c <;> first | rfl | cases hkeys

/-- The ACL that an answered call has written. -/
def written : (c : Call) → Ans c → Option Json
  | .insertKey key, .ok _ => some key.acl
  | .updateKeyAcl _ acl, .ok true => some acl
  | _, _ => none

theorem written_writes {P : Json → Prop} {c : Call} {answer : Ans c} {acl : Json}
    (hc : writesAcl P c) (h : written c answer = some acl) : P acl := by
  unfold written at h
  split at h
  · cases h
    exact hc
  · cases h
    exact hc
  · cases h

/-- The ACL of a row is that of an earlier row, or the call has written it. -/
theorem perform_rows {i : ThreadId} (t : Turn) (c : Call) {w : World} :
    ∀ row ∈ (perform L i t c w).2.keys.rows,
      (∃ old ∈ w.keys.rows, old.acl = row.acl) ∨
        written c (perform L i t c w).1 = some row.acl := by
  intro row hrow
  rcases perform_cases L i t c w with ⟨_, _, -, -, hp⟩ | hp
  · rw [hp] at hrow
    exact Or.inl ⟨row, hrow, rfl⟩
  rw [hp] at hrow ⊢
  by_cases hwrites : writesKeys c = false
  · rw [effect_keys hwrites] at hrow
    exact Or.inl ⟨row, hrow, rfl⟩
  cases c with
  | insertKey key =>
    simp only [effect] at hrow ⊢
    by_cases htaken : ((w.tick t.elapsed).keys.find key.keyId).isSome = true
    · rw [if_pos htaken] at hrow
      exact Or.inl ⟨row, hrow, rfl⟩
    · rw [if_neg htaken] at hrow ⊢
      by_cases hrange : (inRange (key.toColumns L).notBefore &&
          inRange (key.toColumns L).expiresAt) = true
      · rw [if_pos hrange] at hrow ⊢
        rcases Table.mem_insert hrow with rfl | hrow
        · exact Or.inr rfl
        · exact Or.inl ⟨row, hrow, rfl⟩
      · rw [if_neg hrange] at hrow
        exact Or.inl ⟨row, hrow, rfl⟩
  | deleteKey keyId => exact Or.inl ⟨row, (Table.mem_erase.mp hrow).1, rfl⟩
  | updateKeyAcl keyId acl =>
    simp only [effect] at hrow ⊢
    rcases Table.mem_update hrow with ⟨old, hold, hkid, rfl⟩ | ⟨hrow, -⟩
    · have hfound : (w.tick t.elapsed).keys.find keyId = some old := hkid ▸ Table.find_of_mem hold
      rw [hfound]
      exact Or.inr rfl
    · exact Or.inl ⟨row, hrow, rfl⟩
  | updateKeyEmbedding keyId embeddingKeyId embeddedKey =>
    simp only [effect] at hrow
    rcases Table.mem_update hrow with ⟨old, hold, -, rfl⟩ | ⟨hrow, -⟩
    · exact Or.inl ⟨old, hold, rfl⟩
    · exact Or.inl ⟨row, hrow, rfl⟩
  | sweepExpiredKeys graceSeconds => exact Or.inl ⟨row, (Table.mem_filter.mp hrow).1, rfl⟩
  | _ => exact absurd rfl hwrites

/-- What holds of the ACL of every row, and of every ACL that a call writes, still
holds after the call. -/
theorem perform_acls {P : Json → Prop} {i : ThreadId} {c : Call} (hc : writesAcl P c) (t : Turn)
    {w : World} (h : ∀ row ∈ w.keys.rows, P row.acl) :
    ∀ row ∈ (perform L i t c w).2.keys.rows, P row.acl := by
  intro row hrow
  rcases perform_rows t c row hrow with ⟨old, hold, heq⟩ | hwritten
  · exact heq ▸ h old hold
  · exact written_writes hc hwritten

/-- What ACL resolution returns has been validated. -/
def Validated (acl : AclMap) : Prop := ∃ submitted, validateAcl submitted = .ok acl

theorem explicitAcl_validated {self : String} {acl : Json} {normalized : AclMap}
    (h : explicitAcl self acl = .ok normalized) : Validated normalized := by
  cases acl with
  | obj props =>
    obtain ⟨merged, -, hvalidate⟩ := ok_of_bind h
    exact ⟨.obj merged, hvalidate⟩
  | _ => cases h

theorem resolveAcl_validated (hG : ∀ c, asksUsers c → G c) :
    (resolveAcl user data).CallsTo G Validated := by
  unfold resolveAcl
  dsimp only
  cases data.get? "acl" with
  | some acl =>
    dsimp only
    cases hacl : explicitAcl (toLowerCase user.userId) acl with
    | error message => trivial
    | ok normalized =>
      refine ⟨hG _ ⟨_, rfl⟩, fun answer => ?_⟩
      cases answer with
      | error message => trivial
      | ok missing =>
        show Prog.CallsTo G Validated (if missing.length > 0 then
          Prog.done (.error (Thrown.apiError .invalidAcl "Unknown ACL user")) else
            Prog.done (.ok normalized))
        split
        · trivial
        · exact explicitAcl_validated hacl
  | none =>
    refine ((existingCoOwners_calls _).mono hG).bind_to fun coOwners => ?_
    cases hacl : validateAcl (ownersAcl (toLowerCase user.userId) coOwners) with
    | error message => trivial
    | ok acl => exact ⟨_, hacl⟩

theorem embed_names (m : KekManager) (jwk : Json) (kid : String) (iat : Nat)
    (nbf exp : Option Json) :
    (embed m jwk kid iat nbf exp).CallsTo aside (fun embedded => embedded.1 = m.active.kid) := by
  refine ⟨⟨rfl, rfl, rfl⟩, fun answer => ?_⟩
  cases answer with
  | ok embeddedKey => exact rfl
  | error message => trivial

/-- The row of generate-key has a validated ACL and is wrapped under the active KEK. -/
theorem generateKey_calls (hreads : ∀ c, reads c → G c)
    (hinsert : ∀ key acl, Validated acl → key.acl = toJson acl →
      key.embeddingKeyId = cfg.kek.active.kid → G (.insertKey key)) :
    (generateKey cfg user data).Calls G := by
  have hasks : ∀ c, asksUsers c → G c := by
    rintro c ⟨userIds, rfl⟩
    exact hreads _ ⟨rfl, rfl, rfl⟩
  refine calls_lift fun spec => calls_ask (hreads _ ⟨rfl, rfl, rfl⟩) fun now => ?_
  refine calls_lift fun _ => calls_lift fun _ => ?_
  refine (resolveAcl_validated hasks).bind fun acl hacl => ?_
  refine Prog.Calls.bind (calls_ask (hreads _ ⟨rfl, rfl, rfl⟩) fun r =>
    calls_lift fun generated => ?_) fun _ => trivial
  refine calls_ask (hreads _ ⟨rfl, rfl, rfl⟩) fun now => ?_
  refine ((embed_names _ _ _ _ _ _).mono fun c hc => hreads c (reads_of_aside c hc)).bind
    fun embedded hnames => ?_
  exact calls_ask (hinsert _ acl hacl rfl hnames) fun r => calls_lift fun _ => trivial

theorem handler_writesAcl (op : Operation) :
    (handler L cfg user data op).Calls (writesAcl Normal) := by
  by_cases hop : op = .generateKey
  · subst hop
    refine AclInvariant.generateKey_calls (fun c hc => writesAcl_of_keeps (keepsAcl_of_reads hc)) ?_
    rintro key acl ⟨submitted, hvalidate⟩ hacl -
    show Normal key.acl
    rw [hacl]
    exact normal_of_validate hvalidate
  · refine (handler_calls op).mono fun c hc => ?_
    rcases hc with hc | ⟨hgen, -⟩ | ⟨-, kid, rfl⟩
    · exact writesAcl_of_keeps (keepsAcl_of_reads hc)
    · exact absurd hgen hop
    · trivial

theorem event_calls (cmd : Command) (fields : Props) (out : Option String) :
    (event cmd fields >>= fun _ => pure out).Calls (fun c => keepsAcl c = true) :=
  Prog.Calls.bind (calls_ask rfl fun _ => Prog.calls_done _) fun _ => trivial

/-- Of the commands, only update-acl writes an ACL. -/
theorem command_keepsAcl (o : Opts) {cmd : Command} (h : cmd ≠ .updateAcl) :
    (command L o cmd).Calls (fun c => keepsAcl c = true) := by
  refine (command_calls o cmd).mono fun c hc => ?_
  rcases permitted_cases hc with hspares | ⟨hacl, -⟩ | ⟨-, kid, embeddingKeyId, embeddedKey, rfl⟩
  · cases c <;> first | rfl | cases hspares
  · exact absurd hacl h
  · rfl

theorem updateAcl_calls (o : Opts) (hG : ∀ c, keepsAcl c = true → G c)
    (hupdate : ∀ kid acl, Validated acl → G (.updateKeyAcl kid (toJson acl))) :
    (command L o .updateAcl).Calls G := by
  refine calls_lift fun kid => calls_lift fun submitted => ?_
  cases hacl : validateAcl (.obj submitted) with
  | error message => trivial
  | ok acl =>
    refine calls_ask (hG _ rfl) fun _ => calls_lift fun missing => calls_lift fun _ => ?_
    refine calls_ask (hG _ rfl) fun _ => calls_lift fun row => calls_lift fun _ => ?_
    refine calls_ask (hupdate kid acl ⟨_, hacl⟩) fun _ => calls_lift fun _ => ?_
    exact (event_calls _ _ _).mono hG

theorem command_writesAcl (o : Opts) (cmd : Command) :
    (command L o cmd).Calls (writesAcl Normal) := by
  by_cases hcmd : cmd = .updateAcl
  · subst hcmd
    refine updateAcl_calls o (fun c => writesAcl_of_keeps) ?_
    rintro kid acl ⟨submitted, hvalidate⟩
    exact normal_of_validate hvalidate
  · exact (command_keepsAcl o hcmd).mono fun c => writesAcl_of_keeps

theorem program_writesAcl (process : Process) : (process.program L).Calls (writesAcl Normal) := by
  cases process with
  | request cfg req =>
    refine (serveRequest_calls (fun c hc => writesAcl_of_keeps (keepsAcl_of_reads hc))
      (fun user env => ?_) req).bind fun _ => trivial
    exact dispatch_calls (fun op _ => handler_writesAcl op) fun _ _ => trivial
  | admin o cmd => exact (command_writesAcl o cmd).bind fun _ => trivial
  | sweep cfg =>
    exact Prog.Calls.bind (calls_ask trivial fun _ => Prog.calls_done _) fun _ => trivial
  | restart => exact Prog.Calls.bind (calls_ask trivial fun _ => trivial) fun _ => trivial

/-- In every state of every run that started without keys, every stored ACL is an object
of lower-case UUIDs, each once, with known classes, each once, and it has an owner. -/
theorem acls_normal (L : Libraries) (processes : ThreadId → Process) (clock : Nat)
    (users : UserTable) (schedule : Schedule Turn) :
    ∀ row ∈ (runs L processes (KeyLifecycle.start clock users) schedule).state.now.keys.rows,
      Normal row.acl :=
  runs_keep (I := fun w => ∀ row ∈ w.keys.rows, Normal row.acl)
    (fun i => program_writesAcl (processes i)) (fun _ t _ _ hc hw => perform_acls hc t hw)
    (fun _ hrow => by cases hrow) schedule

/-- Alice asks for a key. -/
def generateRequest : HttpRequest where
  method := "POST"
  pathname := some "/api/v1"
  contentType := some "application/json"
  authorization := some ("Bearer " ++ Fixtures.aliceId)
  xForwardedFor := none
  remoteAddress := some "127.0.0.1"
  body := .text (some (.obj [("user", .str Fixtures.aliceId), ("op", .str Fixtures.opId),
    ("request", .str "generate-key"), ("data", .obj [("alg", .str "A128KW")])]))

def aliceAllowed : UserTable :=
  Table.empty.insert ⟨Fixtures.aliceId, some Fixtures.aliceId,
    .obj [("allowedIP", .arr [.str "127.0.0.1"])]⟩

/-- The run of Alice's request. -/
def generated : World :=
  (runs Fixtures.obliging (fun _ => .request Fixtures.config generateRequest)
    (KeyLifecycle.start 0 aliceAllowed) (List.replicate 8 (0, {}))).state.now

/-- The run stores a key of Alice's, with a normal ACL. -/
theorem acls_normal_generated : ∃ row ∈ generated.keys.rows,
    row.acl = .obj [(Fixtures.aliceId, .arr [.str "owner"])] ∧ Normal row.acl := by
  have hstored : Json.obj [(Fixtures.aliceId, .arr [.str "owner"])] ∈
      generated.keys.rows.map (fun row => row.acl) := by
    decide +kernel
  obtain ⟨row, hrow, hacl⟩ := List.mem_map.mp hstored
  exact ⟨row, hrow, hacl, acls_normal Fixtures.obliging
    (fun _ => .request Fixtures.config generateRequest) 0 aliceAllowed (List.replicate 8 (0, {}))
    row hrow⟩

end AclInvariant
