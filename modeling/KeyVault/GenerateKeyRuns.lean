import KeyVault.AclNormal
import KeyVault.Dispatch
import KeyVault.Fixtures
import KeyVault.HandlerRuns
import KeyVault.KeyInvariant
import KeyVault.KeySpecs
import KeyVault.RequestChecks

/-!
# Undisturbed runs of generate-key

While nothing fails, generate-key comes to the verdict of its checks, and otherwise
to a new row: the specification, the times and the ACL decide it alone.
-/

namespace GenerateKeyRuns

open JsValue Acl AclNormal KeyGen Errors Programs RequestChecks Vault KeyStore Handlers CallEffects
  KeyInvariant KeySpecs Server Dispatch Tables

variable {L : Libraries} {cfg : Config} {user : VaultUser} {data : Json}
  {i : Interleaving.ThreadId}

theorem eraseDups_nodup (l : List String) : l.eraseDups.Nodup := by
  induction h : l.length using Nat.strongRecOn generalizing l with
  | ind n ih =>
    cases l with
    | nil => exact List.nodup_nil
    | cons a rest =>
      rw [List.eraseDups_cons, List.nodup_cons]
      have hlength := List.length_filter_le (fun b => !b == a) rest
      refine ⟨fun hmem => ?_, ih _ (by simp only [List.length_cons] at h; omega) _ rfl⟩
      simpa using (List.mem_filter.mp (List.mem_eraseDups.mp hmem)).2

theorem coOwnerCandidates_mem {self : String} {userData : Json} {u : String}
    (h : u ∈ coOwnerCandidates self userData) :
    isUuid u = true ∧ toLowerCase u = u ∧ u ≠ self := by
  unfold coOwnerCandidates at h
  obtain ⟨hmem, hself⟩ := List.mem_filter.mp h
  obtain ⟨v, -, hv⟩ := List.mem_filterMap.mp (List.mem_eraseDups.mp hmem)
  cases v with
  | str s =>
    simp only at hv
    split at hv
    · rename_i huuid
      cases hv
      exact ⟨isUuid_toLowerCase huuid, toLowerCase_toLowerCase s, by simpa using hself⟩
    · cases hv
  | _ => cases hv

theorem coOwnerCandidates_nodup (self : String) (userData : Json) :
    (coOwnerCandidates self userData).Nodup :=
  (eraseDups_nodup _).filter _

def owners (users : List String) : Props := users.map (fun u => (u, .arr [.str "owner"]))

theorem ownersAcl_eq {self : String} {coOwners : List String} (h : (self :: coOwners).Nodup) :
    ownersAcl self coOwners = .obj (owners (self :: coOwners)) := by
  have hfold : ∀ (rest done : List String), (done ++ rest).Nodup →
      rest.foldl (fun acl u => setProp acl u (.arr [.str "owner"])) (owners done) =
        owners (done ++ rest) := by
    intro rest
    induction rest with
    | nil => intro done _; simp
    | cons u rest ih =>
      intro done hdone
      have hnew : u ∉ keys (owners done) := by
        have hkeys : keys (owners done) = done := by simp [keys, owners, Function.comp_def]
        rw [hkeys]
        intro hmem
        exact (List.nodup_append.mp hdone).2.2 u hmem u List.mem_cons_self rfl
      have hnext : setProp (owners done) u (.arr [.str "owner"]) = owners (done ++ [u]) := by
        rw [setProp_new _ hnew]
        simp [owners]
      rw [List.foldl_cons, hnext, ih _ (by simpa using hdone)]
      simp
  exact congrArg Json.obj (hfold coOwners [self] h)

/-- The ACL of an owner and some co-owners is valid, and each of them owns the key. -/
theorem validate_owners {users : List String} (hne : users ≠ [])
    (huuid : ∀ u ∈ users, isUuid u = true ∧ toLowerCase u = u) (hnodup : users.Nodup) :
    validateAcl (.obj (owners users)) = .ok (users.map (fun u => (u, [.owner]))) := by
  have howner : known (.str "owner") = true := by decide
  have hlower : users.map toLowerCase = users := by
    conv_rhs => rw [← List.map_id users]
    exact List.map_congr_left fun u hu => (huuid u hu).2
  have hcollect : collect [.str "owner"] [] = [.owner] := by decide
  refine validateAcl_ok_iff.mpr ⟨?_, ?_, ?_, ?_⟩
  · intro e he
    obtain ⟨u, hu, rfl⟩ := List.mem_map.mp he
    exact ⟨(huuid u hu).1, _, rfl, by simpa using howner⟩
  · simpa [CaseDistinct, owners, Function.comp_def, hlower] using hnodup
  · simp only [owners, List.map_map]
    refine List.map_congr_left fun u hu => ?_
    simp only [Function.comp_apply, normalEntry, (huuid u hu).2, hcollect]
  · obtain ⟨u, hu⟩ := List.exists_mem_of_ne_nil _ hne
    exact ⟨_, List.mem_map_of_mem hu, List.mem_singleton_self _⟩

/-- The users of an ACL that the table does not have. -/
def missingIn (w : World) (userIds : List String) : List String :=
  userIds.filter (fun u => (w.users.find u).isNone)

/-- The co-owners that exist. -/
def coOwnersIn (w : World) (user : VaultUser) : List String :=
  (coOwnerCandidates (toLowerCase user.userId) user.data).filter (fun u => (w.users.find u).isSome)

/-- The ACL that generate-key stores, or the exception it throws, in a world. -/
def aclIn (w : World) (user : VaultUser) (data : Json) : Except Thrown AclMap :=
  match data.get? "acl" with
  | some acl =>
    match explicitAcl (toLowerCase user.userId) acl with
    | .error message => .error (.apiError .invalidAcl message)
    | .ok acl =>
      if (missingIn w (acl.map Prod.fst)).length > 0 then
        .error (.apiError .invalidAcl "Unknown ACL user")
      else .ok acl
  | none => .ok ((toLowerCase user.userId :: coOwnersIn w user).map (fun u => (u, [.owner])))

theorem existingCoOwners_quiet (w : World) (user : VaultUser) :
    (existingCoOwners (coOwnerCandidates (toLowerCase user.userId) user.data)).run (serve L i)
      (quiet w) = (.ok (coOwnersIn w user), quiet w) := by
  unfold existingCoOwners coOwnersIn
  split
  · simp only [ask_bind, Prog.run_call, serve_quiet, effect, orThrow_ok, Prog.liftM_eq,
      Prog.done_ok_bind, Prog.pure_eq, Prog.run_done, Prod.mk.injEq, Except.ok.injEq, and_true]
    refine List.filter_congr fun u hu => ?_
    simp only [List.contains_eq_mem, List.mem_filter, hu, true_and]
    cases w.users.find u <;> rfl
  · rename_i hnone
    have hnil : coOwnerCandidates (toLowerCase user.userId) user.data = [] := by
      simpa using hnone
    rw [hnil]
    rfl

theorem resolveAcl_quiet (huuid : isUuid user.userId = true) (w : World) :
    (resolveAcl user data).run (serve L i) (quiet w) = (aclIn w user data, quiet w) := by
  unfold resolveAcl aclIn
  dsimp only
  cases data.get? "acl" with
  | some acl =>
    dsimp only
    cases explicitAcl (toLowerCase user.userId) acl with
    | error message => rfl
    | ok normalized =>
      simp only [ask_bind, Prog.run_call, serve_quiet, effect, orThrow_ok, Prog.liftM_eq,
        Prog.done_ok_bind, missingIn]
      by_cases hmissing : (normalized.map Prod.fst |>.filter
          fun u => (w.users.find u).isNone).length > 0
      · simp only [hmissing, if_true]
        rfl
      · simp only [hmissing, if_false]
        rfl
  | none =>
    dsimp only
    have hco : ∀ u ∈ coOwnersIn w user, isUuid u = true ∧ toLowerCase u = u ∧
        u ≠ toLowerCase user.userId :=
      fun u hu => coOwnerCandidates_mem (List.mem_filter.mp hu).1
    have hnodup : (toLowerCase user.userId :: coOwnersIn w user).Nodup :=
      List.nodup_cons.mpr ⟨fun hmem => (hco _ hmem).2.2 rfl, (coOwnerCandidates_nodup _ _).filter _⟩
    rw [Prog.run_bind_ok (existingCoOwners_quiet w user), ownersAcl_eq hnodup,
      validate_owners (by simp) ?_ hnodup]
    · rfl
    · intro u hu
      rcases List.mem_cons.mp hu with rfl | hu
      · exact ⟨isUuid_toLowerCase huuid, toLowerCase_toLowerCase _⟩
      · exact ⟨(hco u hu).1, (hco u hu).2.1⟩

/-- What the checks of generate-key come to in a world, one after the other. -/
def verdict (w : World) (user : VaultUser) (data : Json) : Except Thrown (KeySpec × AclMap) := do
  let spec ← generateKeySpec user data
  checkTimes data (w.clock / 1000)
  checkReturnPublicKey data spec
  let acl ← aclIn w user data
  return (spec, acl)

def notBefore (data : Json) : Option Nat := (data.get? "nbf").map Json.toNat

def expiresAt (data : Json) : Option Nat := (data.get? "exp").map Json.toNat

/-- The run after the verdict. -/
def settle (cfg : Config) (data : Json) : Except Thrown (KeySpec × AclMap) → Api HandlerResult
  | .error e => throw e
  | .ok (spec, acl) => do
    let generated ← generate cfg spec acl (notBefore data) (expiresAt data)
    return generateKeyResult data acl generated

theorem generateKey_quiet (cfg : Config) (data : Json)
    (huuid : isUuid user.userId = true) (w : World) :
    (generateKey cfg user data).run (serve L i) (quiet w) =
      (settle cfg data (verdict w user data)).run (serve L i) (quiet w) := by
  unfold generateKey verdict
  cases generateKeySpec user data with
  | error e => rfl
  | ok spec =>
    simp only [Prog.liftM_eq, Prog.done_ok_bind, ask_bind, Prog.run_call, serve_quiet, effect,
      ok_bind]
    cases checkTimes data (w.clock / 1000) with
    | error e => rfl
    | ok _ =>
      simp only [Prog.done_ok_bind, ok_bind]
      cases checkReturnPublicKey data spec with
      | error e => rfl
      | ok _ =>
        simp only [Prog.done_ok_bind, ok_bind]
        have hacl := @resolveAcl_quiet L user data i huuid w
        cases haclIn : aclIn w user data with
        | error e =>
          rw [haclIn] at hacl
          rw [Prog.run_bind_error hacl]
          rfl
        | ok acl =>
          rw [haclIn] at hacl
          rw [Prog.run_bind_ok hacl]
          rfl

/-- The key generator, the active KEK and the database serve this request. -/
structure Working (L : Libraries) (cfg : Config) (w : World) (data : Json) : Prop where
  generators : ∀ row spec, (spec.alg, row) ∈ keygenAlgs → Fits row spec →
    ∀ message, ¬ GeneratorFails L w.seed spec message
  seals : ∀ payload, ∃ token, L.jweEncrypt (w.seed + 1) cfg.kek.active.wrapAlg
    cfg.kek.active.wrapJwk payload none = .ok token
  fresh : ∀ kid, Draws L w.seed kid → w.keys.find kid = none
  range : inRange ((notBefore data).map L.toTimestamp) = true ∧
    inRange ((expiresAt data).map L.toTimestamp) = true

/-- Where everything works, a specification of the matrix becomes a stored key. -/
theorem generate_quiet {w : World} (hw : Working L cfg w data) {spec : KeySpec} {row : AlgRow}
    (hrow : (spec.alg, row) ∈ keygenAlgs) (hfits : Fits row spec) (acl : AclMap) :
    ∃ g token w', generateVaultKey L w.seed spec = .ok g ∧
      (generate cfg spec acl (notBefore data) (expiresAt data)).run (serve L i) (quiet w) =
        (.ok ⟨g.kid, g.kty, g.alg, g.publicKey⟩, quiet w') ∧
      w'.keys.rows = w.keys.rows ++
        [⟨(newKey g acl (notBefore data) (expiresAt data) cfg.kek.active.kid token).toColumns L,
          w.clock, w.clock⟩] := by
  have hgenerates := generates_of_fits (keygenAlgs_wellFormed _ hrow) hfits L w.seed
  cases hg : generateVaultKey L w.seed spec with
  | error message => exact absurd (hgenerates.fails _ hg) (hw.generators row spec hrow hfits _)
  | ok g =>
    have hfree := hw.fresh g.kid (generated_draws hg)
    obtain ⟨token, htoken⟩ := hw.seals (embedClaims g.kid (w.clock / 1000)
      (secondsClaim (notBefore data)) (secondsClaim (expiresAt data)) g.secretKey)
    have hrange : (inRange ((notBefore data).map L.toTimestamp) &&
        inRange ((expiresAt data).map L.toTimestamp)) = true := by
      simp [hw.range.1, hw.range.2]
    have hrun : (generate cfg spec acl (notBefore data) (expiresAt data)).run
        (serve L i) (quiet w) =
        (.ok ⟨g.kid, g.kty, g.alg, g.publicKey⟩, quiet { w with
          seed := w.seed + 1 + 1
          minted := w.minted ++ [(i, g)]
          keys := w.keys.insert ⟨(newKey g acl (notBefore data) (expiresAt data)
            cfg.kek.active.kid token).toColumns L, w.clock, w.clock⟩
          born := w.born ++ [(newKey g acl (notBefore data) (expiresAt data)
            cfg.kek.active.kid token).toColumns L] }) := by
      simp only [generate, storeGenerated, embed, ask_bind, Prog.run_call, serve_quiet, effect, hg,
        orThrow_ok, Prog.liftM_eq, Prog.done_ok_bind, Prog.call_bind, htoken, Prog.pure_eq, newKey,
          VaultKey.toColumns,
        hfree, Option.isSome_none, Bool.false_eq_true, if_false, hrange, if_true]
      rfl
    exact ⟨g, token, _, rfl, hrun, Table.insert_rows (t := w.keys) hfree⟩

/-- An `ApiError` that the registry has for the caller. -/
def Refusal (e : Thrown) : Prop :=
  ∃ errorCode message masked, e = .api errorCode message masked ∧ errorCode ≠ .internalError

theorem refusal_apiError {errorCode : Err} (message : String) (h : errorCode ≠ .internalError) :
    Refusal (.apiError errorCode message) := ⟨errorCode, _, false, rfl, h⟩

theorem rejects_refusal {errorCodes : List Err} {e : Thrown} (h : Rejects data errorCodes e)
    (hcodes : .internalError ∉ errorCodes) : Refusal e := by
  obtain ⟨errorCode, hcode, message, masked, rfl⟩ := h.code
  exact ⟨errorCode, message, masked, rfl, fun heq => hcodes (heq ▸ hcode)⟩

theorem aclIn_error {w : World} {e : Thrown} (h : aclIn w user data = .error e) :
    ∃ message, e = .apiError .invalidAcl message := by
  unfold aclIn at h
  split at h
  · split at h
    · cases h
      exact ⟨_, rfl⟩
    · split at h
      · cases h
        exact ⟨_, rfl⟩
      · cases h
  · cases h

theorem verdict_refusal {w : World} {e : Thrown} (h : verdict w user data = .error e) :
    Refusal e := by
  rcases error_of_bind h with h | ⟨spec, -, h⟩
  · exact rejects_refusal (generateKeySpec_rejects h) (by decide)
  · rcases error_of_bind h with h | ⟨_, -, h⟩
    · exact rejects_refusal (checkTimes_rejects h) (by decide)
    · rcases error_of_bind h with h | ⟨_, -, h⟩
      · exact rejects_refusal (checkReturnPublicKey_rejects h) (by decide)
      · rcases error_of_bind h with h | ⟨acl, -, h⟩
        · obtain ⟨message, rfl⟩ := aclIn_error h
          exact refusal_apiError _ (by decide)
        · cases h

theorem answer_ok_errorCode (op : String) (result : HandlerResult) :
    (answer op (.ok result)).errorCode = none := by
  cases h : result.data <;> simp [answer, Response.errorCode, okBody, literal, h, List.lookup]

theorem answer_error_errorCode (op : String) (f : Failure) :
    (answer op (.error f)).errorCode = some (.num f.errorCode.code) := by
  simp [answer, Response.errorCode, errorBody, literal, List.lookup]

/-- An undisturbed generate-key request: the checks, then the key. -/
theorem dispatch_generate {env : Envelope} (hop : env.request = "generate-key")
    (huuid : isUuid user.userId = true) (w : World) :
    ∃ w', (dispatch L cfg user env).run (serve L i) (quiet w) =
        (.ok (answer env.op (((settle cfg env.data (verdict w user env.data)).run (serve L i)
          (quiet w)).1.mapError caught)), quiet w') ∧
      w'.keys = ((settle cfg env.data (verdict w user env.data)).run (serve L i)
        (quiet w)).2.world.keys := by
  have hrequest : env.request = Operation.generateKey.request := hop
  obtain ⟨w', hrun, hkeys⟩ := dispatch_quiet L cfg user i hrequest w
  have hquiet := generateKey_quiet (L := L) (i := i) cfg env.data huuid w
  refine ⟨w', ?_, ?_⟩
  · rw [hrun, ← hquiet]
    rfl
  · rw [hkeys, ← hquiet]
    rfl

end GenerateKeyRuns
