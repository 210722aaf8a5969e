import KeyVault.GenerateKeyRuns
import KeyVault.Provenance
import KeyVault.Recollection

/-!
# Implicit ACLs of generate-key

Without an ACL in the request the caller and the existing co-owners own the new key. The
caller's `coOwners` can hold anything; it decides who else owns the key, and nothing else.
-/

namespace CoOwners

open JsValue Acl AclNormal KeyGen Errors Programs Interleaving Recollection Vault KeyStore Handlers
  HandlerCalls CallEffects Server GenerateKeyRuns KeyLifecycle Tables

variable {L : Libraries} {cfg : Config} {user user' : VaultUser} {data : Json} {u : String}

/-- `u` is the lower-case form of a UUID in the `coOwners` list. -/
def Listed (userData : Json) (u : String) : Prop :=
  ∃ items text, userData.get? "coOwners" = some (.arr items) ∧ .str text ∈ items ∧
    isUuid text = true ∧ toLowerCase text = u

/-- The ACL gives `owner` to the caller and to the listed users that exist, and nothing to
anybody else. -/
def Implicit (known : String → Prop) (user : VaultUser) (acl : Json) : Prop :=
  ∃ props, acl = .obj props ∧ (keys props).Nodup ∧ ∀ u v, (u, v) ∈ props ↔
    v = .arr [.str "owner"] ∧ (u = toLowerCase user.userId ∨ (Listed user.data u ∧ known u))

theorem listed_candidates (self : String) (userData : Json) :
    u ∈ coOwnerCandidates self userData ↔ Listed userData u ∧ u ≠ self := by
  unfold coOwnerCandidates Listed
  simp only [List.mem_filter, List.mem_eraseDups, List.mem_filterMap]
  constructor
  · rintro ⟨⟨v, hv, htext⟩, hself⟩
    refine ⟨?_, by simpa using hself⟩
    split at hv
    · rename_i items hitems
      cases v with
      | str text =>
        dsimp only at htext
        split at htext
        · rename_i huuid
          cases htext
          exact ⟨items, text, hitems, hv, huuid, rfl⟩
        · cases htext
      | _ => cases htext
    · cases hv
  · rintro ⟨⟨items, text, hitems, hmem, huuid, rfl⟩, hself⟩
    refine ⟨⟨.str text, ?_, ?_⟩, by simpa using hself⟩
    · rw [hitems]
      exact hmem
    · simp only [huuid, if_true]

/-- The owners of an implicit ACL, where these of the candidates are known to exist. -/
def ownersOf (user : VaultUser) (found : List String) : AclMap :=
  (toLowerCase user.userId :: found).map (fun u => (u, [.owner]))

theorem keys_ownersOf (user : VaultUser) (found : List String) :
    (ownersOf user found).map Prod.fst = toLowerCase user.userId :: found := by
  simp [ownersOf, Function.comp_def]

theorem implicit_ownersOf {known : String → Prop} {found : List String} (hnodup : found.Nodup)
    (hfound : ∀ u, u ∈ found ↔
      u ∈ coOwnerCandidates (toLowerCase user.userId) user.data ∧ known u) :
    Implicit known user (toJson (ownersOf user found)) := by
  have hself : toLowerCase user.userId ∉ found := by
    intro hmem
    exact ((listed_candidates _ _).mp ((hfound _).mp hmem).1).2 rfl
  refine ⟨_, rfl, ?_, fun u v => ?_⟩
  · have hkeys : keys ((ownersOf user found).map
        (fun e => (e.1, Json.arr (e.2.map (fun c => .str c.name))))) =
        (ownersOf user found).map Prod.fst := by
      simp [keys, Function.comp_def]
    rw [hkeys, keys_ownersOf]
    exact List.nodup_cons.mpr ⟨hself, hnodup⟩
  · have hlisted : u ∈ found ↔ Listed user.data u ∧ u ≠ toLowerCase user.userId ∧ known u := by
      rw [hfound, listed_candidates, and_assoc]
    simp only [ownersOf, List.map_map, List.mem_map, Function.comp_apply, Prod.mk.injEq,
      List.map_cons, List.map_nil, List.mem_cons]
    constructor
    · rintro (⟨rfl, rfl⟩ | ⟨w, hw, rfl, rfl⟩)
      · exact ⟨rfl, Or.inl rfl⟩
      · obtain ⟨hin, -, hknown⟩ := hlisted.mp hw
        exact ⟨rfl, Or.inr ⟨hin, hknown⟩⟩
    · rintro ⟨rfl, hu⟩
      by_cases heq : u = toLowerCase user.userId
      · exact Or.inl ⟨heq, rfl⟩
      · rcases hu with hu | ⟨hin, hknown⟩
        · exact absurd hu heq
        · exact Or.inr ⟨u, hlisted.mpr ⟨hin, heq, hknown⟩, rfl, rfl⟩

/-- The user table has been asked for these candidates only, and if there are any, it has. -/
structure LookedUp (candidates missing : List String) (told : Told Ans) : Prop where
  only : ∀ userIds answer,
    (⟨.missingUsers userIds, answer⟩ : (c : Call) × Ans c) ∈ told →
      userIds = candidates ∧ answer = .ok missing
  asked : candidates ≠ [] →
    (⟨.missingUsers candidates, .ok missing⟩ : (c : Call) × Ans c) ∈ told

/-- A row is inserted for the owners that one look-up has found. -/
def supported (user : VaultUser) (told : Told Ans) (c : Call) : Prop :=
  ∀ key, c = .insertKey key → ∃ missing,
    LookedUp (coOwnerCandidates (toLowerCase user.userId) user.data) missing told ∧
      key.acl = toJson (ownersOf user
        ((coOwnerCandidates (toLowerCase user.userId) user.data).filter
          (fun u => !missing.contains u)))

section

variable {α : Type} {told : Told Ans} {candidates missing : List String}

theorem LookedUp.hear (h : LookedUp candidates missing told) {c : Call}
    (hc : ∀ userIds, c ≠ .missingUsers userIds) (a : Ans c) :
    LookedUp candidates missing (told.hear c a) := by
  constructor
  · intro userIds answer hmem
    rcases List.mem_cons.mp hmem with heq | hmem
    · cases heq
      exact absurd rfl (hc userIds)
    · exact h.only userIds answer hmem
  · exact fun hne => List.mem_cons_of_mem _ (h.asked hne)

theorem supported_other {c : Call} (hc : ∀ key, c ≠ .insertKey key) : supported user told c :=
  fun key heq => absurd heq (hc key)

theorem supported_aside {p : Api α} (h : p.Calls (fun c => ∀ key, c ≠ .insertKey key)) :
    Prog.Tracks Told.hear (supported user) (fun _ _ => True) told p :=
  Prog.Tracks.of_calls h (fun _ _ hc => supported_other hc) (fun _ _ _ _ => trivial) trivial

/-- The co-owners that exist are the candidates that the one look-up does not miss. -/
theorem existingCoOwners_looks
    (hnone : ∀ userIds answer, (⟨.missingUsers userIds, answer⟩ : (c : Call) × Ans c) ∉ told) :
    Prog.Tracks Told.hear (supported user) (fun told found => ∃ missing,
        LookedUp candidates missing told ∧ found = candidates.filter (fun u => !missing.contains u))
      told (existingCoOwners candidates) := by
  unfold existingCoOwners
  by_cases hlength : candidates.length > 0
  · rw [if_pos hlength]
    refine tracks_ask (supported_other fun _ => nofun) fun answer => ?_
    refine tracks_lift fun missing hmissing => ?_
    obtain rfl : answer = .ok missing := orThrow_eq_ok.mp hmissing
    refine ⟨missing, ⟨?_, fun _ => List.mem_cons_self⟩, rfl⟩
    intro userIds answer hmem
    rcases List.mem_cons.mp hmem with heq | hmem
    · cases heq
      exact ⟨rfl, rfl⟩
    · exact absurd hmem (hnone userIds answer)
  · rw [if_neg hlength]
    have hnil : candidates = [] := by
      simpa using hlength
    refine ⟨[], ⟨fun userIds answer hmem => absurd hmem (hnone userIds answer), ?_⟩, ?_⟩
    · exact fun hne => absurd hnil hne
    · rw [hnil]
      rfl

/-- Validation accepts the caller and the co-owners as they are. -/
theorem validate_ownersOf (huuid : isUuid user.userId = true) {found : List String}
    (hfound : found.Nodup)
    (hcandidates : ∀ u ∈ found, u ∈ coOwnerCandidates (toLowerCase user.userId) user.data) :
    validateAcl (ownersAcl (toLowerCase user.userId) found) = .ok (ownersOf user found) := by
  have hnodup : (toLowerCase user.userId :: found).Nodup := by
    refine List.nodup_cons.mpr ⟨fun hmem => ?_, hfound⟩
    exact (coOwnerCandidates_mem (hcandidates _ hmem)).2.2 rfl
  rw [ownersAcl_eq hnodup]
  refine validate_owners (by simp) ?_ hnodup
  intro u hu
  rcases List.mem_cons.mp hu with rfl | hu
  · exact ⟨isUuid_toLowerCase huuid, toLowerCase_toLowerCase _⟩
  · obtain ⟨huuid', hlower, -⟩ := coOwnerCandidates_mem (hcandidates u hu)
    exact ⟨huuid', hlower⟩

theorem generateKey_supported (huuid : isUuid user.userId = true) (hacl : data.get? "acl" = none) :
    Prog.Tracks Told.hear (supported user) (fun _ _ => True) [] (generateKey cfg user data) := by
  refine tracks_lift fun spec _ => tracks_ask (supported_other fun _ => nofun) fun now => ?_
  refine tracks_lift fun _ _ => tracks_lift fun _ _ => ?_
  refine Prog.Tracks.bind (Q := fun told acl => ∃ missing,
    LookedUp (coOwnerCandidates (toLowerCase user.userId) user.data) missing told ∧
      acl = ownersOf user ((coOwnerCandidates (toLowerCase user.userId) user.data).filter
        (fun u => !missing.contains u))) ?_ fun told acl hlooked => ?_
  · simp only [resolveAcl, hacl]
    refine (existingCoOwners_looks ?_).bind fun told found hfound => ?_
    · intro userIds answer hmem
      cases List.mem_singleton.mp hmem
    · obtain ⟨missing, hlooked, rfl⟩ := hfound
      rw [validate_ownersOf huuid ((coOwnerCandidates_nodup _ _).filter _)
        fun u hu => (List.mem_filter.mp hu).1]
      exact ⟨missing, hlooked, rfl⟩
  · obtain ⟨missing, hlooked, rfl⟩ := hlooked
    refine Prog.Tracks.bind (Q := fun _ _ => True) ?_ fun _ _ _ => trivial
    refine tracks_ask (supported_other fun _ => nofun) fun answer => tracks_lift fun g _ => ?_
    have hdrawn := hlooked.hear (c := .generateVaultKey spec) (fun _ => nofun) answer
    refine tracks_ask (supported_other fun _ => nofun) fun now => ?_
    have htimed := hdrawn.hear (c := .dateNow) (fun _ => nofun) now
    refine Prog.Tracks.bind (Q := fun told _ =>
      LookedUp (coOwnerCandidates (toLowerCase user.userId) user.data) missing told) ?_
      fun told embedded hlooked' => ?_
    · refine tracks_ask (supported_other fun _ => nofun) fun token => tracks_lift fun _ _ => ?_
      refine htimed.hear ?_ token
      rintro userIds ⟨⟩
    · refine tracks_ask ?_ fun _ => tracks_lift fun _ _ => trivial
      intro key heq
      cases heq
      exact ⟨missing, hlooked', rfl⟩

theorem dispatch_supported {env : Envelope} (hrequest : env.request = "generate-key")
    (huuid : isUuid user.userId = true) (hacl : env.data.get? "acl" = none) :
    Prog.Tracks Told.hear (supported user) (fun _ _ => True) [] (dispatch L cfg user env) := by
  have hfound : lookupHandler L cfg env.request =
      some (fun user data => handler L cfg user data .generateKey) := by
    rw [hrequest]
    exact Dispatch.lookupHandler_request .generateKey
  have hrespond := @Processes.respond_calls user env (fun c => ∀ key, c ≠ .insertKey key)
    fun _ _ _ => nofun
  simp only [dispatch, hfound]
  exact (generateKey_supported huuid hacl).attempt.bind fun told r _ =>
    supported_aside (hrespond _)

end

/-- Thread `i` has looked users up, and the table had this one. -/
def Found (i : ThreadId) (pre : List (Entry Ans World)) (u : String) : Prop :=
  ∃ e ∈ pre, e.thread = i ∧ (∃ userIds, e.call = .missingUsers userIds) ∧
    (e.before.users.find u).isSome = true

/-- The answer of a look-up that has not failed. -/
theorem missing_answer {i : ThreadId} {t : Turn} {userIds missing : List String} {w : World}
    (h : (perform L i t (.missingUsers userIds) w).1 = .ok missing) :
    missing = userIds.filter (fun u => (w.users.find u).isNone) := by
  rw [perform_answered h (fun _ => nofun)] at h
  exact (Except.ok.inj h).symm

/-- Among the candidates exactly those that the table has are not missing. -/
theorem not_missing {candidates : List String} (hu : u ∈ candidates) (w : World) :
    (!(candidates.filter (fun u => (w.users.find u).isNone)).contains u) = true ↔
      (w.users.find u).isSome = true := by
  simp only [List.contains_eq_mem, List.mem_filter, hu, true_and]
  cases w.users.find u <;> simp

/-- Whatever else is going on, generate-key inserts a row with the implicit ACL. -/
theorem inserted_implicit {activities : ThreadId → Activity} {w : World} {schedule : Schedule Turn}
    {i : ThreadId} {env : Envelope} (hact : activities i = .operation cfg user env)
    (hrequest : env.request = "generate-key") (hacl : env.data.get? "acl" = none)
    (huuid : isUuid user.userId = true) {pre post : List (Entry Ans World)} {e : Entry Ans World}
    {key : VaultKey} (htrace : (runs L activities w schedule).state.trace = pre ++ e :: post)
    (hthread : e.thread = i) (hcall : e.call = .insertKey key) :
    Implicit (Found i pre) user key.acl := by
  have hlinked := runs_linked L activities w schedule
  subst hthread
  have hprogram : Prog.Tracks Told.hear (supported user) (fun _ _ => True) []
      ((activities e.thread).program L) := by
    rw [hact]
    exact (dispatch_supported hrequest huuid hacl).bind fun _ _ _ => trivial
  obtain ⟨missing, hlooked, heq⟩ := started_tracks hprogram htrace key hcall
  -- what a look-up of the thread has answered decides which candidates are missing
  have hanswered : ∀ e' ∈ pre, e'.thread = e.thread → (∃ userIds, e'.call = .missingUsers userIds) →
      missing = (coOwnerCandidates (toLowerCase user.userId) user.data).filter
        (fun u => (e'.before.users.find u).isNone) := by
    rintro ⟨j, c, answer, before, after⟩ hmem hj ⟨userIds, rfl⟩
    have htold : (⟨.missingUsers userIds, answer⟩ : (c : Call) × Ans c) ∈
        toldOf (own e.thread pre) := mem_toldOf.mpr ⟨_, mem_own.mpr ⟨hmem, hj⟩, rfl⟩
    obtain ⟨rfl, rfl⟩ := hlooked.only userIds answer htold
    obtain ⟨t, ht⟩ := hlinked.mem (by rw [htrace]; exact List.mem_append_left _ hmem)
    exact missing_answer (congrArg Prod.fst ht)
  rw [heq]
  refine implicit_ownersOf ((coOwnerCandidates_nodup _ _).filter _) fun u => ?_
  rw [List.mem_filter]
  refine and_congr_right fun hu => ?_
  constructor
  · intro hfound
    have hne : coOwnerCandidates (toLowerCase user.userId) user.data ≠ [] :=
      List.ne_nil_of_mem hu
    obtain ⟨x, hx, hsame⟩ := mem_toldOf.mp (hlooked.asked hne)
    obtain ⟨hmem, hown⟩ := mem_own.mp hx
    have hlook : ∃ userIds, x.call = .missingUsers userIds := ⟨_, congrArg Sigma.fst hsame⟩
    refine ⟨x, hmem, hown, hlook, ?_⟩
    rw [hanswered x hmem hown hlook] at hfound
    exact (not_missing hu x.before).mp hfound
  · rintro ⟨x, hmem, hown, hlook, hsome⟩
    rw [hanswered x hmem hown hlook]
    exact (not_missing hu x.before).mpr hsome

/-- The callers differ in nothing but their co-owners. -/
structure ButCoOwners (user user' : VaultUser) : Prop where
  userId : user'.userId = user.userId
  plain : user'.data.isPlainObject = user.data.isPlainObject
  others : ∀ name, name ≠ "coOwners" → user'.data.get? name = user.data.get? name

theorem ButCoOwners.spec (h : ButCoOwners user user') (data : Json) :
    generateKeySpec user' data = generateKeySpec user data := by
  have hmask : userAllowedOps user'.data = userAllowedOps user.data := by
    simp only [userAllowedOps, h.plain, h.others "allowedOps" (by decide)]
  simp only [generateKeySpec, allowedOpsAllows, hmask]

/-- The checks of generate-key that come before its ACL. -/
def checked (w : World) (user : VaultUser) (data : Json) : Except Thrown KeySpec := do
  let spec ← generateKeySpec user data
  checkTimes data (w.clock / 1000)
  checkReturnPublicKey data spec
  return spec

theorem verdict_implicit (w : World) (user : VaultUser) (hacl : data.get? "acl" = none) :
    verdict w user data = (checked w user data).map (fun spec =>
      (spec, ownersOf user (coOwnersIn w user))) := by
  have hok : aclIn w user data = .ok (ownersOf user (coOwnersIn w user)) := by
    simp only [aclIn, hacl]
    rfl
  simp only [verdict, checked, hok]
  cases generateKeySpec user data with
  | error e => rfl
  | ok spec =>
    simp only [ok_bind]
    cases checkTimes data (w.clock / 1000) with
    | error e => rfl
    | ok _ => cases checkReturnPublicKey data spec <;> rfl

variable {i : ThreadId} {env : Envelope}

/-- The ACL has no say in whether a key is stored, and is stored as it is. -/
theorem generate_acl (L : Libraries) (cfg : Config) (i : ThreadId) (w : World) (spec : KeySpec)
    (nbf exp : Option Nat) (acl acl' : AclMap) :
    ((generate cfg spec acl nbf exp).run (serve L i) (quiet w)).1 =
        ((generate cfg spec acl' nbf exp).run (serve L i) (quiet w)).1 ∧
      ∀ g, ((generate cfg spec acl nbf exp).run (serve L i) (quiet w)).1 = .ok g →
        ∃ row, ((generate cfg spec acl nbf exp).run (serve L i) (quiet w)).2.world.keys.rows =
          w.keys.rows ++ [row] ∧ row.acl = toJson acl := by
  simp only [generate, storeGenerated, embed, ask_bind, Prog.run_call, serve_quiet, effect]
  cases hg : generateVaultKey L w.seed spec with
  | error message =>
    constructor
    · rfl
    · rintro g ⟨⟩
  | ok g =>
    simp only [orThrow_ok, Prog.liftM_eq, Prog.done_ok_bind, Prog.call_bind, Prog.run_call,
      serve_quiet, effect]
    cases htoken : L.jweEncrypt (w.seed + 1) cfg.kek.active.wrapAlg cfg.kek.active.wrapJwk
        (embedClaims g.kid (w.clock / 1000) (secondsClaim nbf) (secondsClaim exp) g.secretKey)
        none with
    | error message =>
      constructor
      · rfl
      · rintro g' ⟨⟩
    | ok token =>
      simp only [orThrow_ok, Prog.done_ok_bind, Prog.run_call, serve_quiet, effect, newKey,
        VaultKey.toColumns, Prog.pure_eq]
      cases hfind : w.keys.find g.kid with
      | some row =>
        constructor
        · rfl
        · rintro g' ⟨⟩
      | none =>
        by_cases hrange :
            (inRange (nbf.map L.toTimestamp) && inRange (exp.map L.toTimestamp)) = true
        · simp only [Option.isSome_none, Bool.false_eq_true, if_false, hrange, if_true]
          constructor
          · rfl
          · intro g' _
            exact ⟨_, Table.insert_rows (t := w.keys) hfind, rfl⟩
        · simp only [Option.isSome_none, Bool.false_eq_true, if_false, hrange]
          constructor
          · trivial
          · rintro g' ⟨⟩

/-- The response of a request without an ACL, whoever is to own the key. -/
def implicitResponse (L : Libraries) (cfg : Config) (user : VaultUser) (env : Envelope)
    (i : ThreadId) (w : World) : Response :=
  answer env.op (((settle cfg env.data ((checked w user env.data).map (fun spec => (spec, [])))).run
    (serve L i) (quiet w)).1.mapError caught)

/-- Two settlements that differ in the ACL are answered alike, and the ACL is stored. -/
theorem settle_acl (L : Libraries) (cfg : Config) (i : ThreadId) (w : World) (op : String)
    (data : Json) (spec : KeySpec) (acl acl' : AclMap) :
    answer op (((settle cfg data (.ok (spec, acl))).run (serve L i) (quiet w)).1.mapError caught) =
        answer op (((settle cfg data (.ok (spec, acl'))).run (serve L i) (quiet w)).1.mapError
          caught) ∧
      ∀ result, ((settle cfg data (.ok (spec, acl))).run (serve L i) (quiet w)).1 = .ok result →
        ∃ row, ((settle cfg data (.ok (spec, acl))).run (serve L i) (quiet w)).2.world.keys.rows =
          w.keys.rows ++ [row] ∧ row.acl = toJson acl := by
  obtain ⟨hsame, hstored⟩ := generate_acl L cfg i w spec (notBefore data) (expiresAt data) acl acl'
  simp only [settle, Prog.run_bind]
  generalize (generate cfg spec acl (notBefore data) (expiresAt data)).run (serve L i) (quiet w) = p
    at hsame hstored
  generalize (generate cfg spec acl' (notBefore data) (expiresAt data)).run
    (serve L i) (quiet w) = p'
    at hsame
  obtain ⟨r, s⟩ := p
  obtain ⟨r', s'⟩ := p'
  obtain rfl : r = r' := hsame
  cases r with
  | error e =>
    constructor
    · rfl
    · rintro result ⟨⟩
  | ok g =>
    constructor
    · rfl
    · exact fun result _ => hstored g rfl

theorem coOwnersIn_implicit (w : World) (user : VaultUser) :
    Implicit (fun u => (w.users.find u).isSome = true) user
      (toJson (ownersOf user (coOwnersIn w user))) :=
  implicit_ownersOf ((coOwnerCandidates_nodup _ _).filter _) fun _ => List.mem_filter

theorem implicit_run (hrequest : env.request = "generate-key") (hacl : env.data.get? "acl" = none)
    (huuid : isUuid user.userId = true) (i : ThreadId) (w : World) :
    ∃ w', (dispatch L cfg user env).run (serve L i) (quiet w) =
        (.ok (implicitResponse L cfg user env i w), quiet w') ∧
      ((implicitResponse L cfg user env i w).isOk → ∃ row, w'.keys.rows = w.keys.rows ++ [row] ∧
        Implicit (fun u => (w.users.find u).isSome = true) user row.acl) := by
  obtain ⟨w', hrun, hkeys⟩ := @dispatch_generate L cfg user i env hrequest huuid w
  rw [verdict_implicit w user hacl] at hrun hkeys
  refine ⟨w', ?_, ?_⟩
  · rw [hrun, implicitResponse]
    cases checked w user env.data with
    | error e => rfl
    | ok spec =>
      have hsame := (settle_acl L cfg i w env.op env.data spec (ownersOf user (coOwnersIn w user))
        []).1
      simp only [Except.map]
      rw [hsame]
  · intro hok
    rw [hkeys]
    unfold implicitResponse at hok
    cases hchecked : checked w user env.data with
    | error e =>
      rw [hchecked] at hok
      obtain ⟨_, ⟨⟩⟩ := (Dispatch.answer_ok_iff _ _).mp hok
    | ok spec =>
      obtain ⟨hsame, hstored⟩ := settle_acl L cfg i w env.op env.data spec
        (ownersOf user (coOwnersIn w user)) []
      rw [hchecked] at hok
      simp only [Except.map] at hok ⊢
      rw [← hsame] at hok
      obtain ⟨result, hresult⟩ := (Dispatch.answer_ok_iff _ _).mp hok
      cases hsettle : ((settle cfg env.data (.ok (spec, ownersOf user (coOwnersIn w user)))).run
          (serve L i) (quiet w)).1 with
      | error e =>
        rw [hsettle] at hresult
        cases hresult
      | ok result' =>
        obtain ⟨row, hrows, hrow⟩ := hstored result' hsettle
        refine ⟨row, hrows, ?_⟩
        rw [hrow]
        exact coOwnersIn_implicit w user

/-- The implicit ACL depends on which users are listed, and on nothing else. -/
theorem Implicit.unique {known : String → Prop} {acl acl' : Json} (h : Implicit known user acl)
    (h' : Implicit known user' acl') (hid : user'.userId = user.userId)
    (hlisted : ∀ u, Listed user'.data u ↔ Listed user.data u) (u : String) :
    acl'.get? u = acl.get? u := by
  obtain ⟨props, rfl, hnodup, hmem⟩ := h
  obtain ⟨props', rfl, hnodup', hmem'⟩ := h'
  have hsame : ∀ v, (u, v) ∈ props' ↔ (u, v) ∈ props := by
    intro v
    rw [hmem, hmem', hid, hlisted]
  simp only [get?_obj]
  cases hlookup : props.lookup u with
  | some v => exact lookup_of_mem hnodup' ((hsame v).mpr (JsValue.lookup_mem hlookup))
  | none =>
    cases hlookup' : props'.lookup u with
    | none => rfl
    | some v =>
      have hfound := lookup_of_mem hnodup ((hsame v).mp (JsValue.lookup_mem hlookup'))
      rw [hlookup] at hfound
      cases hfound

/-- Without an ACL in the request the key is stored with the implicit ACL: in every run
with the owners that the request has found, and undisturbed with those that exist; no
`coOwners` changes the response, and the ACL depends only on the set of listed users. -/
theorem implicit_acl (L : Libraries) (cfg : Config) (user : VaultUser) (env : Envelope)
    (hrequest : env.request = "generate-key") (hacl : env.data.get? "acl" = none)
    (huuid : isUuid user.userId = true) :
    (∀ (activities : ThreadId → Activity) (w : World) (schedule : Schedule Turn) (i : ThreadId),
      activities i = .operation cfg user env → ∀ pre e post key,
        (runs L activities w schedule).state.trace = pre ++ e :: post → e.thread = i →
          e.call = .insertKey key → Implicit (Found i pre) user key.acl) ∧
    ∀ (i : ThreadId) (w : World), ∃ r w',
      (dispatch L cfg user env).run (serve L i) (quiet w) = (.ok r, quiet w') ∧
      (r.isOk → ∃ row, w'.keys.rows = w.keys.rows ++ [row] ∧
        Implicit (fun u => (w.users.find u).isSome = true) user row.acl) ∧
      ∀ user', ButCoOwners user user' → ∃ w'',
        (dispatch L cfg user' env).run (serve L i) (quiet w) = (.ok r, quiet w'') ∧
        ((∀ u, Listed user'.data u ↔ Listed user.data u) → r.isOk → ∃ row row',
          w'.keys.rows = w.keys.rows ++ [row] ∧ w''.keys.rows = w.keys.rows ++ [row'] ∧
            ∀ u, row'.acl.get? u = row.acl.get? u) := by
  constructor
  · intro activities w schedule i hact pre e post key htrace hthread hcall
    exact inserted_implicit hact hrequest hacl huuid htrace hthread hcall
  · intro i w
    obtain ⟨w', hrun, hstored⟩ := @implicit_run L cfg user env hrequest hacl huuid i w
    refine ⟨_, w', hrun, hstored, fun user' hbut => ?_⟩
    have hid : user'.userId = user.userId := hbut.userId
    have huuid' : isUuid user'.userId = true := by
      rw [hid]
      exact huuid
    obtain ⟨w'', hrun', hstored'⟩ := @implicit_run L cfg user' env hrequest hacl huuid' i w
    have hsame : implicitResponse L cfg user' env i w = implicitResponse L cfg user env i w := by
      simp only [implicitResponse, checked, hbut.spec]
    rw [hsame] at hrun' hstored'
    refine ⟨w'', hrun', fun hlisted hok => ?_⟩
    obtain ⟨row, hrows, hrow⟩ := hstored hok
    obtain ⟨row', hrows', hrow'⟩ := hstored' hok
    exact ⟨row, row', hrows, hrows', fun u => hrow.unique hrow' hid hlisted u⟩

/-- Alice lists Bob twice, herself, a user who does not exist, and what is no UUID. -/
def sharing : VaultUser := { Fixtures.alice with
  data := .obj [("coOwners", .arr [.str "B0B00000-0000-4000-8000-000000000002", .num 7,
    .str Fixtures.aliceId, .str "nobody", .str "d00d0000-0000-4000-8000-000000000003",
    .str Fixtures.bobId])] }

def sharedWorld : World :=
  { fresh 0 with users := (Table.empty.insert sharing).insert Fixtures.bob }

def sharedEnvelope : Envelope := Fixtures.generating [("alg", .str "A128KW")]

theorem sharing_implicit :
    ((dispatch Fixtures.obliging Fixtures.config sharing sharedEnvelope).run
        (serve Fixtures.obliging 0) (quiet sharedWorld)).2.world.keys.rows.map
          (fun row => row.acl) =
      [.obj [(Fixtures.aliceId, .arr [.str "owner"]), (Fixtures.bobId, .arr [.str "owner"])]] ∧
    ∃ r w', (dispatch Fixtures.obliging Fixtures.config sharing sharedEnvelope).run
        (serve Fixtures.obliging 0) (quiet sharedWorld) = (.ok r, quiet w') ∧
      (r.isOk → ∃ row, w'.keys.rows = sharedWorld.keys.rows ++ [row] ∧
        Implicit (fun u => (sharedWorld.users.find u).isSome = true) sharing row.acl) := by
  obtain ⟨-, hquiet⟩ :=
    implicit_acl Fixtures.obliging Fixtures.config sharing sharedEnvelope rfl rfl
    (by decide)
  obtain ⟨r, w', hrun, hstored, -⟩ := hquiet 0 sharedWorld
  exact ⟨by decide +kernel, r, w', hrun, hstored⟩

end CoOwners
