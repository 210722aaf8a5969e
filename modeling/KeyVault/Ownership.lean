import KeyVault.AclInvariant
import KeyVault.AuditTrail
import KeyVault.GenerateKeyRuns

/-!
# Owners that exist

The two tables know nothing of each other. A program writes an ACL only after it has
seen an owner of it in the user table, and remove-user deletes a user without looking
at the ACLs: every key keeps an owner that exists as long as no removed user is the
last one, neither of a stored row nor of an ACL that is on its way.
-/

namespace Ownership

open JsValue Acl AclNormal Errors Programs Interleaving Vault KeyStore Handlers HandlerCalls
  CallEffects ServerAuth Server KvAdmin Processes AclInvariant AuditTrail GenerateKeyRuns Tables

variable {L : Libraries} {cfg : Config} {user : VaultUser} {data : Json} {known : List String}

/-- The ACL lists the user as an owner. -/
def Owns (acl : Json) (u : String) : Prop :=
  ∃ ops, acl.get? u = some (.arr ops) ∧ .str "owner" ∈ ops

def Alive (w : World) (u : String) : Prop := (w.users.find u).isSome = true

/-- The ACL has an owner that exists. -/
def Kept (w : World) (acl : Json) : Prop := ∃ u, Owns acl u ∧ Alive w u

/-- Every row has an owner that exists. -/
def Owned (w : World) : Prop := ∀ row ∈ w.keys.rows, Kept w row.acl

theorem owns_of_validate {submitted : Json} {acl : AclMap} (h : validateAcl submitted = .ok acl)
    {e : String × List OpClass} (he : e ∈ acl) (howner : .owner ∈ e.2) : Owns (toJson acl) e.1 := by
  obtain ⟨props, rfl⟩ := validateAcl_obj h
  obtain ⟨-, hdistinct, rfl, -⟩ := validateAcl_ok_iff.mp h
  have hnodup : (keys ((props.map normalEntry).map
      (fun e => (e.1, Json.arr (e.2.map (fun c => .str c.name)))))).Nodup := by
    simpa [keys, normalEntry, Function.comp_def, CaseDistinct] using hdistinct
  refine ⟨e.2.map (fun c => .str c.name), lookup_of_mem hnodup (List.mem_map_of_mem he), ?_⟩
  exact List.mem_map.mpr ⟨.owner, howner, rfl⟩

/-- The users that an answer shows to exist. -/
def seen : (c : Call) → Ans c → List String
  | .userByTokenHash _, .ok (some user) => [toLowerCase user.userId]
  | .missingUsers userIds, .ok missing => userIds.filter (fun u => !missing.contains u)
  | _, _ => []

def learn (known : List String) (c : Call) (answer : Ans c) : List String := known ++ seen c answer

theorem known_learn {c : Call} {answer : Ans c} {u : String} (h : u ∈ known) :
    u ∈ learn known c answer := List.mem_append_left _ h

theorem seen_all (userIds : List String) : seen (.missingUsers userIds) (.ok []) = userIds := by
  simp [seen]

/-- An owner of the ACL has been seen. -/
def Covered (known : List String) (acl : AclMap) : Prop := ∃ u ∈ known, Owns (toJson acl) u

theorem covered_learn {acl : AclMap} {c : Call} {answer : Ans c} (h : Covered known acl) :
    Covered (learn known c answer) acl := by
  obtain ⟨u, hu, howns⟩ := h
  exact ⟨u, known_learn hu, howns⟩

/-- An ACL that the call writes has an owner among the known users. -/
def vouched (known : List String) : Call → Prop :=
  writesAcl (fun acl => ∃ u ∈ known, Owns acl u)

/-- Every ACL that the program writes has an owner that it has seen before. -/
def Vouches {α : Type} (Q : List String → α → Prop) (known : List String) (p : Api α) : Prop :=
  Prog.Tracks learn vouched Q known p

/-- Calls that write no ACL need no owner, and nothing known is forgotten. -/
theorem vouches_keeping {α : Type} {R : List String → Prop} {p : Api α}
    (h : p.Calls (fun c => keepsAcl c = true))
    (hR : ∀ known (c : Call) (a : Ans c), R known → R (learn known c a)) (hk : R known) :
    Vouches (fun known _ => R known) known p :=
  Prog.Tracks.of_calls h (fun _ _ hc => writesAcl_of_keeps hc) hR hk

theorem vouches_writing_none {α : Type} {p : Api α} (h : p.Calls (fun c => keepsAcl c = true)) :
    Vouches (fun _ _ => True) known p :=
  vouches_keeping h (fun _ _ _ _ => trivial) trivial

theorem existingCoOwners_vouches {self : String} {userData : Json} (hself : self ∈ known) :
    Vouches (fun known coOwners => self ∈ known ∧ (self :: coOwners).Nodup) known
      (existingCoOwners (coOwnerCandidates self userData)) := by
  have hnodup : ∀ keep : String → Bool,
      (self :: (coOwnerCandidates self userData).filter keep).Nodup := by
    intro keep
    refine List.nodup_cons.mpr ⟨fun hmem => ?_, (coOwnerCandidates_nodup _ _).filter _⟩
    exact (coOwnerCandidates_mem (List.mem_filter.mp hmem).1).2.2 rfl
  unfold existingCoOwners
  split
  · exact tracks_ask trivial fun answer => tracks_lift fun missing _ =>
      ⟨known_learn hself, hnodup _⟩
  · exact ⟨hself, List.nodup_singleton self⟩

theorem resolveAcl_vouches (hself : toLowerCase user.userId ∈ known) :
    Vouches Covered known (resolveAcl user data) := by
  unfold resolveAcl
  dsimp only
  cases data.get? "acl" with
  | some acl =>
    dsimp only
    cases hacl : explicitAcl (toLowerCase user.userId) acl with
    | error message => trivial
    | ok normalized =>
      refine tracks_ask trivial fun answer => tracks_lift fun missing hmissing => ?_
      by_cases hlength : missing.length > 0
      · rw [if_pos hlength]
        trivial
      · rw [if_neg hlength]
        obtain rfl : missing = [] := List.eq_nil_of_length_eq_zero (by omega)
        obtain rfl : answer = .ok [] := orThrow_eq_ok.mp hmissing
        obtain ⟨submitted, hvalidate⟩ := explicitAcl_validated hacl
        obtain ⟨props, rfl⟩ := validateAcl_obj hvalidate
        obtain ⟨-, -, -, e, he, howner⟩ := validateAcl_ok_iff.mp hvalidate
        refine ⟨e.1, ?_, owns_of_validate hvalidate he howner⟩
        rw [learn, seen_all]
        exact List.mem_append_right _ (List.mem_map_of_mem he)
  | none =>
    refine (existingCoOwners_vouches hself).bind fun known' coOwners hco => ?_
    obtain ⟨hself', hnodup⟩ := hco
    cases hacl : validateAcl (ownersAcl (toLowerCase user.userId) coOwners) with
    | error message => trivial
    | ok acl =>
      refine ⟨_, hself', ?_⟩
      have hvalidate := hacl
      rw [ownersAcl_eq hnodup] at hvalidate
      obtain ⟨-, -, rfl, -⟩ := validateAcl_ok_iff.mp hvalidate
      have hentry : (toLowerCase user.userId, [OpClass.owner]) ∈
          (owners (toLowerCase user.userId :: coOwners)).map normalEntry := by
        have hcollect : collect [.str "owner"] [] = [.owner] := by decide
        refine List.mem_map.mpr ⟨(toLowerCase user.userId, .arr [.str "owner"]),
          List.mem_map.mpr ⟨_, List.mem_cons_self, rfl⟩, ?_⟩
        simp only [normalEntry, toLowerCase_toLowerCase, hcollect]
      have howns := owns_of_validate hvalidate hentry (List.mem_singleton_self _)
      exact howns

theorem generateKey_vouches (hself : toLowerCase user.userId ∈ known) :
    Vouches (fun _ _ => True) known (generateKey cfg user data) := by
  refine tracks_lift fun spec _ => tracks_ask trivial fun now => ?_
  refine tracks_lift fun _ _ => tracks_lift fun _ _ => ?_
  refine (resolveAcl_vouches (known_learn hself)).bind fun known' acl hacl => ?_
  refine Prog.Tracks.bind (Q := fun _ _ => True) ?_ fun _ _ _ => trivial
  refine tracks_ask trivial fun answer => tracks_lift fun generated _ => ?_
  refine tracks_ask trivial fun now => ?_
  refine Prog.Tracks.bind (vouches_keeping (R := fun known => Covered known acl)
    ((embed_calls _ _ _ _ _ _).mono fun c hc => keepsAcl_of_reads (reads_of_aside c hc))
    (fun _ _ _ => covered_learn) (covered_learn (covered_learn hacl))) fun known''
      embedded hcovered => ?_
  exact tracks_ask hcovered fun _ => tracks_lift fun _ _ => trivial

theorem updateAcl_vouches (o : Opts) :
    Vouches (fun _ _ => True) known (command L o .updateAcl) := by
  refine tracks_lift fun kid _ => tracks_lift fun submitted _ => ?_
  refine tracks_lift fun acl hacl => ?_
  have hvalidate : validateAcl (.obj submitted) = .ok acl := by
    cases hr : validateAcl (.obj submitted) with
    | ok acl' =>
      rw [hr] at hacl
      cases hacl
      rfl
    | error message =>
      rw [hr] at hacl
      cases hacl
  refine tracks_ask trivial fun answer => tracks_lift fun missing hmissing => ?_
  refine tracks_lift fun _ hnone => ?_
  obtain ⟨-, -, -, e, he, howner⟩ := validateAcl_ok_iff.mp hvalidate
  have hcovered : Covered (learn known (.missingUsers (acl.map Prod.fst)) answer) acl := by
    obtain rfl : missing = [] := by
      cases missing with
      | nil => rfl
      | cons u rest => cases hnone
    obtain rfl : answer = .ok [] := orThrow_eq_ok.mp hmissing
    refine ⟨e.1, ?_, owns_of_validate hvalidate he howner⟩
    rw [learn, seen_all]
    exact List.mem_append_right _ (List.mem_map_of_mem he)
  refine tracks_ask trivial fun _ => tracks_lift fun row _ => tracks_lift fun _ _ => ?_
  refine tracks_ask (covered_learn hcovered) fun _ => tracks_lift fun _ _ => ?_
  exact vouches_writing_none (event_calls _ _ _)

/-- A caller who is let in has been seen. -/
theorem authenticate_vouches (req : HttpRequest) (claimedUser : String) :
    Vouches (fun known found => ∀ user, found = some user → toLowerCase user.userId ∈ known) known
      (authenticate L cfg req claimedUser) := by
  unfold authenticate
  dsimp only
  cases bearer (req.authorization.getD "") with
  | none => rintro user ⟨⟩
  | some token =>
    dsimp only
    split
    · rintro user ⟨⟩
    · refine tracks_ask trivial fun answer => tracks_lift fun found hfound => ?_
      obtain rfl : answer = .ok found := orThrow_eq_ok.mp hfound
      cases found with
      | none => rintro user ⟨⟩
      | some user =>
        dsimp only
        split
        · refine tracks_ask trivial fun now user' hadmitted => ?_
          have huser : user = user' := by
            split at hadmitted
            · exact Option.some.inj hadmitted
            · cases hadmitted
          subst huser
          exact known_learn (List.mem_append_right _ (List.mem_singleton_self _))
        · rintro user ⟨⟩

theorem handler_vouches (hself : toLowerCase user.userId ∈ known) (op : Operation) :
    Vouches (fun _ _ => True) known (handler L cfg user data op) := by
  by_cases hop : op = .generateKey
  · subst hop
    exact generateKey_vouches hself
  · refine vouches_writing_none ((handler_calls op).mono fun c hc => ?_)
    rcases hc with hc | ⟨hgen, -⟩ | ⟨-, kid, rfl⟩
    · exact keepsAcl_of_reads hc
    · exact absurd hgen hop
    · rfl

theorem dispatch_vouches {env : Envelope} (hself : toLowerCase user.userId ∈ known) :
    Vouches (fun _ _ => True) known (dispatch L cfg user env) := by
  have hrespond := @respond_calls user env (fun c => keepsAcl c = true) fun _ _ => rfl
  unfold dispatch lookupHandler
  cases Operation.ofRequest env.request with
  | some op =>
    exact (handler_vouches hself op).attempt.bind fun known' r _ =>
      vouches_writing_none (hrespond _)
  | none =>
    dsimp only
    by_cases hproto : objectPrototype.contains env.request = true
    · simp only [hproto, if_true]
      refine vouches_writing_none ?_
      exact (Prog.Calls.attempt (Prog.calls_done _)).bind fun r => hrespond _
    · simp only [hproto]
      trivial

theorem handleRequest_vouches (req : HttpRequest) :
    Vouches (fun _ _ => True) known (handleRequest L cfg req) := by
  cases henv : envelopeOf req with
  | none => exact vouches_writing_none (handleRequest_other henv rfl)
  | some env =>
    rw [handleRequest_envelope henv]
    refine (authenticate_vouches req env.user).bind fun known' found hfound => ?_
    cases found with
    | none => trivial
    | some user => exact dispatch_vouches (hfound user rfl)

theorem command_vouches (o : Opts) (cmd : Command) :
    Vouches (fun _ _ => True) known (command L o cmd) := by
  by_cases hcmd : cmd = .updateAcl
  · subst hcmd
    exact updateAcl_vouches o
  · exact vouches_writing_none (command_keepsAcl o hcmd)

theorem program_vouches (known : List String) (process : Process) :
    Vouches (fun _ _ => True) known (process.program L) := by
  cases process with
  | request cfg req =>
    refine Prog.Tracks.bind (Q := fun _ _ => True) ?_ fun _ _ _ => trivial
    exact (handleRequest_vouches req).tryCatch fun _ _ => trivial
  | admin o cmd => exact (command_vouches o cmd).bind fun _ _ _ => trivial
  | sweep cfg =>
    exact vouches_writing_none
      (Prog.Calls.bind (calls_ask rfl fun _ => Prog.calls_done _) fun _ => trivial)
  | restart =>
    exact vouches_writing_none (Prog.Calls.bind (calls_ask rfl fun _ => trivial) fun _ => trivial)

/-- The user ids are in lower case, as PostgreSQL prints them. -/
def LowerUsers (w : World) : Prop := ∀ u ∈ w.users.rows, toLowerCase u.userId = u.userId

theorem perform_lowerUsers (hL : ∀ n, toLowerCase (L.genRandomUuid n) = L.genRandomUuid n)
    (i : ThreadId) (t : Turn) (c : Call) (w : World) (h : LowerUsers w) :
    LowerUsers (perform L i t c w).2 := by
  rcases perform_cases L i t c w with ⟨_, _, -, -, hp⟩ | hp
  · rw [hp]
    exact h
  rw [hp]
  by_cases hwrites : writesUsers c = false
  · unfold LowerUsers
    rw [effect_users hwrites]
    exact h
  cases c with
  | insertUser data =>
    simp only [effect]
    split
    · exact h
    · intro u hu
      rcases Table.mem_insert hu with rfl | hu
      · exact hL _
      · exact h u hu
  | setUserToken userId hash =>
    simp only [effect]
    split
    · exact h
    · intro u hu
      dsimp only at hu
      rcases Table.mem_update hu with ⟨old, hold, -, rfl⟩ | ⟨hu, -⟩
      · exact h old hold
      · exact h u hu
  | setUserData userId data =>
    intro u hu
    simp only [effect] at hu
    rcases Table.mem_update hu with ⟨old, hold, -, rfl⟩ | ⟨hu, -⟩
    · exact h old hold
    · exact h u hu
  | removeUser userId => exact fun u hu => h u (Table.mem_erase.mp hu).1
  | _ => exact absurd rfl hwrites

/-- The user that an answered call has removed. -/
def removed : (c : Call) → Ans c → Option String
  | .removeUser userId, .ok true => some userId
  | _, _ => none

theorem removed_of_written {c : Call} {answer : Ans c} {acl : Json}
    (h : written c answer = some acl) : removed c answer = none := by
  cases c <;> first | rfl | cases h

/-- Users disappear only through remove-user. -/
theorem perform_alive {i : ThreadId} {t : Turn} {c : Call} {w : World} {u : String}
    (h : Alive w u) (hremoved : removed c (perform L i t c w).1 ≠ some u) :
    Alive (perform L i t c w).2 u := by
  rcases perform_cases L i t c w with ⟨_, _, -, -, hp⟩ | hp
  · rw [hp]
    exact h
  rw [hp] at hremoved ⊢
  by_cases hwrites : writesUsers c = false
  · unfold Alive
    rw [effect_users hwrites]
    exact h
  cases c with
  | insertUser data =>
    simp only [effect]
    split
    · exact h
    · rename_i hnew
      unfold Alive
      dsimp only
      by_cases hu : u = L.genRandomUuid (w.tick t.elapsed).seed
      · exact absurd (hu ▸ h) hnew
      · have hother : ((w.tick t.elapsed).users.insert
            ⟨L.genRandomUuid (w.tick t.elapsed).seed, none, data⟩).find u = _ :=
              Table.find_insert_ne hu
        rw [hother]
        exact h
  | setUserToken userId hash =>
    simp only [effect]
    split
    · exact h
    · unfold Alive
      by_cases hu : u = userId
      · rw [hu, Table.find_update_self, Option.isSome_map]
        exact hu ▸ h
      · rw [Table.find_update_ne _ _ _ hu]
        exact h
  | setUserData userId data =>
    unfold Alive
    simp only [effect]
    by_cases hu : u = userId
    · rw [hu, Table.find_update_self, Option.isSome_map]
      exact hu ▸ h
    · rw [Table.find_update_ne _ _ _ hu]
      exact h
  | removeUser userId =>
    by_cases hu : u = userId
    · subst hu
      refine absurd ?_ hremoved
      have hfound : ((w.tick t.elapsed).users.find u).isSome = true := h
      simp only [effect, hfound, removed]
    · unfold Alive
      simp only [effect]
      rw [Table.find_erase_ne _ hu]
      exact h
  | _ => exact absurd rfl hwrites

/-- A user that an answer shows to exist does exist. -/
theorem seen_alive {i : ThreadId} {t : Turn} {c : Call} {w : World} (hlower : LowerUsers w)
    {u : String} (h : u ∈ seen c (perform L i t c w).1) : Alive w u := by
  rcases perform_cases L i t c w with ⟨message, answer, -, hfails, hp⟩ | hp
  · rw [hp] at h
    cases c <;> first | cases h | (cases hfails; cases h)
  rw [hp] at h
  cases c with
  | userByTokenHash hash =>
    simp only [effect] at h
    cases hfind : (w.tick t.elapsed).users.rows.find? (fun u => u.authToken == some hash) with
    | none => rw [hfind] at h; cases h
    | some user =>
      rw [hfind] at h
      obtain rfl := List.mem_singleton.mp h
      have hmem : user ∈ w.users.rows := List.mem_of_find?_eq_some hfind
      unfold Alive
      rw [hlower user hmem, Table.find_of_mem hmem]
      rfl
  | missingUsers userIds =>
    simp only [effect, seen] at h
    obtain ⟨hmem, hnot⟩ := List.mem_filter.mp h
    by_contra hdead
    have hnone : ((w.tick t.elapsed).users.find u).isNone = true :=
      Option.isNone_iff_eq_none.mpr (Option.not_isSome_iff_eq_none.mp hdead)
    have hmissing : (userIds.filter
        (fun u => ((w.tick t.elapsed).users.find u).isNone)).contains u = true :=
      List.contains_iff_mem.mpr (List.mem_filter.mpr ⟨hmem, hnone⟩)
    rw [hmissing] at hnot
    cases hnot
  | _ => cases h

theorem seen_reads {c : Call} {answer : Ans c} {u : String} (h : u ∈ seen c answer) : reads c := by
  cases c <;> first | exact ⟨rfl, rfl, rfl⟩ | cases h

/-- The ACL has an owner that exists besides the user, if the user owns it at all. -/
def Spared (w : World) (u : String) (acl : Json) : Prop :=
  Owns acl u → ∃ v, v ≠ u ∧ Owns acl v ∧ Alive w v

/-- No removal takes the last owner that exists, neither of a stored row nor of an ACL
that a program has looked up an owner of and writes later. -/
structure SafeRemovals (trace : List (Entry Ans World)) : Prop where
  stored : ∀ e ∈ trace, ∀ u, removed e.call e.answer = some u →
    ∀ row ∈ e.before.keys.rows, Spared e.before u row.acl
  underway : ∀ pre e post, trace = pre ++ e :: post → ∀ u, removed e.call e.answer = some u →
    ∀ f ∈ post, ∀ acl, written f.call f.answer = some acl →
      (∃ g ∈ pre, g.thread = f.thread ∧ ∃ v ∈ seen g.call g.answer, Owns acl v) →
      Spared e.before u acl

/-- One call takes no owner from an ACL that its removal spares. -/
theorem entry_kept {e : Entry Ans World} {t : Turn}
    (hstep : perform L e.thread t e.call e.before = (e.answer, e.after)) {acl : Json}
    (hspared : ∀ u, removed e.call e.answer = some u → Spared e.before u acl)
    (h : Kept e.before acl) : Kept e.after acl := by
  have hanswer : (perform L e.thread t e.call e.before).1 = e.answer := by rw [hstep]
  have hafter : (perform L e.thread t e.call e.before).2 = e.after := by rw [hstep]
  obtain ⟨u, howns, halive⟩ := h
  rw [← hafter]
  by_cases hremoved : removed e.call e.answer = some u
  · obtain ⟨v, hne, hv, hvalive⟩ := hspared u hremoved howns
    refine ⟨v, hv, perform_alive hvalive ?_⟩
    rw [hanswer, hremoved]
    exact fun heq => hne (Option.some.inj heq).symm
  · exact ⟨u, howns, perform_alive halive (hanswer ▸ hremoved)⟩

/-- What a thread has learned it has seen in one of its entries. -/
theorem learned_seen {es : List (Entry Ans World)} {u : String}
    (h : u ∈ es.foldl (fun known e => learn known e.call e.answer) known) :
    u ∈ known ∨ ∃ g ∈ es, u ∈ seen g.call g.answer := by
  induction es generalizing known with
  | nil => exact Or.inl h
  | cons e rest ih =>
    rcases ih h with hlearn | ⟨g, hg, hseen⟩
    · rcases List.mem_append.mp hlearn with hknown | hseen
      · exact Or.inl hknown
      · exact Or.inr ⟨e, List.mem_cons_self, hseen⟩
    · exact Or.inr ⟨g, List.mem_cons_of_mem _ hg, hseen⟩

/-- When an ACL is written, one of its owners still exists. -/
theorem write_kept {w w' : World} {trace : List (Entry Ans World)}
    (hlinked : Linked (perform L) w trace w')
    (hlower : ∀ e ∈ trace, LowerUsers e.before ∧ LowerUsers e.after) (hsafe : SafeRemovals trace)
    {pre post : List (Entry Ans World)} {f : Entry Ans World} (heq : trace = pre ++ f :: post)
    {acl : Json} (hwritten : written f.call f.answer = some acl)
    (hseen : ∃ g ∈ pre, g.thread = f.thread ∧ ∃ v ∈ seen g.call g.answer, Owns acl v) :
    Kept f.before acl := by
  obtain ⟨g, hg, hthread, v, hv, howns⟩ := hseen
  obtain ⟨pre, mid, rfl⟩ := List.append_of_mem hg
  have htrace : trace = pre ++ g :: (mid ++ f :: post) := by rw [heq]; simp
  rw [htrace] at hlinked
  obtain ⟨⟨t, hstep⟩, hrest⟩ := hlinked.cut
  have hgmem : g ∈ trace := by rw [htrace]; simp
  have halive : Alive g.before v :=
    seen_alive (i := g.thread) (t := t) (hlower g hgmem).1 (by rw [hstep]; exact hv)
  have husers := perform_users (L := L) (i := g.thread) (seen_reads hv).2.1 t g.before
  rw [hstep] at husers
  have hstart : Kept g.after acl := by
    refine ⟨v, howns, ?_⟩
    unfold Alive
    rw [husers]
    exact halive
  obtain ⟨m, hmid, hlast⟩ := hrest.split
  obtain ⟨rfl, -⟩ := hlast
  refine (hmid.carries (Q := fun w => Kept w acl) (fun m₁ e m₂ hcut hkept => ?_) hstart).1
  subst hcut
  obtain ⟨⟨t', hstep'⟩, -⟩ := hmid.cut
  refine entry_kept hstep' (fun u hremoved => ?_) hkept
  refine hsafe.underway (pre ++ g :: m₁) e (m₂ ++ f :: post) ?_ u hremoved f ?_ acl hwritten ?_
  · rw [htrace]
    simp
  · exact List.mem_append_right _ List.mem_cons_self
  · exact ⟨g, List.mem_append_right _ List.mem_cons_self, hthread, v, hv, howns⟩

/-- In every run from the empty vault whose removals take no last owner, every row has an
owner that exists, in every state. -/
theorem owners_exist (L : Libraries)
    (hL : ∀ n, toLowerCase (L.genRandomUuid n) = L.genRandomUuid n)
    (processes : ThreadId → Process) (clock : Nat) (schedule : Schedule Turn)
    (hsafe : SafeRemovals (runs L processes (fresh clock) schedule).state.trace) :
    Owned (runs L processes (fresh clock) schedule).state.now ∧
      ∀ e ∈ (runs L processes (fresh clock) schedule).state.trace, Owned e.before := by
  obtain ⟨hlinked, hmakes⟩ := runs_makes L processes (fresh clock) schedule
  generalize (runs L processes (fresh clock) schedule).state.now = final at hlinked ⊢
  generalize (runs L processes (fresh clock) schedule).state.trace = new at hsafe hlinked hmakes ⊢
  have hlower := hlinked.keeps (fun i t c s => perform_lowerUsers hL i t c s)
    (by intro u hu; cases hu)
  refine hlinked.carries (fun pre f post heq howned row hrow => ?_) (by intro row hrow; cases hrow)
  have hmem : f ∈ new := by rw [heq]; simp
  obtain ⟨t, hstep⟩ := hlinked.mem hmem
  have hafter : (perform L f.thread t f.call f.before).2 = f.after := by rw [hstep]
  rw [← hafter] at hrow
  rcases perform_rows t f.call row hrow with ⟨old, hold, hacl⟩ | hwritten
  · rw [← hacl]
    exact entry_kept hstep (fun u hremoved => hsafe.stored f hmem u hremoved old hold)
      (howned old hold)
  · rw [hstep] at hwritten
    refine entry_kept hstep (fun u hremoved => ?_) ?_
    · rw [removed_of_written hwritten] at hremoved
      cases hremoved
    · refine write_kept hlinked hlower hsafe heq hwritten ?_
      have hmade := hmakes f.thread
      rw [heq, own_append, own_cons_self rfl] at hmade
      have hvouched := hmade.tracks (program_vouches [] (processes f.thread))
      obtain ⟨u, hu, howns⟩ := written_writes hvouched hwritten
      rcases learned_seen hu with hnil | ⟨g, hg, hseen⟩
      · cases hnil
      · obtain ⟨hgmem, hthread⟩ := List.mem_filter.mp hg
        exact ⟨g, hgmem, by simpa using hthread, u, hseen, howns⟩

def alicesGenerate : HttpRequest where
  method := "POST"
  pathname := some "/api/v1"
  contentType := some "application/json"
  authorization := some ("Bearer " ++ Fixtures.aliceId)
  xForwardedFor := none
  remoteAddress := some "127.0.0.1"
  body := .text (some (.obj [("user", .str Fixtures.aliceId), ("op", .str Fixtures.opId),
    ("request", .str "generate-key"), ("data", .obj [("alg", .str "A128KW")])]))

def aliceLeaves : ThreadId → Process
  | 0 => .admin { actor := "root", allowedIP := ["127.0.0.1"] } .addUser
  | 1 => .admin { actor := "root", user := some Fixtures.aliceId } .setToken
  | 2 => .request Fixtures.config alicesGenerate
  | _ => .admin { actor := "root", user := some Fixtures.aliceId } .removeUser

/-- Alice is added, gets a token and generates a key, one after the other. -/
def generating : Schedule Turn :=
  List.replicate 3 (0, ({} : Turn)) ++ List.replicate 6 (1, ({} : Turn)) ++
    List.replicate 8 (2, ({} : Turn))

def leaving : Schedule Turn := generating ++ [(3, ({} : Turn))]

/-- After remove-user the key has an owner that is gone. -/
theorem ownerless :
    ¬ Owned (runs Fixtures.obliging aliceLeaves (fresh 0) leaving).state.now := by
  have hacls : (runs Fixtures.obliging aliceLeaves (fresh 0) leaving).state.now.keys.rows.map
      (fun row => row.acl) = [.obj [(Fixtures.aliceId, .arr [.str "owner"])]] := by decide +kernel
  have husers :
      (runs Fixtures.obliging aliceLeaves (fresh 0) leaving).state.now.users.rows = [] := by
    decide +kernel
  intro howned
  have hmem : Json.obj [(Fixtures.aliceId, .arr [.str "owner"])] ∈
      (runs Fixtures.obliging aliceLeaves (fresh 0) leaving).state.now.keys.rows.map
        (fun row => row.acl) := by
    rw [hacls]
    exact List.mem_singleton_self _
  obtain ⟨row, hrow, -⟩ := List.mem_map.mp hmem
  obtain ⟨u, -, halive⟩ := howned row hrow
  simp only [Alive, Table.find, husers, List.find?_nil] at halive
  cases halive

/-- A single removal is safe when it spares the stored rows and nothing is written after it. -/
theorem safe_of_single {pre post : List (Entry Ans World)} {e : Entry Ans World}
    (hother : ∀ f ∈ pre ++ post, removed f.call f.answer = none)
    (hpost : ∀ f ∈ post, written f.call f.answer = none)
    (hspared : ∀ u, removed e.call e.answer = some u →
      ∀ row ∈ e.before.keys.rows, Spared e.before u row.acl) :
    SafeRemovals (pre ++ e :: post) := by
  have hkeeps : ∀ f ∈ pre ++ post, ∀ u, removed f.call f.answer ≠ some u := by
    intro f hf u hu
    rw [hother f hf] at hu
    cases hu
  constructor
  · intro f hf u hu
    rcases List.mem_append.mp hf with hpre | hrest
    · exact absurd hu (hkeeps f (List.mem_append_left _ hpre) u)
    · rcases List.mem_cons.mp hrest with rfl | hmem
      · exact hspared u hu
      · exact absurd hu (hkeeps f (List.mem_append_right _ hmem) u)
  · intro before f after heq u hu g hg acl hwritten
    -- the removal stands where the trace was cut
    rcases List.append_eq_append_iff.mp heq with ⟨mid, rfl, hmid⟩ | ⟨mid, rfl, hmid⟩
    · cases mid with
      | nil =>
        obtain ⟨-, rfl⟩ := List.cons.inj hmid
        rw [hpost g hg] at hwritten
        cases hwritten
      | cons _ mid =>
        obtain ⟨-, rfl⟩ := List.cons.inj hmid
        exact absurd hu (hkeeps f (by simp) u)
    · cases mid with
      | nil =>
        obtain ⟨-, rfl⟩ := List.cons.inj hmid
        rw [hpost g hg] at hwritten
        cases hwritten
      | cons _ mid =>
        obtain ⟨rfl, -⟩ := List.cons.inj hmid
        exact absurd hu (hkeeps f (by simp) u)

/-- Libraries that name the first user Alice and the next one Bob. -/
def couple : Libraries :=
  { Fixtures.obliging with
    genRandomUuid := fun n => if n = 0 then Fixtures.aliceId else Fixtures.bobId }

/-- Alice generates a key that Bob owns too. -/
def sharedGenerate : HttpRequest :=
  { alicesGenerate with
    body := .text (some (.obj [("user", .str Fixtures.aliceId), ("op", .str Fixtures.opId),
      ("request", .str "generate-key"), ("data", .obj [("alg", .str "A128KW"),
        ("acl", .obj [(Fixtures.aliceId, .arr [.str "owner"]),
          (Fixtures.bobId, .arr [.str "owner"])])])])) }

def bobLeaves : ThreadId → Process
  | 0 => .admin { actor := "root", allowedIP := ["127.0.0.1"] } .addUser
  | 1 => .admin { actor := "root", allowedIP := ["127.0.0.1"] } .addUser
  | 2 => .admin { actor := "root", user := some Fixtures.aliceId } .setToken
  | 3 => .request Fixtures.config sharedGenerate
  | _ => .admin { actor := "root", user := some Fixtures.bobId } .removeUser

/-- Both are added, Alice gets a token and generates the key, and Bob is removed. -/
def parting : Schedule Turn :=
  List.replicate 3 (0, ({} : Turn)) ++ List.replicate 3 (1, ({} : Turn)) ++
    List.replicate 6 (2, ({} : Turn)) ++ List.replicate 8 (3, ({} : Turn)) ++
    List.replicate 2 (4, ({} : Turn))

def partingTrace : List (Entry Ans World) := (runs couple bobLeaves (fresh 0) parting).state.trace

theorem parting_length : 20 < partingTrace.length := by decide +kernel

/-- The entry of the removal. -/
def bobsRemoval : Entry Ans World := partingTrace.get ⟨20, parting_length⟩

theorem parting_safe : SafeRemovals partingTrace := by
  have htrace : partingTrace = partingTrace.take 20 ++ bobsRemoval :: partingTrace.drop 21 := by
    have hdrop : bobsRemoval :: partingTrace.drop 21 = partingTrace.drop 20 :=
      (List.drop_eq_getElem_cons parting_length).symm
    rw [hdrop, List.take_append_drop]
  have hacls : bobsRemoval.before.keys.rows.map (fun row => row.acl) =
      [.obj [(Fixtures.bobId, .arr [.str "owner"]), (Fixtures.aliceId, .arr [.str "owner"])]] := by
    decide +kernel
  have hremoved : removed bobsRemoval.call bobsRemoval.answer = some Fixtures.bobId := by
    decide +kernel
  rw [htrace]
  refine safe_of_single (by decide +kernel) (by decide +kernel) fun u hu row hrow howns => ?_
  rw [hremoved] at hu
  cases hu
  have hacl := List.mem_map_of_mem (f := fun row : KeyRow => row.acl) hrow
  rw [hacls] at hacl
  refine ⟨Fixtures.aliceId, by decide, ⟨[.str "owner"], ?_, List.mem_singleton_self _⟩, ?_⟩
  · rw [List.mem_singleton.mp hacl]
    rfl
  · unfold Alive
    decide +kernel

/-- After Bob has left, the key still has Alice for an owner. -/
theorem owners_exist_parting :
    Owned (runs couple bobLeaves (fresh 0) parting).state.now ∧
      ∀ e ∈ (runs couple bobLeaves (fresh 0) parting).state.trace, Owned e.before := by
  refine owners_exist couple (fun n => ?_) bobLeaves 0 parting parting_safe
  simp only [couple]
  split <;> decide

end Ownership
