import KeyVault.Credentials
import KeyVault.Profiles
import KeyVault.UserWrites

/-!
# Profiles over whole runs

However the commands of administrators are interleaved with requests, sweeps and one
another, the document of every user represents a profile, and what is written is the
profile that was read, as the options change it.
-/

namespace ProfileRuns

open JsValue Acl Errors Programs Interleaving Vault KeyStore Handlers ServerAuth
  KvAdmin AdminOptions
  HandlerCalls CommandCalls AuditTrail Processes UserWrites Profiles

variable {L : Libraries} {processes : ThreadId → Process} {w : World} {schedule : Schedule Turn}
  {o : Opts} {P : Profile} {user : VaultUser} {props : Props}

theorem Says.aside {name : String} {v : Json} (h : Says props P)
    (hname : name ∉ ["allowedIP", "nbf", "exp", "allowedOps", "coOwners", "__proto__"]) :
    Says (setProp props name v) P := by
  have hkept : ∀ other ∈ ["allowedIP", "nbf", "exp", "allowedOps", "coOwners", "__proto__"],
      (setProp props name v).lookup other = props.lookup other := by
    intro other hother
    exact lookup_setProp_ne v (fun heq => hname (heq ▸ hother))
  refine ⟨h.tidy.setProp (fun heq => hname (by rw [heq]; decide)) v, ?_, ?_, ?_, ?_, ?_⟩
  · rw [hkept _ (by decide)]
    exact h.addresses
  · rw [hkept _ (by decide)]
    exact h.notBefore
  · rw [hkept _ (by decide)]
    exact h.expiry
  · rw [hkept _ (by decide)]
    exact h.mask
  · rw [hkept _ (by decide)]
    exact h.coOwners

theorem copyData_told (h : Represents user.data P) : Says (copyData user) P := by
  obtain ⟨props, hdata, htold⟩ := h
  obtain ⟨userId, authToken, data⟩ := user
  cases hdata
  rw [UserUpdates.copyData_tidy htold.tidy]
  exact htold

/-- The time of the token is no part of the profile. -/
theorem stamped_represents (h : Represents user.data P) (now : Nat) :
    Represents (stampedData user now) P :=
  ⟨_, rfl, Says.aside (copyData_told h) (by decide)⟩

theorem edited_represents (ho : Parsed o) (h : Represents user.data P)
    (hedit : editUserData o user = .ok props) :
    ∃ hvalid : Valid o, Represents (.obj props) (P.edited o hvalid) := by
  rw [UserUpdates.editUserData_eq] at hedit
  obtain ⟨hvalid, htold⟩ := edit_told ho (copyData_told h) hedit
  exact ⟨hvalid, props, rfl, htold⟩

/-- The row that a command has read last. -/
def learn : Option (String × VaultUser) → (c : Call) → Ans c → Option (String × VaultUser)
  | _, .userById userId, .ok (some user) => some (userId, user)
  | read, _, _ => read

/-- Documents are written by the commands of administrators, from their options and the
row that was read. -/
def writes (process : Process) (read : Option (String × VaultUser)) : Call → Prop
  | .insertUser data => ∃ o allowedIP now allowedOps, process = .admin o .addUser ∧
      allowedIPFromOpts o = .ok allowedIP ∧ allowedOpsFromOpts o = .ok allowedOps ∧
        data = .obj (newUserData o allowedIP now allowedOps)
  | .setUserData userId data => ∃ o user, o.user = some userId ∧ read = some (userId, user) ∧
      ((∃ now, (process = .admin o .setToken ∨ process = .admin o .revokeToken) ∧
          data = stampedData user now) ∨
        ∃ props, process = .admin o .setUserData ∧ editUserData o user = .ok props ∧
          data = .obj props)
  | _ => True

variable {process : Process} {read : Option (String × VaultUser)}

theorem writes_aside {c : Call} (h : CallEffects.writesUsers c = false) :
    writes process read c := by
  cases c <;> trivial

theorem writes_of_calls {α : Type} {p : Api α}
    (h : p.Calls fun c => CallEffects.writesUsers c = false) :
    Prog.Tracks learn (writes process) (fun _ _ => True) read p :=
  Prog.Tracks.of_calls (R := fun _ => True) h (fun _ _ hc => writes_aside hc)
    (fun _ _ _ _ => trivial)
    trivial

theorem existingUser_writes (userId : String) :
    Prog.Tracks learn (writes process) (fun read user => read = some (userId, user)) read
      (existingUser userId) := by
  refine tracks_ask trivial fun answer => tracks_lift fun found hfound => ?_
  obtain rfl := orThrow_eq_ok.mp hfound
  cases found with
  | none => trivial
  | some user => exact rfl

theorem event_writes (cmd : Command) (fields : Props) (out : Option String) :
    Prog.Tracks learn (writes process) (fun _ _ => True) read
      (event cmd fields >>= fun _ => pure out) := by
  refine Prog.Tracks.bind (Q := fun _ _ => True) (tracks_ask trivial fun answer => ?_)
    fun _ _ _ => trivial
  cases answer <;> trivial

theorem addUser_writes (o : Opts) :
    Prog.Tracks learn (writes (.admin o .addUser)) (fun _ _ => True) read (addUser o) := by
  refine tracks_lift fun allowedIP hip => tracks_ask trivial fun now => ?_
  refine tracks_lift fun allowedOps hops => ?_
  refine tracks_ask ⟨o, allowedIP, _, allowedOps, rfl, hip, hops, rfl⟩ fun _ => ?_
  exact tracks_lift fun userId _ => event_writes _ _ _

theorem setToken_writes (o : Opts) :
    Prog.Tracks learn (writes (.admin o .setToken)) (fun _ _ => True) read (setToken L o) := by
  refine tracks_lift fun userId hgiven =>
    (existingUser_writes userId).bind fun read user hread => ?_
  refine tracks_ask trivial fun token => tracks_ask trivial fun now => ?_
  refine tracks_ask trivial fun answer => tracks_lift fun _ _ => ?_
  refine tracks_ask ⟨o, user, requireOpt_ok hgiven, hread, Or.inl ⟨now, Or.inl rfl, rfl⟩⟩
    fun answer => ?_
  exact tracks_lift fun _ _ => event_writes _ _ _

theorem revokeToken_writes (o : Opts) :
    Prog.Tracks learn (writes (.admin o .revokeToken)) (fun _ _ => True) read (revokeToken o) := by
  refine tracks_lift fun userId hgiven =>
    (existingUser_writes userId).bind fun read user hread => ?_
  refine tracks_ask trivial fun now => tracks_ask trivial fun answer => tracks_lift fun _ _ => ?_
  refine tracks_ask ⟨o, user, requireOpt_ok hgiven, hread, Or.inl ⟨now, Or.inr rfl, rfl⟩⟩
    fun answer => ?_
  exact tracks_lift fun _ _ => event_writes _ _ _

theorem setUserData_writes (o : Opts) :
    Prog.Tracks learn (writes (.admin o .setUserData)) (fun _ _ => True) read (setUserData o) := by
  refine tracks_lift fun userId hgiven =>
    (existingUser_writes userId).bind fun read user hread => ?_
  refine tracks_lift fun props hprops => ?_
  refine tracks_ask ⟨o, user, requireOpt_ok hgiven, hread, Or.inr ⟨props, rfl, hprops, rfl⟩⟩
    fun answer => ?_
  exact tracks_lift fun _ _ => event_writes _ _ _

theorem removeUser_writes (o : Opts) :
    Prog.Tracks learn (writes process) (fun _ _ => True) read (removeUser o) := by
  refine tracks_lift fun userId _ => tracks_ask trivial fun answer =>
    tracks_lift fun removed _ => ?_
  exact tracks_lift fun _ _ => event_writes _ _ _

theorem command_writes (o : Opts) (cmd : Command) :
    Prog.Tracks learn (writes (.admin o cmd)) (fun _ _ => True) read (command L o cmd) := by
  have hasks : ∀ c, asks c = true → CallEffects.writesUsers c = false := by
    intro c hc
    cases c <;> first | rfl | cases hc
  have hevents : ∀ {fields : Props} {c : Call}, c = .recordEvent ("admin:" ++ cmd.name) fields →
      CallEffects.writesUsers c = false := by
    rintro fields _ rfl
    rfl
  cases cmd with
  | addUser => exact addUser_writes o
  | setToken => exact setToken_writes o
  | revokeToken => exact revokeToken_writes o
  | setUserData => exact setUserData_writes o
  | removeUser => exact removeUser_writes o
  | listUsers =>
    refine writes_of_calls ((command_calls o .listUsers).mono fun c hc => ?_)
    rcases hc with hc | ⟨_, hc⟩ | hc
    · exact hasks c hc
    · exact hevents hc
    · cases hc
  | updateAcl =>
    refine writes_of_calls ((command_calls o .updateAcl).mono fun c hc => ?_)
    rcases hc with hc | ⟨_, hc⟩ | ⟨_, _, rfl⟩
    · exact hasks c hc
    · exact hevents hc
    · rfl
  | rewrap =>
    refine writes_of_calls ((command_calls o .rewrap).mono fun c hc => ?_)
    rcases hc with hc | ⟨_, hc⟩ | ⟨_, _, _, _, rfl⟩
    · exact hasks c hc
    · exact hevents hc
    · rfl

theorem program_writes (process : Process) :
    Prog.Tracks learn (writes process) (fun _ _ => True) read (process.program L) := by
  cases process with
  | request cfg req =>
    refine (writes_of_calls (serveRequest_calls (fun c hc => hc.2.1) ?_ req)).bind
      fun _ _ _ => trivial
    intro user env
    exact dispatch_calls (fun op _ => (handler_calls op).mono fun c hc => permitted_users hc)
      fun _ _ => rfl
  | admin o cmd => exact (command_writes o cmd).bind fun _ _ _ => trivial
  | sweep cfg =>
    refine (writes_of_calls (p := KeyStore.sweep cfg) ?_).bind fun _ _ _ => trivial
    exact calls_ask rfl fun _ => Prog.calls_done _
  | restart => exact tracks_ask trivial fun _ => trivial

def lastRead (trace : List (Entry Ans World)) (i : ThreadId) : Option (String × VaultUser) :=
  (own i trace).foldl (fun read e => learn read e.call e.answer) none

theorem lastRead_snoc_self (pre : List (Entry Ans World)) (e : Entry Ans World) :
    lastRead (pre ++ [e]) e.thread = learn (lastRead pre e.thread) e.call e.answer := by
  simp [lastRead, own]

theorem lastRead_snoc_ne {i : ThreadId} (pre : List (Entry Ans World)) {e : Entry Ans World}
    (h : e.thread ≠ i) : lastRead (pre ++ [e]) i = lastRead pre i := by
  have hown : own i [e] = [] := by simp [own, h]
  rw [lastRead, lastRead, own_append, hown, List.append_nil]

theorem learn_some {userId : String} {e : Entry Ans World}
    (h : learn read e.call e.answer = some (userId, user)) :
    Made [e] e.thread (.userById userId) (.ok (some user)) ∨ read = some (userId, user) := by
  obtain ⟨i, c, answer, before, after⟩ := e
  cases c with
  | userById userId' =>
    rcases answer with message | _ | found
    · exact Or.inr h
    · exact Or.inr h
    · cases h
      exact Or.inl ⟨before, after, List.mem_singleton_self _⟩
  | _ => exact Or.inr h

theorem read_stored {i : ThreadId} {t : Turn} {userId : String} {w w' : World}
    (h : perform L i t (.userById userId) w = (.ok (some user), w')) : user ∈ w.users.rows := by
  have hanswer := congrArg Prod.fst h
  rw [CallEffects.perform_answered hanswer (fun _ hf => by cases hf)] at hanswer
  exact Tables.Table.find_mem (t := w.users) (Except.ok.inj hanswer)

/-- Where the profile of a written document comes from. -/
inductive Derives (processes : ThreadId → Process) (pre : List (Entry Ans World)) (i : ThreadId)
    (userId : String) : Profile → Prop
  | added {o : Opts} (h : processes i = .admin o .addUser) (hvalid : Valid (plainly o)) :
      Derives processes pre i userId (Profile.blank.edited (plainly o) hvalid)
  | stamped {o : Opts} {user : VaultUser} {P : Profile}
      (h : processes i = .admin o .setToken ∨ processes i = .admin o .revokeToken)
      (read : Made pre i (.userById userId) (.ok (some user))) (before : Represents user.data P) :
      Derives processes pre i userId P
  | edited {o : Opts} {user : VaultUser} {P : Profile} (h : processes i = .admin o .setUserData)
      (read : Made pre i (.userById userId) (.ok (some user))) (before : Represents user.data P)
      (hvalid : Valid o) : Derives processes pre i userId (P.edited o hvalid)

/-- Every row represents a profile, and so does what the threads have read. -/
structure Represented (trace : List (Entry Ans World)) (w : World) : Prop where
  rows : ∀ row ∈ w.users.rows, ∃ P, Represents row.data P
  read : ∀ i userId user, lastRead trace i = some (userId, user) →
    Made trace i (.userById userId) (.ok (some user)) ∧ ∃ P, Represents user.data P

variable {pre post : List (Entry Ans World)} {e : Entry Ans World}

theorem dataWrite_call {userId : String} {data : Json} (h : dataWrite e = some (userId, data)) :
    e.call = .insertUser data ∨ e.call = .setUserData userId data := by
  obtain ⟨i, c, answer, before, after⟩ := e
  cases c with
  | insertUser data' =>
    cases answer with
    | error message => cases h
    | ok userId' =>
      cases h
      exact Or.inl rfl
  | setUserData userId' data' =>
    rcases answer with message | _ | _
    · cases h
    · cases h
    · cases h
      exact Or.inr rfl
  | setUserToken userId' hash => rcases answer with message | _ | _ <;> cases h
  | removeUser userId' => rcases answer with message | _ | _ <;> cases h
  | _ => cases h

/-- A written document represents what it is derived from. -/
theorem Represented.written (hparsed : ∀ i o cmd, processes i = .admin o cmd → Parsed o)
    (h : Represented pre w) (hwrites : writes (processes e.thread) (lastRead pre e.thread) e.call)
    {userId : String} {data : Json} (hdata : dataWrite e = some (userId, data)) :
    ∃ P, Represents data P ∧ Derives processes pre e.thread userId P := by
  rcases dataWrite_call hdata with hcall | hcall
  · rw [hcall] at hwrites
    obtain ⟨o, allowedIP, now, allowedOps, hprocess, hip, hops, rfl⟩ := hwrites
    obtain ⟨hvalid, htold⟩ := newUserData_told (hparsed _ _ _ hprocess) hip hops now
    exact ⟨_, ⟨_, rfl, htold⟩, .added hprocess hvalid⟩
  · rw [hcall] at hwrites
    obtain ⟨o, user, -, hread, hcases⟩ := hwrites
    obtain ⟨hmade, P, hrep⟩ := h.read _ _ _ hread
    rcases hcases with ⟨now, hprocess, rfl⟩ | ⟨props, hprocess, hedit, rfl⟩
    · exact ⟨P, stamped_represents hrep now, .stamped hprocess hmade hrep⟩
    · obtain ⟨hvalid, hedited⟩ := edited_represents (hparsed _ _ _ hprocess) hrep hedit
      exact ⟨_, hedited, .edited hprocess hmade hrep hvalid⟩

theorem Represented.step {t : Turn} (hparsed : ∀ i o cmd, processes i = .admin o cmd → Parsed o)
    (h : Represented pre e.before)
    (hwrites : writes (processes e.thread) (lastRead pre e.thread) e.call)
    (hstep : perform L e.thread t e.call e.before = (e.answer, e.after)) :
    Represented (pre ++ [e]) e.after where
  rows := by
    intro row hrow
    rcases data_tells L e t hstep row hrow with hdata | ⟨-, old, hold, -, hsame⟩
    · obtain ⟨P, hrep, -⟩ := h.written hparsed hwrites hdata
      exact ⟨P, hrep⟩
    · rw [← hsame]
      exact h.rows old hold
  read := by
    intro i userId user hread
    have hgrow : Made pre i (.userById userId) (.ok (some user)) →
        Made (pre ++ [e]) i (.userById userId) (.ok (some user)) :=
      fun hmade => hmade.mono (List.prefix_append _ _)
    by_cases hi : e.thread = i
    · subst hi
      rw [lastRead_snoc_self] at hread
      rcases learn_some hread with ⟨before, after, hmem⟩ | hread
      · refine ⟨⟨before, after, List.mem_append_right _ hmem⟩, h.rows user ?_⟩
        obtain ⟨i, c, answer, first, last⟩ := e
        cases List.mem_singleton.mp hmem
        exact read_stored hstep
      · obtain ⟨hmade, hrep⟩ := h.read _ _ _ hread
        exact ⟨hgrow hmade, hrep⟩
    · rw [lastRead_snoc_ne pre hi] at hread
      obtain ⟨hmade, hrep⟩ := h.read _ _ _ hread
      exact ⟨hgrow hmade, hrep⟩

theorem runs_writes (h : (runs L processes w schedule).state.trace = pre ++ e :: post) :
    writes (processes e.thread) (lastRead pre e.thread) e.call :=
  started_tracks (program_writes (processes e.thread)) h

/-- Every state is reached with the entries before it. -/
theorem runs_represented (hparsed : ∀ i o cmd, processes i = .admin o cmd → Parsed o)
    (hw : ∀ row ∈ w.users.rows, ∃ P, Represents row.data P) {trace rest : List (Entry Ans World)}
    {w' : World} (htrace : (runs L processes w schedule).state.trace = trace ++ rest)
    (hlinked : Linked (perform L) w trace w') : Represented trace w' := by
  refine hlinked.history (Q := Represented) (fun pre e post heq hperform hpre => ?_) ⟨hw, ?_⟩
  · obtain ⟨t, ht⟩ := hperform
    rw [heq, List.append_assoc, List.cons_append] at htrace
    exact hpre.step hparsed (runs_writes htrace) ht
  · rintro i userId user ⟨⟩

/-- The checks of the server on an account decide as its profile says. -/
structure Decides (user : VaultUser) (P : Profile) : Prop where
  admitted : ∀ clientIp now, admitted user clientIp now = true ↔
    ∃ ip, clientIp = some ip ∧ P.Admits ip now
  allowed : ∀ c, allowedOpsAllows user.data c = true ↔ P.Allows c
  coOwners : ∀ self u, u ∈ coOwnerCandidates self user.data ↔ u ∈ P.coOwners ∧ u ≠ self

theorem represents_decides (h : Represents user.data P) : Decides user P :=
  ⟨admitted_iff h, allowedOpsAllows_iff h, candidates_iff h⟩

/-- In every run every account has a profile, which the checks of the server decide by; and
a written document has the profile of its options for a new user, of the row that was read
for a new or a revoked token, or of that row as the options edit it. -/
theorem profiles_kept (L : Libraries) (processes : ThreadId → Process) (w : World)
    (schedule : Schedule Turn) (hparsed : ∀ i o cmd, processes i = .admin o cmd → Parsed o)
    (hw : ∀ row ∈ w.users.rows, ∃ P, Represents row.data P) :
    let W := runs L processes w schedule
    (∀ row ∈ W.state.now.users.rows, ∃ P, Represents row.data P ∧ Decides row P) ∧
      ∀ pre e post userId data, W.state.trace = pre ++ e :: post →
        dataWrite e = some (userId, data) →
        ∃ P, Represents data P ∧ Derives processes pre e.thread userId P := by
  intro W
  obtain ⟨hlinked, -⟩ := runs_makes L processes w schedule
  constructor
  · intro row hrow
    have hend := runs_represented hparsed hw (List.append_nil _).symm hlinked
    obtain ⟨P, hrep⟩ := hend.rows row hrow
    exact ⟨P, hrep, represents_decides hrep⟩
  · intro pre e post userId data htrace hdata
    have hlinked' := hlinked
    rw [show (runs L processes w schedule).state.trace = pre ++ e :: post from htrace] at hlinked'
    obtain ⟨before, hpre, hbefore, -⟩ := hlinked'.split
    exact (runs_represented hparsed hw htrace hpre).written hparsed (runs_writes htrace) hdata

/-- One masks what Bob may do, the other lets his account expire, and a third adds a user. -/
def admins : ThreadId → Process
  | 0 =>
    .admin { actor := "root", user := some Fixtures.bobId, allowedOps := ["sign"] } .setUserData
  | 1 =>
    .admin { actor := "root", user := some Fixtures.bobId, exp := some 4102444800 } .setUserData
  | 2 => .admin { actor := "root", allowAll := true, coOwner := [Fixtures.bobId] } .addUser
  | _ => .restart

theorem bobId_parsed {s : String} (h : some Fixtures.bobId = some s) :
    ∃ text, uuidCb text = some s := by
  cases h
  exact ⟨Fixtures.bobId, by decide⟩

theorem admins_parsed (i : ThreadId) (o : Opts) (cmd : Command) (h : admins i = .admin o cmd) :
    Parsed o := by
  unfold admins at h
  split at h
  · cases h
    exact ⟨fun _ => bobId_parsed, by simp, by simp, by simp, by simp⟩
  · cases h
    refine ⟨fun _ => bobId_parsed, by simp, by simp, by simp, fun n hn => ?_⟩
    cases hn
    decide
  · cases h
    exact ⟨by simp, by simp, fun s hs =>
      bobId_parsed (congrArg some (List.mem_singleton.mp hs).symm),
      by simp, by simp⟩
  · cases h

theorem bob_represented :
    ∀ row ∈ Credentials.tokenlessVault.users.rows, ∃ P, Represents row.data P := by
  intro row hrow
  obtain rfl := List.mem_singleton.mp hrow
  refine ⟨{ Profile.blank with addresses := within ["127.0.0.1"] }, _, rfl, ?_⟩
  exact ⟨⟨by decide, by decide⟩, ⟨["127.0.0.1"], rfl, by decide, rfl⟩, rfl, rfl, Or.inl ⟨rfl, rfl⟩,
    Or.inl ⟨rfl, rfl⟩⟩

theorem profiles_kept_bob :
    let W := runs Fixtures.bare admins Credentials.tokenlessVault Credentials.oneByOne
    (∀ row ∈ W.state.now.users.rows, ∃ P, Represents row.data P ∧ Decides row P) ∧
      ∀ pre e post userId data, W.state.trace = pre ++ e :: post →
        dataWrite e = some (userId, data) →
        ∃ P, Represents data P ∧ Derives admins pre e.thread userId P :=
  profiles_kept Fixtures.bare admins Credentials.tokenlessVault Credentials.oneByOne admins_parsed
    bob_represented

end ProfileRuns
