import KeyVault.CommandCalls
import KeyVault.Revocation
import KeyVault.ServedRequests
import KeyVault.UserWrites

/-!
# Bearer tokens

A token is a UUID that set-token has drawn; the user row keeps its digest. Who is
answered bears the token that was last issued to the user, and a token that was revoked,
replaced or removed with its user is refused from then on.
-/

namespace Credentials

open JsValue Errors Programs Interleaving Vault KeyStore Handlers ServerAuth Server KvAdmin
  CallEffects HandlerCalls CommandCalls AuditTrail Freshness Processes ServedRequests LastWrites
  UserWrites Tables

variable {L : Libraries} {i : ThreadId} {t : Turn} {c : Call} {w w' : World}

/-- The unique index on `auth_token`. -/
def Distinct (users : UserTable) : Prop :=
  ∀ a ∈ users.rows, ∀ b ∈ users.rows, a.authToken = b.authToken → a.authToken ≠ none →
    a.userId = b.userId

/-- Only set-token's statement leaves a digest. -/
theorem tokenWrite_call {userId hash : String} {x : Entry Ans World}
    (h : tokenWrite x = some (userId, some hash)) :
    x.call = .setUserToken userId (some hash) ∧
      userWrite x = some (userId, .token (some hash)) := by
  obtain ⟨j, c, answer, before, after⟩ := x
  cases c with
  | setUserToken userId' hash' =>
    rcases answer with message | _ | _
    · cases h
    · cases h
    · cases h
      exact ⟨rfl, rfl⟩
  | insertUser data => cases answer <;> cases h
  | setUserData userId' data => rcases answer with message | _ | _ <;> cases h
  | removeUser userId' => rcases answer with message | _ | _ <;> cases h
  | _ => cases h

theorem written_unique {x : Entry Ans World} {k hash : String}
    (hx : perform L x.thread t x.call x.before = (x.answer, x.after))
    (h : tokenWrite x = some (k, some hash)) :
    ∀ row ∈ x.before.users.rows, row.authToken = some hash → row.userId = k := by
  intro row hrow htoken
  obtain ⟨hcall, hwrite⟩ := tokenWrite_call h
  obtain ⟨j, c, answer, before, after⟩ := x
  subst hcall
  have hanswer : answer = .ok true := by
    rcases answer with message | _ | _
    · cases hwrite
    · cases hwrite
    · rfl
  rw [hanswer] at hx
  have hp : (effect L j (.setUserToken k (some hash)) (before.tick t.elapsed)).1 = .ok true := by
    rw [← perform_answered (congrArg Prod.fst hx) (fun _ hf => by cases hf)]
    exact congrArg Prod.fst hx
  simp only [effect] at hp
  split at hp
  · cases hp
  · rename_i hfree
    by_contra hne
    refine hfree ?_
    rw [Option.isSome_some, Bool.true_and, List.any_eq_true]
    exact ⟨row, hrow, by simp [htoken, hne]⟩

theorem perform_distinct (i : ThreadId) (t : Turn) (c : Call) (w : World) (h : Distinct w.users) :
    Distinct (perform L i t c w).2.users := by
  let x : Entry Ans World := ⟨i, c, (perform L i t c w).1, w, (perform L i t c w).2⟩
  have htells := token_tells L x t rfl
  intro a ha b hb htoken hne
  obtain ⟨hash, hhash⟩ := Option.ne_none_iff_exists'.mp hne
  rcases htells a ha with hwritten | ⟨-, old, hold, hid, hsame⟩
  · rcases htells b hb with hwritten' | ⟨-, old', hold', hid', hsame'⟩
    · rw [hwritten] at hwritten'
      exact (Prod.mk.inj (Option.some.inj hwritten')).1
    · rw [hhash] at hwritten
      rw [← hid']
      exact (written_unique (x := x) rfl hwritten old' hold' (by rw [hsame', ← htoken, hhash])).symm
  · rcases htells b hb with hwritten' | ⟨-, old', hold', hid', hsame'⟩
    · rw [← htoken, hhash] at hwritten'
      rw [← hid]
      exact written_unique (x := x) rfl hwritten' old hold (by rw [hsame, hhash])
    · rw [← hid, ← hid']
      exact h old hold old' hold' (by rw [hsame, hsame', htoken]) (by rw [hsame]; exact hne)

/-- A user that was looked up by its token was stored with it. -/
theorem found_stored {hash : String} {user : VaultUser}
    (h : (perform L i t (.userByTokenHash hash) w).1 = .ok (some user)) :
    user ∈ w.users.rows ∧ user.authToken = some hash := by
  rw [perform_answered h (fun _ hf => by cases hf)] at h
  have hfind := Except.ok.inj h
  exact ⟨List.mem_of_find?_eq_some hfind, by simpa using List.find?_some hfind⟩

/-- The token that a thread has drawn and not written yet. -/
def learnToken : Option String → (c : Call) → Ans c → Option String
  | _, .randomUUID, token => some token
  | _, .setUserToken _ _, _ => none
  | drawn, _, _ => drawn

/-- Tokens are written by set-token only, for its own user, each with a token of its own. -/
def issues (L : Libraries) (process : Process) (drawn : Option String) (c : Call) : Prop :=
  ∀ userId hash, c = .setUserToken userId (some hash) →
    ∃ o token, process = .admin o .setToken ∧ o.user = some userId ∧ drawn = some token ∧
      tokenHash L token = hash

theorem issues_of_calls {α : Type} {process : Process} {p : Api α} {drawn : Option String}
    (hp : p.Calls fun c => ∀ userId hash, c ≠ .setUserToken userId (some hash)) :
    Prog.Tracks learnToken (issues L process) (fun _ _ => True) drawn p :=
  Prog.Tracks.of_calls (R := fun _ => True) hp
    (fun _ _ hc userId hash heq => absurd heq (hc userId hash)) (fun _ _ _ _ => trivial) trivial

theorem existingUser_issues {process : Process} {userId : String} {drawn : Option String} :
    Prog.Tracks learnToken (issues L process) (fun _ _ => True) drawn (existingUser userId) :=
  issues_of_calls (existingUser_calls (fun c hc userId hash heq => by
    rw [heq] at hc
    cases hc) userId)

theorem setToken_issues (o : Opts) (drawn : Option String) :
    Prog.Tracks learnToken (issues L (.admin o .setToken)) (fun _ _ => True) drawn
      (setToken L o) := by
  have hother : ∀ {c : Call} {drawn : Option String},
      (∀ userId hash, c ≠ .setUserToken userId (some hash)) →
        issues L (.admin o .setToken) drawn c :=
    fun hc userId hash heq => absurd heq (hc userId hash)
  refine tracks_lift fun userId huser => existingUser_issues.bind fun _ user _ => ?_
  refine tracks_ask (hother fun _ _ h => by cases h) fun token => ?_
  refine tracks_ask (hother fun _ _ h => by cases h) fun now => ?_
  refine tracks_ask ?_ fun _ => tracks_lift fun _ _ => ?_
  · intro userId' hash heq
    cases heq
    refine ⟨o, token, rfl, ?_, rfl, rfl⟩
    cases hu : o.user with
    | none =>
      rw [hu] at huser
      cases huser
    | some u =>
      rw [hu] at huser
      rw [Except.ok.inj huser]
  · refine tracks_ask (hother fun _ _ h => by cases h) fun _ => tracks_lift fun _ _ => ?_
    refine Prog.Tracks.bind (Q := fun _ _ => True) (tracks_ask ?_ fun answer => ?_)
      fun _ _ _ => trivial
    · exact hother fun _ _ h => by cases h
    · cases answer <;> trivial

theorem command_issues (o : Opts) (cmd : Command) (drawn : Option String) :
    Prog.Tracks learnToken (issues L (.admin o cmd)) (fun _ _ => True) drawn (command L o cmd) := by
  by_cases hcmd : cmd = .setToken
  · subst hcmd
    exact setToken_issues o drawn
  · refine issues_of_calls ((command_calls o cmd).mono fun c hc userId hash heq => ?_)
    subst heq
    rcases hc with hasks | ⟨fields, hevent⟩ | hwrites
    · cases hasks
    · cases hevent
    · cases cmd with
      | setToken => exact hcmd rfl
      | revokeToken => obtain ⟨_, h | ⟨_, h⟩⟩ := hwrites <;> cases h
      | addUser => obtain ⟨_, h⟩ := hwrites; cases h
      | setUserData => obtain ⟨_, _, h⟩ := hwrites; cases h
      | removeUser => obtain ⟨_, h⟩ := hwrites; cases h
      | listUsers => cases hwrites
      | updateAcl => obtain ⟨_, _, h⟩ := hwrites; cases h
      | rewrap => obtain ⟨_, _, _, _, h⟩ := hwrites; cases h

theorem program_issues (process : Process) (drawn : Option String) :
    Prog.Tracks learnToken (issues L process) (fun _ _ => True) drawn (process.program L) := by
  have hreads : ∀ c, writesUsers c = false → ∀ userId hash, c ≠ .setUserToken userId
      (some hash) := by
    intro c hc userId hash heq
    rw [heq] at hc
    cases hc
  cases process with
  | request cfg req =>
    refine (issues_of_calls (serveRequest_calls (fun c hc => hreads c hc.2.1) ?_ req)).bind
      fun _ _ _ => trivial
    intro user env
    exact dispatch_calls
      (fun op _ => (handler_calls op).mono fun c hc => hreads c (permitted_users hc))
      fun _ _ => hreads _ rfl
  | admin o cmd => exact (command_issues o cmd drawn).bind fun _ _ _ => trivial
  | sweep cfg =>
    refine (issues_of_calls (p := KeyStore.sweep cfg) ?_).bind fun _ _ _ => trivial
    exact calls_ask (hreads _ rfl) fun _ => Prog.calls_done _
  | restart => exact tracks_ask (fun _ _ h => by cases h) fun _ => trivial

/-- What the thread has drawn and not written yet. -/
def pending (trace : List (Entry Ans World)) (i : ThreadId) : Option String :=
  (own i trace).foldl (fun drawn e => learnToken drawn e.call e.answer) none

variable {processes : ThreadId → Process} {schedule : Schedule Turn}
  {trace pre post : List (Entry Ans World)} {e : Entry Ans World} {token : String}

theorem runs_issues (h : (runs L processes w schedule).state.trace = pre ++ e :: post) :
    issues L (processes e.thread) (pending pre e.thread) e.call :=
  started_tracks (program_issues (processes e.thread) none) h

theorem pending_snoc_self (pre : List (Entry Ans World)) (e : Entry Ans World) :
    pending (pre ++ [e]) e.thread = learnToken (pending pre e.thread) e.call e.answer := by
  rw [pending, own_append, own_cons_self rfl, List.foldl_append]
  rfl

theorem pending_snoc_ne {i : ThreadId} (h : e.thread ≠ i) :
    pending (pre ++ [e]) i = pending pre i := by
  rw [pending, own_append, own_cons_ne h]
  simp [own, pending]

theorem learnToken_other {drawn : Option String} {answer : Ans c} (hdraw : c ≠ .randomUUID)
    (hset : ¬ ∃ userId hash, c = .setUserToken userId hash) :
    learnToken drawn c answer = drawn := by
  cases c <;> first | rfl | exact absurd rfl hdraw | exact absurd ⟨_, _, rfl⟩ hset

theorem pending_drawn (h : pending trace i = some token) : Made trace i .randomUUID token := by
  induction trace using List.reverseRecOn with
  | nil => cases h
  | append_singleton pre e ih =>
    have hmono : Made pre i .randomUUID token → Made (pre ++ [e]) i .randomUUID token :=
      fun hmade => hmade.mono (List.prefix_append _ _)
    by_cases hthread : e.thread = i
    · subst hthread
      rw [pending_snoc_self] at h
      obtain ⟨j, c, answer, before, after⟩ := e
      cases c with
      | randomUUID =>
        obtain rfl : answer = token := Option.some.inj h
        exact ⟨before, after, List.mem_append_right _ (List.mem_singleton_self _)⟩
      | setUserToken userId hash => cases h
      | _ => exact hmono (ih h)
    · rw [pending_snoc_ne hthread] at h
      exact hmono (ih h)

/-- The digest of the token that the call has drawn. -/
def drawnDigest (L : Libraries) : (c : Call) → Ans c → Option String
  | .randomUUID, token => some (tokenHash L token)
  | _, _ => none

def digests (L : Libraries) (trace : List (Entry Ans World)) : List String :=
  trace.filterMap fun e => drawnDigest L e.call e.answer

theorem digests_snoc (pre : List (Entry Ans World)) (e : Entry Ans World) :
    digests L (pre ++ [e]) = digests L pre ++ (drawnDigest L e.call e.answer).toList := by
  rw [digests, List.filterMap_append]
  cases h : drawnDigest L e.call e.answer <;> simp [digests, h]

theorem digests_other {answer : Ans c} (h : c ≠ .randomUUID) : drawnDigest L c answer = none := by
  cases c <;> first | rfl | exact absurd rfl h

/-- Every written digest is of a drawn token, and a pending token is unwritten and of one
thread. -/
structure Ledger (L : Libraries) (trace : List (Entry Ans World)) : Prop where
  drawn : ∀ i token, pending trace i = some token → tokenHash L token ∈ digests L trace
  unwritten : ∀ i token, pending trace i = some token →
    ∀ x ∈ trace, ∀ userId, x.call ≠ .setUserToken userId (some (tokenHash L token))
  apart : ∀ i j token token', pending trace i = some token → pending trace j = some token' →
    tokenHash L token = tokenHash L token' → i = j
  written : ∀ x ∈ trace, ∀ userId hash, x.call = .setUserToken userId (some hash) →
    hash ∈ digests L trace

/-- Another call than a draw leaves pending at most what was pending. -/
theorem pending_snoc_other {j : ThreadId} (hdraw : e.call ≠ .randomUUID)
    (h : pending (pre ++ [e]) j = some token) :
    pending pre j = some token ∧
      (e.thread = j → ∀ userId hash, e.call ≠ .setUserToken userId hash) := by
  by_cases hthread : e.thread = j
  · subst hthread
    rw [pending_snoc_self] at h
    by_cases hset : ∃ userId hash, e.call = .setUserToken userId hash
    · obtain ⟨i, c, answer, before, after⟩ := e
      obtain ⟨userId, hash, rfl⟩ := hset
      cases h
    · rw [learnToken_other hdraw hset] at h
      exact ⟨h, fun _ userId hash hcall => hset ⟨userId, hash, hcall⟩⟩
  · rw [pending_snoc_ne hthread] at h
    exact ⟨h, fun hself => absurd hself hthread⟩

theorem Ledger.draw {before after : World} (h : Ledger L pre)
    (hnew : tokenHash L token ∉ digests L pre) :
    Ledger L (pre ++ [⟨i, .randomUUID, token, before, after⟩]) := by
  have hmem : ∀ {hash}, hash ∈ digests L pre →
      hash ∈ digests L (pre ++ [⟨i, .randomUUID, token, before, after⟩]) := by
    intro hash hhash
    rw [digests_snoc]
    exact List.mem_append_left _ hhash
  have hself : pending (pre ++ [⟨i, .randomUUID, token, before, after⟩]) i = some token :=
    pending_snoc_self pre ⟨i, .randomUUID, token, before, after⟩
  have hcases : ∀ {j token'},
      pending (pre ++ [⟨i, .randomUUID, token, before, after⟩]) j = some token' →
        (j = i ∧ token' = token) ∨ (j ≠ i ∧ pending pre j = some token') := by
    intro j token' hpending
    by_cases hj : i = j
    · subst hj
      rw [hself] at hpending
      exact Or.inl ⟨rfl, (Option.some.inj hpending).symm⟩
    · rw [pending_snoc_ne hj] at hpending
      exact Or.inr ⟨Ne.symm hj, hpending⟩
  constructor
  · intro j token' hpending
    rcases hcases hpending with ⟨-, rfl⟩ | ⟨-, hpending⟩
    · rw [digests_snoc]
      exact List.mem_append_right _ (List.mem_singleton_self _)
    · exact hmem (h.drawn j token' hpending)
  · intro j token' hpending x hx userId hcall
    rcases List.mem_append.mp hx with hx | hx
    · rcases hcases hpending with ⟨-, hsame⟩ | ⟨-, hpending⟩
      · rw [hsame] at hcall
        exact hnew (h.written x hx userId _ hcall)
      · exact h.unwritten j token' hpending x hx userId hcall
    · obtain rfl := List.mem_singleton.mp hx
      cases hcall
  · intro j k token' token'' hj hk heq
    rcases hcases hj with ⟨hji, hsame⟩ | ⟨-, hj⟩
    · rcases hcases hk with ⟨hki, -⟩ | ⟨-, hk⟩
      · rw [hji, hki]
      · rw [hsame] at heq
        exact absurd (heq ▸ h.drawn k token'' hk) hnew
    · rcases hcases hk with ⟨-, hsame⟩ | ⟨-, hk⟩
      · rw [hsame] at heq
        exact absurd (heq ▸ h.drawn j token' hj) hnew
      · exact h.apart j k token' token'' hj hk heq
  · intro x hx userId hash hcall
    rcases List.mem_append.mp hx with hx | hx
    · exact hmem (h.written x hx userId hash hcall)
    · obtain rfl := List.mem_singleton.mp hx
      cases hcall

theorem Ledger.pass {process : Process} (h : Ledger L pre) (hdraw : e.call ≠ .randomUUID)
    (hissues : issues L process (pending pre e.thread) e.call) : Ledger L (pre ++ [e]) := by
  have hsame : digests L (pre ++ [e]) = digests L pre := by
    rw [digests_snoc, digests_other hdraw]
    simp
  constructor
  · intro j token hpending
    rw [hsame]
    exact h.drawn j token (pending_snoc_other hdraw hpending).1
  · intro j token hpending x hx userId hcall
    obtain ⟨hbefore, hself⟩ := pending_snoc_other hdraw hpending
    rcases List.mem_append.mp hx with hx | hx
    · exact h.unwritten j token hbefore x hx userId hcall
    · -- the writer's own pending token is spent, and another thread's is another token
      obtain rfl := List.mem_singleton.mp hx
      obtain ⟨o, token', -, -, hspent, hdigest⟩ := hissues userId _ hcall
      exact hself (h.apart _ j token' token hspent hbefore hdigest) userId _ hcall
  · intro j k token token' hj hk heq
    exact h.apart j k token token' (pending_snoc_other hdraw hj).1
      (pending_snoc_other hdraw hk).1 heq
  · intro x hx userId hash hcall
    rw [hsame]
    rcases List.mem_append.mp hx with hx | hx
    · exact h.written x hx userId hash hcall
    · obtain rfl := List.mem_singleton.mp hx
      obtain ⟨o, token, -, -, hpending, rfl⟩ := hissues userId hash hcall
      exact h.drawn x.thread token hpending

theorem Ledger.step {process : Process} (h : Ledger L pre) (hnew : (digests L (pre ++ [e])).Nodup)
    (hissues : issues L process (pending pre e.thread) e.call) : Ledger L (pre ++ [e]) := by
  by_cases hdraw : e.call = .randomUUID
  · obtain ⟨i, c, token, before, after⟩ := e
    subst hdraw
    refine h.draw fun hmem => ?_
    rw [digests_snoc] at hnew
    exact (List.nodup_append.mp hnew).2.2 _ hmem _ (List.mem_singleton_self _) rfl
  · exact h.pass hdraw hissues

theorem runs_ledger (hL : (digests L (runs L processes w schedule).state.trace).Nodup)
    (h : (runs L processes w schedule).state.trace = pre ++ post) : Ledger L pre := by
  induction pre using List.reverseRecOn generalizing post with
  | nil =>
    constructor
    · rintro i token ⟨⟩
    · rintro i token ⟨⟩
    · rintro i j token token' ⟨⟩
    · rintro x ⟨⟩
  | append_singleton pre e ih =>
    have hsplit : (runs L processes w schedule).state.trace = pre ++ e :: post := by
      rw [h, List.append_assoc, List.singleton_append]
    refine (ih hsplit).step ?_ (runs_issues hsplit)
    rw [h, digests, List.filterMap_append] at hL
    exact (List.nodup_append.mp hL).1

/-- A digest is written once. -/
theorem written_once (hL : (digests L (runs L processes w schedule).state.trace).Nodup)
    (h : (runs L processes w schedule).state.trace = pre ++ e :: post) {x : Entry Ans World}
    (hx : x ∈ pre) {userId userId' hash : String}
    (hcall : x.call = .setUserToken userId (some hash)) :
    e.call ≠ .setUserToken userId' (some hash) := by
  intro hagain
  obtain ⟨o, token, -, -, hpending, rfl⟩ := runs_issues h userId' hash hagain
  exact (runs_ledger hL h).unwritten e.thread token hpending x hx userId hcall

/-- A set-token command for the user has drawn a token with this digest and written it,
and nothing has written the user's token since. -/
def IssuedLast (L : Libraries) (processes : ThreadId → Process) (trace : List (Entry Ans World))
    (userId hash : String) : Prop :=
  ∃ pre issue post, trace = pre ++ issue :: post ∧ tokenWrite issue = some (userId, some hash) ∧
    (∃ o token, processes issue.thread = .admin o .setToken ∧ o.user = some userId ∧
      Made pre issue.thread .randomUUID token ∧ tokenHash L token = hash) ∧
    ∀ x ∈ post, ∀ other, tokenWrite x ≠ some (userId, other)

/-- The user had the token from the start, and nothing has written it. -/
def HeldFromStart (w : World) (trace : List (Entry Ans World)) (userId hash : String) : Prop :=
  Untouched tokenWrite trace userId ∧
    ∃ row ∈ w.users.rows, row.userId = userId ∧ row.authToken = some hash

/-- The row that a lookup finds has its digest from a set-token, or from the start. -/
theorem stored_issued (h : (runs L processes w schedule).state.trace = pre ++ e :: post)
    {row : VaultUser} (hrow : row ∈ e.before.users.rows) {hash : String}
    (htoken : row.authToken = some hash) :
    IssuedLast L processes pre row.userId hash ∨ HeldFromStart w pre row.userId hash := by
  have hlinked := (runs_makes L processes w schedule).1
  rw [h] at hlinked
  rcases linked_accounted (token_tells L) hlinked.before row hrow with hlast |
    ⟨huntouched, old, hold, hid, hsame⟩
  · obtain ⟨before, issue, after, rfl, hwrite, hsince⟩ := hlast
    rw [htoken] at hwrite
    rw [List.append_assoc, List.cons_append] at h
    obtain ⟨o, token, hprocess, huser, hpending, hdigest⟩ :=
      runs_issues h _ _ (tokenWrite_call hwrite).1
    exact Or.inl ⟨before, issue, after, rfl, hwrite,
      ⟨o, token, hprocess, huser, pending_drawn hpending, hdigest⟩, hsince⟩
  · exact Or.inr ⟨huntouched, old, hold, hid, by rw [hsame, htoken]⟩

variable {cfg : Config} {req : HttpRequest} {env : Envelope} {r : Response}

/-- Over every run: a valid envelope is answered with status 200 or with success only to
the claimed user, whose account window and addresses admit the request, and who bears the
token that set-token has issued to that user last when the token is looked up. -/
theorem answered_credentials (L : Libraries) (processes : ThreadId → Process) (w : World)
    (schedule : Schedule Turn) (hprocess : processes i = .request cfg req)
    (hdone : (runs L processes w schedule).threads i = .done (.ok (some r)))
    (henv : envelopeOf req = some env) (hr : Answered r) :
    ∃ user token, Authenticated L cfg req env user
      (runs L processes w schedule).state.trace i token ∧
      ∃ pre before after post, (runs L processes w schedule).state.trace =
          pre ++ ⟨i, .userByTokenHash (tokenHash L token), .ok (some user), before, after⟩ :: post ∧
        (IssuedLast L processes pre user.userId (tokenHash L token) ∨
          HeldFromStart w pre user.userId (tokenHash L token)) := by
  obtain ⟨user, hserves⟩ := runs_serves hprocess hdone henv hr
  obtain ⟨token, hauth⟩ := authenticate_plays hserves.authenticated
  obtain ⟨before, after, hfound⟩ := hauth.found
  obtain ⟨pre, post, htrace⟩ := List.append_of_mem hfound
  obtain ⟨t, ht⟩ := (runs_makes L processes w schedule).1.mem hfound
  obtain ⟨hrow, htoken⟩ := found_stored (congrArg Prod.fst ht)
  exact ⟨user, token, hauth, pre, before, after, post, htrace, stored_issued htrace hrow htoken⟩

/-- The call took this token from its user: it was revoked, replaced, or removed with
the user. -/
def Withdraws (e : Entry Ans World) (hash : String) : Prop :=
  ∃ row ∈ e.before.users.rows, row.authToken = some hash ∧
    ∃ other, tokenWrite e = some (row.userId, other) ∧ other ≠ some hash

def Unstored (hash : String) (w : World) : Prop := ∀ row ∈ w.users.rows, row.authToken ≠ some hash

theorem withdrawn_unstored {hash : String} (hw : Distinct e.before.users) (h : Withdraws e hash)
    (he : perform L e.thread t e.call e.before = (e.answer, e.after)) : Unstored hash e.after := by
  obtain ⟨held, hheld, htoken, other, hwrite, hother⟩ := h
  intro row hrow hstored
  rcases token_tells L e t he row hrow with hwritten | ⟨hspared, old, hold, hid, hsame⟩
  · rw [hwritten, hstored] at hwrite
    exact hother (Prod.mk.inj (Option.some.inj hwrite)).2.symm
  · refine hspared other ?_
    rw [← hid, hw old hold held hheld (by rw [hsame, hstored, htoken])
      (by rw [hsame, hstored]; simp)]
    exact hwrite

/-- Over every run that draws no two tokens with one digest: once a token that set-token
has issued is revoked, replaced or removed with its user, every request with this token
that starts later is refused, whatever is issued afterwards. -/
theorem withdrawn_refused (L : Libraries) (processes : ThreadId → Process) (w : World)
    (hw : Distinct w.users) (schedule : Schedule Turn)
    (hL : (digests L (runs L processes w schedule).state.trace).Nodup)
    (htrace : (runs L processes w schedule).state.trace = pre ++ e :: post) {hash : String}
    (hissued : ∃ x ∈ pre, ∃ userId, tokenWrite x = some (userId, some hash))
    (hwithdraws : Withdraws e hash) (hprocess : processes i = .request cfg req)
    (hstart : StartsAfter pre e i) (henv : envelopeOf req = some env)
    (hbears : ∃ token, bearer (req.authorization.getD "") = some token ∧ tokenHash L token = hash)
    (hdone : (runs L processes w schedule).threads i = .done (.ok (some r))) :
    r = unauthorized env ∨ r = internalError none := by
  have hlinked := (runs_makes L processes w schedule).1
  rcases runs_served hprocess hdone henv with ⟨user, hserves⟩ | hrefused
  · obtain ⟨token, hauth⟩ := authenticate_plays hserves.authenticated
    obtain ⟨token', hbearer, rfl⟩ := hbears
    obtain rfl : token = token' := Option.some.inj (hauth.bearer.symm.trans hbearer)
    obtain ⟨before, after, hfound⟩ := hauth.found
    obtain ⟨t', ht'⟩ := hlinked.mem hfound
    obtain ⟨hrow, htoken⟩ := found_stored (congrArg Prod.fst ht')
    rw [htrace] at hlinked hfound
    rw [List.append_cons] at hfound
    rcases List.mem_append.mp hfound with hearly | hlate
    · exact absurd rfl (hstart _ hearly)
    · obtain ⟨⟨t, ht⟩, hrest⟩ := hlinked.cut
      have hdistinct := (hlinked.keeps (I := fun s => Distinct s.users)
        perform_distinct hw e (by simp)).1
      refine absurd htoken
        (linked_column (token_tells L)
          (P := fun _ stored => stored ≠ some (tokenHash L token)) hrest
        (withdrawn_unstored hdistinct hwithdraws ht) ?_ _ hlate user hrow)
      rintro x hx userId' _ hagain rfl
      obtain ⟨issue, hissue, userId, hwrite⟩ := hissued
      obtain ⟨first, last, hpost⟩ := List.append_of_mem hx
      rw [hpost, ← List.cons_append, ← List.append_assoc] at htrace
      exact written_once hL htrace (List.mem_append_left _ hissue) (tokenWrite_call hwrite).1
        (tokenWrite_call hagain).1
  · exact hrefused

/-- Every thread draws a UUID of its own. -/
def minting : Libraries :=
  { Fixtures.bare with randomUUID := fun i _ => if i = 0 then Fixtures.keyId1 else Fixtures.keyId2 }

def bobLists : HttpRequest :=
  { Revocation.bobs "list-keys" [] with
    authorization := some ("Bearer " ++ Fixtures.keyId1)
    body := .text (some (.obj [("user", .str Fixtures.bobId), ("op", .str Fixtures.opId),
      ("request", .str "list-keys"), ("data", .obj [])])) }

theorem listKeys_named : "list-keys" ≠ "" := by decide

def listEnvelope : Envelope where
  user := Fixtures.bobId
  op := Fixtures.opId
  request := "list-keys"
  data := .obj []
  named := listKeys_named
  plain := Eq.refl true

/-- Bob gets a token and lists his keys, the token is revoked, and he tries again. -/
def comesAndGoes : ThreadId → Process
  | 0 => .admin { actor := "root", user := some Fixtures.bobId } .setToken
  | 1 => .request Fixtures.config bobLists
  | 2 => .admin { actor := "root", user := some Fixtures.bobId } .revokeToken
  | 3 => .request Fixtures.config bobLists
  | _ => .restart

def tokenlessVault : World :=
  { fresh 0 with
    users :=
      Table.empty.insert ⟨Fixtures.bobId, none, .obj [("allowedIP", .arr [.str "127.0.0.1"])]⟩ }

def oneByOne : Schedule Turn :=
  ([0, 1, 2, 3] : List ThreadId).flatMap fun i => List.replicate 6 (i, ({} : Turn))

theorem lists_answered : ((runs minting comesAndGoes tokenlessVault oneByOne).threads 1).result? =
    some (.ok (some ⟨200, okBody Fixtures.opId (some (.obj [("keys", .arr [])])), false⟩)) := by
  decide +kernel

theorem bobs_credentials :
    ∃ user token, Authenticated minting Fixtures.config bobLists listEnvelope user
        (runs minting comesAndGoes tokenlessVault oneByOne).state.trace 1 token ∧
      ∃ pre before after post, (runs minting comesAndGoes tokenlessVault oneByOne).state.trace =
          pre ++
            ⟨1, .userByTokenHash (tokenHash minting token), .ok (some user), before, after⟩ ::
              post ∧
        (IssuedLast minting comesAndGoes pre user.userId (tokenHash minting token) ∨
          HeldFromStart tokenlessVault pre user.userId (tokenHash minting token)) :=
  answered_credentials minting comesAndGoes tokenlessVault oneByOne (i := 1) rfl
    (Prog.result?_eq_some lists_answered)
      (rfl : envelopeOf bobLists = some listEnvelope) (Or.inl rfl)

def tokenSummary (e : Entry Ans World) :
    ThreadId × Option (String × Option String) × Option String :=
  (e.thread, tokenWrite e, (e.before.users.find Fixtures.bobId).bind VaultUser.authToken)

/-- What the trace shows up to the revocation. -/
def untilRevoked : List (ThreadId × Option (String × Option String) × Option String) :=
  List.replicate 3 (0, none, none) ++ (0, some (Fixtures.bobId, some Fixtures.keyId1), none) ::
    (List.replicate 2 (0, none, some Fixtures.keyId1) ++
      List.replicate 5 (1, none, some Fixtures.keyId1) ++
      List.replicate 2 (2, none, some Fixtures.keyId1))

theorem lists_refused : ((runs minting comesAndGoes tokenlessVault oneByOne).threads 3).result? =
    some (.ok (some (unauthorized listEnvelope))) := by decide +kernel

/-- Bob's second attempt starts after the revocation. -/
theorem bobs_token_refused : ∃ r,
    (runs minting comesAndGoes tokenlessVault oneByOne).threads 3 = .done (.ok (some r)) ∧
      (r = unauthorized listEnvelope ∨ r = internalError none) := by
  have hdone := Prog.result?_eq_some lists_refused
  refine ⟨_, hdone, ?_⟩
  have hsummary : (runs minting comesAndGoes tokenlessVault oneByOne).state.trace.map tokenSummary =
      untilRevoked ++ (2, some (Fixtures.bobId, none), some Fixtures.keyId1) ::
        [(2, none, none), (2, none, none), (3, none, none)] := by decide +kernel
  have hdistinct : (digests minting
      (runs minting comesAndGoes tokenlessVault oneByOne).state.trace).Nodup := by decide +kernel
  have husers : Distinct tokenlessVault.users := by
    intro a ha b hb _ _
    obtain rfl := List.mem_singleton.mp ha
    obtain rfl := List.mem_singleton.mp hb
    rfl
  obtain ⟨pre, rest, htrace, hpre, hrest⟩ := List.map_eq_append_iff.mp hsummary
  obtain ⟨e, post, rfl, he, -⟩ := List.map_eq_cons_iff.mp hrest
  refine withdrawn_refused minting comesAndGoes tokenlessVault husers oneByOne hdistinct htrace
    ?_ ?_ (i := 3) rfl ?_ rfl ⟨Fixtures.keyId1, by decide +kernel, rfl⟩ hdone
  · have hmem : (0, some (Fixtures.bobId, some Fixtures.keyId1), none) ∈ pre.map tokenSummary := by
      rw [hpre]
      exact List.mem_append_right _ List.mem_cons_self
    obtain ⟨x, hx, hsum⟩ := List.mem_map.mp hmem
    exact ⟨x, hx, _, congrArg (fun s => s.2.1) hsum⟩
  · obtain ⟨row, hrow, htoken⟩ := Option.bind_eq_some_iff.mp (congrArg (fun s => s.2.2) he)
    refine ⟨row, Table.find_mem hrow, htoken, none, ?_, by decide⟩
    rw [show row.userId = Fixtures.bobId from Table.find_key hrow]
    exact congrArg (fun s => s.2.1) he
  · have hthreads : ∀ s ∈ untilRevoked ++ [(2, some (Fixtures.bobId, none), some Fixtures.keyId1)],
        s.1 ≠ 3 := by decide +kernel
    intro x hx
    refine hthreads (tokenSummary x) ?_
    rw [← hpre, ← he, ← List.map_singleton, ← List.map_append]
    exact List.mem_map_of_mem hx

end Credentials
