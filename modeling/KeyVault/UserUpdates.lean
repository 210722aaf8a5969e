import KeyVault.Fixtures
import KeyVault.JsObjects
import KeyVault.Processes

/-!
# Updates of one user

Any number of set-user-data, set-token and revoke-token commands on one user, with
their statements interleaved. Each reads the row first and writes it afterwards; where
the data object is still the one that was read whenever it is written back, the
commands might as well have run one after the other.
-/

namespace UserUpdates

open JsValue Errors Programs Interleaving Vault KeyStore ServerAuth KvAdmin CallEffects Processes
  Tables

variable {L : Libraries} {o : Opts} {props props' : Props} {name : String}

/-- The data object as the next command copies it, without the time of the token. -/
def settled (user : VaultUser) : Props := deleteProp (copyData user) "auth_token_ts"

/-- What `Object.assign({}, ..)` can return. -/
structure Tidy (props : Props) : Prop where
  distinct : (keys props).Nodup
  plain : "__proto__" ∉ keys props

theorem Tidy.setProp (h : Tidy props) (hname : name ≠ "__proto__") (v : Json) :
    Tidy (setProp props name v) := by
  refine ⟨nodup_setProp h.distinct, fun hmem => ?_⟩
  rcases mem_keys_setProp hmem with heq | hmem
  · exact hname heq.symm
  · exact h.plain hmem

theorem Tidy.deleteProp (h : Tidy props) (name : String) : Tidy (deleteProp props name) :=
  ⟨nodup_deleteProp h.distinct name, fun hmem => h.plain (mem_keys_deleteProp.mp hmem).1⟩

theorem tidy_objectAssign {target : Props} (h : Tidy target) (source : Props) :
    Tidy (objectAssign target source) := by
  induction source generalizing target with
  | nil => exact h
  | cons e rest ih =>
    have hstep : objectAssign target (e :: rest) =
        objectAssign (if e.1 == "__proto__" then target else JsValue.setProp target e.1 e.2) rest :=
          rfl
    rw [hstep]
    by_cases he : e.1 = "__proto__"
    · rw [if_pos (by simpa using he)]
      exact ih h
    · rw [if_neg (by simpa using he)]
      exact ih (h.setProp he _)

theorem tidy_copyData (user : VaultUser) : Tidy (copyData user) :=
  tidy_objectAssign ⟨by simp [keys], by simp [keys]⟩ _

/-- A copy of a copy is that copy. -/
theorem copyData_tidy (h : Tidy props) (userId : String) (authToken : Option String) :
    copyData ⟨userId, authToken, .obj props⟩ = props := by
  rw [copyData, ownProps, objectAssign_nil h.distinct, deleteProp_absent h.plain]

/-- `editUserData` on the copy of the data object. -/
def edit (o : Opts) (data : Props) : Except Thrown Props := do
  let data ← editAllowedIP o data
  let data ← editProp data "nbf" o.clearNbf (secondsClaim o.nbf) "--clear-nbf conflicts with --nbf"
  let data ← editProp data "exp" o.clearExp (secondsClaim o.exp) "--clear-exp conflicts with --exp"
  let allowedOps ← allowedOpsFromOpts o
  let data ← editProp data "allowedOps" o.clearAllowedOps allowedOps
    "--clear-allowed-ops conflicts with --allowed-ops"
  editProp data "coOwners" o.clearCoOwners (coOwnersFromOpts o)
    "--clear-co-owners conflicts with --co-owner"

theorem editUserData_eq (o : Opts) (user : VaultUser) :
    editUserData o user = edit o (copyData user) := rfl

/-- The property that an option sets or clears, if it is given. -/
def mentioned (name : String) (clear : Bool) (given : Bool) : List String :=
  if clear || given then [name] else []

/-- The properties that the options of set-user-data mention. -/
def mentions (o : Opts) : List String :=
  mentioned "allowedIP" o.allowAll (o.allowedIP.length > 0) ++
    mentioned "nbf" o.clearNbf o.nbf.isSome ++ mentioned "exp" o.clearExp o.exp.isSome ++
    mentioned "allowedOps" o.clearAllowedOps (o.allowedOps.length > 0) ++
    mentioned "coOwners" o.clearCoOwners (o.coOwner.length > 0)

/-- An edit that does not depend on the time of the token, and leaves all properties
but the given ones alone. -/
structure Local (names : List String) (f : Props → Except Thrown Props) : Prop where
  settles : ∀ data, f (deleteProp data "auth_token_ts") =
    (f data).map fun data' => deleteProp data' "auth_token_ts"
  tidy : ∀ data data', Tidy data → f data = .ok data' → Tidy data'
  spares : ∀ data data' name, name ∉ names → f data = .ok data' →
    data'.lookup name = data.lookup name

theorem Local.andThen {names names' : List String} {f g : Props → Except Thrown Props}
    (hf : Local names f) (hg : Local names' g) :
    Local (names ++ names') (fun data => f data >>= g) where
  settles := by
    intro data
    rw [hf.settles]
    cases hfd : f data with
    | error e => rfl
    | ok data' => exact hg.settles data'
  tidy := by
    intro data data'' htidy h
    cases hfd : f data with
    | error e =>
      rw [hfd] at h
      cases h
    | ok data' =>
      rw [hfd] at h
      exact hg.tidy data' data'' (hf.tidy data data' htidy hfd) h
  spares := by
    intro data data'' name hname h
    obtain ⟨hnot, hnot'⟩ := not_or.mp (fun hor => hname (List.mem_append.mpr hor))
    cases hfd : f data with
    | error e =>
      rw [hfd] at h
      cases h
    | ok data' =>
      rw [hfd] at h
      rw [hg.spares data' data'' name hnot' h, hf.spares data data' name hnot hfd]

theorem local_error (names : List String) (e : Thrown) : Local names (fun _ => .error e) where
  settles := fun _ => rfl
  tidy := by
    rintro data data' _ ⟨⟩
  spares := by
    rintro data data' name _ ⟨⟩

/-- A value from the options that may be missing or invalid. -/
theorem Local.given {α : Type} {names : List String} {x : Except Thrown α}
    {f : α → Props → Except Thrown Props} (hf : ∀ a, x = .ok a → Local names (f a)) :
    Local names (fun data => x >>= fun a => f a data) := by
  cases x with
  | ok a => exact hf a rfl
  | error e => exact local_error names e

theorem local_set {v : Json} (hts : name ≠ "auth_token_ts") (hproto : name ≠ "__proto__") :
    Local [name] (fun data => .ok (setProp data name v)) where
  settles := by
    intro data
    simp only [Except.map, deleteProp_setProp_ne hts]
  tidy := by
    rintro data _ htidy ⟨⟩
    exact htidy.setProp hproto v
  spares := by
    rintro data _ name' hname ⟨⟩
    exact lookup_setProp_ne v (fun heq => hname (heq ▸ List.mem_singleton_self _))

theorem local_delete (name : String) : Local [name] (fun data => .ok (deleteProp data name)) where
  settles := by
    intro data
    simp only [Except.map, deleteProp_comm]
  tidy := by
    rintro data _ htidy ⟨⟩
    exact htidy.deleteProp name
  spares := by
    rintro data _ name' hname ⟨⟩
    exact lookup_deleteProp_ne (fun heq => hname (heq ▸ List.mem_singleton_self _))

theorem local_none : Local [] (fun data => .ok data) where
  settles := fun _ => rfl
  tidy := by
    rintro data _ htidy ⟨⟩
    exact htidy
  spares := by
    rintro data _ name _ ⟨⟩
    rfl

theorem editProp_local {clear given : Bool} {value : Option Json} {conflict : String}
    (hts : name ≠ "auth_token_ts") (hproto : name ≠ "__proto__") (hgiven : given = value.isSome) :
    Local (mentioned name clear given)
      (fun data => editProp data name clear value conflict) := by
  subst hgiven
  cases clear with
  | true =>
    cases value with
    | some v => exact local_error _ _
    | none => exact local_delete name
  | false =>
    cases value with
    | some v => exact local_set hts hproto
    | none => exact local_none

theorem editAllowedIP_local (o : Opts) :
    Local (mentioned "allowedIP" o.allowAll (o.allowedIP.length > 0)) (editAllowedIP o) := by
  unfold editAllowedIP mentioned
  by_cases hgiven : (o.allowAll || decide (o.allowedIP.length > 0)) = true
  · simp only [hgiven, if_true]
    cases allowedIPFromOpts o with
    | ok l => exact local_set (by decide) (by decide)
    | error e => exact local_error _ _
  · simp only [hgiven]
    exact local_none

theorem validated_some {list : List String} {allowedOps : Option Json}
    (h : allowedOpsFromOpts.validated list = .ok allowedOps) : allowedOps.isSome = true := by
  unfold allowedOpsFromOpts.validated at h
  split at h
  · cases h
  · cases h
    rfl

theorem allowedOps_given {allowedOps : Option Json} (h : allowedOpsFromOpts o = .ok allowedOps) :
    decide (o.allowedOps.length > 0) = allowedOps.isSome := by
  unfold allowedOpsFromOpts at h
  split at h
  · rename_i hnil
    cases h
    simp [hnil]
  · rename_i op hone
    split at h
    · cases h
      simp [hone]
    · simp [hone, validated_some h]
  · rename_i hnonempty _
    rw [validated_some h]
    have hlen : o.allowedOps ≠ [] := hnonempty
    simpa [List.length_pos_iff] using hlen

theorem edit_local (o : Opts) : Local (mentions o) (edit o) := by
  have hcoOwners : decide (o.coOwner.length > 0) = (coOwnersFromOpts o).isSome := by
    unfold coOwnersFromOpts
    cases o.coOwner <;> rfl
  have hlast : Local _ (fun data => allowedOpsFromOpts o >>= fun allowedOps =>
      editProp data "allowedOps" o.clearAllowedOps allowedOps
        "--clear-allowed-ops conflicts with --allowed-ops" >>= fun data =>
          editProp data "coOwners" o.clearCoOwners (coOwnersFromOpts o)
            "--clear-co-owners conflicts with --co-owner") :=
    Local.given fun allowedOps h =>
      (editProp_local (by decide) (by decide) (allowedOps_given h)).andThen
        (editProp_local (by decide) (by decide) hcoOwners)
  have hnbf : Local (mentioned "nbf" o.clearNbf o.nbf.isSome) (fun data =>
      editProp data "nbf" o.clearNbf (secondsClaim o.nbf) "--clear-nbf conflicts with --nbf") :=
    editProp_local (by decide) (by decide) (by cases o.nbf <;> rfl)
  have hexp : Local (mentioned "exp" o.clearExp o.exp.isSome) (fun data =>
      editProp data "exp" o.clearExp (secondsClaim o.exp) "--clear-exp conflicts with --exp") :=
    editProp_local (by decide) (by decide) (by cases o.exp <;> rfl)
  have hall := (editAllowedIP_local o).andThen (hnbf.andThen (hexp.andThen hlast))
  rw [mentions]
  simp only [List.append_assoc]
  exact hall

/-- A user row, timestamps aside. -/
structure Account where
  token : Option String
  data : Props
  deriving DecidableEq

def account (user : VaultUser) : Account := ⟨user.authToken, settled user⟩

/-- A command on one user; its options name that user. -/
inductive Update where
  | setToken (o : Opts)
  | revokeToken (o : Opts)
  | setUserData (o : Opts)

namespace Update

def program (L : Libraries) (u : String) : Update → Api (Option String)
  | setToken o => command L { o with user := some u } .setToken
  | revokeToken o => command L { o with user := some u } .revokeToken
  | setUserData o => command L { o with user := some u } .setUserData

/-- What a whole command makes of the account; `token` is the token it would print. -/
def apply (L : Libraries) (token : String) : Update → Account → Account
  | setToken _, a => { a with token := some (tokenHash L token) }
  | revokeToken _, a => { a with token := none }
  | setUserData o, a =>
    match edit o a.data with
    | .ok data => { a with data := data }
    | .error _ => a

/-- The token does not depend on the data. -/
theorem apply_token (L : Libraries) (token : String) (x : Update) {a a' : Account}
    (h : a.token = a'.token) : (x.apply L token a).token = (x.apply L token a').token := by
  cases x with
  | setToken o => rfl
  | revokeToken o => rfl
  | setUserData o =>
    simp only [apply]
    cases edit o a.data <;> cases edit o a'.data <;> exact h

/-- The properties of the data object that the command may change. -/
def mentions : Update → List String
  | setToken _ => []
  | revokeToken _ => []
  | setUserData o => UserUpdates.mentions o

end Update

theorem settled_stamped (user : VaultUser) (now : Nat) (userId : String)
    (authToken : Option String) :
    settled ⟨userId, authToken, stampedData user now⟩ = settled user := by
  have htidy : Tidy (setProp (copyData user) "auth_token_ts" (.num (now / 1000 : Nat))) :=
    (tidy_copyData user).setProp (by decide) _
  rw [settled, stampedData, copyData_tidy htidy, deleteProp_setProp_self, settled]

/-- The edit of the object that was read is the edit of the account. -/
theorem settled_edited {user : VaultUser} {data : Props} (h : editUserData o user = .ok data)
    (userId : String) (authToken : Option String) :
    edit o (settled user) = .ok (settled ⟨userId, authToken, .obj data⟩) := by
  rw [editUserData_eq] at h
  have htidy := (edit_local o).tidy _ _ (tidy_copyData user) h
  rw [settled, (edit_local o).settles, h, settled, copyData_tidy htidy]
  rfl

theorem settled_refused {user : VaultUser} {e : Thrown} (h : editUserData o user = .error e) :
    edit o (settled user) = .error e := by
  rw [editUserData_eq] at h
  rw [settled, (edit_local o).settles, h]
  rfl

/-- The row a command has read, the token it has drawn, and whether it has written. -/
structure Known where
  user : Option VaultUser := none
  token : Option String := none
  written : Bool := false

def learn (k : Known) : (c : Call) → Ans c → Known
  | .userById _, .ok (some user) => { k with user := some user }
  | .randomUUID, token => { k with token := some token }
  | .setUserToken _ _, .ok _ => { k with written := true }
  | .setUserData _ _, .ok _ => { k with written := true }
  | _, _ => k

/-- The first write of a command is its effect; the second one of set-token and of
revoke-token only writes back what was read, with the time of the token. -/
def conforms (L : Libraries) (u : String) (x : Update) (k : Known) : Call → Prop
  | .userById userId => userId = u
  | .randomUUID => k.token = none
  | .setUserToken userId hash => userId = u ∧ k.written = false ∧ k.user.isSome = true ∧
    match x with
    | .setToken _ => ∃ token, k.token = some token ∧ hash = some (tokenHash L token)
    | .revokeToken _ => hash = none
    | .setUserData _ => False
  | .setUserData userId data => userId = u ∧ ∃ user, k.user = some user ∧
    match x with
    | .setUserData o => k.written = false ∧ ∃ props, editUserData o user = .ok props ∧
        data = .obj props
    | _ => k.written = true ∧ ∃ now, data = stampedData user now
  | .insertUser _ => False
  | .removeUser _ => False
  | _ => True

def Conforms {α : Type} (L : Libraries) (u : String) (x : Update) (Q : Known → α → Prop) (k : Known)
    (p : Api α) : Prop := Prog.Tracks learn (conforms L u x) Q k p

section

variable {u : String} {x : Update} {k : Known} {α β : Type}

theorem existingUser_conforms (hk : k = {}) :
    Conforms L u x (fun k user => k = { user := some user }) k (existingUser u) := by
  subst hk
  refine tracks_ask rfl fun answer => tracks_lift fun found hfound => ?_
  obtain rfl := orThrow_eq_ok.mp hfound
  cases found with
  | none => trivial
  | some user => exact rfl

theorem event_conforms (cmd : Command) (fields : Props) (out : Option String)
    (hk : k.written = true) :
    Conforms L u x (fun k _ => k.written = true) k (event cmd fields >>= fun _ => pure out) := by
  have hevent : Conforms L u x (fun k _ => k.written = true) k (event cmd fields) := by
    refine ⟨trivial, fun answer => ?_⟩
    cases answer with
    | ok _ => exact hk
    | error message => trivial
  refine hevent.bind fun k _ hk => ?_
  exact hk

theorem program_conforms (L : Libraries) (u : String) (x : Update) :
    Conforms L u x (fun k _ => k.written = true) {} (x.program L u) := by
  cases x with
  | setToken o =>
    refine (existingUser_conforms rfl).bind fun k user hk => ?_
    subst hk
    refine tracks_ask rfl fun token => tracks_ask trivial fun now => ?_
    refine tracks_ask ⟨rfl, rfl, rfl, token, rfl, rfl⟩ fun answer =>
      tracks_lift fun done hdone => ?_
    obtain rfl := orThrow_eq_ok.mp hdone
    refine tracks_ask ⟨rfl, user, rfl, rfl, now, rfl⟩ fun answer => tracks_lift fun done hdone => ?_
    obtain rfl := orThrow_eq_ok.mp hdone
    exact event_conforms _ _ _ rfl
  | revokeToken o =>
    refine (existingUser_conforms rfl).bind fun k user hk => ?_
    subst hk
    refine tracks_ask trivial fun now => ?_
    refine tracks_ask ⟨rfl, rfl, rfl, rfl⟩ fun answer => tracks_lift fun done hdone => ?_
    obtain rfl := orThrow_eq_ok.mp hdone
    refine tracks_ask ⟨rfl, user, rfl, rfl, now, rfl⟩ fun answer => tracks_lift fun done hdone => ?_
    obtain rfl := orThrow_eq_ok.mp hdone
    exact event_conforms _ _ _ rfl
  | setUserData o =>
    refine (existingUser_conforms rfl).bind fun k user hk => ?_
    subst hk
    refine tracks_lift fun props hprops => ?_
    refine tracks_ask ⟨rfl, user, rfl, rfl, props, hprops, rfl⟩ fun answer =>
      tracks_lift fun done hdone => ?_
    obtain rfl := orThrow_eq_ok.mp hdone
    exact event_conforms _ _ _ rfl

end

/-- Whether the answered call is the effect of its command. -/
def commits (x : Update) : (c : Call) → Ans c → Bool
  | .setUserToken _ _, .ok _ => true
  | .setUserData _ _, .ok _ =>
    match x with
    | .setUserData _ => true
    | _ => false
  | _, _ => false

/-- The threads whose commands have had their effect, in the order of these. -/
def order (updates : ThreadId → Update) (trace : List (Entry Ans World)) : List ThreadId :=
  (trace.filter fun e => commits (updates e.thread) e.call e.answer).map Entry.thread

/-- Whenever the data object is written, it is still the one that the writer has read,
the time of the token aside. -/
def Undisturbed (u : String) (trace : List (Entry Ans World)) : Prop :=
  ∀ i data done before after, ⟨i, .setUserData u data, .ok done, before, after⟩ ∈ trace →
    ∀ user, Made trace i (.userById u) (.ok (some user)) →
      ∀ now, before.users.find u = some now → settled now = settled user

/-- Another user has the token. -/
def taken (u : String) (hash : Option String) (w : World) : Bool :=
  w.users.rows.any (fun user => user.authToken == hash && !(user.userId == u))

section

variable {u : String} {updates : ThreadId → Update} {w w' : World}

theorem taken_update {f : VaultUser → VaultUser} (hf : ∀ user, (f user).userId = user.userId)
    (hash : Option String) (users : UserTable) :
    (users.update u f hf).rows.any (fun user => user.authToken == hash && !(user.userId == u)) =
      users.rows.any (fun user => user.authToken == hash && !(user.userId == u)) := by
  simp only [Table.update, List.any_map]
  congr 1
  funext user
  by_cases huser : user.userId = u
  · simp [huser, hf]
  · simp [huser]

/-- What the thread has learned. -/
def known (i : ThreadId) (trace : List (Entry Ans World)) : Known :=
  (own i trace).foldl (fun k e => learn k e.call e.answer) {}

theorem known_snoc (i : ThreadId) (trace : List (Entry Ans World)) (e : Entry Ans World) :
    known i (trace ++ [e]) =
      if e.thread = i then learn (known i trace) e.call e.answer else known i trace := by
  unfold known
  rw [own_append, List.foldl_append]
  by_cases h : e.thread = i
  · rw [own_cons_self h, if_pos h]
    rfl
  · rw [own_cons_ne h, if_neg h]
    rfl

theorem order_snoc (trace : List (Entry Ans World)) (e : Entry Ans World) :
    order updates (trace ++ [e]) = order updates trace ++
      if commits (updates e.thread) e.call e.answer then [e.thread] else [] := by
  unfold order
  rw [List.filter_append, List.map_append]
  by_cases h : commits (updates e.thread) e.call e.answer = true
  · simp [h]
  · simp [h]

/-- The token that a thread draws, if it draws one. -/
def drawnToken (L : Libraries) (w : World) (i : ThreadId) : String := L.randomUUID i (w.drawn i)

/-- The account after the commands of these threads. -/
def inOrder (L : Libraries) (updates : ThreadId → Update) (w : World) (threads : List ThreadId)
    (a : Account) : Account :=
  threads.foldl (fun a i => (updates i).apply L (drawnToken L w i) a) a

/-- What the entries so far have made of the row of the user: exactly the commands that
have had their effect, in this order. -/
structure History (L : Libraries) (u : String) (updates : ThreadId → Update) (w₀ : World)
    (trace : List (Entry Ans World)) (w : World) : Prop where
  users : ∀ i user, (known i trace).user = some user → Made trace i (.userById u) (.ok (some user))
  tokens : ∀ i token, (known i trace).token = some token → token = drawnToken L w₀ i
  drawn : ∀ i, (known i trace).token = none → w.drawn i = w₀.drawn i
  once : (order updates trace).Nodup
  written : ∀ i, i ∈ order updates trace ↔ (known i trace).written = true
  others : ∀ hash, taken u hash w = taken u hash w₀
  granted : ∀ i ∈ order updates trace, ∀ o, updates i = .setToken o →
    taken u (some (tokenHash L (drawnToken L w₀ i))) w₀ = false
  token : (w.users.find u).map (fun user => user.authToken) = (w₀.users.find u).map
    (fun user => (inOrder L updates w₀ (order updates trace) (account user)).token)
  data : Undisturbed u trace → (w.users.find u).map account = (w₀.users.find u).map
    (fun user => inOrder L updates w₀ (order updates trace) (account user))

theorem Undisturbed.mono {trace trace' : List (Entry Ans World)}
    (h : Undisturbed u (trace ++ trace')) :
    Undisturbed u trace :=
  fun i data done before after hmem user hmade now hnow =>
    h i data done before after (List.mem_append_left _ hmem) user
      (hmade.mono (List.prefix_append _ _)) now hnow

theorem known_user {i : ThreadId} {trace : List (Entry Ans World)} {e : Entry Ans World}
    (husers : ∀ i user, (known i trace).user = some user →
      Made trace i (.userById u) (.ok (some user)))
    (hlearn : ∀ user, (learn (known e.thread trace) e.call e.answer).user = some user →
      (known e.thread trace).user = some user ∨ Made [e] e.thread (.userById u) (.ok (some user)))
    {user : VaultUser} (h : (known i (trace ++ [e])).user = some user) :
    Made (trace ++ [e]) i (.userById u) (.ok (some user)) := by
  rw [known_snoc] at h
  by_cases hi : e.thread = i
  · subst hi
    rw [if_pos rfl] at h
    rcases hlearn user h with hold | ⟨before, after, hnew⟩
    · exact (husers _ user hold).mono (List.prefix_append _ _)
    · exact ⟨before, after, List.mem_append_right _ hnew⟩
  · rw [if_neg hi] at h
    exact (husers i user h).mono (List.prefix_append _ _)

/-- The entry leaves the row as it is, timestamps aside. -/
structure Spares (u : String) (trace : List (Entry Ans World)) (e : Entry Ans World) : Prop where
  others : ∀ hash, taken u hash e.after = taken u hash e.before
  token : (e.after.users.find u).map (fun user => user.authToken) =
    (e.before.users.find u).map (fun user => user.authToken)
  data : Undisturbed u (trace ++ [e]) →
    (e.after.users.find u).map account = (e.before.users.find u).map account

theorem spares_of_users {trace : List (Entry Ans World)} {e : Entry Ans World}
    (h : e.after.users = e.before.users) : Spares u trace e := by
  refine ⟨fun hash => ?_, ?_, fun _ => ?_⟩
  · rw [taken, h, taken]
  · rw [h]
  · rw [h]

/-- An entry that is no effect of a command. -/
theorem History.aside {w₀ : World} {trace : List (Entry Ans World)} {e : Entry Ans World}
    (h : History L u updates w₀ trace e.before) (hspares : Spares u trace e)
    (hcommits : commits (updates e.thread) e.call e.answer = false)
    (hwritten : (learn (known e.thread trace) e.call e.answer).written =
      (known e.thread trace).written)
    (huser : ∀ user, (learn (known e.thread trace) e.call e.answer).user = some user →
      (known e.thread trace).user = some user ∨ Made [e] e.thread (.userById u) (.ok (some user)))
    (htoken : ∀ token, (learn (known e.thread trace) e.call e.answer).token = some token →
      token = drawnToken L w₀ e.thread)
    (hdrawn : ∀ i, (known i (trace ++ [e])).token = none → e.after.drawn i = w₀.drawn i) :
    History L u updates w₀ (trace ++ [e]) e.after := by
  have horder : order updates (trace ++ [e]) = order updates trace := by
    rw [order_snoc, hcommits]
    simp
  refine ⟨fun i user hi => known_user h.users huser hi, fun i token hi => ?_, hdrawn, ?_,
    fun i => ?_, fun hash => ?_, ?_, ?_, fun hund => ?_⟩
  · rw [known_snoc] at hi
    by_cases heq : e.thread = i
    · subst heq
      rw [if_pos rfl] at hi
      exact htoken token hi
    · rw [if_neg heq] at hi
      exact h.tokens i token hi
  · rw [horder]
    exact h.once
  · rw [horder, known_snoc, h.written]
    by_cases heq : e.thread = i
    · subst heq
      rw [if_pos rfl, hwritten]
    · rw [if_neg heq]
  · rw [hspares.others]
    exact h.others hash
  · rw [horder]
    exact h.granted
  · rw [horder, hspares.token]
    exact h.token
  · rw [horder, hspares.data hund]
    exact h.data hund.mono

/-- A change of the row that its image follows. -/
theorem follow_row {γ : Type} {f : VaultUser → VaultUser} {g g₀ g₁ : VaultUser → γ}
    {now start : Option VaultUser} (h : now.map g = start.map g₀)
    (hstep : ∀ user user₀, now = some user → g user = g₀ user₀ → g (f user) = g₁ user₀) :
    (now.map f).map g = start.map g₁ := by
  cases now with
  | none =>
    cases start with
    | none => rfl
    | some user₀ => cases h
  | some user =>
    cases start with
    | none => cases h
    | some user₀ => exact congrArg some (hstep user user₀ rfl (Option.some.inj h))

/-- The effect of a command. -/
theorem History.commit {w₀ : World} {trace : List (Entry Ans World)} {e : Entry Ans World}
    (h : History L u updates w₀ trace e.before) {f : VaultUser → VaultUser}
    (hf : ∀ user, (f user).userId = user.userId)
    (husers : e.after.users = e.before.users.update u f hf)
    (hcommits : commits (updates e.thread) e.call e.answer = true)
    (hunwritten : (known e.thread trace).written = false)
    (hlearn : learn (known e.thread trace) e.call e.answer =
      { known e.thread trace with written := true })
    (hdrawn : e.after.drawn = e.before.drawn)
    (hgranted : ∀ o, updates e.thread = .setToken o →
      taken u (some (tokenHash L (drawnToken L w₀ e.thread))) e.before = false)
    (htoken : ∀ user, (f user).authToken =
      ((updates e.thread).apply L (drawnToken L w₀ e.thread) (account user)).token)
    (hdata : Undisturbed u (trace ++ [e]) → ∀ user, e.before.users.find u = some user →
      account (f user) = (updates e.thread).apply L (drawnToken L w₀ e.thread) (account user)) :
    History L u updates w₀ (trace ++ [e]) e.after := by
  have horder : order updates (trace ++ [e]) = order updates trace ++ [e.thread] := by
    rw [order_snoc, hcommits]
    simp
  have hfresh : e.thread ∉ order updates trace := by
    rw [h.written, hunwritten]
    exact Bool.false_ne_true
  have hknown : ∀ i, (known i (trace ++ [e])).token = (known i trace).token := by
    intro i
    rw [known_snoc]
    by_cases heq : e.thread = i
    · rw [if_pos heq, ← heq, hlearn]
    · rw [if_neg heq]
  have hfind : e.after.users.find u = (e.before.users.find u).map f := by
    rw [husers, Table.find_update_self]
  refine ⟨fun i user hi => known_user h.users (fun user huser => ?_) hi, fun i token hi => ?_,
    fun i hi => ?_, ?_, fun i => ?_, fun hash => ?_, fun i hi o ho => ?_, ?_, fun hund => ?_⟩
  · rw [hlearn] at huser
    exact Or.inl huser
  · rw [hknown] at hi
    exact h.tokens i token hi
  · rw [hknown] at hi
    rw [hdrawn]
    exact h.drawn i hi
  · rw [horder]
    exact List.nodup_append.mpr ⟨h.once, List.nodup_singleton _, fun i hi j hj heq => by
      rw [List.mem_singleton.mp hj] at heq
      exact hfresh (heq ▸ hi)⟩
  · rw [horder, known_snoc, List.mem_append, List.mem_singleton, h.written]
    by_cases heq : e.thread = i
    · subst heq
      rw [if_pos rfl, hlearn]
      simp
    · rw [if_neg heq]
      simp [Ne.symm heq]
  · rw [taken, husers, taken_update hf]
    exact h.others hash
  · rw [horder] at hi
    rcases List.mem_append.mp hi with hi | hi
    · exact h.granted i hi o ho
    · rw [List.mem_singleton.mp hi] at ho ⊢
      rw [← h.others]
      exact hgranted o ho
  · rw [horder, hfind]
    refine follow_row h.token fun user user₀ _ hbefore => ?_
    rw [htoken, inOrder, List.foldl_append]
    exact Update.apply_token L _ _ hbefore
  · rw [horder, hfind]
    refine follow_row (h.data hund.mono) fun user user₀ hnow hbefore => ?_
    rw [hdata hund user hnow, hbefore, inOrder, inOrder, List.foldl_append]
    rfl

theorem effect_drawn {i : ThreadId} {c : Call} (h : c ≠ .randomUUID) (w : World) :
    (effect L i c w).2.drawn = w.drawn := by
  cases c <;> first | (simp only [effect]; repeat' split) <;> rfl | exact absurd rfl h

theorem perform_rest {i : ThreadId} {t : Turn} {c : Call} {answer : Ans c} {before after : World}
    (h : writesUsers c = false) (hperform : perform L i t c before = (answer, after)) :
    after.users = before.users := by
  rw [← perform_users (L := L) (i := i) h t before, hperform]

theorem perform_draws_nothing {i : ThreadId} {t : Turn} {c : Call} {answer : Ans c}
    {before after : World} (hperform : perform L i t c before = (answer, after))
    (h : c ≠ .randomUUID) : after.drawn = before.drawn := by
  have hkept := perform_keeps World.drawn (fun _ _ => rfl) (effect_drawn (L := L) (i := i) h) t
    before
  rw [← hkept, hperform]

/-- Such an entry that teaches its thread nothing. -/
theorem History.idle {w₀ : World} {trace : List (Entry Ans World)} {e : Entry Ans World}
    (h : History L u updates w₀ trace e.before) (hspares : Spares u trace e)
    (hdrawn : e.after.drawn = e.before.drawn)
    (hcommits : commits (updates e.thread) e.call e.answer = false)
    (hlearn : learn (known e.thread trace) e.call e.answer = known e.thread trace) :
    History L u updates w₀ (trace ++ [e]) e.after := by
  refine h.aside hspares hcommits (by rw [hlearn]) (fun user huser => ?_) (fun token htoken => ?_)
    fun i hi => ?_
  · rw [hlearn] at huser
    exact Or.inl huser
  · rw [hlearn] at htoken
    exact h.tokens _ token htoken
  · have hsame : known i (trace ++ [e]) = known i trace := by
      rw [known_snoc]
      by_cases heq : e.thread = i
      · rw [if_pos heq, ← heq, hlearn]
      · rw [if_neg heq]
    rw [hsame] at hi
    rw [hdrawn]
    exact h.drawn i hi

theorem setUserToken_error {i : ThreadId} {t : Turn} {userId : String} {hash : Option String}
    {before after : World} {message : String}
    (h : perform L i t (.setUserToken userId hash) before = (.error message, after)) :
    after.users = before.users := by
  rcases perform_cases L i t (.setUserToken userId hash) before with ⟨_, _, -, -, hp⟩ | hp
  · rw [h] at hp
    rw [(Prod.mk.inj hp).2]
    rfl
  · rw [h] at hp
    simp only [effect] at hp
    split at hp
    · rw [(Prod.mk.inj hp).2]
      rfl
    · cases (Prod.mk.inj hp).1

theorem setUserToken_ok {i : ThreadId} {t : Turn} {userId : String} {hash : Option String}
    {before after : World} {done : Bool}
    (h : perform L i t (.setUserToken userId hash) before = (.ok done, after)) :
    (hash.isSome = true → taken userId hash before = false) ∧
      after.users = before.users.update userId (fun u => { u with authToken := hash })
        (fun _ => rfl) := by
  have hp := perform_answered (congrArg Prod.fst h) (by rintro message ⟨⟩)
  rw [h] at hp
  simp only [effect] at hp
  split at hp
  · cases (Prod.mk.inj hp).1
  · rename_i hfree
    refine ⟨fun hsome => ?_, congrArg World.users (Prod.mk.inj hp).2⟩
    rw [hsome, Bool.true_and] at hfree
    exact Bool.eq_false_iff.mpr hfree

theorem setUserData_ok {i : ThreadId} {t : Turn} {userId : String} {data : Json}
    {before after : World} {done : Bool}
    (h : perform L i t (.setUserData userId data) before = (.ok done, after)) :
    after.users = before.users.update userId (fun u => { u with data := data }) (fun _ => rfl) := by
  have hp := perform_answered (congrArg Prod.fst h) (by rintro message ⟨⟩)
  rw [h] at hp
  exact congrArg World.users (Prod.mk.inj hp).2

theorem setUserData_error {i : ThreadId} {t : Turn} {userId : String} {data : Json}
    {before after : World} {message : String}
    (h : perform L i t (.setUserData userId data) before = (.error message, after)) :
    after.users = before.users := by
  rcases perform_cases L i t (.setUserData userId data) before with ⟨_, _, -, -, hp⟩ | hp
  · rw [h] at hp
    rw [(Prod.mk.inj hp).2]
    rfl
  · rw [h] at hp
    cases (Prod.mk.inj hp).1

/-- A read teaches the thread the row it finds. -/
theorem History.read {w₀ before after : World} {trace : List (Entry Ans World)} {i : ThreadId}
    {t : Turn} {answer : Ans (.userById u)} (h : History L u updates w₀ trace before)
    (hperform : perform L i t (.userById u) before = (answer, after)) :
    History L u updates w₀ (trace ++ [⟨i, .userById u, answer, before, after⟩]) after := by
  have hstill : ∀ j, (known j (trace ++ [⟨i, .userById u, answer, before, after⟩])).token =
      (known j trace).token := by
    intro j
    rw [known_snoc]
    split
    · rename_i hij
      subst hij
      cases answer with
      | ok found => cases found <;> rfl
      | error message => rfl
    · rfl
  refine h.aside (spares_of_users (perform_rest rfl hperform)) ?_ ?_ (fun user huser => ?_)
    (fun token htoken => ?_) fun j hj => ?_
  · cases answer <;> rfl
  · cases answer with
    | ok found => cases found <;> rfl
    | error message => rfl
  · cases answer with
    | ok found =>
      cases found with
      | none => exact Or.inl huser
      | some user' =>
        cases huser
        exact Or.inr ⟨before, after, List.mem_singleton_self _⟩
    | error message => exact Or.inl huser
  · have hold := hstill i
    rw [known_snoc, if_pos rfl] at hold
    rw [hold] at htoken
    exact h.tokens i token htoken
  · rw [hstill] at hj
    rw [perform_draws_nothing hperform nofun]
    exact h.drawn j hj

/-- The one draw of a thread gives its token. -/
theorem History.draw {w₀ before after : World} {trace : List (Entry Ans World)} {i : ThreadId}
    {t : Turn} {answer : String} (h : History L u updates w₀ trace before)
    (hperform : perform L i t .randomUUID before = (answer, after))
    (hnone : (known i trace).token = none) :
    History L u updates w₀ (trace ++ [⟨i, .randomUUID, answer, before, after⟩]) after := by
  have hdrawn := h.drawn i hnone
  have heffect : perform L i t .randomUUID before =
      effect L i .randomUUID (before.tick t.elapsed) :=
    perform_answered rfl nofun
  have husers := perform_rest rfl hperform
  rw [hperform] at heffect
  obtain ⟨hanswer, hafter⟩ := Prod.mk.inj heffect
  refine h.aside (spares_of_users husers) rfl rfl (fun user huser => Or.inl huser)
    (fun token htoken => ?_) fun j hj => ?_
  · have htoken' : answer = token := Option.some.inj htoken
    rw [← htoken', hanswer, drawnToken, ← hdrawn]
    rfl
  · rw [known_snoc] at hj
    split at hj
    · cases hj
    · rename_i hij
      rw [hafter]
      have hother : (Function.update before.drawn i (before.drawn i + 1)) j = before.drawn j :=
        Function.update_of_ne (Ne.symm hij) _ _
      exact hother.trans (h.drawn j hj)

/-- The write of auth_token is the effect of its command, where it is executed. -/
theorem History.writeToken {w₀ before after : World} {trace : List (Entry Ans World)}
    {i : ThreadId} {t : Turn} {hash : Option String} {answer : Ans (.setUserToken u hash)}
    (h : History L u updates w₀ trace before)
    (hperform : perform L i t (.setUserToken u hash) before = (answer, after))
    (hc : conforms L u (updates i) (known i trace) (.setUserToken u hash)) :
    History L u updates w₀ (trace ++ [⟨i, .setUserToken u hash, answer, before, after⟩])
      after := by
  obtain ⟨-, hunwritten, -, hx⟩ := hc
  have hkept := perform_draws_nothing hperform nofun
  cases answer with
  | error message =>
    exact h.idle (spares_of_users (setUserToken_error hperform)) hkept rfl rfl
  | ok done =>
    obtain ⟨hfree, husers⟩ := setUserToken_ok hperform
    have happly : ∀ a, (updates i).apply L (drawnToken L w₀ i) a = { a with token := hash } := by
      intro a
      cases hupdate : updates i with
      | setToken o =>
        rw [hupdate] at hx
        obtain ⟨token, htoken, rfl⟩ := hx
        rw [h.tokens i token htoken]
        rfl
      | revokeToken o =>
        rw [hupdate] at hx
        obtain rfl : hash = none := hx
        rfl
      | setUserData o =>
        rw [hupdate] at hx
        cases hx
    refine h.commit _ husers rfl hunwritten rfl hkept (fun o ho => ?_) (fun user => ?_)
      fun _ user _ => ?_
    · rw [ho] at hx
      obtain ⟨token, htoken, rfl⟩ := hx
      rw [← h.tokens i token htoken]
      exact hfree rfl
    · dsimp only
      rw [happly]
    · dsimp only
      rw [happly]
      rfl

/-- The row that a write of the data object finds is the one that its thread has read. -/
theorem History.found {w₀ before after : World} {trace : List (Entry Ans World)} {i : ThreadId}
    {data : Json} {done : Bool} {user now : VaultUser} (h : History L u updates w₀ trace before)
    (hund : Undisturbed u (trace ++ [⟨i, .setUserData u data, .ok done, before, after⟩]))
    (huser : (known i trace).user = some user) (hnow : before.users.find u = some now) :
    settled now = settled user :=
  hund i data done before after (by simp) user
    ((h.users i user huser).mono (List.prefix_append _ _)) now hnow

/-- set-token and revoke-token write back the data that they have read. -/
theorem History.stamp {w₀ before after : World} {trace : List (Entry Ans World)} {i : ThreadId}
    {t : Turn} {done : Bool} {user : VaultUser} {now : Nat}
    (h : History L u updates w₀ trace before)
    (hperform : perform L i t (.setUserData u (stampedData user now)) before = (.ok done, after))
    (huser : (known i trace).user = some user) (hwritten : (known i trace).written = true)
    (hcommits : commits (updates i) (.setUserData u (stampedData user now)) (.ok done) = false) :
    History L u updates w₀
      (trace ++ [⟨i, .setUserData u (stampedData user now), .ok done, before, after⟩]) after := by
  have husers := setUserData_ok hperform
  refine h.idle ⟨fun hash => ?_, ?_, fun hund => ?_⟩
    (perform_draws_nothing hperform nofun) hcommits ?_
  · dsimp only
    rw [taken, husers, taken_update]
    rfl
  · dsimp only
    rw [husers, Table.find_update_self, Option.map_map]
    rfl
  · dsimp only
    rw [husers, Table.find_update_self, Option.map_map]
    refine Option.map_congr fun row hrow => ?_
    have hsame := h.found hund huser hrow
    simp only [Function.comp_apply, account, settled_stamped, hsame]
  · show ({ known i trace with written := true } : Known) = known i trace
    rw [← hwritten]

/-- The write of the data object is the effect of set-user-data, where it is executed. -/
theorem History.writeData {w₀ before after : World} {trace : List (Entry Ans World)}
    {i : ThreadId} {t : Turn} {data : Json} {answer : Ans (.setUserData u data)}
    (h : History L u updates w₀ trace before)
    (hperform : perform L i t (.setUserData u data) before = (answer, after))
    (hc : conforms L u (updates i) (known i trace) (.setUserData u data)) :
    History L u updates w₀ (trace ++ [⟨i, .setUserData u data, answer, before, after⟩])
      after := by
  obtain ⟨-, user, huser, hx⟩ := hc
  have hkept := perform_draws_nothing hperform nofun
  cases answer with
  | error message =>
    exact h.idle (spares_of_users (setUserData_error hperform)) hkept rfl rfl
  | ok done =>
    cases hupdate : updates i with
    | setToken o =>
      rw [hupdate] at hx
      obtain ⟨hwritten, now, rfl⟩ := hx
      exact h.stamp hperform huser hwritten (by rw [hupdate]; rfl)
    | revokeToken o =>
      rw [hupdate] at hx
      obtain ⟨hwritten, now, rfl⟩ := hx
      exact h.stamp hperform huser hwritten (by rw [hupdate]; rfl)
    | setUserData o =>
      rw [hupdate] at hx
      obtain ⟨hunwritten, props, hprops, rfl⟩ := hx
      refine h.commit _ (setUserData_ok hperform) (by dsimp only; rw [hupdate]; rfl) hunwritten rfl
        hkept (fun o' ho => ?_) (fun row => ?_) fun hund row hrow => ?_
      · rw [hupdate] at ho
        cases ho
      · dsimp only
        rw [hupdate, Update.apply]
        split <;> rfl
      · have hsame := h.found hund huser hrow
        have hedit := settled_edited hprops row.userId row.authToken
        rw [← hsame] at hedit
        dsimp only
        rw [hupdate, Update.apply]
        simp only [account, hedit]

/-- One entry of a command. -/
theorem History.step {w₀ : World} {trace : List (Entry Ans World)} {e : Entry Ans World} {t : Turn}
    (h : History L u updates w₀ trace e.before)
    (hperform : perform L e.thread t e.call e.before = (e.answer, e.after))
    (hc : conforms L u (updates e.thread) (known e.thread trace) e.call) :
    History L u updates w₀ (trace ++ [e]) e.after := by
  obtain ⟨i, c, answer, before, after⟩ := e
  dsimp only at h hperform hc
  cases c with
  | userById userId =>
    obtain rfl : userId = u := hc
    exact h.read hperform
  | randomUUID => exact h.draw hperform hc
  | setUserToken userId hash =>
    obtain rfl : userId = u := hc.1
    exact h.writeToken hperform hc
  | setUserData userId data =>
    obtain rfl : userId = u := hc.1
    exact h.writeData hperform hc
  | insertUser data => cases hc
  | removeUser userId => cases hc
  | _ =>
    exact h.idle (spares_of_users (perform_rest rfl hperform))
      (perform_draws_nothing hperform nofun) rfl rfl

/-- The state after one whole command that nothing disturbs. -/
def solo (L : Libraries) (u : String) (x : Update) (i : ThreadId) (w : World) : World :=
  ((x.program L u).run (serve L i) (quiet w)).2.world

def oneByOne (L : Libraries) (u : String) (updates : ThreadId → Update) (threads : List ThreadId)
    (w : World) : World :=
  threads.foldl (fun w i => solo L u (updates i) i w) w

/-- What a whole command leaves as it was, and what it makes of the account. -/
structure Solo (L : Libraries) (u : String) (x : Update) (i : ThreadId) (w w' : World) : Prop where
  others : ∀ hash, taken u hash w' = taken u hash w
  drawn : ∀ j, j ≠ i → w'.drawn j = w.drawn j
  account : (∀ o, x = .setToken o → taken u (some (tokenHash L (drawnToken L w i))) w = false) →
    (w'.users.find u).map account = (w.users.find u).map
      (fun user => x.apply L (drawnToken L w i) (account user))

theorem existingUser_run (i : ThreadId) (f : VaultUser → Api (Option String)) (w : World) :
    (existingUser u >>= f).run (serve L i) (quiet w) = match w.users.find u with
      | some user => (f user).run (serve L i) (quiet w)
      | none => (.error (.error "User not found"), quiet w) := by
  simp only [existingUser, ask_bind, Prog.call_bind, Prog.run_call, serve_quiet, effect, orThrow_ok,
    Prog.liftM_eq, Prog.done_ok_bind]
  cases w.users.find u <;> rfl

/-- A command starts by reading the row. -/
theorem program_reads (L : Libraries) (u : String) (x : Update) :
    ∃ f : VaultUser → Api (Option String), x.program L u = (existingUser u >>= f) := by
  cases x with
  | setToken o => exact ⟨_, rfl⟩
  | revokeToken o => exact ⟨_, rfl⟩
  | setUserData o => exact ⟨_, rfl⟩

theorem solo_none {x : Update} {i : ThreadId} {w : World} (h : w.users.find u = none) :
    solo L u x i w = w := by
  obtain ⟨f, hf⟩ := program_reads L u x
  rw [solo, hf, existingUser_run, h]
  rfl

theorem setUserToken_free {i : ThreadId} {hash : Option String} {w : World}
    (h : hash.isSome = true → taken u hash w = false) :
    effect L i (.setUserToken u hash) w = (.ok (w.users.find u).isSome, { w with
      users := w.users.update u (fun user => { user with authToken := hash }) (fun _ => rfl) })
        := by
  simp only [effect]
  rw [if_neg]
  rw [Bool.and_eq_true]
  rintro ⟨hsome, htaken⟩
  have hfree := h hsome
  rw [taken, htaken] at hfree
  cases hfree

theorem setUserToken_taken {i : ThreadId} {hash : String} {w : World}
    (h : taken u (some hash) w = true) : ∃ message,
      effect L i (.setUserToken u (some hash)) w = (.error message, w) := by
  refine ⟨"duplicate key value violates unique constraint", ?_⟩
  simp only [effect]
  rw [if_pos]
  exact h

/-- The row after set-token or revoke-token. -/
theorem find_stamped {users : UserTable} {user : VaultUser} (h : users.find u = some user)
    (hash : Option String) (now : Nat) :
    (((users.update u (fun user => { user with authToken := hash }) (fun _ => rfl)).update u
      (fun row => { row with data := stampedData user now }) (fun _ => rfl)).find u).map account =
        some { account user with token := hash } := by
  rw [Table.find_update_self, Table.find_update_self, h]
  exact congrArg some (congrArg (Account.mk hash) (settled_stamped user now _ _))

theorem taken_stamped (users : UserTable) (user : VaultUser) (hash : Option String) (now : Nat)
    (other : Option String) :
    ((users.update u (fun user => { user with authToken := hash }) (fun _ => rfl)).update u
      (fun row => { row with data := stampedData user now }) (fun _ => rfl)).rows.any
        (fun user => user.authToken == other && !(user.userId == u)) =
      users.rows.any (fun user => user.authToken == other && !(user.userId == u)) := by
  rw [taken_update, taken_update]

theorem solo_setToken {o : Opts} {i : ThreadId} {w : World} {user : VaultUser}
    (h : w.users.find u = some user) :
    Solo L u (.setToken o) i w (solo L u (.setToken o) i w) := by
  have hother : ∀ j, j ≠ i → Function.update w.drawn i (w.drawn i + 1) j = w.drawn j :=
    fun j hj => Function.update_of_ne hj _ _
  have hrun : solo L u (.setToken o) i w = _ :=
    congrArg (fun r => r.2.world) (existingUser_run i _ w)
  rw [hrun, h]
  simp only [ask_bind, Prog.run_call, serve_quiet]
  cases htaken : taken u (some (tokenHash L (drawnToken L w i))) w with
  | true =>
    obtain ⟨message, hfails⟩ := setUserToken_taken (L := L) (i := i)
      (w := (effect L i .dateNow (effect L i .randomUUID w).2).2) htaken
    rw [show (effect L i .randomUUID w).1 = drawnToken L w i from rfl, hfails]
    refine ⟨fun _ => rfl, hother, fun hfree => ?_⟩
    rw [hfree o rfl] at htaken
    cases htaken
  | false =>
    have hworks := setUserToken_free (L := L) (i := i)
      (w := (effect L i .dateNow (effect L i .randomUUID w).2).2) (fun _ => htaken)
    rw [show (effect L i .randomUUID w).1 = drawnToken L w i from rfl, hworks]
    refine ⟨fun hash => ?_, hother, fun _ => ?_⟩
    · exact taken_stamped w.users user _ _ hash
    · rw [h]
      exact find_stamped h _ _

theorem solo_revokeToken {o : Opts} {i : ThreadId} {w : World} {user : VaultUser}
    (h : w.users.find u = some user) :
    Solo L u (.revokeToken o) i w (solo L u (.revokeToken o) i w) := by
  have hrun : solo L u (.revokeToken o) i w = _ :=
    congrArg (fun r => r.2.world) (existingUser_run i _ w)
  rw [hrun, h]
  simp only [ask_bind, Prog.run_call, serve_quiet]
  have hworks : effect L i (.setUserToken u none) (effect L i .dateNow w).2 = _ :=
    setUserToken_free (by rintro ⟨⟩)
  rw [hworks]
  refine ⟨fun hash => ?_, fun _ _ => rfl, fun _ => ?_⟩
  · exact taken_stamped w.users user _ _ hash
  · rw [h]
    exact find_stamped h _ _

theorem solo_setUserData {o : Opts} {i : ThreadId} {w : World} {user : VaultUser}
    (h : w.users.find u = some user) :
    Solo L u (.setUserData o) i w (solo L u (.setUserData o) i w) := by
  have hrun : solo L u (.setUserData o) i w = _ :=
    congrArg (fun r => r.2.world) (existingUser_run i _ w)
  rw [hrun, h]
  dsimp only
  cases hedit : editUserData { o with user := some u } user with
  | error e =>
    refine ⟨fun _ => rfl, fun _ _ => rfl, fun _ => ?_⟩
    have hrefused : edit o (settled user) = .error e := settled_refused hedit
    rw [h]
    simp only [Option.map_some, Update.apply, account, hrefused]
    exact congrArg (Option.map account) h
  | ok data =>
    have hedited : edit o (settled user) = .ok _ := settled_edited hedit user.userId user.authToken
    refine ⟨fun hash => taken_update (f := fun row => { row with data := .obj data })
      (fun _ => rfl) hash
      w.users, fun _ _ => rfl, fun _ => ?_⟩
    rw [h]
    simp only [Option.map_some, Update.apply, account, hedited]
    refine (congrArg (Option.map account) (Table.find_update_self w.users u
      (fun row => { row with data := .obj data }) (fun _ => rfl))).trans ?_
    rw [h]
    rfl

theorem solo_spec (L : Libraries) (u : String) (x : Update) (i : ThreadId) (w : World) :
    Solo L u x i w (solo L u x i w) := by
  cases hfind : w.users.find u with
  | none =>
    rw [solo_none hfind]
    exact ⟨fun _ => rfl, fun _ _ => rfl, fun _ => by rw [hfind]; rfl⟩
  | some user =>
    cases x with
    | setToken o => exact solo_setToken hfind
    | revokeToken o => exact solo_revokeToken hfind
    | setUserData o => exact solo_setUserData hfind

theorem oneByOne_account {w₀ : World} {threads : List ThreadId} (hnodup : threads.Nodup)
    (hgranted : ∀ i ∈ threads, ∀ o, updates i = .setToken o →
      taken u (some (tokenHash L (drawnToken L w₀ i))) w₀ = false)
    (hothers : ∀ hash, taken u hash w = taken u hash w₀)
    (hdrawn : ∀ i ∈ threads, w.drawn i = w₀.drawn i) :
    ((oneByOne L u updates threads w).users.find u).map account =
      (w.users.find u).map fun user => inOrder L updates w₀ threads (account user) := by
  induction threads generalizing w with
  | nil => rfl
  | cons i rest ih =>
    obtain ⟨hnew, hrest⟩ := List.nodup_cons.mp hnodup
    obtain ⟨hothers', hdrawn', haccount⟩ := solo_spec L u (updates i) i w
    have htoken : drawnToken L w i = drawnToken L w₀ i := by
      rw [drawnToken, drawnToken, hdrawn i List.mem_cons_self]
    have hstep := haccount fun o ho => by
      rw [htoken, hothers]
      exact hgranted i List.mem_cons_self o ho
    have hthen := ih (w := solo L u (updates i) i w) hrest
      (fun j hj => hgranted j (List.mem_cons_of_mem _ hj))
      (fun hash => (hothers' hash).trans (hothers hash))
      (fun j hj => (hdrawn' j (fun heq => hnew (heq ▸ hj))).trans
        (hdrawn j (List.mem_cons_of_mem _ hj)))
    refine Eq.trans hthen ?_
    rw [htoken] at hstep
    have hmap : ∀ user : Option VaultUser,
        user.map (fun user => inOrder L updates w₀ rest (account user)) =
        (user.map account).map (inOrder L updates w₀ rest) := fun user => by
      rw [Option.map_map]
      rfl
    rw [hmap, hstep, Option.map_map]
    rfl

/-- The recorded run of the commands under a schedule. -/
def run (L : Libraries) (u : String) (updates : ThreadId → Update) (w : World)
    (schedule : Schedule Turn) : Pool Ans Thrown (Option String) (Recorded Ans World) :=
  Pool.exec (record (perform L)) schedule ⟨fun i => (updates i).program L u, ⟨w, []⟩⟩

theorem run_makes (L : Libraries) (u : String) (updates : ThreadId → Update) (w : World)
    (schedule : Schedule Turn) :
    let W := run L u updates w schedule
    Linked (perform L) w W.state.trace W.state.now ∧
      ∀ i, Makes i ((updates i).program L u) (own i W.state.trace) (W.threads i) :=
  started_makes (perform L) (fun i => (updates i).program L u) w schedule

theorem run_conforms (L : Libraries) (u : String) (updates : ThreadId → Update) (w : World)
    (schedule : Schedule Turn) {pre post : List (Entry Ans World)} {e : Entry Ans World}
    (h : (run L u updates w schedule).state.trace = pre ++ e :: post) :
    conforms L u (updates e.thread) (known e.thread pre) e.call := by
  refine started_tracks (Q := fun k _ => k.written = true) ?_ h
  exact program_conforms L u (updates e.thread)

theorem linked_history {w₀ : World} {trace : List (Entry Ans World)}
    (h : Linked (perform L) w₀ trace w)
    (hconforms : ∀ pre e post, trace = pre ++ e :: post →
      conforms L u (updates e.thread) (known e.thread pre) e.call) :
    History L u updates w₀ trace w := by
  have hstart : History L u updates w₀ [] w₀ := by
    refine ⟨?_, ?_, fun _ _ => rfl, List.nodup_nil, fun i => ?_, fun _ => rfl, ?_, rfl,
      fun _ => rfl⟩
    · intro i user hknown
      cases hknown
    · intro i token hknown
      cases hknown
    · simp [order, known, own]
    · intro i hi
      cases hi
  refine h.history (Q := History L u updates w₀) (fun pre e post htrace hstep hpre => ?_) hstart
  obtain ⟨t, hperform⟩ := hstep
  exact hpre.step hperform (hconforms pre e post htrace)

/-- No entry changes a property that its command does not mention. -/
theorem History.spared {w₀ : World} {trace : List (Entry Ans World)}
    {e : Entry Ans World} {t : Turn}
    (h : History L u updates w₀ trace e.before)
    (hperform : perform L e.thread t e.call e.before = (e.answer, e.after))
    (hc : conforms L u (updates e.thread) (known e.thread trace) e.call)
    (hund : Undisturbed u (trace ++ [e])) {name : String}
    (hname : name ∉ (updates e.thread).mentions) :
    (e.after.users.find u).map (fun user => (settled user).lookup name) =
      (e.before.users.find u).map (fun user => (settled user).lookup name) := by
  obtain ⟨i, c, answer, before, after⟩ := e
  dsimp only at h hperform hc hname ⊢
  have hsame : after.users = before.users → (after.users.find u).map
      (fun user => (settled user).lookup name) =
        (before.users.find u).map (fun user => (settled user).lookup name) := fun heq => by rw [heq]
  cases c with
  | setUserToken userId hash =>
    obtain ⟨rfl, -⟩ := hc
    cases answer with
    | error message => exact hsame (setUserToken_error hperform)
    | ok done =>
      rw [(setUserToken_ok hperform).2, Table.find_update_self, Option.map_map]
      rfl
  | setUserData userId data =>
    obtain ⟨rfl, user, huser, hx⟩ := hc
    cases answer with
    | error message => exact hsame (setUserData_error hperform)
    | ok done =>
      rw [setUserData_ok hperform, Table.find_update_self, Option.map_map]
      refine Option.map_congr fun row hrow => ?_
      have hread := h.found hund huser hrow
      have hstamp : (∃ now, data = stampedData user now) →
          (settled { row with data := data }).lookup name = (settled row).lookup name := by
        rintro ⟨now, rfl⟩
        rw [settled_stamped, hread]
      cases hupdate : updates i with
      | setToken o =>
        rw [hupdate] at hx
        exact hstamp hx.2
      | revokeToken o =>
        rw [hupdate] at hx
        exact hstamp hx.2
      | setUserData o =>
        rw [hupdate] at hx hname
        obtain ⟨-, props, hprops, rfl⟩ := hx
        have hedit := settled_edited hprops row.userId row.authToken
        rw [← hread] at hedit
        exact (edit_local o).spares _ _ name hname hedit
  | insertUser data => cases hc
  | removeUser userId => cases hc
  | _ => exact hsame (perform_rest rfl hperform)

/-- The commands on one user against the same commands run one after the other, in the
order of their effects. The token is always the one that remains there. The whole row is,
timestamps aside, when the data object is never written over a change that the writer has
not seen; a command then leaves all properties alone that it does not mention. -/
theorem updates_serializable (L : Libraries) (u : String) (updates : ThreadId → Update) (w : World)
    (schedule : Schedule Turn) :
    let W := run L u updates w schedule
    let threads := order updates W.state.trace
    threads.Nodup ∧
      (∀ i, i ∈ threads ↔
        ∃ e ∈ W.state.trace, e.thread = i ∧ commits (updates i) e.call e.answer = true) ∧
      (∀ i out, W.threads i = .done (.ok out) → i ∈ threads) ∧
      (W.state.now.users.find u).map (fun user => user.authToken) =
        ((oneByOne L u updates threads w).users.find u).map (fun user => user.authToken) ∧
      (Undisturbed u W.state.trace →
        (W.state.now.users.find u).map account =
          ((oneByOne L u updates threads w).users.find u).map account ∧
        ∀ e ∈ W.state.trace, ∀ name, name ∉ (updates e.thread).mentions →
          (e.after.users.find u).map (fun user => (settled user).lookup name) =
            (e.before.users.find u).map (fun user => (settled user).lookup name)) := by
  intro W threads
  obtain ⟨hlinked, hmakes⟩ := run_makes L u updates w schedule
  have hhistory : History L u updates w W.state.trace W.state.now :=
    linked_history hlinked fun pre e post h => run_conforms L u updates w schedule h
  have hserial : ((oneByOne L u updates (order updates W.state.trace) w).users.find u).map account =
      (w.users.find u).map fun user => inOrder L updates w (order updates W.state.trace)
        (account user) :=
    oneByOne_account hhistory.once hhistory.granted (fun _ => rfl) (fun _ _ => rfl)
  refine ⟨hhistory.once, fun i => ⟨fun hi => ?_, ?_⟩, fun i out hout => ?_, ?_,
    fun hund => ⟨?_, fun e he name hname => ?_⟩⟩
  · obtain ⟨e, he, rfl⟩ := List.mem_map.mp hi
    obtain ⟨hmem, hcommits⟩ := List.mem_filter.mp he
    exact ⟨e, hmem, rfl, hcommits⟩
  · rintro ⟨e, hmem, rfl, hcommits⟩
    exact List.mem_map.mpr ⟨e, List.mem_filter.mpr ⟨hmem, hcommits⟩, rfl⟩
  · rw [hhistory.written]
    have hmade := hmakes i
    rw [show (run L u updates w schedule).threads i = .done (.ok out) from hout] at hmade
    exact hmade.tracks_end (program_conforms L u (updates i))
  · have htoken := congrArg (Option.map Account.token) hserial
    rw [Option.map_map, Option.map_map] at htoken
    exact hhistory.token.trans htoken.symm
  · exact (hhistory.data hund).trans hserial.symm
  · obtain ⟨pre, post, hsplit⟩ := List.append_of_mem he
    have hconforms := run_conforms L u updates w schedule hsplit
    rw [show (run L u updates w schedule).state.trace = pre ++ e :: post from hsplit] at hlinked
    obtain ⟨before, hpre, hbefore, ⟨t, hperform⟩, -⟩ := hlinked.split
    subst hbefore
    have hpast : History L u updates w pre e.before := linked_history hpre fun pre' e' post' h =>
      run_conforms L u updates w schedule (by
        rw [show (run L u updates w schedule).state.trace = pre ++ e :: post from hsplit, h,
          List.append_assoc, List.cons_append])
    refine hpast.spared hperform hconforms ?_ hname
    rw [hsplit, ← List.singleton_append, ← List.append_assoc] at hund
    exact hund.mono

end

/-- One command sets a mask, another one an expiry. -/
def twoAdmins (i : ThreadId) : Update :=
  if i = 0 then .setUserData { actor := "root", allowedOps := ["sign"] }
  else .setUserData { actor := "root", exp := some 4102444800 }

def alicesRow : World := { fresh 0 with users := Table.empty.insert Fixtures.alice }

/-- Both commands read the row before either has written it. -/
def crossed : Schedule Turn := [(0, {}), (1, {}), (0, {}), (1, {}), (0, {}), (1, {})]

/-- Both end normally, and the mask is gone: no order of the two explains the row. -/
theorem restriction_lost :
    let W := run Fixtures.bare Fixtures.aliceId twoAdmins alicesRow crossed
    (∃ out, W.threads 0 = .done (.ok out)) ∧ (∃ out, W.threads 1 = .done (.ok out)) ∧
      (W.state.now.users.find Fixtures.aliceId).map
        (fun user => (settled user).lookup "allowedOps") =
        some none ∧
      ∀ threads : List ThreadId, threads.Perm [0, 1] →
        (W.state.now.users.find Fixtures.aliceId).map account ≠
          ((oneByOne Fixtures.bare Fixtures.aliceId twoAdmins threads alicesRow).users.find
            Fixtures.aliceId).map account := by
  intro W
  refine ⟨⟨none, rfl⟩, ⟨none, rfl⟩, by decide +kernel, fun threads hperm => ?_⟩
  have hmem : threads = [0, 1] ∨ threads = [1, 0] := List.perm_pair.mp hperm
  have hcases : ∀ threads ∈ [[0, 1], [1, 0]],
      (W.state.now.users.find Fixtures.aliceId).map account ≠
        ((oneByOne Fixtures.bare Fixtures.aliceId twoAdmins threads alicesRow).users.find
          Fixtures.aliceId).map account := by decide +kernel
  exact hcases threads (by simpa using hmem)

end UserUpdates
