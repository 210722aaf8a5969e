import KeyVault.HandlerRuns
import KeyVault.Ownership
import KeyVault.ValidityWindow

/-!
# list-keys and single-key authorisation

list-keys selects the rows whose ACL names the caller and filters them by the window
and by the classes that are left of the grant. For a caller whose id is in lower case,
as every authenticated one's is, these are exactly the rows on which some operation
passes `authorizedKey`.
-/

namespace ListedKeys

open JsValue Acl Errors Programs Interleaving Vault KeyStore Handlers CallEffects HandlerRuns
open Processes Tables Ownership ValidityWindow

variable {L : Libraries} {i : ThreadId} {user : VaultUser} {data : Json}

/-- Some single-key operation of the caller would get this row at this instant. -/
def Usable (L : Libraries) (i : ThreadId) (user : VaultUser) (w : World) (t : Nat)
    (row : KeyRow) : Prop :=
  ∃ opClass ∈ keyOpClasses,
    ((authorizedKey user row.keyId opClass).run (serve L i) (quiet { w with clock := t })).1 =
      .ok row.toVaultKey

/-- An ACL that grants anything has the lower-case id as a key. -/
theorem aclMentions_of_allows {acl : Json} {userId : String} {opClass : OpClass}
    (hlower : toLowerCase userId = userId) (h : aclAllows acl userId opClass = true) :
    aclMentions acl userId = true := by
  cases acl with
  | obj props =>
    simp only [aclAllows, get?_obj, hlower, Bool.and_eq_true] at h
    cases hlookup : props.lookup userId with
    | none => simp [hlookup] at h
    | some ops => simp [aclMentions, hasProp, hlookup]
  | _ => simp [aclAllows, Json.isPlainObject] at h

theorem effectiveAny_iff (row : VaultKey) :
    effectiveAny user.data row.acl user.userId = true ↔
      ∃ opClass ∈ keyOpClasses, granted user row opClass = true := List.any_eq_true

/-- The prefilter and the filters of list-keys select the usable rows. -/
theorem selected_iff (hlower : toLowerCase user.userId = user.userId) {w : World} {row : KeyRow}
    (hrow : row ∈ w.keys.rows) (t : Nat) :
    aclMentions row.acl user.userId = true ∧ inWindow row.toVaultKey t = true ∧
        effectiveAny user.data row.acl user.userId = true ↔ Usable L i user w t row := by
  have hfind : w.keys.find row.keyId = some row := Table.find_of_mem (t := w.keys) hrow
  constructor
  · rintro ⟨-, hwindow, hany⟩
    obtain ⟨opClass, hclass, hgranted⟩ := (effectiveAny_iff row.toVaultKey).mp hany
    refine ⟨opClass, hclass, ?_⟩
    exact (authorizedKey_ok_iff rfl hfind hgranted).mpr hwindow
  · rintro ⟨opClass, hclass, hok⟩
    have hgranted : granted user row.toVaultKey opClass = true := by
      by_contra hdenied
      have hrun := authorizedKey_run L i user row.keyId opClass
        (s := quiet { w with clock := t }) rfl
      have hstored : (quiet { w with clock := t }).world.keys.find row.keyId = some row := hfind
      rw [hstored] at hrun
      simp only [hdenied] at hrun
      rw [hrun] at hok
      cases hok
    have hallows : aclAllows row.acl user.userId opClass = true :=
      (Bool.and_eq_true_iff.mp hgranted).1
    refine ⟨aclMentions_of_allows hlower hallows, ?_, ?_⟩
    · exact (authorizedKey_ok_iff rfl hfind hgranted).mp hok
    · exact (effectiveAny_iff row.toVaultKey).mpr ⟨opClass, hclass, hgranted⟩

/-- The rows that list-keys picks. -/
def picked (user : VaultUser) (w : World) (t : Nat) : List KeyRow :=
  w.keys.rows.filter (fun row => aclMentions row.acl user.userId &&
    (inWindow row.toVaultKey t && effectiveAny user.data row.acl user.userId))

theorem keyList_eq_picked (user : VaultUser) (w : World) (t : Nat) :
    keyList user.userId user.data w t = (picked user w t).map KeyRow.toVaultKey := by
  rw [keyList, List.filter_map, List.filter_filter, picked]
  congr 1
  apply List.filter_congr
  intro row _
  exact Bool.and_comm _ _

theorem picked_sublist (user : VaultUser) (w : World) (t : Nat) :
    (picked user w t).Sublist w.keys.rows := List.filter_sublist

theorem picked_nodup (user : VaultUser) (w : World) (t : Nat) :
    ((picked user w t).map (fun row => row.keyId)).Nodup :=
  w.keys.distinct.sublist ((picked_sublist user w t).map _)

theorem mem_picked_iff (hlower : toLowerCase user.userId = user.userId) {w : World} {row : KeyRow}
    (hrow : row ∈ w.keys.rows) (t : Nat) : row ∈ picked user w t ↔ Usable L i user w t row := by
  rw [← selected_iff hlower hrow, picked, List.mem_filter, Bool.and_eq_true, Bool.and_eq_true]
  exact and_iff_right hrow

theorem handler_run (hdata : checkProps data [] = .ok ())
    (hpermitted : allowedOpsAllows user.data .listKeys = true) {s : Session}
    (hs : (s.turns.headD {}).fails = none) :
    ((Handlers.listKeys user data).run (serve L i) s).1 =
      .ok ⟨some (.obj [("keys", .arr ((picked user s.world s.pass.pass.world.clock).map
        (fun row => listed row.toVaultKey)))]),
        some [("keyCount", .num (picked user s.world s.pass.pass.world.clock).length)]⟩ := by
  have hlist := listKeys_run L i user.userId user.data hs
  rw [keyList_eq_picked, List.map_map] at hlist
  simp only [Handlers.listKeys, hdata, hpermitted, require_true, Prog.liftM_eq, Prog.done_ok_bind]
  rw [Prog.run_bind_ok hlist]
  simp [Prog.pure_eq, Prog.run_done, Function.comp_def]

/-- A user that a lookup of the token has found has its id in lower case. -/
theorem authenticated_lower (hL : ∀ n, toLowerCase (L.genRandomUuid n) = L.genRandomUuid n)
    (processes : ThreadId → Process) (clock : Nat) {users : UserTable}
    (husers : ∀ u ∈ users.rows, toLowerCase u.userId = u.userId) (schedule : Schedule Turn)
    {j : ThreadId} {hash : String}
    (hcaller : Made (runs L processes (KeyLifecycle.start clock users) schedule).state.trace j
      (.userByTokenHash hash) (.ok (some user))) : toLowerCase user.userId = user.userId := by
  obtain ⟨before, after, hmem⟩ := hcaller
  have hlinked := (runs_makes L processes (KeyLifecycle.start clock users) schedule).1
  have hlower := hlinked.keeps (fun i t c s => perform_lowerUsers hL i t c s) husers
  obtain ⟨t, hstep⟩ := hlinked.mem hmem
  have hanswer := congrArg Prod.fst hstep
  rcases perform_cases L j t (.userByTokenHash hash) before with
    ⟨message, answer, -, hfails, hp⟩ | hp
  · rw [hp] at hanswer
    cases hfails
    cases hanswer
  · rw [hp] at hanswer
    have hfound := Except.ok.inj hanswer
    exact (hlower _ hmem).1 user (List.mem_of_find?_eq_some hfound)

/-- In every store and at every instant, the rows that list-keys returns to a caller that a
run has authenticated, and who may list, are exactly the ones that the caller can use, each
once and in the order of their insertion. -/
theorem list_keys_agrees (L : Libraries)
    (hL : ∀ n, toLowerCase (L.genRandomUuid n) = L.genRandomUuid n)
    (processes : ThreadId → Process) (clock : Nat) {users : UserTable}
    (husers : ∀ u ∈ users.rows, toLowerCase u.userId = u.userId) (schedule : Schedule Turn)
    {j : ThreadId} {hash : String}
    (hcaller : Made (runs L processes (KeyLifecycle.start clock users) schedule).state.trace j
      (.userByTokenHash hash) (.ok (some user)))
    (hdata : checkProps data [] = .ok ())
    (hpermitted : allowedOpsAllows user.data .listKeys = true) (i : ThreadId) {s : Session}
    (hs : (s.turns.headD {}).fails = none) :
    ∃ rows : List KeyRow,
      ((Handlers.listKeys user data).run (serve L i) s).1 =
        .ok ⟨some (.obj [("keys", .arr (rows.map (fun row => listed row.toVaultKey)))]),
          some [("keyCount", .num rows.length)]⟩ ∧
      rows.Sublist s.world.keys.rows ∧ (rows.map (fun row => row.keyId)).Nodup ∧
      ∀ row ∈ s.world.keys.rows,
        row ∈ rows ↔ Usable L i user s.world s.pass.pass.world.clock row := by
  have hlower := authenticated_lower hL processes clock husers schedule hcaller
  refine ⟨picked user s.world s.pass.pass.world.clock, handler_run hdata hpermitted hs,
    picked_sublist _ _ _, picked_nodup _ _ _, ?_⟩
  intro row hrow
  exact mem_picked_iff hlower hrow _

/-- Alice, as the lookup of her token finds her. -/
def alice : VaultUser :=
  ⟨Fixtures.aliceId, some Fixtures.aliceId, .obj [("allowedIP", .arr [.str "127.0.0.1"])]⟩

/-- Alice has generated a key. -/
def generated : Pool Ans Thrown (Option Server.Response) (Recorded Ans World) :=
  runs Fixtures.obliging (fun _ => .request Fixtures.config AclInvariant.generateRequest)
    (KeyLifecycle.start 0 AclInvariant.aliceAllowed) (List.replicate 8 (0, {}))

/-- She is shown the key that she can use. -/
theorem list_keys_agrees_alice :
    ∃ rows : List KeyRow,
      ((Handlers.listKeys alice (.obj [])).run (serve Fixtures.obliging 1)
        (quiet generated.state.now)).1 =
          .ok ⟨some (.obj [("keys", .arr (rows.map (fun row => listed row.toVaultKey)))]),
            some [("keyCount", .num rows.length)]⟩ ∧
      rows.Sublist generated.state.now.keys.rows ∧ (rows.map (fun row => row.keyId)).Nodup ∧
      ∀ row ∈ generated.state.now.keys.rows,
        row ∈ rows ↔ Usable Fixtures.obliging 1 alice generated.state.now 0 row := by
  have hids : ∀ n, toLowerCase (Fixtures.obliging.genRandomUuid n) =
      Fixtures.obliging.genRandomUuid n :=
    fun _ => (by decide : toLowerCase Fixtures.aliceId = Fixtures.aliceId)
  have husers : ∀ u ∈ AclInvariant.aliceAllowed.rows, toLowerCase u.userId = u.userId := by decide
  have hcaller : Made generated.state.trace 0 (.userByTokenHash Fixtures.aliceId)
      (.ok (some alice)) := ⟨_, _, List.mem_cons_self⟩
  have hdata : checkProps (.obj []) [] = .ok () := rfl
  exact list_keys_agrees Fixtures.obliging hids _ 0 husers _ hcaller hdata rfl 1
    (s := quiet generated.state.now) rfl

end ListedKeys
