import KeyVault.HandlerCalls

/-!
# Runs of the handlers' parts

What loading and authorizing a row comes to in one undisturbed run: the answer in
terms of the key table, and how far the session has moved.
-/

namespace HandlerRuns

open JsValue Acl Errors Programs Vault KeyStore Handlers CallEffects

variable {L : Libraries} {i : Interleaving.ThreadId} {user : VaultUser} {kid : String}
  {opClass : OpClass}

theorem loadKey_run {s : Session} (h : (s.turns.headD {}).fails = none) :
    (loadKey kid).run (serve L i) s =
      (.ok ((s.world.keys.find kid).map KeyRow.toVaultKey), s.pass) := by
  simp only [loadKey, ask_bind, Prog.run_call, serve, perform_succeeds h, effect]
  rfl

theorem dateNow_run {α : Type} (f : Nat → Api α) (s : Session) :
    (Prog.call Call.dateNow f).run (serve L i) s =
      (f s.pass.world.clock).run (serve L i) s.pass := by
  have hp : perform L i (s.turns.headD {}) .dateNow s.world =
      (s.pass.world.clock, s.pass.world) := by
    unfold perform
    cases (s.turns.headD {}).fails <;> rfl
  simp only [Prog.run_call, serve, hp]
  rfl

theorem authorizedKey_run (L : Libraries) (i : Interleaving.ThreadId) (user : VaultUser)
    (kid : String) (opClass : OpClass) {s : Session} (h : (s.turns.headD {}).fails = none) :
    (authorizedKey user kid opClass).run (serve L i) s =
      match s.world.keys.find kid with
      | none => (.error (.ofCode .keyNotFound), s.pass)
      | some row =>
        if granted user row.toVaultKey opClass then
          if inWindow row.toVaultKey s.pass.pass.world.clock then
            (.ok row.toVaultKey, s.pass.pass)
          else (.error (.ofCode .keyNotFound), s.pass.pass)
        else (.error maskedDenial, s.pass) := by
  rw [authorizedKey, Prog.run_bind_ok (loadKey_run h)]
  cases s.world.keys.find kid with
  | none => rfl
  | some row =>
    simp only [Option.map_some]
    split
    · rw [ask_bind, dateNow_run]
      split
      · rfl
      · rfl
    · rfl

/-- The rows that list-keys returns at an instant, in the order of their insertion. -/
def keyList (userId : String) (userData : Json) (w : World) (now : Nat) : List VaultKey :=
  ((w.keys.rows.filter (fun k => aclMentions k.acl userId)).map KeyRow.toVaultKey).filter
    (fun row => inWindow row now && effectiveAny userData row.acl userId)

theorem listKeys_run (L : Libraries) (i : Interleaving.ThreadId) (userId : String)
    (userData : Json) {s : Session} (h : (s.turns.headD {}).fails = none) :
    (KeyStore.listKeys userId userData).run (serve L i) s =
      (.ok ((keyList userId userData s.world s.pass.pass.world.clock).map listed),
        s.pass.pass) := by
  have hrows : serve L i (.keysByAclUser userId) s =
      (.ok ((s.world.keys.rows.filter (fun k => aclMentions k.acl userId)).map KeyRow.toVaultKey),
        s.pass) := by
    simp only [serve, perform_succeeds h, effect]
    rfl
  rw [KeyStore.listKeys, ask_bind, Prog.run_call, hrows]
  exact dateNow_run _ s.pass

theorem listKeys_quiet (L : Libraries) (i : Interleaving.ThreadId) (userId : String)
    (userData : Json) (w : World) :
    (KeyStore.listKeys userId userData).run (serve L i) (quiet w) =
      (.ok ((keyList userId userData w w.clock).map listed), quiet w) :=
  listKeys_run L i userId userData rfl

/-- An admitted list-keys request comes down to the list of the key store. -/
theorem listKeys_admitted {user : VaultUser} {data : Json} {passed : Unit}
    (hprops : checkProps data [] = .ok passed)
    (hmask : allowedOpsAllows user.data .listKeys = true) :
    Handlers.listKeys user data = KeyStore.listKeys user.userId user.data >>= fun keys =>
      pure ⟨some (.obj [("keys", .arr keys)]), some [("keyCount", .num keys.length)]⟩ := by
  rw [Handlers.listKeys, hprops, hmask]
  rfl

end HandlerRuns
