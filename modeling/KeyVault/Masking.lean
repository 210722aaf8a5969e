import KeyVault.Dispatch
import KeyVault.Fixtures
import KeyVault.HandlerRuns

/-!
# Existence masking

Two runs of one request, on a store and on the same store without the rows that
the caller cannot use. Whatever is answered is answered in both, and the removed
rows are not touched.
-/

namespace Masking

open JsValue Acl KeyGen Errors Programs Vault KeyStore Handlers CallEffects HandlerCalls
  KeyOperations HandlerRuns Server Dispatch Tables

variable {L : Libraries} {cfg : Config} {user : VaultUser} {env : Envelope} {data : Json}
  {i : Interleaving.ThreadId}

/-- The caller can use the row for the operation now. generate-key requires a class
that no key grants, and healthcheck requires none. -/
def visible (user : VaultUser) (op : Operation) (now : Nat) (row : KeyRow) : Bool :=
  inWindow row.toVaultKey now &&
    match op with
    | .listKeys => effectiveAny user.data row.acl user.userId
    | op => (requiredClass op).any (fun opClass => granted user row.toVaultKey opClass)

def hide (user : VaultUser) (op : Operation) (w : World) : World :=
  { w with keys := w.keys.filter (visible user op w.clock) }

/-- The same world under another key table and another chain. -/
def sameOffKeys (w w' : World) : Prop :=
  w' = { w with keys := w'.keys, events := w'.events }

theorem effect_sameOffKeys {c : Call} (hc : offKeys c = true) {w w' : World}
    (h : sameOffKeys w w') : (effect L i c w).1 = (effect L i c w').1 ∧
      sameOffKeys (effect L i c w).2 (effect L i c w').2 := by
  obtain ⟨users, keys, events, cache, clock, started, seed, drawn, minted, born⟩ := w
  obtain ⟨users', keys', events', cache', clock', started', seed', drawn', minted', born'⟩ := w'
  simp only [sameOffKeys, World.mk.injEq, true_and] at h
  obtain ⟨rfl, rfl, rfl, rfl, rfl, rfl, rfl, rfl⟩ := h
  cases c <;> first
    | exact ⟨rfl, rfl⟩
    | (simp only [effect]; split <;> exact ⟨rfl, rfl⟩)
    | cases hc

/-- Two undisturbed sessions whose worlds differ in the key table and the chain. -/
structure Twins (keys keys' : KeyTable) (s s' : Session) : Prop where
  quiet : s.turns = [] ∧ s'.turns = []
  same : sameOffKeys s.world s'.world
  left : s.world.keys = keys
  right : s'.world.keys = keys'

theorem twins_hide (user : VaultUser) (op : Operation) (w : World) :
    Twins w.keys (hide user op w).keys (Vault.quiet w) (Vault.quiet (hide user op w)) :=
  ⟨⟨rfl, rfl⟩, rfl, rfl, rfl⟩

theorem twins_step {keys keys' : KeyTable} {c : Call} {s s' : Session} (hc : offKeys c = true)
    (h : Twins keys keys' s s') : (serve L i c s).1 = (serve L i c s').1 ∧
      Twins keys keys' (serve L i c s).2 (serve L i c s').2 := by
  obtain ⟨turns, w⟩ := s
  obtain ⟨turns', w'⟩ := s'
  obtain ⟨⟨rfl, rfl⟩, hsame, rfl, rfl⟩ := h
  obtain ⟨heq, hnext⟩ := effect_sameOffKeys (L := L) (i := i) hc hsame
  have hw := writesKeys_of_offKeys hc
  exact ⟨heq, ⟨rfl, rfl⟩, hnext, effect_keys hw w, effect_keys hw w'⟩

/-- A program that stays off the key table ends alike in both. -/
theorem twins_run {α : Type} {p : Api α} (hp : p.Calls aside) {keys keys' : KeyTable}
    {s s' : Session} (h : Twins keys keys' s s') :
    (p.run (serve L i) s).1 = (p.run (serve L i) s').1 ∧
      Twins keys keys' (p.run (serve L i) s).2 (p.run (serve L i) s').2 :=
  hp.run_related (fun _ _ _ hc ht => twins_step hc.1 ht) h

/-- The ends of the two runs: no removed row is touched, and every other key is in
the same state in both. -/
structure Masked (user : VaultUser) (op : Operation) (w : World) (s s' : Session) : Prop where
  quiet : s.turns = [] ∧ s'.turns = []
  untouched : ∀ row ∈ w.keys.rows, visible user op w.clock row = false → row ∈ s.world.keys.rows
  alike : ∀ kid, (∀ row, w.keys.find kid = some row → visible user op w.clock row = true) →
    s.world.keys.find kid = s'.world.keys.find kid

theorem find_hide {user : VaultUser} {op : Operation} {w : World} {kid : String}
    (h : ∀ row, w.keys.find kid = some row → visible user op w.clock row = true) :
    (hide user op w).keys.find kid = w.keys.find kid := by
  simp only [hide, Table.find_filter]
  cases hf : w.keys.find kid with
  | none => rfl
  | some row => exact Option.filter_some_pos (h row hf)

/-- Where no key has changed, nothing can be told. -/
theorem masked_of_twins {user : VaultUser} {op : Operation} {w : World} {s s' : Session}
    (h : Twins w.keys (hide user op w).keys s s') : Masked user op w s s' where
  quiet := h.quiet
  untouched := fun row hrow _ => h.left ▸ hrow
  alike := fun kid hkid => by rw [h.left, h.right, find_hide hkid]

/-- The same response on both sides. -/
def SameAnswer (r r' : Except Thrown HandlerResult) : Prop :=
  ∀ op, answer op (r.mapError caught) = answer op (r'.mapError caught)

theorem SameAnswer.of_eq {r r' : Except Thrown HandlerResult} (h : r = r') : SameAnswer r r' :=
  fun _ => by rw [h]

/-- A masked denial reads like a missing key. -/
theorem maskedDenial_answer :
    SameAnswer (.error maskedDenial) (.error (.ofCode .keyNotFound)) := fun _ => rfl

/-- The two runs of a program answer alike and end alike. -/
def AlikeRuns (L : Libraries) (i : Interleaving.ThreadId) (user : VaultUser) (op : Operation)
    (w : World) (p : Api HandlerResult) : Prop :=
  SameAnswer (p.run (serve L i) (quiet w)).1 (p.run (serve L i) (quiet (hide user op w))).1 ∧
    Masked user op w (p.run (serve L i) (quiet w)).2
      (p.run (serve L i) (quiet (hide user op w))).2

variable {op : Operation} {w : World}

theorem aside_alike {p : Api HandlerResult} (hp : p.Calls aside) :
    AlikeRuns L i user op w p := by
  obtain ⟨heq, ht⟩ := twins_run (L := L) (i := i) hp (twins_hide user op w)
  exact ⟨SameAnswer.of_eq heq, masked_of_twins ht⟩

theorem revoke_onRow (kid : String) (row : VaultKey) (w : World) :
    (onRow L cfg (revokeKeyOp data) kid row).run (serve L i) (quiet w) =
      (if (w.keys.find kid).isSome then
        .ok ⟨some (.obj [("kid", .str kid), ("revoked", .bool true)]), auditKid kid⟩
      else .error (.ofCode .keyNotFound),
      quiet { w with keys := w.keys.erase kid, cache := w.cache.delete kid }) := by
  have hrun : (onRow L cfg (revokeKeyOp data) kid row).run (serve L i) (quiet w) =
      ((liftM (require (w.keys.find kid).isSome (.ofCode .keyNotFound)) : Api Unit) >>= fun _ =>
        pure (⟨some (.obj [("kid", .str kid), ("revoked", .bool true)]), auditKid kid⟩ :
          HandlerResult)).run (serve L i)
        (quiet { w with keys := w.keys.erase kid, cache := w.cache.delete kid }) := rfl
  rw [hrun]
  cases (w.keys.find kid).isSome <;> rfl

theorem onRow_alike {K : KeyOperation} (hK : keyOperation L cfg data op = some K) {kid : String}
    {row : KeyRow} (hfind : w.keys.find kid = some row)
    (hvisible : visible user op w.clock row = true) :
    AlikeRuns L i user op w (onRow L cfg K kid row.toVaultKey) := by
  by_cases hop : op = .revokeKey
  · subst hop
    cases hK
    have hhide : (hide user .revokeKey w).keys.find kid = some row := by
      rw [hide, Table.find_filter, hfind]
      exact Option.filter_some_pos hvisible
    rw [AlikeRuns, revoke_onRow, revoke_onRow, hfind, hhide]
    refine ⟨SameAnswer.of_eq rfl, ⟨rfl, rfl⟩, fun row' hrow' hnot => ?_, fun kid' hkid' => ?_⟩
    · refine Table.mem_erase.mpr ⟨hrow', fun hkid => ?_⟩
      have hsame := Table.eq_of_key_eq hrow' (Table.find_mem hfind)
        (hkid.trans (Table.find_key hfind).symm)
      rw [hsame, hvisible] at hnot
      cases hnot
    · by_cases hne : kid' = kid
      · subst hne
        exact (Table.find_erase_self _ _).trans (Table.find_erase_self _ _).symm
      · have hleft := Table.find_erase_ne w.keys hne
        have hright := Table.find_erase_ne (hide user .revokeKey w).keys hne
        exact hleft.trans ((find_hide hkid').symm.trans hright.symm)
  · refine aside_alike (calls_lift fun _ => ?_)
    exact (keyHalf_calls _ _).bind fun jwk => finish_aside hK hop _ _ _

theorem visible_key (user : VaultUser) {K : KeyOperation}
    (hK : keyOperation L cfg data op = some K) (now : Nat)
    (row : KeyRow) : visible user op now row =
      (inWindow row.toVaultKey now && granted user row.toVaultKey K.opClass) := by
  have hclass := keyOperation_class hK
  cases op <;> first | (cases hK; rfl) | cases hK

theorem access_alike {K : KeyOperation} (hK : keyOperation L cfg data op = some K) :
    AlikeRuns L i user op w (access L cfg user K) := by
  cases ht : K.target with
  | error e =>
    rw [access, ht]
    exact aside_alike trivial
  | ok kid =>
    have hleft := authorizedKey_run L i user kid K.opClass (s := quiet w) rfl
    have hright := authorizedKey_run L i user kid K.opClass
      (s := quiet (hide user op w)) rfl
    have hhide : (hide user op w).keys.find kid =
        (w.keys.find kid).filter (visible user op w.clock) := Table.find_filter _ _ _
    simp only [quiet_pass] at hleft hright
    rw [show (quiet (hide user op w)).world.keys.find kid = _ from hhide] at hright
    rw [access, ht, Prog.liftM_eq, Prog.done_ok_bind]
    cases hfind : w.keys.find kid with
    | none =>
      rw [show (quiet w).world.keys.find kid = _ from hfind] at hleft
      rw [hfind] at hright
      rw [AlikeRuns, Prog.run_bind_error hleft, Prog.run_bind_error hright]
      exact ⟨SameAnswer.of_eq rfl, masked_of_twins (twins_hide user op w)⟩
    | some row =>
      rw [show (quiet w).world.keys.find kid = _ from hfind] at hleft
      rw [hfind] at hright
      have hv := visible_key user hK w.clock row
      cases hvis : visible user op w.clock row with
      | true =>
        rw [hvis] at hv
        obtain ⟨hwindow, hgrant⟩ := (Bool.and_eq_true_iff).mp hv.symm
        rw [Option.filter_some_pos hvis] at hright
        have hwindow' : inWindow row.toVaultKey (quiet (hide user op w)).world.clock = true :=
          hwindow
        simp only [hgrant, hwindow', if_true] at hright
        have hwindow'' : inWindow row.toVaultKey (quiet w).world.clock = true := hwindow
        simp only [hgrant, hwindow'', if_true] at hleft
        rw [AlikeRuns, Prog.run_bind_ok hleft, Prog.run_bind_ok hright]
        exact onRow_alike hK hfind hvis
      | false =>
        rw [hvis] at hv
        rw [Option.filter_some_neg (by simp [hvis])] at hright
        cases hgrant : granted user row.toVaultKey K.opClass with
        | false =>
          simp only [hgrant, Bool.false_eq_true, if_false] at hleft
          rw [AlikeRuns, Prog.run_bind_error hleft, Prog.run_bind_error hright]
          exact ⟨maskedDenial_answer, masked_of_twins (twins_hide user op w)⟩
        | true =>
          have hwindow : inWindow row.toVaultKey (quiet w).world.clock = false := by
            rw [hgrant, Bool.and_true] at hv
            exact hv.symm
          simp only [hgrant, hwindow, Bool.false_eq_true, if_true, if_false] at hleft
          rw [AlikeRuns, Prog.run_bind_error hleft, Prog.run_bind_error hright]
          exact ⟨SameAnswer.of_eq rfl, masked_of_twins (twins_hide user op w)⟩

theorem listed_hide (w : World) :
    keyList user.userId user.data (hide user .listKeys w) w.clock =
      keyList user.userId user.data w w.clock := by
  unfold keyList
  simp only [List.filter_map]
  congr 1
  simp only [hide, Table.filter, List.filter_filter]
  refine List.filter_congr fun row _ => ?_
  simp only [Function.comp, visible]
  cases inWindow row.toVaultKey w.clock <;>
    cases effectiveAny user.data row.acl user.userId <;> simp

theorem listKeys_alike : AlikeRuns L i user .listKeys w (Handlers.listKeys user data) := by
  cases hprops : checkProps data [] with
  | error e =>
    rw [Handlers.listKeys, hprops]
    exact aside_alike trivial
  | ok _ =>
    cases hmask : allowedOpsAllows user.data .listKeys with
    | false =>
      rw [Handlers.listKeys, hprops, hmask]
      exact aside_alike trivial
    | true =>
      have hclock : (hide user .listKeys w).clock = w.clock := rfl
      have hright := listKeys_quiet L i user.userId user.data (hide user .listKeys w)
      rw [hclock, listed_hide] at hright
      rw [AlikeRuns, listKeys_admitted hprops hmask, Prog.run_bind_ok (listKeys_quiet L i _ _ _),
        Prog.run_bind_ok hright]
      exact ⟨SameAnswer.of_eq rfl, masked_of_twins (twins_hide user .listKeys w)⟩

/-- No generated key id is taken, or the insert would fail. -/
def FreshKid (L : Libraries) (w : World) : Prop :=
  ∀ spec g, generateVaultKey L w.seed spec = .ok g → w.keys.find g.kid = none

theorem asks_still {α : Type} {p : Api α} (hp : p.Calls asksUsers) (w : World) :
    (p.run (serve L i) (quiet w)).2 = quiet w := by
  refine hp.run_preserves (I := fun s => s = quiet w) (fun c s hc hs => ?_) rfl
  obtain ⟨userIds, rfl⟩ := hc
  subst hs
  rfl

/-- The same program after a part that only asks for users. -/
theorem AlikeRuns.after_asks {α : Type} {p : Api α} {f : α → Api HandlerResult}
    (hp : p.Calls asksUsers) (hf : ∀ a, AlikeRuns L i user op w (f a)) :
    AlikeRuns L i user op w (p >>= f) := by
  have haside : p.Calls aside := hp.mono fun c hc => by
    obtain ⟨userIds, rfl⟩ := hc
    exact ⟨rfl, rfl, rfl⟩
  have heq := (twins_run (L := L) (i := i) haside (twins_hide user op w)).1
  have hleft := asks_still (L := L) (i := i) hp w
  have hright := asks_still (L := L) (i := i) hp (hide user op w)
  cases hrun : p.run (serve L i) (quiet w) with
  | mk result s =>
    cases hrun' : p.run (serve L i) (quiet (hide user op w)) with
    | mk result' s' =>
      simp only [hrun, hrun'] at heq hleft hright
      subst heq hleft hright
      cases result with
      | ok a =>
        rw [AlikeRuns, Prog.run_bind_ok hrun, Prog.run_bind_ok hrun']
        exact hf a
      | error e =>
        rw [AlikeRuns, Prog.run_bind_error hrun, Prog.run_bind_error hrun']
        exact ⟨SameAnswer.of_eq rfl, masked_of_twins (twins_hide user op w)⟩

theorem AlikeRuns.lift {α : Type} {r : Except Thrown α} {f : α → Api HandlerResult}
    (hf : ∀ a, AlikeRuns L i user op w (f a)) : AlikeRuns L i user op w (liftM r >>= f) := by
  cases r with
  | ok a => exact hf a
  | error e => exact aside_alike trivial

theorem AlikeRuns.dateNow {f : Nat → Api HandlerResult}
    (hf : ∀ n, AlikeRuns L i user op w (f n)) :
    AlikeRuns L i user op w (ask .dateNow >>= f) := hf w.clock

/-- The insert of a row whose key id is free. -/
theorem insert_run {key : VaultKey} (g : Generated) (result : HandlerResult) {u : World}
    (hfree : u.keys.find key.keyId = none) :
    (ask (.insertKey key) >>= fun r => liftM (orThrow r) >>= fun _ =>
        (pure g : Api Generated) >>= fun _ => (pure result : Api HandlerResult)).run (serve L i)
        (quiet u) =
      if inRange (key.toColumns L).notBefore && inRange (key.toColumns L).expiresAt then
        (.ok result, quiet { u with
          keys := u.keys.insert ⟨key.toColumns L, u.clock, u.clock⟩,
          born := u.born ++ [key.toColumns L] })
      else (.error (.error "timestamp out of range"), quiet u) := by
  have heffect : effect L i (.insertKey key) u =
      if inRange (key.toColumns L).notBefore && inRange (key.toColumns L).expiresAt then
        (.ok key.keyId, { u with
          keys := u.keys.insert ⟨key.toColumns L, u.clock, u.clock⟩,
          born := u.born ++ [key.toColumns L] })
      else (.error "timestamp out of range", u) := by
    simp only [effect, hfree, Option.isSome_none, Bool.false_eq_true, if_false]
  simp only [ask_bind, Prog.run_call, serve_quiet, heffect]
  split <;> rfl

/-- Inserting a row whose key id is free, after both runs have come to the same row. -/
theorem insert_masked {key : VaultKey} {s s' : Session} (g : Generated) {result : HandlerResult}
    (ht : Twins w.keys (hide user op w).keys s s') (hfree : w.keys.find key.keyId = none) :
    let p : Api HandlerResult := ask (.insertKey key) >>= fun r =>
      liftM (orThrow r) >>= fun _ => (pure g : Api Generated) >>= fun _ => pure result
    SameAnswer (p.run (serve L i) s).1 (p.run (serve L i) s').1 ∧
      Masked user op w (p.run (serve L i) s).2 (p.run (serve L i) s').2 := by
  obtain ⟨turns, v⟩ := s
  obtain ⟨turns', v'⟩ := s'
  obtain ⟨⟨rfl, rfl⟩, hsame, hleft, hright⟩ := ht
  have hleft : v.keys = w.keys := hleft
  have hright : v'.keys = (hide user op w).keys := hright
  have hclock : v'.clock = v.clock := by
    have h : v' = { v with keys := v'.keys, events := v'.events } := hsame
    exact (congrArg World.clock h).trans rfl
  have hfree' : v'.keys.find key.keyId = none := by
    rw [hright, hide, Table.find_filter, hfree]
    rfl
  have hfree'' : v.keys.find key.keyId = none := hleft ▸ hfree
  intro p
  rw [show (⟨[], v⟩ : Session) = quiet v from rfl, show (⟨[], v'⟩ : Session) = quiet v' from rfl,
    insert_run g result hfree'', insert_run g result hfree', hclock]
  split
  · refine ⟨SameAnswer.of_eq rfl, ⟨rfl, rfl⟩, fun row hrow _ => ?_, fun kid hkid => ?_⟩
    · have hrows :=
        Table.insert_rows (t := v.keys) (r := ⟨key.toColumns L, v.clock, v.clock⟩) hfree''
      have hmem : row ∈ v.keys.rows ++ [⟨key.toColumns L, v.clock, v.clock⟩] := by
        rw [hleft]
        exact List.mem_append_left _ hrow
      exact hrows.symm ▸ hmem
    · have hl :=
        Table.find_insert_self (t := v.keys) (r := ⟨key.toColumns L, v.clock, v.clock⟩) hfree''
      have hr :=
        Table.find_insert_self (t := v'.keys) (r := ⟨key.toColumns L, v.clock, v.clock⟩) hfree'
      by_cases hne : kid = key.keyId
      · subst hne
        exact hl.trans hr.symm
      · have hl' :=
          Table.find_insert_ne (t := v.keys) (r := ⟨key.toColumns L, v.clock, v.clock⟩) hne
        have hr' :=
          Table.find_insert_ne (t := v'.keys) (r := ⟨key.toColumns L, v.clock, v.clock⟩) hne
        refine hl'.trans (Eq.trans ?_ hr'.symm)
        rw [hleft, hright, find_hide hkid]
  · exact ⟨SameAnswer.of_eq rfl, masked_of_twins ⟨⟨rfl, rfl⟩, hsame, hleft, hright⟩⟩

/-- The clock and the embedding, which stay off the key table. -/
def embedding (cfg : Config) (g : GeneratedKey) (nbf exp : Option Nat) : Api (String × String) :=
  ask .dateNow >>= fun now =>
    embed cfg.kek g.secretKey g.kid (now / 1000) (secondsClaim nbf) (secondsClaim exp)

theorem embedding_calls (cfg : Config) (g : GeneratedKey) (nbf exp : Option Nat) :
    (embedding cfg g nbf exp).Calls aside :=
  calls_ask ⟨rfl, rfl, rfl⟩ fun _ => embed_calls _ _ _ _ _ _

/-- A generated key is embedded, and then inserted. -/
theorem storeGenerated_eq (g : GeneratedKey) (acl : AclMap) (nbf exp : Option Nat)
    (f : Generated → HandlerResult) :
    (storeGenerated cfg acl nbf exp g >>= fun g => pure (f g)) =
      (embedding cfg g nbf exp >>= fun embedded =>
        ask (.insertKey (newKey g acl nbf exp embedded.1 embedded.2)) >>= fun r =>
          liftM (orThrow r) >>= fun _ =>
            (pure ⟨g.kid, g.kty, g.alg, g.publicKey⟩ : Api Generated) >>= fun g => pure (f g)) := by
  simp only [storeGenerated, embedding, bind_assoc]

theorem storeGenerated_alike {s s' : Session} {g : GeneratedKey}
    (ht : Twins w.keys (hide user op w).keys s s') (hfree : w.keys.find g.kid = none)
    (acl : AclMap) (nbf exp : Option Nat) (f : Generated → HandlerResult) :
    let p : Api HandlerResult := storeGenerated cfg acl nbf exp g >>= fun g => pure (f g)
    SameAnswer (p.run (serve L i) s).1 (p.run (serve L i) s').1 ∧
      Masked user op w (p.run (serve L i) s).2 (p.run (serve L i) s').2 := by
  intro p
  obtain ⟨heq, hnext⟩ := twins_run (L := L) (i := i) (embedding_calls cfg g nbf exp) ht
  simp only [p, storeGenerated_eq]
  cases hrun : (embedding cfg g nbf exp).run (serve L i) s with
  | mk result s₁ =>
    cases hrun' : (embedding cfg g nbf exp).run (serve L i) s' with
    | mk result' s₁' =>
      simp only [hrun, hrun'] at heq hnext
      subst heq
      cases result with
      | error e =>
        rw [Prog.run_bind_error hrun, Prog.run_bind_error hrun']
        exact ⟨SameAnswer.of_eq rfl, masked_of_twins hnext⟩
      | ok embedded =>
        rw [Prog.run_bind_ok hrun, Prog.run_bind_ok hrun']
        exact insert_masked ⟨g.kid, g.kty, g.alg, g.publicKey⟩ hnext hfree

theorem generate_alike (hfresh : FreshKid L w) (spec : KeySpec) (acl : AclMap)
    (nbf exp : Option Nat) (f : Generated → HandlerResult) :
    AlikeRuns L i user op w (generate cfg spec acl nbf exp >>= fun g => pure (f g)) := by
  have htwins := (twins_step (L := L) (i := i) (c := .generateVaultKey spec) rfl
    (twins_hide user op w)).2
  have hanswer : ∀ u : World, u.seed = w.seed →
      (effect L i (.generateVaultKey spec) u).1 = generateVaultKey L w.seed spec := by
    intro u hu
    rw [← hu]
    rfl
  simp only [serve_quiet] at htwins
  simp only [generate, AlikeRuns, ask_bind, Prog.call_bind, Prog.run_call, serve_quiet,
    hanswer w rfl, hanswer (hide user op w) rfl]
  cases hgen : generateVaultKey L w.seed spec with
  | error message => exact ⟨SameAnswer.of_eq rfl, masked_of_twins htwins⟩
  | ok g => exact storeGenerated_alike htwins (hfresh spec g hgen) acl nbf exp f

theorem generateKey_alike (hfresh : FreshKid L w) :
    AlikeRuns L i user .generateKey w (generateKey cfg user data) := by
  refine AlikeRuns.lift fun spec => AlikeRuns.dateNow fun now => ?_
  refine AlikeRuns.lift fun _ => AlikeRuns.lift fun _ => ?_
  exact AlikeRuns.after_asks resolveAcl_asks fun acl => generate_alike hfresh spec acl _ _ _

theorem handler_alike (i : Interleaving.ThreadId) (cfg : Config) (user : VaultUser) (data : Json)
    (hfresh : FreshKid L w) (op : Operation) :
    AlikeRuns L i user op w (handler L cfg user data op) := by
  cases hK : keyOperation L cfg data op with
  | some K =>
    rw [handler_access hK]
    exact access_alike hK
  | none =>
    cases op with
    | healthcheck => exact aside_alike healthcheck_calls
    | generateKey => exact generateKey_alike hfresh
    | listKeys => exact listKeys_alike
    | _ => cases hK

/-- A request is answered alike with and without the rows that the caller cannot use;
it does not touch those, and leaves every other key in the same state. -/
theorem masking (L : Libraries) (cfg : Config) (user : VaultUser) (env : Envelope)
    (i : Interleaving.ThreadId) (w : World) (op : Operation) (hop : env.request = op.request)
    (hfresh : FreshKid L w) :
    ∃ r s s', (dispatch L cfg user env).run (serve L i) (quiet w) = (.ok r, s) ∧
      (dispatch L cfg user env).run (serve L i) (quiet (hide user op w)) = (.ok r, s') ∧
      (∀ row ∈ w.keys.rows, visible user op w.clock row = false → row ∈ s.world.keys.rows) ∧
      ∀ kid, (∀ row, w.keys.find kid = some row → visible user op w.clock row = true) →
        s.world.keys.find kid = s'.world.keys.find kid := by
  obtain ⟨hanswer, hmasked⟩ := handler_alike i cfg user env.data hfresh op
  have hleft := dispatch_request L cfg user i hop (quiet w)
  have hright := dispatch_request L cfg user i hop (quiet (hide user op w))
  generalize hr : (handler L cfg user env.data op).run (serve L i) (quiet w) = r
    at hleft hanswer hmasked
  generalize hr' : (handler L cfg user env.data op).run (serve L i) (quiet (hide user op w)) = r'
    at hright hanswer hmasked
  have hresponse : (afterwards L i user env (r.1.mapError caught) r.2).1 =
      (afterwards L i user env (r'.1.mapError caught) r'.2).1 := by
    rw [afterwards_answer _ (by simp [hmasked.quiet.1]),
      afterwards_answer _ (by simp [hmasked.quiet.2])]
    exact hanswer env.op
  refine ⟨_, _, (afterwards L i user env (r'.1.mapError caught) r'.2).2, hleft, ?_,
    fun row hrow hnot => ?_, fun kid hkid => ?_⟩
  · rw [hright, hresponse]
  · rw [afterwards_keys]
    exact hmasked.untouched row hrow hnot
  · rw [afterwards_keys, afterwards_keys]
    exact hmasked.alike kid hkid

/-- Alice tries to revoke Bob's key, and the key of nobody. -/
theorem masking_revoke :
    ∃ r s s', (dispatch Fixtures.bare Fixtures.config Fixtures.alice
        (Fixtures.revokeEnvelope Fixtures.aliceId)).run (serve Fixtures.bare 0)
          (quiet (Fixtures.holding Fixtures.bobsKey)) = (.ok r, s) ∧
      (dispatch Fixtures.bare Fixtures.config Fixtures.alice
        (Fixtures.revokeEnvelope Fixtures.aliceId)).run (serve Fixtures.bare 0)
          (quiet (hide Fixtures.alice .revokeKey (Fixtures.holding Fixtures.bobsKey))) =
            (.ok r, s') ∧
      (∀ row ∈ (Fixtures.holding Fixtures.bobsKey).keys.rows,
        visible Fixtures.alice .revokeKey (Fixtures.holding Fixtures.bobsKey).clock row = false →
          row ∈ s.world.keys.rows) ∧
      ∀ kid, (∀ row, (Fixtures.holding Fixtures.bobsKey).keys.find kid = some row →
          visible Fixtures.alice .revokeKey (Fixtures.holding Fixtures.bobsKey).clock row = true) →
        s.world.keys.find kid = s'.world.keys.find kid :=
  masking Fixtures.bare Fixtures.config Fixtures.alice (Fixtures.revokeEnvelope Fixtures.aliceId) 0
    (Fixtures.holding Fixtures.bobsKey) .revokeKey rfl
    (fun _ _ h => absurd h (Fixtures.bare_generates_nothing _ _ _))

end Masking
