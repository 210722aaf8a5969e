import KeyVault.AuditTrail
import KeyVault.KeyInvariant
import KeyVault.Masking

/-!
# The expiry sweep

A vault whose expired rows are swept at any time, beside the same vault without
sweeps. The first has all the rows of the second but some whose validity has ended,
and every request reads such a row as a missing one: the answers are the same.
-/

namespace ExpirySweep

open JsValue Acl KeyGen Errors Programs Vault KeyStore Handlers CallEffects HandlerCalls
  KeyOperations HandlerRuns ServerAuth Server Dispatch Processes AuditTrail KeyInvariant Masking
  Tables

variable {L : Libraries} {cfg : Config} {user : VaultUser} {env : Envelope} {data : Json}
  {i : Interleaving.ThreadId} {a b : World} {α β : Type}

def result (L : Libraries) (i : Interleaving.ThreadId) (p : Api α) (w : World) :
    Except Thrown α := (p.run (serve L i) (quiet w)).1

def after (L : Libraries) (i : Interleaving.ThreadId) (p : Api α) (w : World) : World :=
  (p.run (serve L i) (quiet w)).2.world

theorem run_eq (p : Api α) (w : World) :
    p.run (serve L i) (quiet w) = (result L i p w, quiet (after L i p w)) :=
  Prod.ext rfl (run_quiet p w)

theorem result_bind (p : Api α) (f : α → Api β) (w : World) :
    result L i (p >>= f) w = match result L i p w with
      | .ok x => result L i (f x) (after L i p w)
      | .error e => .error e := by
  unfold result
  rw [Prog.run_bind, run_eq]
  cases result L i p w <;> rfl

theorem after_bind (p : Api α) (f : α → Api β) (w : World) :
    after L i (p >>= f) w = match result L i p w with
      | .ok x => after L i (f x) (after L i p w)
      | .error _ => after L i p w := by
  unfold after
  rw [Prog.run_bind, run_eq]
  cases result L i p w <;> rfl

theorem quiet_elapsed {s : Session} (h : s.turns = []) : (s.turns.headD {}).elapsed = 0 := by
  rw [h]
  rfl

theorem after_clock (p : Api α) (w : World) : (after L i p w).clock = w.clock := by
  have hrun := p.run_preserves (h := serve L i)
    (I := fun s : Session => s.turns = [] ∧ s.world.clock = w.clock) (fun c s hs => by
      obtain ⟨hturns, hclock⟩ := hs
      refine ⟨by rw [serve_turns, hturns]; rfl, ?_⟩
      rw [serve_world, perform_clock, quiet_elapsed hturns, hclock, Nat.add_zero])
    (s := quiet w) ⟨rfl, rfl⟩
  exact hrun.2

theorem after_seed (p : Api α) (w : World) : w.seed ≤ (after L i p w).seed := by
  refine p.run_preserves (h := serve L i) (I := fun s : Session => w.seed ≤ s.world.seed)
    (fun c s hs => ?_) (s := quiet w) (Nat.le_refl _)
  rw [serve_world]
  rcases perform_cases L i (s.turns.headD {}) c s.world with ⟨_, _, -, -, hp⟩ | hp
  · rw [hp]
    exact hs
  · rw [hp]
    exact Nat.le_trans hs (effect_seed i c (s.world.tick _) : s.world.seed ≤ _)

/-- The validity of the row has ended. -/
def Over (clock : Nat) (row : KeyRow) : Prop := ∃ e, row.expiresAt = some e ∧ e / 1000 ≤ clock

/-- From then on no request accepts it. -/
theorem over_closed {clock now : Nat} {row : KeyRow} (h : Over clock row) (hclock : clock ≤ dateMax)
    (hnow : clock ≤ now) : inWindow row.toVaultKey now = false := by
  obtain ⟨e, he, hle⟩ := h
  have htime : getTime e = some (e / 1000) := if_pos (Nat.le_trans hle hclock)
  have hpast : e / 1000 ≤ now := Nat.le_trans hle hnow
  simp [inWindow, he, htime, hpast]

/-- The first vault lacks some rows whose validity has ended; the chains may differ. -/
structure Swept (a b : World) : Prop where
  same : sameOffKeys a b
  kept : ∃ keep : KeyRow → Bool, a.keys = b.keys.filter keep ∧
    ∀ row ∈ b.keys.rows, keep row = false → Over b.clock row

theorem Swept.clock (h : Swept a b) : a.clock = b.clock := by
  have hsame := h.same
  rw [sameOffKeys] at hsame
  rw [hsame]

/-- New rows carry key ids that were drawn meanwhile. -/
def Drawn (L : Libraries) (w w' : World) : Prop :=
  w.seed ≤ w'.seed ∧ ∀ row ∈ w'.keys.rows, row ∈ w.keys.rows ∨
    ∃ n, w.seed ≤ n ∧ n < w'.seed ∧ Draws L n row.keyId

theorem Drawn.trans {w w' w'' : World} (h : Drawn L w w') (h' : Drawn L w' w'') :
    Drawn L w w'' := by
  refine ⟨Nat.le_trans h.1 h'.1, fun row hrow => ?_⟩
  rcases h'.2 row hrow with hrow | ⟨n, hle, hlt, hdraws⟩
  · rcases h.2 row hrow with hrow | ⟨n, hle, hlt, hdraws⟩
    · exact Or.inl hrow
    · exact Or.inr ⟨n, hle, Nat.lt_of_lt_of_le hlt h'.1, hdraws⟩
  · exact Or.inr ⟨n, Nat.le_trans h.1 hle, hlt, hdraws⟩

/-- The program comes to related results in both vaults, and leaves them related. -/
structure Follows (R : Except Thrown α → Except Thrown α → Prop) (L : Libraries)
    (i : Interleaving.ThreadId) (p : Api α) (a b : World) : Prop where
  same : R (result L i p a) (result L i p b)
  swept : Swept (after L i p a) (after L i p b)
  drawn : Drawn L b (after L i p b)

theorem follows_of_runs {R : Except Thrown α → Except Thrown α → Prop} {p : Api α}
    {r r' : Except Thrown α} {a' b' : World} (hrun : p.run (serve L i) (quiet a) = (r, quiet a'))
    (hrun' : p.run (serve L i) (quiet b) = (r', quiet b')) (hR : R r r') (hswept : Swept a' b')
    (hdrawn : Drawn L b b') : Follows R L i p a b := by
  constructor
  · rw [result, result, hrun, hrun']
    exact hR
  · rw [after, after, hrun, hrun']
    exact hswept
  · rw [after, hrun']
    exact hdrawn

theorem Drawn.refl (w : World) : Drawn L w w := ⟨Nat.le_refl _, fun _ hrow => Or.inl hrow⟩

theorem Follows.mono {R R' : Except Thrown α → Except Thrown α → Prop} {p : Api α}
    (h : Follows R L i p a b) (hR : ∀ r r', R r r' → R' r r') : Follows R' L i p a b :=
  ⟨hR _ _ h.same, h.swept, h.drawn⟩

theorem Follows.bind {R : Except Thrown β → Except Thrown β → Prop} {p : Api α} {f : α → Api β}
    (hR : ∀ e, R (.error e) (.error e)) (h : Follows Eq L i p a b)
    (hf : ∀ x, Follows R L i (f x) (after L i p a) (after L i p b)) :
    Follows R L i (p >>= f) a b := by
  obtain ⟨hsame, hswept, hdrawn⟩ := h
  cases hresult : result L i p b with
  | ok x =>
    rw [hresult] at hsame
    obtain ⟨hsame', hswept', hdrawn'⟩ := hf x
    constructor
    · simpa only [result_bind, hsame, hresult] using hsame'
    · simpa only [after_bind, hsame, hresult] using hswept'
    · simpa only [after_bind, hresult] using hdrawn.trans hdrawn'
  | error e =>
    rw [hresult] at hsame
    constructor
    · simpa only [result_bind, hsame, hresult] using hR e
    · simpa only [after_bind, hsame, hresult] using hswept
    · simpa only [after_bind, hresult] using hdrawn

/-- A program that stays off the key table ends alike in both vaults. -/
theorem follows_aside {p : Api α} (hp : p.Calls aside) (h : Swept a b) : Follows Eq L i p a b := by
  have ht : Twins a.keys b.keys (quiet a) (quiet b) := ⟨⟨rfl, rfl⟩, h.same, rfl, rfl⟩
  obtain ⟨hsame, hends⟩ := twins_run (L := L) (i := i) hp ht
  have hleft : (after L i p a).keys = a.keys := hends.left
  have hright : (after L i p b).keys = b.keys := hends.right
  refine ⟨hsame, ⟨hends.same, ?_⟩, after_seed p b, fun row hrow => Or.inl (hright ▸ hrow)⟩
  rw [hleft, hright, after_clock]
  exact h.kept

/-- Either both vaults have the row, or both refuse in the same words. -/
theorem authorizedKey_swept (h : Swept a b) (hclock : b.clock ≤ dateMax) (kid : String)
    (opClass : OpClass) :
    (∃ row, a.keys.find kid = some row ∧ b.keys.find kid = some row ∧
      (authorizedKey user kid opClass).run (serve L i) (quiet a) = (.ok row.toVaultKey, quiet a) ∧
      (authorizedKey user kid opClass).run (serve L i) (quiet b) = (.ok row.toVaultKey, quiet b)) ∨
    ∃ e e', (authorizedKey user kid opClass).run (serve L i) (quiet a) = (.error e, quiet a) ∧
      (authorizedKey user kid opClass).run (serve L i) (quiet b) = (.error e', quiet b) ∧
      SameAnswer (.error e) (.error e') := by
  have hleft := authorizedKey_run L i user kid opClass (s := quiet a) rfl
  have hright := authorizedKey_run L i user kid opClass (s := quiet b) rfl
  obtain ⟨keep, hkeys, hover⟩ := h.kept
  have hsame : (quiet a).world.clock = (quiet b).world.clock := h.clock
  have hfind : (quiet a).world.keys.find kid = ((quiet b).world.keys.find kid).filter keep := by
    rw [show (quiet a).world.keys = b.keys.filter keep from hkeys]
    exact Table.find_filter _ _ _
  simp only [quiet_pass, hfind, hsame] at hleft hright
  cases hrow : (quiet b).world.keys.find kid with
  | none =>
    rw [hrow] at hleft hright
    exact Or.inr ⟨_, _, hleft, hright, fun _ => rfl⟩
  | some row =>
    rw [hrow] at hleft hright hfind
    cases hkeep : keep row with
    | false =>
      rw [Option.filter_some_neg (by simp [hkeep])] at hleft
      have hclosed : inWindow row.toVaultKey (quiet b).world.clock = false :=
        over_closed (hover row (Table.find_mem hrow) hkeep) hclock (Nat.le_refl _)
      cases hgranted : granted user row.toVaultKey opClass with
      | true =>
        simp only [hgranted, hclosed, Bool.false_eq_true, if_true, if_false] at hright
        exact Or.inr ⟨_, _, hleft, hright, fun _ => rfl⟩
      | false =>
        simp only [hgranted, Bool.false_eq_true, if_false] at hright
        exact Or.inr ⟨_, _, hleft, hright, fun _ => rfl⟩
    | true =>
      rw [Option.filter_some_pos hkeep] at hleft hfind
      cases hgranted : granted user row.toVaultKey opClass with
      | false =>
        simp only [hgranted, Bool.false_eq_true, if_false] at hleft hright
        exact Or.inr ⟨_, _, hleft, hright, fun _ => rfl⟩
      | true =>
        cases hwindow : inWindow row.toVaultKey (quiet b).world.clock with
        | true =>
          simp only [hgranted, hwindow, if_true] at hleft hright
          exact Or.inl ⟨row, hfind, hrow, hleft, hright⟩
        | false =>
          simp only [hgranted, hwindow, Bool.false_eq_true, if_true, if_false] at hleft hright
          exact Or.inr ⟨_, _, hleft, hright, fun _ => rfl⟩

theorem revoke_follows (h : Swept a b) {kid : String} {row : KeyRow}
    (hleft : a.keys.find kid = some row) (hright : b.keys.find kid = some row) (row' : VaultKey) :
    Follows Eq L i (onRow L cfg (revokeKeyOp data) kid row') a b := by
  have hrun : ∀ w : World, w.keys.find kid = some row →
      (onRow L cfg (revokeKeyOp data) kid row').run (serve L i) (quiet w) =
        (.ok ⟨some (.obj [("kid", .str kid), ("revoked", .bool true)]), auditKid kid⟩,
          quiet { w with keys := w.keys.erase kid, cache := w.cache.delete kid }) := by
    intro w hw
    rw [revoke_onRow, hw]
    rfl
  obtain ⟨hsame, keep, hkeys, hover⟩ := h
  refine follows_of_runs (hrun a hleft) (hrun b hright) rfl ⟨?_, keep, ?_, ?_⟩
    ⟨Nat.le_refl _, fun row hrow => Or.inl (Table.mem_erase.mp hrow).1⟩
  · rw [sameOffKeys] at hsame ⊢
    rw [hsame]
  · refine Table.ext_rows ?_
    simp only [hkeys, Table.erase, Table.filter, List.filter_filter]
    exact List.filter_congr fun row _ => Bool.and_comm _ _
  · exact fun row hrow hnot => hover row (Table.mem_erase.mp hrow).1 hnot

theorem onRow_follows {op : Operation} {K : KeyOperation} (hK : keyOperation L cfg data op = some K)
    (h : Swept a b) {kid : String} {row : KeyRow} (hleft : a.keys.find kid = some row)
    (hright : b.keys.find kid = some row) :
    Follows Eq L i (onRow L cfg K kid row.toVaultKey) a b := by
  by_cases hop : op = .revokeKey
  · subst hop
    cases hK
    exact revoke_follows h hleft hright _
  · refine follows_aside (calls_lift fun _ => ?_) h
    exact (keyHalf_calls _ _).bind fun jwk => finish_aside hK hop _ _ _

theorem access_follows {op : Operation} {K : KeyOperation}
    (hK : keyOperation L cfg data op = some K) (h : Swept a b) (hclock : b.clock ≤ dateMax) :
    Follows SameAnswer L i (access L cfg user K) a b := by
  cases ht : K.target with
  | error e =>
    rw [access, ht]
    exact follows_of_runs rfl rfl (SameAnswer.of_eq rfl) h (Drawn.refl b)
  | ok kid =>
    rw [access, ht, Prog.liftM_eq, Prog.done_ok_bind]
    rcases authorizedKey_swept (L := L) (i := i) h hclock kid K.opClass with
      ⟨row, hleft, hright, hrun, hrun'⟩ | ⟨e, e', hrun, hrun', hsame⟩
    · obtain ⟨hsame, hswept, hdrawn⟩ := onRow_follows (i := i) hK h hleft hright
      exact follows_of_runs ((Prog.run_bind_ok hrun).trans (run_eq _ _))
        ((Prog.run_bind_ok hrun').trans (run_eq _ _)) (SameAnswer.of_eq hsame) hswept hdrawn
    · exact follows_of_runs (Prog.run_bind_error hrun) (Prog.run_bind_error hrun') hsame h
        (Drawn.refl b)

theorem listed_swept (h : Swept a b) (hclock : b.clock ≤ dateMax) :
    keyList user.userId user.data a a.clock = keyList user.userId user.data b b.clock := by
  unfold keyList
  obtain ⟨keep, hkeys, hover⟩ := h.kept
  rw [h.clock, hkeys]
  simp only [List.filter_map, Table.filter, List.filter_filter]
  congr 1
  refine List.filter_congr fun row hrow => ?_
  cases hkeep : keep row with
  | true => simp
  | false =>
    have hclosed : inWindow row.toVaultKey b.clock = false :=
      over_closed (hover row hrow hkeep) hclock (Nat.le_refl _)
    simp [hclosed]

theorem listKeys_follows (h : Swept a b) (hclock : b.clock ≤ dateMax) :
    Follows Eq L i (Handlers.listKeys user data) a b := by
  cases hprops : checkProps data [] with
  | error e =>
    rw [Handlers.listKeys, hprops]
    exact follows_of_runs rfl rfl rfl h (Drawn.refl b)
  | ok _ =>
    cases hmask : allowedOpsAllows user.data .listKeys with
    | false =>
      rw [Handlers.listKeys, hprops, hmask]
      exact follows_of_runs rfl rfl rfl h (Drawn.refl b)
    | true =>
      have hleft := listKeys_quiet L i user.userId user.data a
      rw [listed_swept h hclock] at hleft
      rw [listKeys_admitted hprops hmask]
      exact follows_of_runs (Prog.run_bind_ok hleft) (Prog.run_bind_ok (listKeys_quiet L i _ _ _))
        rfl h (Drawn.refl b)

/-- No key id that is still to be drawn is taken. -/
def Unused (L : Libraries) (w : World) : Prop :=
  ∀ n kid, w.seed ≤ n → Draws L n kid → w.keys.find kid = none

/-- Fresh key ids stay fresh. -/
theorem Unused.drawn {w w' : World} (hfresh : ∀ m n kid, Draws L m kid → Draws L n kid → m = n)
    (h : Unused L w) (hdrawn : Drawn L w w') : Unused L w' := by
  intro n kid hn hdraws
  rw [Table.find_eq_none_iff]
  intro hmem
  obtain ⟨row, hrow, rfl⟩ := List.mem_map.mp hmem
  rcases hdrawn.2 row hrow with hold | ⟨m, -, hlt, hm⟩
  · have hnone := h n row.keyId (Nat.le_trans hdrawn.1 hn) hdraws
    have hsome : w.keys.find row.keyId = some row := Table.find_of_mem hold
    rw [hnone] at hsome
    cases hsome
  · have heq := hfresh m n row.keyId hm hdraws
    omega

/-- The same new row in both vaults. -/
theorem swept_insert (h : Swept a b) {key : VaultKey} (hfree : b.keys.find key.keyId = none) :
    Swept { a with
        keys := a.keys.insert ⟨key, a.clock, a.clock⟩, born := a.born ++ [key] }
      { b with keys := b.keys.insert ⟨key, b.clock, b.clock⟩, born := b.born ++ [key] } := by
  have hclock := h.clock
  obtain ⟨hsame, keep, hkeys, hover⟩ := h
  have hfree' : a.keys.find key.keyId = none := by
    rw [hkeys, Table.find_filter, hfree]
    rfl
  have hnew : ∀ row ∈ b.keys.rows, row.keyId ≠ key.keyId := by
    intro row hrow heq
    exact (Table.find_eq_none_iff _ _).mp hfree (heq ▸ List.mem_map_of_mem hrow)
  have hleft := Table.insert_rows (t := a.keys) (r := ⟨key, a.clock, a.clock⟩) hfree'
  have hright := Table.insert_rows (t := b.keys) (r := ⟨key, b.clock, b.clock⟩) hfree
  refine ⟨?_, fun row => keep row || row.keyId == key.keyId, Table.ext_rows ?_,
    fun row hrow hnot => ?_⟩
  · rw [sameOffKeys] at hsame ⊢
    rw [hsame]
  · have hold : b.keys.rows.filter (fun row => keep row || row.keyId == key.keyId) =
        b.keys.rows.filter keep := by
      refine List.filter_congr fun row hrow => ?_
      rw [beq_eq_false_iff_ne.mpr (hnew row hrow), Bool.or_false]
    refine hleft.trans (Eq.trans ?_ (congrArg
      (List.filter fun row : KeyRow => keep row || row.keyId == key.keyId) hright).symm)
    rw [List.filter_append, hold, hkeys, hclock]
    simp [Table.filter]
  · rw [hright] at hrow
    obtain ⟨hkeep, hkid⟩ := Bool.or_eq_false_iff.mp hnot
    rcases List.mem_append.mp hrow with hrow | hrow
    · exact hover row hrow hkeep
    · obtain rfl := List.mem_singleton.mp hrow
      simp at hkid

theorem generate_follows (h : Swept a b) (hunused : Unused L b) (spec : KeySpec) (acl : AclMap)
    (nbf exp : Option Nat) (f : Generated → HandlerResult) :
    Follows Eq L i (generate cfg spec acl nbf exp >>= fun g => pure (f g)) a b := by
  have hanswer : ∀ w : World, (effect L i (.generateVaultKey spec) w).1 =
      generateVaultKey L w.seed spec :=
    fun _ => rfl
  have hseed : a.seed = b.seed := by
    have hsame := h.same
    rw [sameOffKeys] at hsame
    rw [hsame]
  have hswept₁ : Swept (effect L i (.generateVaultKey spec) a).2
      (effect L i (.generateVaultKey spec) b).2 :=
    ⟨(effect_sameOffKeys (L := L) (i := i) (c := .generateVaultKey spec) rfl h.same).2, h.kept⟩
  have hrun : ∀ w : World, (generate cfg spec acl nbf exp >>= fun g => pure (f g)).run (serve L i)
      (quiet w) = (liftM (orThrow (generateVaultKey L w.seed spec)) >>= fun g =>
        storeGenerated cfg acl nbf exp g >>= fun g => (pure (f g) : Api HandlerResult)).run
          (serve L i) (quiet (effect L i (.generateVaultKey spec) w).2) := by
    intro w
    simp only [generate, ask_bind, Prog.call_bind, Prog.run_call, serve_quiet, hanswer, bind_assoc]
  have hleft := hrun a
  have hright := hrun b
  rw [hseed] at hleft
  have hdrawn₁ : Drawn L b (effect L i (.generateVaultKey spec) b).2 :=
    ⟨Nat.le_succ _, fun row hrow => Or.inl hrow⟩
  cases hg : generateVaultKey L b.seed spec with
  | error message =>
    rw [hg] at hleft hright
    exact follows_of_runs hleft hright rfl hswept₁ hdrawn₁
  | ok g =>
    rw [hg, orThrow_ok, Prog.liftM_eq, Prog.done_ok_bind, storeGenerated_eq] at hleft hright
    obtain ⟨hsame₂, hswept₂, hdrawn₂⟩ := follows_aside (i := i) (L := L)
      (embedding_calls cfg g nbf exp) hswept₁
    have hdraws : Draws L b.seed g.kid := generated_draws hg
    have hfree₂ : (after L i (embedding cfg g nbf exp)
        (effect L i (.generateVaultKey spec) b).2).keys.find g.kid = none := by
      have hkeys := run_keys (L := L) (i := i) ((embedding_calls cfg g nbf exp).mono
        fun c hc => writesKeys_of_offKeys hc.1) (quiet (effect L i (.generateVaultKey spec) b).2)
      exact (congrArg (fun t : KeyTable => t.find g.kid) hkeys).trans
        (hunused b.seed g.kid (Nat.le_refl _) hdraws)
    have hlt : b.seed < (effect L i (.generateVaultKey spec) b).2.seed := Nat.lt_succ_self _
    generalize (effect L i (.generateVaultKey spec) a).2 = a₁ at *
    generalize (effect L i (.generateVaultKey spec) b).2 = b₁ at *
    have hembed := run_eq (L := L) (i := i) (embedding cfg g nbf exp) a₁
    have hembed' := run_eq (L := L) (i := i) (embedding cfg g nbf exp) b₁
    rw [hsame₂] at hembed
    have hlt₂ : b.seed < (after L i (embedding cfg g nbf exp) b₁).seed :=
      Nat.lt_of_lt_of_le hlt hdrawn₂.1
    have hdrawn := hdrawn₁.trans hdrawn₂
    generalize after L i (embedding cfg g nbf exp) a₁ = a₂ at *
    generalize after L i (embedding cfg g nbf exp) b₁ = b₂ at *
    cases hresult : result L i (embedding cfg g nbf exp) b₁ with
    | error e =>
      rw [hresult] at hembed hembed'
      exact follows_of_runs (hleft.trans (Prog.run_bind_error hembed))
        (hright.trans (Prog.run_bind_error hembed')) rfl hswept₂ hdrawn
    | ok embedded =>
      rw [hresult] at hembed hembed'
      have hfree' : a₂.keys.find g.kid = none := by
        obtain ⟨keep, hkeys, -⟩ := hswept₂.kept
        rw [hkeys, Table.find_filter, hfree₂]
        rfl
      have hins := (hleft.trans (Prog.run_bind_ok hembed)).trans (insert_run (L := L) (i := i)
        ⟨g.kid, g.kty, g.alg, g.publicKey⟩
        (f ⟨g.kid, g.kty, g.alg, g.publicKey⟩) hfree')
      have hins' := (hright.trans (Prog.run_bind_ok hembed')).trans (insert_run (L := L) (i := i)
        ⟨g.kid, g.kty, g.alg, g.publicKey⟩
        (f ⟨g.kid, g.kty, g.alg, g.publicKey⟩) hfree₂)
      by_cases hrange :
          (inRange ((newKey g acl nbf exp embedded.1 embedded.2).toColumns L).notBefore &&
            inRange ((newKey g acl nbf exp embedded.1 embedded.2).toColumns L).expiresAt) = true
      · rw [if_pos hrange] at hins hins'
        refine follows_of_runs hins hins' rfl (swept_insert hswept₂ hfree₂)
          ⟨hdrawn.1, fun row hrow => ?_⟩
        rcases Table.mem_insert hrow with rfl | hrow
        · exact Or.inr ⟨b.seed, Nat.le_refl _, hlt₂, hdraws⟩
        · exact hdrawn.2 row hrow
      · rw [if_neg hrange] at hins hins'
        exact follows_of_runs hins hins' rfl hswept₂ hdrawn

theorem generateKey_follows (h : Swept a b) (hunused : Unused L b) :
    Follows Eq L i (generateKey cfg user data) a b := by
  have hlift : ∀ {γ : Type} (r : Except Thrown γ) (f : γ → Api HandlerResult),
      (∀ x, Follows Eq L i (f x) a b) → Follows Eq L i (liftM r >>= f) a b := by
    intro γ r f hf
    cases r with
    | ok x => exact hf x
    | error e => exact follows_of_runs rfl rfl rfl h (Drawn.refl b)
  refine hlift _ _ fun spec => ?_
  have hnow : ∀ f : Nat → Api HandlerResult, (∀ n, Follows Eq L i (f n) a b) →
      Follows Eq L i (ask .dateNow >>= f) a b := by
    intro f hf
    obtain ⟨hsame, hswept, hdrawn⟩ := hf b.clock
    refine ⟨?_, ?_, hdrawn⟩
    · show result L i (f a.clock) a = result L i (f b.clock) b
      rw [h.clock]
      exact hsame
    · show Swept (after L i (f a.clock) a) (after L i (f b.clock) b)
      rw [h.clock]
      exact hswept
  refine hnow _ fun now => hlift _ _ fun _ => hlift _ _ fun _ => ?_
  refine Follows.bind (fun _ => rfl) (follows_aside resolveAcl_calls h) fun acl => ?_
  have hstill : ∀ w : World, after L i (resolveAcl user data) w = w := by
    intro w
    exact congrArg Session.world (asks_still (L := L) (i := i) resolveAcl_asks w)
  rw [hstill, hstill]
  exact generate_follows h hunused spec acl _ _ _

theorem handler_follows (h : Swept a b) (hunused : Unused L b) (hclock : b.clock ≤ dateMax)
    (op : Operation) : Follows SameAnswer L i (handler L cfg user data op) a b := by
  cases hK : keyOperation L cfg data op with
  | some K =>
    rw [handler_access hK]
    exact access_follows hK h hclock
  | none =>
    have hexact : Follows Eq L i (handler L cfg user data op) a b := by
      cases op with
      | healthcheck => exact follows_aside healthcheck_calls h
      | generateKey => exact generateKey_follows h hunused
      | listKeys => exact listKeys_follows h hclock
      | _ => cases hK
    exact hexact.mono fun _ _ => SameAnswer.of_eq

/-- The appends touch nothing but the chain. -/
theorem afterwards_quiet (outcome : Outcome) (w : World) :
    ∃ events, (afterwards L i user env outcome (quiet w)).2 =
      quiet { w with events := events } := by
  unfold afterwards
  split
  · unfold appendEvents
    simp only [ask_bind, Prog.run_call, serve_quiet, effect, orThrow_ok, Prog.liftM_eq,
      Prog.done_ok_bind]
    cases isMaskedDenial outcome with
    | true => exact ⟨_, rfl⟩
    | false => exact ⟨_, rfl⟩
  · exact ⟨w.events, rfl⟩

theorem Swept.withEvents (h : Swept a b) (events events' : List AuditEvent) :
    Swept { a with events := events } { b with events := events' } := by
  obtain ⟨hsame, hkept⟩ := h
  refine ⟨?_, hkept⟩
  rw [sameOffKeys] at hsame ⊢
  rw [hsame]

theorem dispatch_follows (h : Swept a b) (hunused : Unused L b) (hclock : b.clock ≤ dateMax) :
    Follows Eq L i (dispatch L cfg user env) a b := by
  cases hop : Operation.ofRequest env.request with
  | none =>
    refine follows_aside (dispatch_unaudited fun op heq => ?_) h
    rw [heq, Operation.ofRequest_request] at hop
    cases hop
  | some op =>
    have hrequest := (Operation.ofRequest_eq_some hop).symm
    obtain ⟨hsame, hswept, hdrawn⟩ := handler_follows (i := i)
      h hunused hclock op
    have hrun : ∀ w : World, ∃ events, (dispatch L cfg user env).run (serve L i) (quiet w) =
        (.ok (answer env.op ((result L i (handler L cfg user env.data op) w).mapError caught)),
          quiet { after L i (handler L cfg user env.data op) w with events := events }) := by
      intro w
      have hdispatch := dispatch_request L cfg user i hrequest (quiet w)
      rw [run_eq (handler L cfg user env.data op)] at hdispatch
      dsimp only at hdispatch
      obtain ⟨events, hevents⟩ := afterwards_quiet (L := L) (i := i)
        ((result L i (handler L cfg user env.data op) w).mapError caught)
        (after L i (handler L cfg user env.data op) w)
      refine ⟨events, hdispatch.trans (Prod.ext ?_ hevents)⟩
      exact congrArg Except.ok (afterwards_answer _ (by simp [quiet]))
    obtain ⟨events, hleft⟩ := hrun a
    obtain ⟨events', hright⟩ := hrun b
    exact follows_of_runs hleft hright (congrArg Except.ok (hsame env.op))
      (hswept.withEvents events events') hdrawn

theorem handleRequest_follows (h : Swept a b) (hunused : Unused L b) (hclock : b.clock ≤ dateMax)
    (req : HttpRequest) : Follows Eq L i (handleRequest L cfg req) a b := by
  cases henv : envelopeOf req with
  | none => exact follows_aside (handleRequest_other henv ⟨rfl, rfl, rfl⟩) h
  | some env =>
    rw [handleRequest_envelope henv]
    have haside : (authenticate L cfg req env.user).Calls aside :=
      authenticate_calls (fun _ => ⟨rfl, rfl, rfl⟩) ⟨rfl, rfl, rfl⟩ req env.user
    have hauth := follows_aside (L := L) (i := i) haside h
    have hkeys : (after L i (authenticate L cfg req env.user) b).keys = b.keys :=
      run_keys (haside.mono fun c hc => writesKeys_of_offKeys hc.1) (quiet b)
    refine Follows.bind (fun _ => rfl) hauth fun found => ?_
    cases found with
    | none => exact follows_of_runs rfl rfl rfl hauth.swept (Drawn.refl _)
    | some user =>
      refine dispatch_follows hauth.swept (fun n kid hn hdraws => ?_) ?_
      · rw [hkeys]
        exact hunused n kid (Nat.le_trans (after_seed _ _) hn) hdraws
      · rw [after_clock]
        exact hclock

theorem serveRequest_follows (h : Swept a b) (hunused : Unused L b) (hclock : b.clock ≤ dateMax)
    (req : HttpRequest) : Follows Eq L i (serveRequest L cfg req) a b := by
  obtain ⟨hsame, hswept, hdrawn⟩ := handleRequest_follows (i := i) h hunused hclock req
  have hrun : ∀ w : World, (serveRequest L cfg req).run (serve L i) (quiet w) =
      (match result L i (handleRequest L cfg req) w with
        | .ok response => .ok response
        | .error _ => .ok (internalError none), quiet (after L i (handleRequest L cfg req) w)) := by
    intro w
    rw [serveRequest, Prog.run_tryCatch, run_eq]
    cases result L i (handleRequest L cfg req) w <;> rfl
  refine follows_of_runs (hrun a) (hrun b) ?_ hswept hdrawn
  rw [hsame]

/-- What happens to a vault between two instants: time passes, a server answers a
request, or the sweep timer of a server fires. -/
inductive Step where
  | wait (elapsed : Nat)
  | request (i : Interleaving.ThreadId) (cfg : Config) (req : HttpRequest)
  | sweep (i : Interleaving.ThreadId) (cfg : Config)

def advance (L : Libraries) (sweeps : Bool) (w : World) :
    Step → Option (Except Thrown Response) × World
  | .wait elapsed => (none, { w with clock := w.clock + elapsed })
  | .request i cfg req =>
    (some (result L i (serveRequest L cfg req) w), after L i (serveRequest L cfg req) w)
  | .sweep i cfg => (none, if sweeps then after L i (KeyStore.sweep cfg) w else w)

/-- The responses of a run, and the vault it leaves. -/
def play (L : Libraries) (sweeps : Bool) : List Step → World → List (Except Thrown Response) × World
  | [], w => ([], w)
  | step :: steps, w =>
    let r := advance L sweeps w step
    let rest := play L sweeps steps r.2
    (r.1.toList ++ rest.1, rest.2)

theorem advance_clock (sweeps : Bool) (w : World) (step : Step) :
    w.clock ≤ (advance L sweeps w step).2.clock := by
  cases step with
  | wait elapsed => exact Nat.le_add_right _ _
  | request i cfg req => exact Nat.le_of_eq (after_clock _ _).symm
  | sweep i cfg =>
    cases sweeps with
    | false => exact Nat.le_refl _
    | true => exact Nat.le_of_eq (after_clock _ _).symm

theorem play_clock (sweeps : Bool) (steps : List Step) (w : World) :
    w.clock ≤ (play L sweeps steps w).2.clock := by
  induction steps generalizing w with
  | nil => exact Nat.le_refl _
  | cons step steps ih =>
    have hstep := advance_clock (L := L) sweeps w step
    have hrest := ih (advance L sweeps w step).2
    exact Nat.le_trans hstep hrest

theorem Over.later {clock clock' : Nat} {row : KeyRow} (h : Over clock row) (hle : clock ≤ clock') :
    Over clock' row := by
  obtain ⟨e, he, hpast⟩ := h
  exact ⟨e, he, Nat.le_trans hpast hle⟩

theorem Swept.wait (h : Swept a b) (elapsed : Nat) :
    Swept { a with clock := a.clock + elapsed } { b with clock := b.clock + elapsed } := by
  have hclock := h.clock
  obtain ⟨hsame, keep, hkeys, hover⟩ := h
  refine ⟨?_, keep, hkeys, fun row hrow hnot => ?_⟩
  · rw [sameOffKeys] at hsame ⊢
    rw [hsame]
  · exact (hover row hrow hnot).later (Nat.le_add_right _ _)

/-- What the sweep deletes is over, whatever the grace. -/
theorem over_of_expired {clock graceSeconds : Nat} {row : KeyRow}
    (h : expired clock graceSeconds row = true) : Over clock row := by
  unfold expired at h
  cases he : row.expiresAt with
  | none => simp [he] at h
  | some e =>
    have hlt : e + graceSeconds * 1000000 < clock * 1000 := by simpa [he] using h
    exact ⟨e, he, by omega⟩

theorem sweep_after (cfg : Config) (w : World) : after L i (KeyStore.sweep cfg) w =
    { w with keys := w.keys.filter fun row => !expired w.clock cfg.expiryGraceSeconds row } := rfl

theorem Swept.sweep (L : Libraries) (i : Interleaving.ThreadId) (h : Swept a b) (cfg : Config) :
    Swept (after L i (KeyStore.sweep cfg) a) b := by
  have hclock := h.clock
  obtain ⟨hsame, keep, hkeys, hover⟩ := h
  rw [sweep_after]
  refine ⟨?_, fun row => keep row && !expired b.clock cfg.expiryGraceSeconds row, ?_,
    fun row hrow hnot => ?_⟩
  · rw [sameOffKeys] at hsame ⊢
    rw [hsame]
  · refine Table.ext_rows ?_
    simp only [hkeys, hclock, Table.filter, List.filter_filter]
    exact List.filter_congr fun row _ => Bool.and_comm _ _
  · cases hkeep : keep row with
    | false => exact hover row hrow hkeep
    | true =>
      have hexpired : expired b.clock cfg.expiryGraceSeconds row = true := by
        simpa [hkeep] using hnot
      exact over_of_expired hexpired

/-- One step of both vaults: the same answer, and the relation is kept. -/
theorem advance_swept (h : Swept a b) (hunused : Unused L b) (hclock : b.clock ≤ dateMax)
    (step : Step) : (advance L true a step).1 = (advance L false b step).1 ∧
      Swept (advance L true a step).2 (advance L false b step).2 ∧
      Drawn L b (advance L false b step).2 := by
  cases step with
  | wait elapsed => exact ⟨rfl, h.wait elapsed, Drawn.refl b⟩
  | request i cfg req =>
    have hfollows : Follows Eq L i (serveRequest L cfg req) a b :=
      serveRequest_follows h hunused hclock req
    exact ⟨congrArg some hfollows.same, hfollows.swept, hfollows.drawn⟩
  | sweep i cfg => exact ⟨rfl, h.sweep L i cfg, Drawn.refl b⟩

theorem play_swept (hfresh : ∀ m n kid, Draws L m kid → Draws L n kid → m = n) (steps : List Step) :
    ∀ {a b : World}, Swept a b → Unused L b → (play L false steps b).2.clock ≤ dateMax →
      (play L true steps a).1 = (play L false steps b).1 ∧
        Swept (play L true steps a).2 (play L false steps b).2 := by
  induction steps with
  | nil => exact fun h _ _ => ⟨rfl, h⟩
  | cons step steps ih =>
    intro a b h hunused hclock
    have hnow : b.clock ≤ dateMax := Nat.le_trans (play_clock false (step :: steps) b) hclock
    obtain ⟨hanswer, hswept, hdrawn⟩ := advance_swept h hunused hnow step
    obtain ⟨hanswers, hend⟩ := ih hswept (hunused.drawn hfresh hdrawn) hclock
    refine ⟨?_, hend⟩
    simp only [play, hanswer, hanswers]

theorem swept_self (w : World) : Swept w w := by
  refine ⟨?_, fun _ => true, ?_, fun _ _ hnot => by cases hnot⟩
  · rw [sameOffKeys]
  · exact (Table.filter_of_all fun _ _ => rfl).symm

/-- The sweep changes no answer of a run, deletes nothing but rows that no request
accepts any more, and keeps every row without an end. -/
theorem sweep_hygiene (L : Libraries) (hfresh : ∀ m n kid, Draws L m kid → Draws L n kid → m = n)
    (w : World) (hunused : Unused L w) (steps : List Step)
    (hclock : (play L false steps w).2.clock ≤ dateMax) :
    (play L true steps w).1 = (play L false steps w).1 ∧
      (∀ row ∈ (play L true steps w).2.keys.rows, row ∈ (play L false steps w).2.keys.rows) ∧
      ∀ row ∈ (play L false steps w).2.keys.rows, row ∉ (play L true steps w).2.keys.rows →
        row.expiresAt ≠ none ∧ ∀ now, (play L false steps w).2.clock ≤ now →
          inWindow row.toVaultKey now = false := by
  obtain ⟨hanswers, -, keep, hkeys, hover⟩ := play_swept hfresh steps (swept_self w) hunused hclock
  refine ⟨hanswers, fun row hrow => ?_, fun row hrow hlost => ?_⟩
  · rw [hkeys] at hrow
    exact (Table.mem_filter.mp hrow).1
  · have hnot : keep row = false := by
      by_contra hkeep
      rw [Bool.not_eq_false] at hkeep
      exact hlost (hkeys ▸ Table.mem_filter.mpr ⟨hrow, hkeep⟩)
    have hrowOver := hover row hrow hnot
    refine ⟨?_, fun now hnow => over_closed hrowOver hclock hnow⟩
    obtain ⟨e, he, -⟩ := hrowOver
    simp [he]

/-- Alice owns a key that ends after one second. -/
def alicesVault : World :=
  { listingWorld with
    keys := Table.empty.insert { Fixtures.bobsKey with
      expiresAt := some 1, acl := .obj [(Fixtures.aliceId, .arr [.str "owner"])] } }

/-- Her key is swept between her two listings. -/
def alicesDay : List Step :=
  [.request 0 Fixtures.config listing, .wait 1001, .sweep 1 Fixtures.config,
    .request 0 Fixtures.config listing]

theorem sweep_hygiene_alice :
    (play Fixtures.bare true alicesDay alicesVault).1 =
      (play Fixtures.bare false alicesDay alicesVault).1 ∧
    (play Fixtures.bare true alicesDay alicesVault).2.keys.rows = [] ∧
    ((play Fixtures.bare false alicesDay alicesVault).2.keys.rows.map fun row => row.keyId) =
      [Fixtures.keyId1] := by
  have hdraws : ∀ n kid, ¬ Draws Fixtures.bare n kid := by
    intro n kid h
    cases h <;> contradiction
  have hsweep :=
    sweep_hygiene Fixtures.bare (fun m n kid h _ => absurd h (hdraws m kid)) alicesVault
    (fun n kid _ h => absurd h (hdraws n kid)) alicesDay (by decide +kernel)
  exact ⟨hsweep.1, by decide +kernel, by decide +kernel⟩

end ExpirySweep
