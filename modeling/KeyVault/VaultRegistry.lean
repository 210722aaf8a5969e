import KeyVault.Freshness
import KeyVault.KeyRuns
import KeyVault.Registry
import KeyVault.ServedRequests

/-!
# The vault as a registry

What the vault is for: it holds keys under ids that are never used twice, each with an
ACL. KEKs, embeddings, caches and the way a request takes through them are not seen at
this level, and every run of the vault is a run of such a registry.
-/

namespace VaultRegistry

open KeyLifecycle hiding runs runs_sound
open JsValue Acl KeyGen Errors Programs Interleaving Vault KeyStore Handlers
  KeyOperations CallEffects
  Server ServerAuth KeyInvariant Durability KeyHalves Freshness AuditTrail Processes KeyRuns
  ServedRequests LastWrites Registry Tables

/-- What is stored under a key id, whatever it is wrapped under. -/
structure KeyItem where
  kty : String
  alg : String
  notBefore : Option Nat
  expiresAt : Option Nat
  publicKey : Option Json
  secretKey : Json

/-- The half that an operation takes. -/
def KeyItem.half (item : KeyItem) : KeyHalf → Json
  | .stored => item.publicKey.getD .null
  | .publicOrSecret => if item.kty = "oct" then item.secretKey else item.publicKey.getD .null
  | .secret => item.secretKey

/-- The JWK in the claims that the KEK of the row opens. -/
def opened (L : Libraries) (kekOf : String → Kek) (row : VaultKey) : Option Json :=
  match L.jweDecrypt row.embeddedKey (kekOf row.embeddingKeyId).secretJwk with
  | .ok claims => claims.get? "key"
  | .error _ => none

def itemOf (L : Libraries) (kekOf : String → Kek) (row : VaultKey) : KeyItem where
  kty := row.kty
  alg := row.alg
  notBefore := row.notBefore
  expiresAt := row.expiresAt
  publicKey := row.publicKey
  secretKey := (opened L kekOf row).getD .null

def holding (L : Libraries) (kekOf : String → Kek) (row : VaultKey) : Holding KeyItem Json :=
  ⟨itemOf L kekOf row, row.acl⟩

/-- The registry that the key table stands for. -/
def registryOf (L : Libraries) (kekOf : String → Kek) (w : World) : State String KeyItem Json where
  held := fun kid => (w.keys.find kid).map fun row => holding L kekOf row.toVaultKey
  used := {kid | (∃ key ∈ w.born, key.keyId = kid) ∨ (w.keys.find kid).isSome = true}
  covers := by
    intro kid h
    refine Or.inr ?_
    rw [← Option.isSome_map, Option.isSome_iff_ne_none]
    exact h

/-- What an answered call does to the registry; a rewrap does nothing. -/
def actOf (L : Libraries) (kekOf : String → Kek) (before after : World) :
    (c : Call) → Ans c → Act String KeyItem Json
  | .insertKey key, .ok _ => .register key.keyId (holding L kekOf (key.toColumns L))
  | .deleteKey kid, .ok _ => .drop {kid}
  | .updateKeyAcl kid acl, .ok _ => .permit kid acl
  | .sweepExpiredKeys grace, .ok _ =>
    .drop {kid | ∃ row, before.keys.find kid = some row ∧ expired after.clock grace row = true}
  | _, _ => .idle

def act (L : Libraries) (kekOf : String → Kek) (e : Entry Ans World) : Act String KeyItem Json :=
  actOf L kekOf e.before e.after e.call e.answer

section

variable {L : Libraries} {kekOf : String → Kek} {i : ThreadId} {t : Turn} {c : Call} {w w' : World}

theorem opened_holds {row : VaultKey} {g : GeneratedKey} (h : Holds L kekOf row g) :
    opened L kekOf row = some g.secretKey := by
  obtain ⟨iat, nbf, exp, hwrapped, -⟩ := h.wrapped
  simp only [opened, hwrapped]
  exact embedClaims_key _ _ _ _ _

theorem itemOf_holds {row : VaultKey} {g : GeneratedKey} (h : Holds L kekOf row g) :
    itemOf L kekOf row =
      ⟨g.kty, g.alg, row.notBefore, row.expiresAt, g.publicKey, g.secretKey⟩ := by
  rw [itemOf, opened_holds h, h.kty, h.alg, h.publicKey]
  rfl

theorem half_holds {row : VaultKey} {g : GeneratedKey} (h : Holds L kekOf row g) (half : KeyHalf) :
    (itemOf L kekOf row).half half = halfOf g half := by
  rw [itemOf_holds h]
  cases half <;> rfl

/-- Two stored rows of one id that were inserted with one window are one item. -/
theorem itemOf_unique (hw : Sound L kekOf w) {row row' : VaultKey} (h : Stored L kekOf w row)
    (h' : Stored L kekOf w row') (hkid : row.keyId = row'.keyId) :
    itemOf L kekOf row = itemOf L kekOf row' := by
  obtain ⟨g, hg, hholds⟩ := h.holds
  obtain ⟨g', hg', hholds'⟩ := h'.holds
  obtain ⟨hnbf, hexp⟩ := hw.stored_window h h' hkid
  have hsame : g = g' :=
    hw.minted_unique hg hg' (hholds.keyId.symm.trans (hkid.trans hholds'.keyId))
  rw [itemOf_holds hholds, itemOf_holds hholds', hsame, hnbf, hexp]

/-- In a sound vault the used ids are those that were ever inserted. -/
theorem used_born (hw : Sound L kekOf w) :
    (registryOf L kekOf w).used = {kid | ∃ key ∈ w.born, key.keyId = kid} := by
  ext kid
  constructor
  · rintro (hborn | hfound)
    · exact hborn
    · exact stored_born hw hfound
  · exact Or.inl

theorem actOf_failure {message : String} {answer : Ans c} (h : failure message c = some answer) :
    actOf L kekOf w w' c answer = .idle := by
  cases c <;> first | rfl | (cases h; rfl)

theorem actOf_aside {answer : Ans c} (h : writesKeys c = false) :
    actOf L kekOf w w' c answer = .idle := by
  cases c <;> first | rfl | cases h

theorem effect_born_aside (h : writesKeys c = false) : (effect L i c w).2.born = w.born := by
  cases c <;> first | (simp only [effect]; repeat' split) <;> rfl | cases h

/-- What leaves the table and the inserted keys alone is not seen. -/
theorem idle_same (hkeys : w'.keys = w.keys) (hborn : w'.born = w.born) :
    Step (registryOf L kekOf w) .idle (registryOf L kekOf w') := by
  constructor
  · simp only [registryOf, hkeys]
  · simp only [registryOf, hkeys, hborn]

theorem refines_insert (row : KeyRow) (hbefore : Sound L kekOf w) (hafter : Sound L kekOf w')
    (hfree : w.keys.find row.keyId = none) (hkeys : w'.keys = w.keys.insert row)
    (hborn : w'.born = w.born ++ [row.toVaultKey]) :
    Step (registryOf L kekOf w) (.register row.keyId (holding L kekOf row.toVaultKey))
      (registryOf L kekOf w') := by
  refine ⟨?_, ?_, fun m hm => ?_, ?_⟩
  · rw [used_born hbefore]
    rintro ⟨old, hold, hid⟩
    have hnodup := hafter.bornKids
    rw [hborn, List.map_append, List.nodup_append] at hnodup
    exact hnodup.2.2 row.keyId (hid ▸ List.mem_map_of_mem hold) row.keyId (by simp) rfl
  · simp only [registryOf, hkeys]
    rw [show (w.keys.insert row).find row.keyId = some row from Table.find_insert_self hfree]
    rfl
  · simp only [registryOf, hkeys]
    rw [show (w.keys.insert row).find m = w.keys.find m from Table.find_insert_ne hm]
  · rw [used_born hbefore, used_born hafter, hborn]
    ext kid
    simp [or_comm, eq_comm]

theorem refines_delete {kid : String} (hbefore : Sound L kekOf w) (hafter : Sound L kekOf w')
    (hkeys : w'.keys = w.keys.erase kid) (hborn : w'.born = w.born) :
    Step (registryOf L kekOf w) (.drop {kid}) (registryOf L kekOf w') := by
  refine ⟨fun m hm => ?_, fun m hm => ?_, ?_⟩
  · rw [Set.mem_singleton_iff.mp hm]
    simp only [registryOf, hkeys]
    rw [show (w.keys.erase kid).find kid = none from Table.find_erase_self w.keys kid]
    rfl
  · simp only [registryOf, hkeys]
    rw [Table.find_erase_ne w.keys (show m ≠ kid from hm)]
  · rw [used_born hbefore, used_born hafter, hborn]

theorem refines_sweep {graceSeconds : Nat} (hbefore : Sound L kekOf w) (hafter : Sound L kekOf w')
    (hkeys : w'.keys = w.keys.filter fun row => !expired w'.clock graceSeconds row)
    (hborn : w'.born = w.born) :
    Step (registryOf L kekOf w)
      (.drop {kid | ∃ row, w.keys.find kid = some row ∧ expired w'.clock graceSeconds row = true})
      (registryOf L kekOf w') := by
  refine ⟨fun m hm => ?_, fun m hm => ?_, ?_⟩
  · obtain ⟨row, hrow, hexpired⟩ := hm
    simp only [registryOf, hkeys, Table.find_filter, hrow, Option.filter, hexpired]
    rfl
  · simp only [registryOf, hkeys, Table.find_filter]
    cases hrow : w.keys.find m with
    | none => rfl
    | some row =>
      have halive : expired w'.clock graceSeconds row = false := by
        by_contra hexpired
        exact hm ⟨row, hrow, by simpa using hexpired⟩
      simp [Option.filter, halive]
  · rw [used_born hbefore, used_born hafter, hborn]

theorem refines_acl {kid : String} {acl : Json} {f : KeyRow → KeyRow}
    (keeps : ∀ r, (f r).keyId = r.keyId) (hbefore : Sound L kekOf w) (hafter : Sound L kekOf w')
    (hf : ∀ row, (f row).toVaultKey = { row.toVaultKey with acl := acl })
    (hkeys : w'.keys = w.keys.update kid f keeps) (hborn : w'.born = w.born) :
    Step (registryOf L kekOf w) (.permit kid acl) (registryOf L kekOf w') := by
  refine ⟨?_, fun m hm => ?_, ?_⟩
  · simp only [registryOf, hkeys, Table.find_update_self]
    cases w.keys.find kid with
    | none => rfl
    | some row =>
      simp only [Option.map_some, holding, hf]
      rfl
  · simp only [registryOf, hkeys]
    rw [show (w.keys.update kid f keeps).find m = w.keys.find m from Table.find_update_ne _ _ _ hm]
  · rw [used_born hbefore, used_born hafter, hborn]

/-- A row that is replaced by one that holds the same key under the same ACL is the same
holding. -/
theorem refines_reembed {kid : String} {f : KeyRow → KeyRow} (keeps : ∀ r, (f r).keyId = r.keyId)
    (hbefore : Sound L kekOf w) (hafter : Sound L kekOf w') (hgrow : Grows w w')
    (hf : ∀ row, (f row).acl = row.acl) (hkeys : w'.keys = w.keys.update kid f keeps)
    (hborn : w'.born = w.born) :
    Step (registryOf L kekOf w) .idle (registryOf L kekOf w') := by
  refine ⟨funext fun m => ?_, ?_⟩
  · by_cases hm : m = kid
    · subst hm
      have hfind : w'.keys.find m = (w.keys.find m).map f := by
        rw [hkeys]
        exact Table.find_update_self _ _ _ _
      simp only [registryOf, hfind]
      cases hrow : w.keys.find m with
      | none => rfl
      | some row =>
        rw [hrow] at hfind
        have hsame : itemOf L kekOf (f row).toVaultKey = itemOf L kekOf row.toVaultKey :=
          itemOf_unique hafter (hafter.rows _ (Table.find_mem hfind))
            ((hbefore.rows row (Table.find_mem hrow)).mono hgrow) (keeps row)
        simp only [Option.map_some, holding, hsame, hf]
    · simp only [registryOf, hkeys]
      rw [show (w.keys.update kid f keeps).find m =
        w.keys.find m from Table.find_update_ne _ _ _ hm]
  · rw [used_born hbefore, used_born hafter, hborn]

/-- What a call does to the vault is its act on the registry. -/
theorem effect_refines (hbefore : Sound L kekOf w) (hafter : Sound L kekOf (effect L i c w).2)
    (hgrow : Grows w (effect L i c w).2) :
    Step (registryOf L kekOf w) (actOf L kekOf w (effect L i c w).2 c (effect L i c w).1)
      (registryOf L kekOf (effect L i c w).2) := by
  cases hc : writesKeys c with
  | false =>
    rw [actOf_aside hc]
    exact idle_same (effect_keys hc w) (effect_born_aside hc)
  | true =>
    cases c with
    | insertKey key =>
      simp only [effect] at hafter ⊢
      split at hafter
      · rename_i htaken
        simp only [htaken, if_true]
        exact idle_same rfl rfl
      · rename_i hfree
        split at hafter
        · rename_i hrange
          simp only [hfree, hrange, if_true]
          exact refines_insert ⟨key.toColumns L, w.clock, w.clock⟩ hbefore hafter
            (by simpa using hfree) rfl rfl
        · rename_i hrange
          simp only [hfree, hrange]
          exact idle_same rfl rfl
    | deleteKey kid => exact refines_delete hbefore hafter rfl rfl
    | updateKeyAcl kid acl =>
      exact refines_acl
        (f := fun row => { row with acl := acl, updatedAt := w.clock }) (fun _ => rfl)
        hbefore hafter (fun _ => rfl) rfl rfl
    | updateKeyEmbedding kid embeddingKeyId embeddedKey =>
      exact refines_reembed (f := fun row => { row with
        embeddingKeyId := embeddingKeyId, embeddedKey := embeddedKey, updatedAt := w.clock })
        (fun _ => rfl) hbefore hafter hgrow (fun _ => rfl) rfl rfl
    | sweepExpiredKeys graceSeconds => exact refines_sweep hbefore hafter rfl rfl
    | _ => cases hc

theorem entry_refines {e : Entry Ans World} (hbefore : Sound L kekOf e.before)
    (hafter : Sound L kekOf e.after) (hgrow : Grows e.before e.after)
    (hstep : ∃ t, perform L e.thread t e.call e.before = (e.answer, e.after)) :
    Step (registryOf L kekOf e.before) (act L kekOf e) (registryOf L kekOf e.after) := by
  obtain ⟨thread, call, answer, before, after⟩ := e
  dsimp only at hbefore hafter hgrow hstep
  obtain ⟨t, ht⟩ := hstep
  rcases perform_cases L thread t call before with ⟨message, failed, -, hfailed, hp⟩ | hp
  · rw [hp] at ht
    cases ht
    rw [act, actOf_failure hfailed]
    exact idle_same rfl rfl
  · rw [hp] at ht
    obtain ⟨hanswer, hafter'⟩ := Prod.mk.inj ht
    subst hanswer hafter'
    exact effect_refines (hbefore.tick t.elapsed) hafter hgrow

theorem linked_refines {w₀ : World} {trace : List (Entry Ans World)}
    (h : Linked (perform L) w₀ trace w) (hkept : Kept (protocol L kekOf) trace) :
    Path (registryOf L kekOf w₀) (trace.map (act L kekOf)) (registryOf L kekOf w) := by
  refine h.history (Q := fun t s => Path (registryOf L kekOf w₀) (t.map (act L kekOf))
    (registryOf L kekOf s)) (fun pre e post htrace hstep hpath => ?_) Path.nil
  obtain ⟨hbefore, hafter, hguar⟩ :=
    hkept e (htrace ▸ List.mem_append_right _ (List.mem_cons_self ..))
  rw [List.map_append]
  exact hpath.snoc (entry_refines hbefore hafter hguar.1 hstep)

variable {trace : List (Entry Ans World)} {m m' : World} {kid : String}
  {r r' : Holding KeyItem Json}

variable {cfg : Config} {req : HttpRequest} {env : Envelope} {user : VaultUser} {data : Json}
  {op : Operation} {K : KeyOperation} {result : HandlerResult}

/-- The window of the item is open. -/
def KeyItem.admits (item : KeyItem) (now : Nat) : Bool :=
  !(item.notBefore.bind getTime).any (fun t => now < t) &&
    !(item.expiresAt.bind getTime).any (fun t => t ≤ now)

/-- The operation comes to the result with the item under the id, however it is stored. -/
def Computes (L : Libraries) (kekOf : String → Kek) (trace : List (Entry Ans World)) (i : ThreadId)
    (K : KeyOperation) (kid : String) (item : KeyItem) (result : HandlerResult) : Prop :=
  ∀ row, itemOf L kekOf row = item →
    Plays trace i (K.finish kid row (item.half K.half)) (.ok result)

/-- The operation has worked on what the registry held under the id at one moment of its
own execution, as the permission that was last written before that moment allowed. -/
structure Worked (L : Libraries) (kekOf : String → Kek) (first : State String KeyItem Json)
    (trace : List (Entry Ans World)) (i : ThreadId) (user : VaultUser)
    (K : KeyOperation) (kid : String)
    (r : Holding KeyItem Json) (result : HandlerResult) : Prop where
  held : ∃ pre e post, trace = pre ++ e :: post ∧ e.thread = i ∧
    (registryOf L kekOf e.before).held kid = some r ∧
      (LastWrite permits (pre.map (act L kekOf)) kid r.permission ∨
        Untouched permits (pre.map (act L kekOf)) kid ∧
          ∃ q, first.held kid = some q ∧ q.permission = r.permission)
  granted : aclAllows r.permission user.userId K.opClass = true
  masked : allowedOpsAllows user.data K.opClass = true
  admitted : ∃ now, Made trace i .dateNow now ∧ r.item.admits now = true
  computed : Computes L kekOf trace i K kid r.item result

theorem finish_alg (h : keyOperation L cfg data op = some K) {row row' : VaultKey}
    (halg : row.alg = row'.alg) (jwk : Json) : K.finish kid row jwk = K.finish kid row' jwk := by
  cases op <;> cases h <;> first | rfl | (simp only [createJwtOp, createJweOp]; rw [halg])

theorem held_find {row : KeyRow} (h : m.keys.find kid = some row) :
    (registryOf L kekOf m).held kid = some (holding L kekOf row.toVaultKey) := by
  simp only [registryOf, h, Option.map_some]

theorem access_worked (h : Linked (perform L) w trace w') (hkept : Kept (protocol L kekOf) trace)
    (hw' : Sound L kekOf w') (hm : Agrees kekOf cfg.kek) (hK : keyOperation L cfg data op = some K)
    (hplays : Plays trace i (access L cfg user K) (.ok result)) :
    ∃ kid r, K.target = .ok kid ∧
      Worked L kekOf (registryOf L kekOf w) trace i user K kid r result := by
  obtain ⟨kid, row, jwk, htarget, hmade, hgranted, ⟨now, hnow, hwindow⟩, -, hhalf, hfinish⟩ :=
    access_plays hplays
  obtain ⟨hstored, -⟩ := loaded_stored h hkept hmade
  obtain ⟨g, hg, hholds⟩ := hstored.holds
  have hjwk := keyHalf_plays h hkept hw' hm hg hholds hhalf
  rw [← half_holds hholds] at hjwk
  obtain ⟨before, after, hmem⟩ := hmade
  obtain ⟨t, ht⟩ := h.mem hmem
  obtain ⟨row', hfind, rfl, -⟩ := loaded (congrArg Prod.fst ht)
  obtain ⟨hacl, hmask⟩ := Bool.and_eq_true_iff.mp hgranted
  obtain ⟨pre, post, htrace⟩ := List.append_of_mem hmem
  have hpath := linked_refines (htrace ▸ h).before fun e he =>
    hkept e (htrace ▸ List.mem_append_left _ he)
  refine ⟨kid, holding L kekOf row'.toVaultKey, htarget,
    ⟨pre, _, post, htrace, rfl, held_find hfind, path_permission hpath (held_find hfind)⟩, hacl,
      hmask,
    ⟨now, hnow, hwindow⟩, fun row hrow => ?_⟩
  rw [finish_alg hK (congrArg KeyItem.alg hrow : row.alg = row'.toVaultKey.alg)]
  rw [hjwk] at hfinish
  exact hfinish

/-- What the answer to a generation tells of a key. -/
def KeyItem.generated (item : KeyItem) (kid : String) : Generated :=
  ⟨kid, item.kty, item.alg, item.publicKey⟩

/-- What a listing tells of a key. -/
def KeyItem.listed (item : KeyItem) (kid : String) : Json :=
  .obj [("kid", .str kid), ("kty", .str item.kty), ("alg", .str item.alg)]

variable {processes : ThreadId → Process} {schedule : Schedule Turn} {response : Response}

/-- Thread `i` is a request for the operation that was answered with success. -/
structure Succeeds (L : Libraries) (processes : ThreadId → Process)
    (W : Pool Ans Thrown (Option Response) (Recorded Ans World)) (i : ThreadId) (cfg : Config)
    (env : Envelope) (op : Operation) (response : Response) : Prop where
  process : ∃ req, processes i = .request cfg req ∧ envelopeOf req = some env
  request : env.request = op.request
  done : W.threads i = .done (.ok (some response))
  ok : response.isOk

theorem succeeds_plays
    (h : Succeeds L processes (runs L processes w schedule) i cfg env op response) :
    ∃ user result, env.user = toLowerCase user.userId ∧
      Plays (runs L processes w schedule).state.trace i
        (handler L cfg user env.data op) (.ok result) ∧
        response = answer env.op (.ok result) := by
  obtain ⟨req, hprocess, henv⟩ := h.process
  obtain ⟨user, hserves⟩ := runs_serves hprocess h.done henv (Or.inr h.ok)
  obtain ⟨result, hresult, hanswer⟩ := dispatch_plays hserves.dispatched h.ok h.request
  obtain ⟨token, hauth⟩ := authenticate_plays hserves.authenticated
  exact ⟨user, result, hauth.claimed, hresult, hanswer⟩

end

/-- Every run of the vault is a run of a registry of immutable items, and every key
operation that succeeds has worked on what the registry held at one moment of its
execution, under the ACL that was last written for the id. -/
theorem runs_refine (L : Libraries) (kekOf : String → Kek) (hL : Reliable L kekOf)
    (processes : ThreadId → Process) (hp : Deployed kekOf processes) (w : World)
    (hw : Sound L kekOf w) (schedule : Schedule Turn) :
    let W := runs L processes w schedule
    Path (registryOf L kekOf w) (W.state.trace.map (act L kekOf)) (registryOf L kekOf W.state.now) ∧
    ∀ i cfg env op K response, Succeeds L processes W i cfg env op response →
      keyOperation L cfg env.data op = some K →
        ∃ user kid r result, env.user = toLowerCase user.userId ∧ K.target = .ok kid ∧
          Worked L kekOf (registryOf L kekOf w) W.state.trace i user K kid r result ∧
            response = answer env.op (.ok result) := by
  intro W
  obtain ⟨hsound, hkept⟩ := runs_sound hL hp hw schedule
  have hlinked := (runs_makes L processes w schedule).1
  refine ⟨linked_refines hlinked hkept, ?_⟩
  intro i cfg env op K response hsucceeds hK
  obtain ⟨user, result, hclaimed, hresult, hanswer⟩ := succeeds_plays hsucceeds
  obtain ⟨req, hprocess, -⟩ := hsucceeds.process
  rw [handler_access hK] at hresult
  obtain ⟨kid, r, htarget, hworked⟩ := access_worked hlinked hkept hsound
    (hp i cfg.kek (by rw [hprocess]; rfl)) hK hresult
  exact ⟨user, kid, r, result, hclaimed, htarget, hworked, hanswer⟩

/-- Alice's requests. -/
def alices (env : Envelope) : HttpRequest where
  method := "POST"
  pathname := some "/api/v1"
  contentType := some "application/json"
  authorization := some ("Bearer " ++ Fixtures.aliceId)
  xForwardedFor := none
  remoteAddress := some "127.0.0.1"
  body :=
    .text (some (.obj [("user", .str env.user), ("op", .str env.op), ("request", .str env.request),
    ("data", env.data)]))

/-- Alice generates a key, the operator rewraps it, and Alice encrypts with it through a
server that has the new KEK. -/
def rewrapped : ThreadId → Process
  | 0 => .request Fixtures.config (alices Fixtures.generateEnvelope)
  | 1 => .admin { actor := "ops", kek := .ok Fixtures.rotated } .rewrap
  | 2 => .request { Fixtures.config with kek := Fixtures.rotated } (alices Fixtures.encryptEnvelope)
  | _ => .restart

def alicesVault : World :=
  start 0 (Table.empty.insert
    ⟨Fixtures.aliceId, some Fixtures.aliceId, .obj [("allowedIP", .arr [.str "127.0.0.1"])]⟩)

def inTurn : Schedule Turn :=
  ([0, 1, 2] : List ThreadId).flatMap fun i => List.replicate 12 (i, ({} : Turn))

def encryptedResponse : Response :=
  ⟨200, okBody Fixtures.opId (some (.obj [("token", .str Fixtures.wrapToken)])), false⟩

theorem rewrapped_deployed : Deployed denoted rewrapped := by
  intro i m hm
  unfold rewrapped at hm
  split at hm <;> cases hm <;> first | exact agrees_manager | exact agrees_rotated

theorem rewrapped_succeeds : Succeeds Fixtures.working rewrapped
    (runs Fixtures.working rewrapped alicesVault inTurn) 2
    { Fixtures.config with kek := Fixtures.rotated } Fixtures.encryptEnvelope .createJwe
      encryptedResponse where
  process := ⟨_, rfl, rfl⟩
  request := rfl
  done := Prog.result?_eq_some (by decide +kernel)
  ok := rfl

theorem runs_refine_rewrapped :
    let W := runs Fixtures.working rewrapped alicesVault inTurn
    W.state.now.keys.rows.map (fun row => row.embeddingKeyId) = ["kek-2"] ∧
    Path (registryOf Fixtures.working denoted alicesVault)
      (W.state.trace.map (act Fixtures.working denoted))
      (registryOf Fixtures.working denoted W.state.now) ∧
    ∃ user kid r result, Fixtures.aliceId = toLowerCase user.userId ∧
      (createJweOp Fixtures.encryptEnvelope.data).target = .ok kid ∧
      Worked Fixtures.working denoted
        (registryOf Fixtures.working denoted alicesVault) W.state.trace 2
        user (createJweOp Fixtures.encryptEnvelope.data) kid r result ∧
      encryptedResponse = answer Fixtures.opId (.ok result) := by
  intro W
  obtain ⟨hpath, hworked⟩ := runs_refine Fixtures.working denoted working_reliable rewrapped
    rewrapped_deployed alicesVault (start_sound _ _ _ _) inTurn
  exact ⟨by decide +kernel, hpath, hworked 2 _ _ _ _ _ rewrapped_succeeds rfl⟩

end VaultRegistry
