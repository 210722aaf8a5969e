import KeyVault.AclInvariant
import KeyVault.Fixtures

/-!
# Rewrap

One thread rewraps while requests, other commands and sweeps interleave with its
statements. A row that is not under the active KEK is one of the work list that the
thread has not yet rewrapped: in the end, one that it has skipped.
-/

namespace Rewrap

open JsValue Errors Programs Interleaving Vault KeyStore Handlers HandlerCalls CallEffects
  ServerAuth Server KvAdmin CommandCalls KeyInvariant KeyLifecycle Processes AclInvariant Tables

variable {L : Libraries} {cfg : Config} {user : VaultUser} {data : Json} {K : String}
  {m : KekManager} {r : ThreadId}

/-- Calls of the other threads: rows they insert are under the KEK `K`, and they leave
the embeddings of the stored rows alone. -/
def beside (K : String) : Call → Prop
  | .insertKey key => key.embeddingKeyId = K
  | .updateKeyEmbedding _ _ _ => False
  | _ => True

theorem beside_of_reads {c : Call} (h : reads c) : beside K c := by
  have hkeys := h.1
  cases c <;> trivial

theorem beside_of_harmless {c : Call} (h : harmless c = true) : beside K c := by
  cases c <;> trivial

/-- Requests to servers with the active KEK `K`, commands but rewrap, sweeps, restarts. -/
def Companion (K : String) : Process → Prop
  | .request cfg _ => cfg.kek.active.kid = K
  | .admin _ cmd => cmd ≠ .rewrap
  | .sweep _ => True
  | .restart => True

theorem handler_beside (op : Operation) :
    (handler L cfg user data op).Calls (beside cfg.kek.active.kid) := by
  by_cases hop : op = .generateKey
  · subst hop
    exact AclInvariant.generateKey_calls (fun c hc => beside_of_reads hc)
      fun key acl _ _ hnames => hnames
  · refine (handler_calls op).mono fun c hc => ?_
    rcases hc with hc | ⟨hgen, -⟩ | ⟨-, kid, rfl⟩
    · exact beside_of_reads hc
    · exact absurd hgen hop
    · trivial

theorem companion_beside {process : Process} (h : Companion K process) :
    (process.program L).Calls (beside K) := by
  cases process with
  | request cfg req =>
    have hK : cfg.kek.active.kid = K := h
    subst hK
    refine (serveRequest_calls (fun c hc => beside_of_reads hc) (fun user env => ?_) req).bind
      fun _ => trivial
    exact dispatch_calls (fun op _ => handler_beside op) fun _ _ => trivial
  | admin o cmd =>
    exact ((command_harmless o h).mono fun c hc => beside_of_harmless hc).bind fun _ => trivial
  | sweep cfg =>
    exact Prog.Calls.bind (calls_ask trivial fun _ => Prog.calls_done _) fun _ => trivial
  | restart => exact Prog.Calls.bind (calls_ask trivial fun _ => trivial) fun _ => trivial

/-- Calls of rewrap: it writes embeddings under `K`, and no other column. -/
def reembeds (K : String) (c : Call) : Prop :=
  writesUsers c = false ∧
    (writesKeys c = false ∨ ∃ kid embeddedKey, c = .updateKeyEmbedding kid K embeddedKey)

theorem reembeds_of_asks (c : Call) (h : asks c = true) : reembeds K c := by
  cases c <;> first | exact ⟨rfl, Or.inl rfl⟩ | cases h

theorem rewrap_reembeds {o : Opts} (hm : o.kek = .ok m) :
    (rewrap o).Calls (reembeds m.active.kid) := by
  unfold rewrap
  rw [hm]
  refine calls_ask ⟨rfl, Or.inl rfl⟩ fun answer => calls_lift fun rows => ?_
  have hwrite : ∀ kid embeddedKey,
      reembeds m.active.kid (.updateKeyEmbedding kid m.active.kid embeddedKey) :=
    fun kid embeddedKey => ⟨rfl, Or.inr ⟨kid, embeddedKey, rfl⟩⟩
  refine (rewrapRows_calls reembeds_of_asks hwrite rows 0 0).bind fun _ => ?_
  exact Prog.Calls.bind (calls_ask ⟨rfl, Or.inl rfl⟩ fun _ => Prog.calls_done _) fun _ => trivial

/-- One turn of the loop: what `extract` came to and the calls of the turn. -/
structure Attempt where
  row : VaultKey
  outcome : Except Thrown Json
  reads : List (Entry Ans World)
  writes : List (Entry Ans World)

namespace Attempt

def failed (a : Attempt) : Bool := !a.outcome.isOk

def entries (a : Attempt) : List (Entry Ans World) := a.reads ++ a.writes

/-- Thread `r` has made exactly these calls: those of `extract`, and where it came to
a key those that embed the key anew, of which only the last one writes. -/
structure Proper (m : KekManager) (r : ThreadId) (a : Attempt) : Prop where
  extracted : Makes r (extract m a.row.embeddingKeyId a.row.embeddedKey a.row.keyId) a.reads
    (.done a.outcome)
  skipped : a.failed = true → a.writes = []
  rewrapped : a.failed = false → ∃ first updated embeddedKey before after,
    a.writes = first ++ [⟨r, .updateKeyEmbedding a.row.keyId m.active.kid embeddedKey, .ok updated,
      before, after⟩] ∧ ∀ e ∈ first, writesKeys e.call = false

end Attempt

theorem makes_ask {i : ThreadId} {α : Type} {c : Call} {f : Ans c → Api α}
    {result : Except Thrown α}
    {es : List (Entry Ans World)} (h : Makes i (ask c >>= f) es (.done result)) :
    ∃ answer before after rest, es = ⟨i, c, answer, before, after⟩ :: rest ∧
      Makes i (f answer) rest (.done result) := makes_call h

theorem makes_lift {i : ThreadId} {α β : Type} {x : Except Thrown α} {f : α → Api β} {b : β}
    {es : List (Entry Ans World)} (h : Makes i (liftM x >>= f) es (.done (.ok b))) :
    ∃ a, x = .ok a ∧ Makes i (f a) es (.done (.ok b)) := by
  cases x with
  | ok a => exact ⟨a, rfl, h⟩
  | error e =>
    obtain ⟨-, heq⟩ := makes_done h
    cases heq

theorem embed_makes {jwk : Json} {kid : String} {iat : Nat} {nbf exp : Option Json}
    {es : List (Entry Ans World)} {embedded : String × String}
    (h : Makes r (embed m jwk kid iat nbf exp) es (.done (.ok embedded))) :
    ∃ embeddedKey, embedded = (m.active.kid, embeddedKey) := by
  obtain ⟨answer, _, _, rest, -, hrest⟩ := makes_ask h
  obtain ⟨embeddedKey, -, hrest⟩ := makes_lift hrest
  obtain ⟨-, heq⟩ := makes_done hrest
  cases heq
  exact ⟨embeddedKey, rfl⟩

theorem rewrapRow_makes {row : VaultKey} {es : List (Entry Ans World)} {done : Bool}
    (h : Makes r (rewrapRow m row) es (.done (.ok done))) :
    ∃ a : Attempt, a.row = row ∧ a.entries = es ∧ a.Proper m r ∧ a.failed = !done := by
  obtain ⟨reads, writes, rfl, ⟨outcome, hreads, hwrites⟩ | ⟨e, -, -, heq⟩⟩ := h.bind
  · obtain ⟨result, heq, hextract⟩ := hreads.attempt
    cases heq
    refine ⟨⟨row, outcome, reads, writes⟩, rfl, rfl, ?_⟩
    cases outcome with
    | error e =>
      obtain ⟨hnil, heq⟩ := makes_done hwrites
      cases heq
      exact ⟨⟨hextract, fun _ => hnil, fun hno => (by cases hno)⟩, rfl⟩
    | ok secretJwk =>
      obtain ⟨now, before, after, rest, rfl, hrest⟩ := makes_ask hwrites
      obtain ⟨first, last, rfl, ⟨embedded, hembed, hlast⟩ | ⟨e, -, -, heq⟩⟩ := hrest.bind
      · have hreads := hembed.calls (embed_calls _ _ _ _ _ _)
        obtain ⟨embeddedKey, rfl⟩ := embed_makes hembed
        obtain ⟨answer, before', after', rest, rfl, hupdate⟩ := makes_ask hlast
        obtain ⟨updated, hanswer, hdone⟩ := makes_lift hupdate
        obtain ⟨rfl, heq⟩ := makes_done hdone
        cases heq
        rw [orThrow_eq_ok.mp hanswer]
        refine ⟨⟨hextract, fun hno => (by cases hno), fun _ => ?_⟩, rfl⟩
        refine ⟨⟨r, .dateNow, now, before, after⟩ :: first, updated, embeddedKey, before', after',
          rfl, fun e he => ?_⟩
        rcases List.mem_cons.mp he with rfl | he
        · rfl
        · exact writesKeys_of_offKeys (hreads e he).1
      · cases heq
  · cases heq

/-- The loop makes one attempt for each row, and counts what became of them. -/
theorem rewrapRows_makes {rows : List VaultKey} {rewrapped skipped : Nat}
    {es : List (Entry Ans World)} {counts : Nat × Nat}
    (h : Makes r (rewrapRows m rows rewrapped skipped) es (.done (.ok counts))) :
    ∃ attempts : List Attempt, attempts.map Attempt.row = rows ∧
      attempts.flatMap Attempt.entries = es ∧ (∀ a ∈ attempts, a.Proper m r) ∧
      counts = (rewrapped + attempts.countP (fun a => !a.failed),
        skipped + attempts.countP Attempt.failed) := by
  induction rows generalizing rewrapped skipped es with
  | nil =>
    obtain ⟨rfl, heq⟩ := makes_done h
    cases heq
    exact ⟨[], rfl, rfl, (by intro a ha; cases ha), rfl⟩
  | cons row rest ih =>
    obtain ⟨first, last, rfl, ⟨done, hfirst, hlast⟩ | ⟨e, -, -, heq⟩⟩ := h.bind
    · obtain ⟨a, rfl, rfl, hproper, hfailed⟩ := rewrapRow_makes hfirst
      cases done with
      | true =>
        obtain ⟨attempts, rfl, rfl, hall, rfl⟩ := ih hlast
        refine ⟨a :: attempts, rfl, rfl, List.forall_mem_cons.mpr ⟨hproper, hall⟩, ?_⟩
        simp [hfailed, Nat.add_assoc, Nat.add_comm 1]
      | false =>
        obtain ⟨attempts, rfl, rfl, hall, rfl⟩ := ih hlast
        refine ⟨a :: attempts, rfl, rfl, List.forall_mem_cons.mpr ⟨hproper, hall⟩, ?_⟩
        simp [hfailed, Nat.add_assoc, Nat.add_comm 1]
    · cases heq

/-- The fields of the event: how many rows were rewrapped, and how many skipped. -/
def report (o : Opts) (m : KekManager) (attempts : List Attempt) : Props :=
  [("actor", .str o.actor), ("activeKek", .str m.active.kid),
    ("rewrapped", .num (attempts.countP (fun a => !a.failed))),
    ("skipped", .num (attempts.countP Attempt.failed))]

/-- The calls of a rewrap that has ended normally: the listing of the work list, one
attempt for each of its rows, and the report. -/
structure Ended (o : Opts) (m : KekManager) (r : ThreadId) (es : List (Entry Ans World))
    (attempts : List Attempt) : Prop where
  proper : ∀ a ∈ attempts, a.Proper m r
  calls : ∃ before after before' after',
    es = ⟨r, .keysNotEmbeddedWith m.active.kid, .ok (attempts.map Attempt.row), before, after⟩ ::
      (attempts.flatMap Attempt.entries ++
        [⟨r, .recordEvent ("admin:" ++ Command.rewrap.name) (report o m attempts), .ok (), before',
          after'⟩])

theorem event_makes {cmd : Command} {fields : Props} {es : List (Entry Ans World)} {u : Unit}
    (h : Makes r (event cmd fields) es (.done (.ok u))) : ∃ before after,
      es = [⟨r, .recordEvent ("admin:" ++ cmd.name) fields, .ok (), before, after⟩] := by
  obtain ⟨answer, before, after, rest, rfl, hrest⟩ := makes_ask h
  cases answer with
  | ok u' =>
    obtain ⟨rfl, -⟩ := makes_done hrest
    exact ⟨before, after, rfl⟩
  | error message =>
    obtain ⟨-, heq⟩ := makes_done hrest
    cases heq

theorem rewrap_makes {o : Opts} (hm : o.kek = .ok m) {es : List (Entry Ans World)}
    {out : Option String} (h : Makes r (rewrap o) es (.done (.ok out))) :
    ∃ attempts, Ended o m r es attempts := by
  unfold rewrap at h
  rw [hm] at h
  obtain ⟨m', hm', hlist⟩ := makes_lift h
  cases hm'
  obtain ⟨answer, before, after, rest, rfl, hrows⟩ := makes_ask hlist
  obtain ⟨rows, hanswer, hthen⟩ := makes_lift hrows
  obtain ⟨loop, last, rfl, ⟨counts, hloop, hlast⟩ | ⟨e, -, -, heq⟩⟩ := hthen.bind
  · obtain ⟨attempts, rfl, rfl, hproper, rfl⟩ := rewrapRows_makes hloop
    obtain ⟨final, rest, rfl, ⟨_, hevent, hdone⟩ | ⟨e, -, -, heq⟩⟩ := hlast.bind
    · obtain ⟨before', after', rfl⟩ := event_makes hevent
      obtain ⟨rfl, -⟩ := makes_done hdone
      rw [orThrow_eq_ok.mp hanswer]
      exact ⟨attempts, hproper, before, after, before', after', by simp [report]⟩
    · cases heq
  · cases heq

theorem Attempt.Proper.calls {a : Attempt} (h : a.Proper m r) {e : Entry Ans World}
    (he : e ∈ a.entries) : writesKeys e.call = false ∨ a.failed = false ∧
      ∃ embeddedKey, e.call = .updateKeyEmbedding a.row.keyId m.active.kid embeddedKey := by
  rcases List.mem_append.mp he with he | he
  · have hreads := h.extracted.calls (extract_calls _ _ _ _) e he
    exact Or.inl (writesKeys_of_offKeys hreads.1)
  · cases hfailed : a.failed with
    | true =>
      rw [h.skipped hfailed] at he
      cases he
    | false =>
      obtain ⟨first, updated, embeddedKey, before, after, hwrites, hfirst⟩ := h.rewrapped hfailed
      rw [hwrites] at he
      rcases List.mem_append.mp he with he | he
      · exact Or.inl (hfirst e he)
      · rw [List.mem_singleton.mp he]
        exact Or.inr ⟨rfl, embeddedKey, rfl⟩

/-- The row without the columns that rewrap writes. -/
def unembedded (row : KeyRow) : KeyRow :=
  { row with embeddingKeyId := "", embeddedKey := "", updatedAt := 0 }

theorem perform_unembedded {c : Call} (hc : reembeds K c) (t : Turn) (w : World) :
    (perform L r t c w).2.users = w.users ∧
      (perform L r t c w).2.keys.rows.map unembedded = w.keys.rows.map unembedded := by
  refine ⟨perform_users hc.1 t w, ?_⟩
  rcases hc.2 with hkeys | ⟨kid, embeddedKey, rfl⟩
  · rw [perform_keys hkeys]
  · refine perform_keeps (fun w : World => w.keys.rows.map unembedded) (fun _ _ => rfl)
      (fun w => ?_) t w
    simp only [effect, Table.update, List.map_map]
    refine List.map_congr_left fun row _ => ?_
    by_cases hkid : row.keyId = kid
    · simp [hkid, unembedded]
    · simp [hkid]

/-- A call of rewrap for another row. -/
theorem perform_spares {c : Call} {kid : String} (hc : writesKeys c = false ∨
      ∃ kid' embeddingKeyId embeddedKey, c = .updateKeyEmbedding kid' embeddingKeyId embeddedKey ∧
        kid ≠ kid') (t : Turn) (w : World) :
    (perform L r t c w).2.keys.find kid = w.keys.find kid := by
  rcases hc with hkeys | ⟨kid', embeddingKeyId, embeddedKey, rfl, hne⟩
  · rw [perform_keys hkeys]
  · refine perform_keeps (fun w : World => w.keys.find kid) (fun _ _ => rfl) (fun w => ?_) t w
    simp only [effect]
    exact Table.find_update_ne _ _ _ hne

/-- The row whose embedding an answered call has written. -/
def rewrites : (c : Call) → Ans c → Option String
  | .updateKeyEmbedding keyId _ _, .ok _ => some keyId
  | _, _ => none

theorem rewrites_other {c : Call} (h : ∀ kid embeddingKeyId embeddedKey,
    c ≠ .updateKeyEmbedding kid embeddingKeyId embeddedKey) (answer : Ans c) :
    rewrites c answer = none := by
  cases c <;> first | rfl | exact absurd rfl (h _ _ _)

theorem rewrites_failure {message : String} {c : Call} {answer : Ans c}
    (h : failure message c = some answer) : rewrites c answer = none := by
  cases c <;> cases h <;> rfl

/-- A row under another KEK was there before, its ACL aside, and not just rewrapped. -/
theorem perform_stale {i : ThreadId} {c : Call} (hc : beside K c ∨ reembeds K c) (t : Turn)
    (w : World) {row : KeyRow} (hrow : row ∈ (perform L i t c w).2.keys.rows)
    (hK : row.embeddingKeyId ≠ K) : rewrites c (perform L i t c w).1 ≠ some row.keyId ∧
      ∃ old ∈ w.keys.rows, row.toVaultKey = { old.toVaultKey with acl := row.acl } := by
  have hnone : (none : Option String) ≠ some row.keyId := (Option.some_ne_none row.keyId).symm
  by_cases hharmless : harmless c = true
  · rw [rewrites_other (by rintro kid embeddingKeyId embeddedKey rfl; cases hharmless)]
    exact ⟨hnone, (perform_shrinks hharmless t w).rows row hrow⟩
  · rcases perform_cases L i t c w with ⟨message, answer, -, hfailed, hp⟩ | hp
    · rw [hp] at hrow ⊢
      rw [rewrites_failure hfailed]
      exact ⟨hnone, row, hrow, rfl⟩
    rw [hp] at hrow ⊢
    cases c with
    | insertKey key =>
      have hkey : key.embeddingKeyId = K := by
        rcases hc with hbeside | ⟨-, hkeys | ⟨kid, embeddedKey, heq⟩⟩
        · exact hbeside
        · cases hkeys
        · cases heq
      refine ⟨hnone, row, ?_, rfl⟩
      simp only [effect] at hrow
      split at hrow
      · exact hrow
      · split at hrow
        · rcases Table.mem_insert hrow with rfl | hold
          · exact absurd hkey hK
          · exact hold
        · exact hrow
    | updateKeyEmbedding kid embeddingKeyId embeddedKey =>
      have hid : embeddingKeyId = K := by
        rcases hc with hbeside | ⟨-, hkeys | ⟨kid', embeddedKey', heq⟩⟩
        · cases hbeside
        · cases hkeys
        · cases heq
          rfl
      simp only [effect] at hrow
      rcases Table.mem_update hrow with ⟨old, -, -, rfl⟩ | ⟨hold, hne⟩
      · exact absurd hid hK
      · exact ⟨fun heq => hne (Option.some.inj heq).symm, row, hold, rfl⟩
    | generateVaultKey spec =>
      refine ⟨hnone, row, ?_, rfl⟩
      rw [effect_keys rfl] at hrow
      exact hrow
    | cacheFill kid entry max => exact ⟨hnone, row, hrow, rfl⟩
    | _ => exact absurd rfl hharmless

/-- The row of the work list, its ACL and its timestamps aside. -/
def SameKey (key : VaultKey) (row : KeyRow) : Prop := { row.toVaultKey with acl := key.acl } = key

theorem SameKey.keyId {key : VaultKey} {row : KeyRow} (h : SameKey key row) :
    row.keyId = key.keyId := by
  rw [SameKey] at h
  rw [← h]

theorem SameKey.embeddingKeyId {key : VaultKey} {row : KeyRow} (h : SameKey key row) :
    row.embeddingKeyId = key.embeddingKeyId := by
  rw [SameKey] at h
  rw [← h]

/-- Every row that is not under `K` is one of the work list and has not been rewrapped. -/
def Pending (K : String) (listed : List VaultKey) (trace : List (Entry Ans World))
    (w : World) : Prop :=
  ∀ row ∈ w.keys.rows, row.embeddingKeyId ≠ K → ∃ key ∈ listed, SameKey key row ∧
    ∀ e ∈ trace, rewrites e.call e.answer ≠ some row.keyId

theorem Pending.step {listed : List VaultKey} {trace : List (Entry Ans World)}
    {e : Entry Ans World} {t : Turn} (h : Pending K listed trace e.before)
    (hperform : perform L e.thread t e.call e.before = (e.answer, e.after))
    (hc : beside K e.call ∨ reembeds K e.call) : Pending K listed (trace ++ [e]) e.after := by
  intro row hrow hK
  have hstale := @perform_stale L K e.thread e.call hc t e.before row
  rw [hperform] at hstale
  obtain ⟨hrewrites, old, hold, heq⟩ := hstale hrow hK
  have hkid := congrArg VaultKey.keyId heq
  have hid := congrArg VaultKey.embeddingKeyId heq
  dsimp only at hkid hid
  obtain ⟨key, hkey, hsame, hbefore⟩ := h old hold (hid ▸ hK)
  refine ⟨key, hkey, ?_, fun e' he' => ?_⟩
  · rw [SameKey, heq]
    exact hsame
  · rcases List.mem_append.mp he' with he' | he'
    · rw [hkid]
      exact hbefore e' he'
    · rw [List.mem_singleton.mp he']
      exact hrewrites

/-- The work list of a rewrap. -/
def workList (K : String) (w : World) : List VaultKey :=
  (w.keys.rows.filter (fun row => !(row.embeddingKeyId == K))).map KeyRow.toVaultKey

theorem listed_workList {i : ThreadId} {t : Turn} {w : World} {listed : List VaultKey}
    (h : (perform L i t (.keysNotEmbeddedWith K) w).1 = .ok listed) : listed = workList K w := by
  have heffect := perform_answered h (by rintro message ⟨⟩)
  rw [heffect] at h
  cases h
  rfl

theorem mem_workList {w : World} {key : VaultKey} : key ∈ workList K w ↔
    ∃ row ∈ w.keys.rows, row.embeddingKeyId ≠ K ∧ row.toVaultKey = key := by
  simp [workList, and_assoc]

theorem workList_nodup (K : String) (w : World) : ((workList K w).map VaultKey.keyId).Nodup := by
  have hsub : ((workList K w).map VaultKey.keyId).Sublist
      (w.keys.rows.map fun row => row.keyId) := by
    rw [workList, List.map_map]
    exact List.filter_sublist.map _
  exact w.keys.distinct.sublist hsub

theorem pending_start (K : String) (w : World) : Pending K (workList K w) [] w := by
  intro row hrow hK
  exact ⟨row.toVaultKey, mem_workList.mpr ⟨row, hrow, hK, rfl⟩, rfl, fun e he => by cases he⟩

/-- The calls of a thread that runs a command. -/
theorem admin_makes {o : Opts} {cmd : Command} {es : List (Entry Ans World)} {out : Option Response}
    (h : Makes r ((Process.admin o cmd).program L) es (.done (.ok out))) :
    ∃ printed, Makes r (command L o cmd) es (.done (.ok printed)) := by
  obtain ⟨first, rest, rfl, ⟨printed, hfirst, hrest⟩ | ⟨e, -, -, heq⟩⟩ := Makes.bind h
  · obtain ⟨rfl, -⟩ := makes_done hrest
    exact ⟨printed, by simpa using hfirst⟩
  · cases heq

theorem Ended.rewritten {o : Opts} {es : List (Entry Ans World)} {attempts : List Attempt}
    (h : Ended o m r es attempts) {a : Attempt} (ha : a ∈ attempts) (hdone : a.failed = false) :
    ∃ e ∈ es.tail, rewrites e.call e.answer = some a.row.keyId := by
  obtain ⟨before, after, before', after', rfl⟩ := h.calls
  obtain ⟨first, updated, embeddedKey, b, b', hwrites, -⟩ := (h.proper a ha).rewrapped hdone
  refine ⟨⟨r, .updateKeyEmbedding a.row.keyId m.active.kid embeddedKey, .ok updated, b, b'⟩,
    ?_, rfl⟩
  refine List.mem_append_left _ (List.mem_flatMap.mpr ⟨a, ha, ?_⟩)
  rw [Attempt.entries, hwrites]
  simp

/-- A skipped row is in no write of the thread. -/
theorem Ended.spares {o : Opts} {es : List (Entry Ans World)} {attempts : List Attempt}
    (h : Ended o m r es attempts) (hnodup : (attempts.map fun a => a.row.keyId).Nodup) {a : Attempt}
    (ha : a ∈ attempts) (hfailed : a.failed = true) : ∀ e ∈ es, writesKeys e.call = false ∨
      ∃ kid embeddingKeyId embeddedKey,
        e.call = .updateKeyEmbedding kid embeddingKeyId embeddedKey ∧ a.row.keyId ≠ kid := by
  obtain ⟨before, after, before', after', rfl⟩ := h.calls
  intro e he
  rcases List.mem_cons.mp he with rfl | he
  · exact Or.inl rfl
  · rcases List.mem_append.mp he with he | he
    · obtain ⟨b, hb, heb⟩ := List.mem_flatMap.mp he
      rcases (h.proper b hb).calls heb with hkeys | ⟨hdone, embeddedKey, hcall⟩
      · exact Or.inl hkeys
      · refine Or.inr ⟨_, _, _, hcall, fun hkid => ?_⟩
        have hab : a = b := List.inj_on_of_nodup_map hnodup ha hb hkid
        rw [hab, hdone] at hfailed
        cases hfailed
    · rw [List.mem_singleton.mp he]
      exact Or.inl rfl

/-- From the listing on, what is not under the active KEK is pending. -/
theorem Ended.pending {o : Opts} {attempts : List Attempt} {w w' : World}
    {trace : List (Entry Ans World)} (h : Ended o m r (own r trace) attempts)
    (hlinked : Linked (perform L) w trace w')
    (hcalls : ∀ e ∈ trace, beside m.active.kid e.call ∨ reembeds m.active.kid e.call) :
    ((attempts.map Attempt.row).map VaultKey.keyId).Nodup ∧
      (∀ a ∈ attempts, a.row.embeddingKeyId ≠ m.active.kid) ∧
      Pending m.active.kid (attempts.map Attempt.row) (own r trace).tail w' := by
  obtain ⟨before, after, before', after', hentries⟩ := h.calls
  -- the entries after the listing, of all threads
  obtain ⟨pre, post, rfl, -, hpost⟩ := own_eq_cons hentries
  obtain ⟨⟨t, hlisting⟩, hrest⟩ := hlinked.cut
  dsimp only at hlisting hrest
  have hlisted : attempts.map Attempt.row = workList m.active.kid before :=
    listed_workList (congrArg Prod.fst hlisting)
  have hkeys : after.keys = before.keys := by
    have hkept :=
      perform_keys (L := L) (i := r) (c := .keysNotEmbeddedWith m.active.kid) rfl t before
    rwa [hlisting] at hkept
  have hstart : Pending m.active.kid (attempts.map Attempt.row) [] after := by
    rw [hlisted, workList, ← hkeys]
    exact pending_start _ _
  have hpending := hrest.history (Q := Pending m.active.kid (attempts.map Attempt.row))
    (fun pre' e post' heq ⟨t, ht⟩ hpre => hpre.step ht (hcalls e (by rw [heq]; simp))) hstart
  refine ⟨hlisted ▸ workList_nodup _ _, fun a ha => ?_, fun row hrow hK => ?_⟩
  · have hmem : a.row ∈ workList m.active.kid before := hlisted ▸ List.mem_map_of_mem ha
    obtain ⟨row, -, hne, heq⟩ := mem_workList.mp hmem
    rw [← heq]
    exact hne
  · obtain ⟨key, hkey, hsame, hnot⟩ := hpending row hrow hK
    refine ⟨key, hkey, hsame, fun e he => hnot e ?_⟩
    rw [hentries, List.tail_cons, ← hpost] at he
    exact (mem_own.mp he).1

/-- Rewrap beside any requests under the same active KEK, other commands, sweeps and
restarts. Its calls change no column but the embedding and the time of the update, and
leave a skipped row as it is; rows of other KEKs that are left when it has ended are
exactly the skipped ones still there. -/
theorem rewrap_retires (L : Libraries) (processes : ThreadId → Process) (r : ThreadId) (o : Opts)
    (m : KekManager) (hr : processes r = .admin o .rewrap) (hm : o.kek = .ok m)
    (hothers : ∀ i, i ≠ r → Companion m.active.kid (processes i)) (w : World)
    (schedule : Schedule Turn) :
    let W := runs L processes w schedule
    (∀ e ∈ own r W.state.trace, e.after.users = e.before.users ∧
      e.after.keys.rows.map unembedded = e.before.keys.rows.map unembedded) ∧
    ∀ out, W.threads r = .done (.ok out) →
      ∃ attempts, Ended o m r (own r W.state.trace) attempts ∧
        (∀ a ∈ attempts, a.failed = true → ∀ e ∈ own r W.state.trace,
          e.after.keys.find a.row.keyId = e.before.keys.find a.row.keyId) ∧
        (attempts.countP Attempt.failed = 0 →
          ∀ row ∈ W.state.now.keys.rows, row.embeddingKeyId = m.active.kid) ∧
        ∀ key, key ∈ workList m.active.kid W.state.now ↔
          ∃ row ∈ W.state.now.keys.rows, row.toVaultKey = key ∧
            ∃ a ∈ attempts, a.failed = true ∧ SameKey a.row row := by
  intro W
  obtain ⟨hlinked, hmakes⟩ := runs_makes L processes w schedule
  have hprogram : ((processes r).program L).Calls (reembeds m.active.kid) := by
    rw [hr]
    exact (rewrap_reembeds hm).bind fun _ => trivial
  have hrewrap := (hmakes r).calls hprogram
  have hcalls : ∀ e ∈ W.state.trace, beside m.active.kid e.call ∨ reembeds m.active.kid e.call := by
    intro e he
    by_cases hthread : e.thread = r
    · exact Or.inr (hrewrap e (mem_own.mpr ⟨he, hthread⟩))
    · have hbeside := companion_beside (L := L) (hothers e.thread hthread)
      exact Or.inl ((hmakes e.thread).calls hbeside e (mem_own.mpr ⟨he, rfl⟩))
  refine ⟨fun e he => ?_, fun out hout => ?_⟩
  · obtain ⟨t, ht⟩ := hlinked.mem (mem_own.mp he).1
    have hframe := perform_unembedded (L := L) (r := e.thread) (hrewrap e he) t e.before
    rwa [ht] at hframe
  have hdone := hmakes r
  rw [hr, show (runs L processes w schedule).threads r = .done (.ok out) from hout] at hdone
  obtain ⟨printed, hcommand⟩ := admin_makes hdone
  obtain ⟨attempts, hended⟩ := rewrap_makes hm hcommand
  obtain ⟨hnodup, hother, hpending⟩ := hended.pending hlinked hcalls
  rw [List.map_map] at hnodup
  -- a row under another KEK is one that was skipped
  have hskipped : ∀ row ∈ W.state.now.keys.rows, row.embeddingKeyId ≠ m.active.kid →
      ∃ a ∈ attempts, a.failed = true ∧ SameKey a.row row := by
    intro row hrow hK
    obtain ⟨key, hkey, hsame, hnot⟩ := hpending row hrow hK
    obtain ⟨a, ha, rfl⟩ := List.mem_map.mp hkey
    refine ⟨a, ha, ?_, hsame⟩
    by_contra hfailed
    rw [Bool.not_eq_true] at hfailed
    obtain ⟨e, he, hrewrites⟩ := hended.rewritten ha hfailed
    rw [← hsame.keyId] at hrewrites
    exact hnot e he hrewrites
  refine ⟨attempts, hended, fun a ha hfailed e he => ?_, fun hnone row hrow => ?_, fun key => ?_⟩
  · obtain ⟨t, ht⟩ := hlinked.mem (mem_own.mp he).1
    have hspared := perform_spares (L := L) (r := e.thread) (hended.spares hnodup ha hfailed e he) t
      e.before
    rwa [ht] at hspared
  · by_contra hK
    obtain ⟨a, ha, hfailed, -⟩ := hskipped row hrow hK
    exact List.countP_eq_zero.mp hnone a ha hfailed
  · rw [mem_workList]
    constructor
    · rintro ⟨row, hrow, hK, rfl⟩
      exact ⟨row, hrow, rfl, hskipped row hrow hK⟩
    · rintro ⟨row, hrow, rfl, a, ha, -, hsame⟩
      have hK := hother a ha
      rw [← hsame.embeddingKeyId] at hK
      exact ⟨row, hrow, hK, rfl⟩

open Fixtures

/-- Libraries that open Bob's row and encrypt everything alike. -/
def resealing : Libraries := { opening with jweEncrypt := fun _ _ _ _ _ => .ok "resealed" }

/-- A row under a KEK that is lost. -/
def lostKey : KeyRow := { bobsKey with keyId := keyId2, embeddingKeyId := "kek-0" }

def twoKeys : World := { fresh 0 with keys := (Table.empty.insert bobsKey).insert lostKey }

def operator (i : ThreadId) : Process :=
  if i = 0 then .admin { actor := "ops", kek := .ok rotated } .rewrap else .sweep config

def interleaved : Schedule Turn :=
  [(0, {}), (0, {}), (1, {}), (0, {}), (0, {}), (0, {}), (0, {}), (2, {})]

/-- Bob's row is rewrapped and the other one skipped; a sweep comes in between. -/
theorem rewrap_retires_kek :
    let W := runs resealing operator twoKeys interleaved
    (W.state.now.keys.rows.map fun row => (row.keyId, row.embeddingKeyId)) =
        [(keyId1, "kek-2"), (keyId2, "kek-0")] ∧
      ∃ attempts, Ended { actor := "ops", kek := .ok rotated } rotated 0
        (own 0 W.state.trace) attempts ∧
        ∀ key, key ∈ workList "kek-2" W.state.now ↔
          ∃ row ∈ W.state.now.keys.rows, row.toVaultKey = key ∧
            ∃ a ∈ attempts, a.failed = true ∧ SameKey a.row row := by
  intro W
  have hothers : ∀ i, i ≠ 0 → Companion rotated.active.kid (operator i) := by
    intro i hi
    rw [operator, if_neg hi]
    trivial
  have hrun := rewrap_retires resealing operator 0 { actor := "ops", kek := .ok rotated } rotated
    rfl rfl hothers twoKeys interleaved
  obtain ⟨attempts, hended, -, -, hleft⟩ := hrun.2 none rfl
  exact ⟨by decide +kernel, attempts, hended, hleft⟩

end Rewrap
