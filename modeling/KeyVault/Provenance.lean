import KeyVault.ExpirySweep

/-!
# Where keys come from

A program inserts a row only for a key that it has generated itself and has not tried to
insert before, and it fills the cache only for a row that it has loaded. No answer and
no schedule has a say in this.
-/

namespace Provenance

open JsValue Acl KeyGen Errors Programs Interleaving Vault KeyStore Handlers KeyOperations
  HandlerCalls CallEffects ServerAuth Server KvAdmin KeyInvariant KeyLifecycle Processes
  AuditTrail Tables

variable {L : Libraries} {cfg : Config} {user : VaultUser} {data : Json}

/-- The keys that a program has generated and not yet tried to insert, and the rows that
it has loaded. -/
structure Known where
  drawn : List GeneratedKey := []
  loaded : List VaultKey := []

def Known.learn (k : Known) : (c : Call) → Ans c → Known
  | .generateVaultKey _, .ok g => { k with drawn := g :: k.drawn }
  | .insertKey key, _ => { k with drawn := k.drawn.filter (fun g => g.kid != key.keyId) }
  | .keyById _, .ok (some row) => { k with loaded := row :: k.loaded }
  | _, _ => k

/-- The row has the public data of the generated key. -/
structure Carries (row : VaultKey) (g : GeneratedKey) : Prop where
  keyId : row.keyId = g.kid
  kty : row.kty = g.kty
  alg : row.alg = g.alg
  publicKey : row.publicKey = g.publicKey

/-- The call is founded on what its program knows. -/
def founded (k : Known) : Call → Prop
  | .generateVaultKey spec => Resolved spec
  | .insertKey key => ∃ g ∈ k.drawn, Carries key g
  | .cacheFill kid _ max => (∃ row ∈ k.loaded, row.keyId = kid) ∧ 0 < max
  | _ => True

/-- Every call of the program is founded. -/
def Founded {α : Type} (Q : Known → α → Prop) (k : Known) (p : Api α) : Prop :=
  Prog.Tracks Known.learn founded Q k p

variable {α β : Type} {Q : Known → β → Prop} {k : Known}

/-- Calls that are founded on nothing. -/
def idle : Call → Bool
  | .generateVaultKey _ => false
  | .insertKey _ => false
  | .cacheFill _ _ _ => false
  | _ => true

theorem founded_of_idle {c : Call} (h : idle c = true) : founded k c := by
  cases c <;> trivial

theorem idle_of_harmless {c : Call} (h : harmless c = true) : idle c = true := by
  cases c <;> first | rfl | cases h

/-- An idle call leaves the keys on the way alone and forgets no row. -/
theorem learn_idle {c : Call} (h : idle c = true) (a : Ans c) :
    (k.learn c a).drawn = k.drawn ∧ ∀ row ∈ k.loaded, row ∈ (k.learn c a).loaded := by
  cases c with
  | keyById kid =>
    rcases a with message | _ | row
    · exact ⟨rfl, fun _ hrow => hrow⟩
    · exact ⟨rfl, fun _ hrow => hrow⟩
    · exact ⟨rfl, fun _ hrow => List.mem_cons_of_mem _ hrow⟩
  | generateVaultKey spec => cases h
  | insertKey key => cases h
  | cacheFill kid entry max => cases h
  | _ => exact ⟨rfl, fun _ hrow => hrow⟩

/-- An idle program keeps the key and the row that the rest needs. -/
theorem founded_idle {p : Api α} (h : p.Calls (fun c => idle c = true)) {R : Known → Prop}
    (hR : ∀ k k' : Known, k'.drawn = k.drawn → (∀ row ∈ k.loaded, row ∈ k'.loaded) → R k → R k')
    (hk : R k) : Founded (fun k _ => R k) k p := by
  induction p generalizing k with
  | done r =>
    cases r with
    | ok a => exact hk
    | error e => trivial
  | call c next ih =>
    refine ⟨founded_of_idle h.1, fun a => ih a (h.2 a) ?_⟩
    obtain ⟨hdrawn, hloaded⟩ := learn_idle (k := k) h.1 a
    exact hR k _ hdrawn hloaded hk

theorem founded_aside {p : Api α} (h : p.Calls (fun c => idle c = true)) :
    Founded (fun _ _ => True) k p := founded_idle h (fun _ _ _ _ _ => trivial) trivial

theorem extract_idle (m : KekManager) (embeddingKeyId embeddedKey kid : String) :
    (extract m embeddingKeyId embeddedKey kid).Calls (fun c => idle c = true) := by
  unfold extract
  cases m.byId embeddingKeyId with
  | none => trivial
  | some kek => exact calls_ask rfl fun _ => calls_lift fun _ => trivial

/-- The cache is filled for the row that was loaded, and only where there is a cache. -/
theorem unwrap_founded {row : VaultKey} (hrow : row ∈ k.loaded) :
    Founded (fun _ _ => True) k (unwrap L cfg row) := by
  unfold unwrap
  by_cases hmax : cfg.cacheMaxEntries < 1
  · rw [if_pos hmax]
    exact founded_aside (extract_idle _ _ _ _)
  · rw [if_neg hmax]
    have hpos : 0 < cfg.cacheMaxEntries := by omega
    refine tracks_ask trivial fun answer => ?_
    obtain ⟨now, cached⟩ := answer
    cases cached with
    | some jwk => trivial
    | none =>
      have hextract : Founded (fun k _ => row ∈ k.loaded) k
          (extract cfg.kek row.embeddingKeyId row.embeddedKey row.keyId) :=
        founded_idle (extract_idle _ _ _ _) (fun _ _ _ hloaded h => hloaded row h) hrow
      refine hextract.bind fun k' jwk hrow' => ?_
      exact tracks_ask ⟨⟨row, hrow', rfl⟩, hpos⟩ fun _ => trivial

theorem keyHalf_founded {row : VaultKey} (hrow : row ∈ k.loaded) (half : KeyHalf) :
    Founded (fun _ _ => True) k (keyHalf L cfg row half) := by
  have hunwrap : Founded (fun _ _ => True) k (unwrapKey L cfg row) := by
    refine (unwrap_founded hrow).tryCatch fun k' e => ?_
    cases e <;> trivial
  cases half with
  | stored => trivial
  | secret => exact hunwrap
  | publicOrSecret =>
    simp only [keyHalf, publicHalf]
    split
    · exact hunwrap
    · trivial

/-- An authorized row has been loaded. -/
theorem authorizedKey_founded (kid : String) (opClass : OpClass) :
    Founded (fun k row => row ∈ k.loaded) k (authorizedKey user kid opClass) := by
  simp only [authorizedKey, loadKey, bind_assoc]
  refine tracks_ask trivial fun answer => tracks_lift fun found hfound => ?_
  obtain rfl : answer = .ok found := orThrow_eq_ok.mp hfound
  cases found with
  | none => trivial
  | some row =>
    dsimp only
    split
    · refine tracks_ask trivial fun now => ?_
      split
      · exact List.mem_cons_self
      · trivial
    · trivial

theorem access_founded {K : KeyOperation}
    (hfinish : ∀ kid row jwk, (K.finish kid row jwk).Calls (fun c => harmless c = true)) :
    Founded (fun _ _ => True) k (access L cfg user K) := by
  refine tracks_lift fun kid _ => ?_
  refine (authorizedKey_founded kid K.opClass).bind fun k' row hrow => ?_
  refine tracks_lift fun _ _ => (keyHalf_founded hrow K.half).bind fun k'' jwk _ => ?_
  exact founded_aside ((hfinish kid row jwk).mono fun _ => idle_of_harmless)

/-- generate-key inserts the one key that it generates. -/
theorem generateKey_founded : Founded (fun _ _ => True) k (generateKey cfg user data) := by
  refine tracks_lift fun spec hspec => tracks_ask trivial fun now => ?_
  refine tracks_lift fun _ _ => tracks_lift fun _ _ => ?_
  refine (founded_aside (resolveAcl_harmless.mono fun _ => idle_of_harmless)).bind
    fun k' acl _ => ?_
  refine Prog.Tracks.bind (Q := fun _ _ => True) ?_ fun _ _ _ => trivial
  refine tracks_ask (generateKeySpec_resolved hspec) fun answer => tracks_lift fun g hg => ?_
  obtain rfl : answer = .ok g := orThrow_eq_ok.mp hg
  refine tracks_ask trivial fun now => ?_
  refine Prog.Tracks.bind (Q := fun k _ => g ∈ k.drawn) ?_ fun k'' embedded hdrawn => ?_
  · refine founded_idle ?_ (fun k k' heq _ h => heq ▸ h) List.mem_cons_self
    exact calls_ask rfl fun _ => calls_lift fun _ => trivial
  · exact tracks_ask ⟨g, hdrawn, rfl, rfl, rfl, rfl⟩ fun _ => tracks_lift fun _ _ => trivial

theorem handler_founded (op : Operation) :
    Founded (fun _ _ => True) k (handler L cfg user data op) := by
  cases hK : keyOperation L cfg data op with
  | some K =>
    rw [handler_access hK]
    exact access_founded (finish_harmless hK)
  | none =>
    cases op with
    | generateKey => exact generateKey_founded
    | healthcheck =>
      have hcalls : (healthcheck data).Calls (fun c => idle c = true) :=
        calls_lift fun _ => calls_ask rfl fun _ => trivial
      exact founded_aside hcalls
    | listKeys => exact founded_aside (listKeys_harmless.mono fun _ => idle_of_harmless)
    | _ => cases hK

theorem dispatch_founded {env : Envelope} :
    Founded (fun _ _ => True) k (dispatch L cfg user env) := by
  have hrespond := @respond_calls user env (fun c => idle c = true) fun _ _ => rfl
  unfold dispatch lookupHandler
  cases Operation.ofRequest env.request with
  | some op =>
    exact (handler_founded op).attempt.bind fun k' r _ => founded_aside (hrespond _)
  | none =>
    dsimp only
    by_cases hproto : objectPrototype.contains env.request = true
    · simp only [hproto, if_true]
      refine founded_aside ?_
      exact (Prog.Calls.attempt (Prog.calls_done _)).bind fun r => hrespond _
    · simp only [hproto]
      trivial

theorem authenticate_idle (req : HttpRequest) (claimedUser : String) :
    (authenticate L cfg req claimedUser).Calls (fun c => idle c = true) :=
  authenticate_calls (G := fun c => idle c = true) (fun _ => rfl) rfl req claimedUser

theorem handleRequest_founded (req : HttpRequest) :
    Founded (fun _ _ => True) k (handleRequest L cfg req) := by
  cases henv : envelopeOf req with
  | none => exact founded_aside (handleRequest_other henv rfl)
  | some env =>
    rw [handleRequest_envelope henv]
    refine (founded_aside (authenticate_idle req env.user)).bind fun k' found _ => ?_
    cases found with
    | none => trivial
    | some user => exact dispatch_founded

theorem command_idle (o : Opts) (cmd : Command) :
    (command L o cmd).Calls (fun c => idle c = true) := by
  refine (CommandCalls.command_calls o cmd).mono fun c hc => ?_
  rcases CommandCalls.permitted_cases hc with hspares | ⟨-, kid, acl, rfl⟩ | ⟨-, kid, id, key, rfl⟩
  · cases c <;> first | rfl | cases hspares
  · rfl
  · rfl

theorem program_founded (k : Known) (process : Process) :
    Founded (fun _ _ => True) k (process.program L) := by
  cases process with
  | request cfg req =>
    refine Prog.Tracks.bind (Q := fun _ _ => True) ?_ fun _ _ _ => trivial
    exact (handleRequest_founded req).tryCatch fun _ _ => trivial
  | admin o cmd => exact (founded_aside (command_idle o cmd)).bind fun _ _ _ => trivial
  | sweep cfg =>
    exact founded_aside
      (Prog.Calls.bind (calls_ask rfl fun _ => Prog.calls_done _) fun _ => trivial)
  | restart =>
    exact founded_aside (Prog.Calls.bind (calls_ask rfl fun _ => trivial) fun _ => trivial)

theorem activity_founded (k : Known) (activity : Activity) :
    Founded (fun _ _ => True) k (activity.program L) := by
  cases activity with
  | operation cfg user env => exact dispatch_founded.bind fun _ _ _ => trivial
  | admin o cmd => exact (founded_aside (command_idle o cmd)).bind fun _ _ _ => trivial
  | sweep cfg =>
    exact founded_aside
      (Prog.Calls.bind (calls_ask rfl fun _ => Prog.calls_done _) fun _ => trivial)
  | restart =>
    exact founded_aside (Prog.Calls.bind (calls_ask rfl fun _ => trivial) fun _ => trivial)

abbrev Trace := List (Entry Ans World)

/-- What thread `i` has learned from its calls. -/
def knownOf (i : ThreadId) (trace : Trace) : Known :=
  (own i trace).foldl (fun k e => k.learn e.call e.answer) {}

/-- The key that an answer hands out. -/
def drawnBy : (c : Call) → Ans c → Option GeneratedKey
  | .generateVaultKey _, .ok g => some g
  | _, _ => none

/-- The row that an answer hands out by its id. -/
def loadedBy : (c : Call) → Ans c → Option VaultKey
  | .keyById _, .ok found => found
  | _, _ => none

theorem mem_learn_drawn {c : Call} {a : Ans c} {g : GeneratedKey} (h : g ∈ (k.learn c a).drawn) :
    g ∈ k.drawn ∨ drawnBy c a = some g := by
  by_cases hidle : idle c = true
  · exact Or.inl ((learn_idle hidle a).1 ▸ h)
  · cases c with
    | generateVaultKey spec =>
      rcases a with message | g'
      · exact Or.inl h
      · rcases List.mem_cons.mp h with rfl | h
        · exact Or.inr rfl
        · exact Or.inl h
    | insertKey key => exact Or.inl (List.mem_filter.mp h).1
    | cacheFill kid entry max => exact Or.inl h
    | _ => exact absurd rfl hidle

theorem mem_learn_loaded {c : Call} {a : Ans c} {row : VaultKey} (h : row ∈ (k.learn c a).loaded) :
    row ∈ k.loaded ∨ loadedBy c a = some row := by
  cases c with
  | keyById kid =>
    rcases a with message | _ | row'
    · exact Or.inl h
    · exact Or.inl h
    · rcases List.mem_cons.mp h with rfl | h
      · exact Or.inr rfl
      · exact Or.inl h
  | generateVaultKey spec =>
    rcases a with message | g
    · exact Or.inl h
    · exact Or.inl h
  | _ => exact Or.inl h

theorem knownOf_snoc_self {i : ThreadId} {e : Entry Ans World} (h : e.thread = i) (trace : Trace) :
    knownOf i (trace ++ [e]) = (knownOf i trace).learn e.call e.answer := by
  unfold knownOf
  rw [own_append, own_cons_self h, List.foldl_append]
  rfl

theorem knownOf_snoc_ne {i : ThreadId} {e : Entry Ans World} (h : e.thread ≠ i) (trace : Trace) :
    knownOf i (trace ++ [e]) = knownOf i trace := by
  unfold knownOf
  rw [own_append, own_cons_ne h]
  simp [own]

theorem drawn_snoc {i : ThreadId} {e : Entry Ans World} {trace : Trace} {g : GeneratedKey}
    (h : g ∈ (knownOf i (trace ++ [e])).drawn) :
    g ∈ (knownOf i trace).drawn ∨ (e.thread = i ∧ drawnBy e.call e.answer = some g) := by
  by_cases hthread : e.thread = i
  · rw [knownOf_snoc_self hthread] at h
    exact (mem_learn_drawn h).imp_right fun hdrawn => ⟨hthread, hdrawn⟩
  · rw [knownOf_snoc_ne hthread] at h
    exact Or.inl h

/-- A row that a thread knows it has loaded in one of its calls. -/
theorem loaded_seen {i : ThreadId} {trace : Trace} {row : VaultKey}
    (h : row ∈ (knownOf i trace).loaded) :
    ∃ e ∈ trace, e.thread = i ∧ loadedBy e.call e.answer = some row := by
  induction trace using List.reverseRecOn with
  | nil => cases h
  | append_singleton trace e ih =>
    have hbefore : row ∈ (knownOf i trace).loaded →
        ∃ e' ∈ trace ++ [e], e'.thread = i ∧ loadedBy e'.call e'.answer = some row := by
      intro hknown
      obtain ⟨e', he', hseen⟩ := ih hknown
      exact ⟨e', List.mem_append_left _ he', hseen⟩
    by_cases hthread : e.thread = i
    · rw [knownOf_snoc_self hthread] at h
      rcases mem_learn_loaded h with hknown | hloaded
      · exact hbefore hknown
      · exact ⟨e, List.mem_append_right _ (List.mem_singleton_self _), hthread, hloaded⟩
    · rw [knownOf_snoc_ne hthread] at h
      exact hbefore h

/-- In a run of founded programs every call is founded. -/
theorem exec_founded {programs : ThreadId → Api α} {R : Known → α → Prop}
    (hprograms : ∀ i, Founded R {} (programs i)) (w : World) (schedule : Schedule Turn)
    {pre post : Trace} {e : Entry Ans World}
    (h : (Pool.exec (record (perform L)) schedule ⟨programs, ⟨w, []⟩⟩).state.trace =
      pre ++ e :: post) : founded (knownOf e.thread pre) e.call :=
  started_tracks (hprograms e.thread) h

theorem runs_founded (L : Libraries) (processes : ThreadId → Process) (w : World)
    (schedule : Schedule Turn) {pre post : Trace} {e : Entry Ans World}
    (h : (runs L processes w schedule).state.trace = pre ++ e :: post) :
    founded (knownOf e.thread pre) e.call :=
  exec_founded (fun i => program_founded {} (processes i)) w schedule h

/-- The key is the outcome of key generation `n`. -/
def Generated (L : Libraries) (n : Nat) (g : GeneratedKey) : Prop :=
  ∃ spec, Resolved spec ∧ generateVaultKey L n spec = .ok g

theorem Generated.draws {n : Nat} {g : GeneratedKey} (h : Generated L n g) : Draws L n g.kid := by
  obtain ⟨spec, -, hspec⟩ := h
  exact generated_draws hspec

theorem perform_seed (i : ThreadId) (t : Turn) (c : Call) (w : World) :
    w.seed ≤ (perform L i t c w).2.seed := by
  rcases perform_cases L i t c w with ⟨_, _, -, -, hp⟩ | hp
  · rw [hp]
    exact Nat.le_refl _
  · rw [hp]
    exact effect_seed i c (w.tick t.elapsed)

/-- A generated key takes the seed with it. -/
theorem perform_drawn {i : ThreadId} {t : Turn} {c : Call} {w : World} {g : GeneratedKey}
    (hc : founded k c) (h : drawnBy c (perform L i t c w).1 = some g) :
    Generated L w.seed g ∧ w.seed < (perform L i t c w).2.seed := by
  cases c with
  | generateVaultKey spec =>
    have hanswer : (perform L i t (.generateVaultKey spec) w).1 = .ok g := by
      cases hr : (perform L i t (.generateVaultKey spec) w).1 with
      | error message => rw [hr] at h; cases h
      | ok g' => rw [hr] at h; cases h; rfl
    have hp := perform_answered hanswer fun _ => nofun
    rw [hp] at hanswer ⊢
    exact ⟨⟨spec, hc, hanswer⟩, Nat.lt_succ_self _⟩
  | _ => cases h

/-- The rows have the same id and the same public data. -/
structure Alike (old row : VaultKey) : Prop where
  keyId : old.keyId = row.keyId
  kty : old.kty = row.kty
  alg : old.alg = row.alg
  publicKey : old.publicKey = row.publicKey

theorem Alike.refl (row : VaultKey) : Alike row row := ⟨rfl, rfl, rfl, rfl⟩

theorem Carries.of_alike {old row : VaultKey} {g : GeneratedKey} (h : Carries old g)
    (halike : Alike old row) : Carries row g :=
  ⟨halike.keyId.symm.trans h.keyId, halike.kty.symm.trans h.kty, halike.alg.symm.trans h.alg,
    halike.publicKey.symm.trans h.publicKey⟩

/-- A row after a call was there before, with the same public data, or was inserted. -/
theorem perform_row {i : ThreadId} {t : Turn} {c : Call} {w : World} {row : KeyRow}
    (h : row ∈ (perform L i t c w).2.keys.rows) :
    (∃ old ∈ w.keys.rows, Alike old.toVaultKey row.toVaultKey) ∨
      ∃ key, c = .insertKey key ∧ Alike key row.toVaultKey := by
  by_cases hharmless : harmless c = true
  · obtain ⟨old, hold, heq⟩ := (perform_shrinks hharmless t w).rows row h
    refine Or.inl ⟨old, hold, ?_⟩
    rw [heq]
    exact ⟨rfl, rfl, rfl, rfl⟩
  · have hsame : writesKeys c = false →
        ∃ old ∈ w.keys.rows, Alike old.toVaultKey row.toVaultKey := by
      intro hwrites
      rw [perform_keys hwrites] at h
      exact ⟨row, h, Alike.refl _⟩
    cases c with
    | generateVaultKey spec => exact Or.inl (hsame rfl)
    | cacheFill kid entry max => exact Or.inl (hsame rfl)
    | insertKey key =>
      rcases perform_cases L i t (.insertKey key) w with ⟨_, _, -, -, hp⟩ | hp
      · rw [hp] at h
        exact Or.inl ⟨row, h, Alike.refl _⟩
      · rw [hp] at h
        simp only [effect] at h
        split at h
        · exact Or.inl ⟨row, h, Alike.refl _⟩
        · split at h
          · rcases Table.mem_insert h with rfl | hold
            · exact Or.inr ⟨key, rfl, rfl, rfl, rfl, rfl⟩
            · exact Or.inl ⟨row, hold, Alike.refl _⟩
          · exact Or.inl ⟨row, h, Alike.refl _⟩
    | updateKeyEmbedding keyId embeddingKeyId embeddedKey =>
      rcases perform_cases L i t (.updateKeyEmbedding keyId embeddingKeyId embeddedKey) w with
        ⟨_, _, -, -, hp⟩ | hp
      · rw [hp] at h
        exact Or.inl ⟨row, h, Alike.refl _⟩
      · rw [hp] at h
        simp only [effect] at h
        rcases Table.mem_update h with ⟨old, hold, -, rfl⟩ | ⟨hold, -⟩
        · exact Or.inl ⟨old, hold, rfl, rfl, rfl, rfl⟩
        · exact Or.inl ⟨row, hold, Alike.refl _⟩
    | _ => exact absurd rfl hharmless

/-- The row has the public data of a key that was generated for accepted parameters. -/
def Genuine (L : Libraries) (row : VaultKey) : Prop := ∃ n g, Generated L n g ∧ Carries row g

/-- In a run of founded programs from genuine rows, every row is genuine. -/
theorem rows_genuine {w w' : World} {trace : Trace} (hlinked : Linked (perform L) w trace w')
    (hfounded : ∀ pre e post, trace = pre ++ e :: post → founded (knownOf e.thread pre) e.call)
    (h : ∀ row ∈ w.keys.rows, Genuine L row.toVaultKey) :
    ∀ row ∈ w'.keys.rows, Genuine L row.toVaultKey := by
  have hcarried := hlinked.history
    (Q := fun pre w => (∀ i, ∀ g ∈ (knownOf i pre).drawn, ∃ n, Generated L n g) ∧
      ∀ row ∈ w.keys.rows, Genuine L row.toVaultKey) ?_ ⟨?_, h⟩
  · exact hcarried.2
  · rintro pre e post heq ⟨t, hstep⟩ ⟨hdrawn, hrows⟩
    have hcall := hfounded pre e post heq
    constructor
    · intro i g hg
      rcases drawn_snoc hg with hold | ⟨-, hnew⟩
      · exact hdrawn i g hold
      · exact ⟨e.before.seed, (perform_drawn (L := L) (i := e.thread) (t := t) (w := e.before) hcall
          (by rw [hstep]; exact hnew)).1⟩
    · intro row hrow
      have hafter : (perform L e.thread t e.call e.before).2 = e.after := by rw [hstep]
      rw [← hafter] at hrow
      rcases perform_row hrow with ⟨old, hold, halike⟩ | hinsert
      · obtain ⟨n, g, hgenerated, hcarries⟩ := hrows old hold
        exact ⟨n, g, hgenerated, hcarries.of_alike halike⟩
      · obtain ⟨key, hkey, halike⟩ := hinsert
        rw [hkey] at hcall
        obtain ⟨g, hg, hcarries⟩ := hcall
        obtain ⟨n, hgenerated⟩ := hdrawn e.thread g hg
        exact ⟨n, g, hgenerated, hcarries.of_alike halike⟩
  · intro i g hg
    cases hg

/-- No thread is about to insert a row with this id, and nobody will generate the id. -/
structure Spent (L : Libraries) (trace : Trace) (w : World) (kid : String) : Prop where
  held : ∀ i, ∀ g ∈ (knownOf i trace).drawn, g.kid ≠ kid
  undrawn : ∀ n, w.seed ≤ n → ¬ Draws L n kid

/-- Keys on the way are generated, each with one thread, and the stored ids are spent. -/
structure Issued (L : Libraries) (trace : Trace) (w : World) : Prop where
  generated : ∀ i, ∀ g ∈ (knownOf i trace).drawn, ∃ n < w.seed, Generated L n g
  apart : ∀ i j, ∀ g ∈ (knownOf i trace).drawn, ∀ g' ∈ (knownOf j trace).drawn,
    g.kid = g'.kid → i = j
  rows : ∀ row ∈ w.keys.rows, Spent L trace w row.keyId

variable {trace : Trace} {e : Entry Ans World} {t : Turn} {kid : String}

/-- A spent id stays spent. -/
theorem Spent.step (hstep : perform L e.thread t e.call e.before = (e.answer, e.after))
    (hfounded : founded (knownOf e.thread trace) e.call) (h : Spent L trace e.before kid) :
    Spent L (trace ++ [e]) e.after kid := by
  have hseed : e.before.seed ≤ e.after.seed := by
    have hle := perform_seed (L := L) e.thread t e.call e.before
    rwa [hstep] at hle
  constructor
  · intro i g hg
    rcases drawn_snoc hg with hold | ⟨-, hdrawn⟩
    · exact h.held i g hold
    · have hnew : Generated L e.before.seed g ∧
          e.before.seed < (perform L e.thread t e.call e.before).2.seed :=
        perform_drawn hfounded (by rw [hstep]; exact hdrawn)
      rintro rfl
      exact h.undrawn _ (Nat.le_refl _) hnew.1.draws
  · intro n hn
    exact h.undrawn n (Nat.le_trans hseed hn)

/-- The id of a row that a thread inserts is spent with it. -/
theorem Issued.inserted (hfresh : ∀ m n kid, Draws L m kid → Draws L n kid → m = n)
    {key : VaultKey} (hcall : e.call = .insertKey key)
    (hfounded : founded (knownOf e.thread trace) e.call) (hseed : e.before.seed ≤ e.after.seed)
    (h : Issued L trace e.before) : Spent L (trace ++ [e]) e.after key.keyId := by
  obtain ⟨i, call, answer, before, after⟩ := e
  dsimp only at hcall
  subst hcall
  obtain ⟨g, hg, hcarries⟩ := hfounded
  constructor
  · intro j g' hg'
    by_cases hthread : i = j
    · rw [knownOf_snoc_self hthread] at hg'
      simpa using (List.mem_filter.mp hg').2
    · rw [knownOf_snoc_ne hthread] at hg'
      intro heq
      exact hthread (h.apart i j g hg g' hg' (hcarries.keyId.symm.trans heq.symm))
  · intro n hn hdraws
    obtain ⟨m, hm, hgenerated⟩ := h.generated i g hg
    have hdrawn := hgenerated.draws
    rw [← hcarries.keyId] at hdrawn
    have := hfresh m n key.keyId hdrawn hdraws
    have hle : before.seed ≤ n := Nat.le_trans hseed hn
    omega

theorem Issued.step (hfresh : ∀ m n kid, Draws L m kid → Draws L n kid → m = n)
    (hstep : perform L e.thread t e.call e.before = (e.answer, e.after))
    (hfounded : founded (knownOf e.thread trace) e.call) (h : Issued L trace e.before) :
    Issued L (trace ++ [e]) e.after := by
  have hseed : e.before.seed ≤ e.after.seed := by
    have hle := perform_seed (L := L) e.thread t e.call e.before
    rwa [hstep] at hle
  have hnew : ∀ g, drawnBy e.call e.answer = some g →
      Generated L e.before.seed g ∧ e.before.seed < e.after.seed := by
    intro g hdrawn
    have hp := perform_drawn (L := L) (i := e.thread) (t := t) (w := e.before) hfounded
      (by rw [hstep]; exact hdrawn)
    rwa [hstep] at hp
  -- a key drawn now has no id in common with one that was drawn before
  have hother : ∀ g, drawnBy e.call e.answer = some g → ∀ j, ∀ g' ∈ (knownOf j trace).drawn,
      g.kid ≠ g'.kid := by
    intro g hdrawn j g' hg' heq
    obtain ⟨n, hn, hgenerated⟩ := h.generated j g' hg'
    have hdraws := hgenerated.draws
    rw [← heq] at hdraws
    have := hfresh n e.before.seed g.kid hdraws (hnew g hdrawn).1.draws
    omega
  constructor
  · intro i g hg
    rcases drawn_snoc hg with hold | ⟨-, hdrawn⟩
    · obtain ⟨n, hn, hgenerated⟩ := h.generated i g hold
      exact ⟨n, Nat.lt_of_lt_of_le hn hseed, hgenerated⟩
    · exact ⟨e.before.seed, (hnew g hdrawn).2, (hnew g hdrawn).1⟩
  · intro i j g hg g' hg' heq
    rcases drawn_snoc hg with hold | ⟨hi, hdrawn⟩
    · rcases drawn_snoc hg' with hold' | ⟨hj, hdrawn'⟩
      · exact h.apart i j g hold g' hold' heq
      · exact absurd heq.symm (hother g' hdrawn' i g hold)
    · rcases drawn_snoc hg' with hold' | ⟨hj, hdrawn'⟩
      · exact absurd heq (hother g hdrawn j g' hold')
      · rw [← hi, ← hj]
  · intro row hrow
    have hafter : (perform L e.thread t e.call e.before).2 = e.after := by rw [hstep]
    rw [← hafter] at hrow
    rcases perform_row hrow with ⟨old, hold, halike⟩ | hinsert
    · rw [← halike.keyId]
      exact (h.rows old hold).step hstep hfounded
    · obtain ⟨key, hkey, halike⟩ := hinsert
      rw [← halike.keyId]
      exact h.inserted hfresh hkey hfounded hseed

/-- Before the run only the stored ids are in use. -/
theorem issued_start {w : World} (h : ExpirySweep.Unused L w) : Issued L [] w := by
  constructor
  · intro i g hg
    cases hg
  · intro i j g hg
    cases hg
  · intro row hrow
    constructor
    · intro i g hg
      cases hg
    · intro n hn hdraws
      have hnone := h n row.keyId hn hdraws
      have hsome : w.keys.find row.keyId = some row := Table.find_of_mem hrow
      rw [hnone] at hsome
      cases hsome

/-- Every state of every run has its keys issued. -/
theorem runs_issued (L : Libraries) (hfresh : ∀ m n kid, Draws L m kid → Draws L n kid → m = n)
    (processes : ThreadId → Process) (w : World) (hunused : ExpirySweep.Unused L w)
    (schedule : Schedule Turn) {pre post : Trace} {e : Entry Ans World}
    (h : (runs L processes w schedule).state.trace = pre ++ e :: post) : Issued L pre e.before := by
  obtain ⟨hlinked, -⟩ := runs_makes L processes w schedule
  rw [h] at hlinked
  obtain ⟨m, hpre, hrest⟩ := hlinked.split
  obtain ⟨rfl, -, -⟩ := hrest
  refine hpre.history (Q := fun trace w => Issued L trace w)
    (fun first e' rest heq hperform hissued => ?_)
    (issued_start hunused)
  obtain ⟨t, hstep⟩ := hperform
  refine hissued.step hfresh hstep ?_
  have htrace : (runs L processes w schedule).state.trace = first ++ e' :: (rest ++ e :: post) := by
    rw [h, heq]
    simp
  exact runs_founded L processes w schedule htrace

end Provenance
