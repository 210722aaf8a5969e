import KeyVault.CommandCalls
import KeyVault.Dispatch
import KeyVault.KeyInvariant

/-!
# The life of stored keys

Any number of authenticated requests, administrative commands, sweeps and restarts
interleave over one vault, each process with its own configuration. Every one of
them is safe for the invariant of stored keys.
-/

namespace KeyLifecycle

open JsValue Acl KeyGen Errors Programs Interleaving Vault KeyStore Handlers KeyOperations
  HandlerCalls CallEffects Server KvAdmin CommandCalls KeyInvariant Tables

/-- A restart empties the cache; a killed process is never scheduled again. -/
inductive Activity where
  | operation (cfg : Config) (user : VaultUser) (env : Envelope)
  | admin (o : Opts) (cmd : Command)
  | sweep (cfg : Config)
  | restart

namespace Activity

def program (L : Libraries) : Activity → Api (Option Response)
  | operation cfg user env => do return some (← dispatch L cfg user env)
  | admin o cmd => do
    let _ ← command L o cmd
    return none
  | sweep cfg => do
    let _ ← KeyStore.sweep cfg
    return none
  | restart => do
    cacheClear
    return none

/-- The KEKs that a process has. -/
def manager : Activity → Option KekManager
  | operation cfg _ _ => some cfg.kek
  | admin o _ => o.kek.toOption
  | sweep cfg => some cfg.kek
  | restart => none

end Activity

/-- Every process knows the same key under a KEK id. -/
def Configured (kekOf : String → Kek) (activities : ThreadId → Activity) : Prop :=
  ∀ i m, (activities i).manager = some m → Agrees kekOf m

section

variable {L : Libraries} {kekOf : String → Kek} {i : ThreadId} {α β : Type}

/-- Safe for the invariant of stored keys, with `Q` at the end. -/
abbrev SafeFor (L : Libraries) (kekOf : String → Kek) (i : ThreadId)
    (Q : Except Thrown α → World → Prop) (p : Api α) (w : World) : Prop :=
  Safe (protocol L kekOf) (perform L) i Q p w

/-- Safe, and nothing else is owed. -/
abbrev Steady (L : Libraries) (kekOf : String → Kek) (i : ThreadId) (p : Api α)
    (w : World) : Prop :=
  SafeFor L kekOf i (fun _ _ => True) p w

theorem steady_done (r : Except Thrown α) (w : World) : Steady L kekOf i (.done r) w :=
  fun _ _ _ => trivial

theorem steady_of_calls {p : Api α} (hp : p.Calls (fun c => harmless c = true)) (w : World) :
    Steady L kekOf i p w :=
  Safe.of_calls hp (fun c w t hc hw => by
    obtain ⟨hsound, -, hguar⟩ := step_harmless (i := i) hc t hw
    exact ⟨hsound, hguar⟩) w

theorem steady_lift {r : Except Thrown α} {f : α → Api β} {w : World}
    (hf : ∀ a, r = .ok a → Steady L kekOf i (f a) w) : Steady L kekOf i (liftM r >>= f) w :=
  safe_lift hf fun _ _ => steady_done _ _

/-- After a harmless call the thread knows what it knew, and the answer. -/
theorem safe_harmless {Q : Except Thrown β → World → Prop} {c : Call} {f : Ans c → Api β}
    {w : World} (hc : harmless c = true)
    (h : ∀ w' t, (protocol L kekOf).rely i w w' → Sound L kekOf w' →
      (protocol L kekOf).rely i w (perform L i t c w').2 →
        SafeFor L kekOf i Q (f (perform L i t c w').1) (perform L i t c w').2) :
    SafeFor L kekOf i Q (ask c >>= f) w := by
  refine safe_ask fun w' hr hw t => ?_
  obtain ⟨hsound, hmove, hguar⟩ := step_harmless (i := i) hc t hw
  exact ⟨hsound, hguar, h w' t hr hw ((protocol L kekOf).rely_trans i _ _ _ hr hmove)⟩

/-- A fact about the growing history outlives every program. -/
theorem safe_keep {Q : Except Thrown α → World → Prop} {R : World → Prop} {p : Api α} {w : World}
    (h : SafeFor L kekOf i Q p w) (hR : ∀ w w', Grows w w' → R w → R w') (hw : R w) :
    SafeFor L kekOf i (fun r w => Q r w ∧ R w) p w :=
  h.keep (fun _ _ hr => hR _ _ hr.1) (fun _ _ hg => hR _ _ hg.1) hw

theorem encrypted {t : Turn} {alg : String} {jwk payload : Json}
    {compress : Option Json} {w : World}
    {token : String} (h : (perform L i t (.jweEncrypt alg jwk payload compress) w).1 = .ok token) :
    ∃ n, L.jweEncrypt n alg jwk payload compress = .ok token := by
  rw [perform_answered h (fun _ => nofun)] at h
  exact ⟨_, h⟩

theorem decrypted {t : Turn} {token : String} {jwk payload : Json} {w : World}
    (h : (perform L i t (.jweDecrypt token jwk) w).1 = .ok payload) :
    L.jweDecrypt token jwk = .ok payload := by
  rwa [perform_answered h (fun _ => nofun)] at h

theorem loaded {t : Turn} {kid : String} {w : World} {row : VaultKey}
    (h : (perform L i t (.keyById kid) w).1 = .ok (some row)) :
    ∃ row', w.keys.find kid = some row' ∧ row'.toVaultKey = row ∧ row.keyId = kid := by
  rw [perform_answered h (fun _ => nofun)] at h
  obtain ⟨row', hfind, rfl⟩ := Option.map_eq_some_iff.mp (Except.ok.inj h)
  exact ⟨row', hfind, rfl, Table.find_key (r := row') hfind⟩

theorem stale {t : Turn} {kid : String} {w : World} {rows : List VaultKey}
    (h : (perform L i t (.keysNotEmbeddedWith kid) w).1 = .ok rows) :
    ∀ row ∈ rows, ∃ row' ∈ w.keys.rows, row'.toVaultKey = row := by
  rw [perform_answered h (fun _ => nofun)] at h
  rw [← Except.ok.inj h]
  intro row hrow
  obtain ⟨row', hrow', rfl⟩ := List.mem_map.mp hrow
  exact ⟨row', (List.mem_filter.mp hrow').1, rfl⟩

theorem extract_safe {m : KekManager} (hm : Agrees kekOf m) {row : VaultKey} {g : GeneratedKey}
    (hrow : Holds L kekOf row g) (hkid : g.secretKey.get? "kid" = some (.str g.kid)) (w : World) :
    SafeFor L kekOf i (fun r _ => ∀ jwk, r = .ok jwk → jwk = g.secretKey)
      (extract m row.embeddingKeyId row.embeddedKey row.keyId) w := by
  unfold extract
  cases hk : m.byId row.embeddingKeyId with
  | none => exact fun _ _ _ jwk heq => by cases heq
  | some k =>
    refine safe_harmless rfl fun w' t _ _ _ => ?_
    cases hanswer : (perform L i t (.jweDecrypt row.embeddedKey k.secretJwk) w').1 with
    | error message => exact fun _ _ _ jwk heq => by cases heq
    | ok claims =>
      have hclaims := decrypted hanswer
      rw [hm.byId hk] at hclaims
      obtain ⟨iat, nbf, exp, hwrapped, -⟩ := hrow.wrapped
      rw [hclaims] at hwrapped
      cases hwrapped
      rw [← hrow.keyId] at hkid
      intro _ _ _ jwk heq
      have hjwk := embeddedJwk_embedClaims hkid iat nbf exp
      exact (Except.ok.inj (hjwk.symm.trans heq)).symm

theorem unwrap_steady {cfg : Config} (hm : Agrees kekOf cfg.kek) {row : VaultKey} {w : World}
    (hw : Sound L kekOf w) (hrow : Stored L kekOf w row) :
    Steady L kekOf i (unwrap L cfg row) w := by
  obtain ⟨g, hg, hholds⟩ := hrow.holds
  have hkid := hw.minted_kid hg
  unfold unwrap
  split
  · exact (extract_safe hm hholds hkid w).mono fun _ _ _ _ => trivial
  · refine safe_harmless rfl fun w' t hr _ hmove => ?_
    cases (perform L i t (.cacheLookup row.keyId (L.sha256 row.embeddedKey)) w').1 with
    | mk now cached =>
      cases cached with
      | some jwk => exact steady_done _ _
      | none =>
        refine Safe.bind ((safe_keep (extract_safe hm hholds hkid _)
          (R := fun w => Minted w g) (fun _ _ hgrow hg => hg.mono hgrow) (hg.mono hmove.1)).mono
            fun r w₁ _ hr₁ => ?_)
        obtain ⟨hjwk, hg₁⟩ := hr₁
        cases r with
        | error e => exact steady_done _ _
        | ok jwk =>
          refine safe_ask fun w₂ hr₂ hw₂ t₂ => ?_
          obtain ⟨hsound, hguar⟩ := step_fill (i := i)
            ⟨L.sha256 row.embeddedKey, jwk, now + cfg.cacheTtlSeconds * 1000⟩ cfg.cacheMaxEntries
            t₂ hw₂ (hg₁.mono hr₂.1) hholds.keyId.symm (hjwk jwk rfl)
          exact ⟨hsound, hguar, steady_done _ _⟩

variable {cfg : Config} {user : VaultUser} {data : Json}

theorem authorizedKey_safe (kid : String) (opClass : OpClass) (w : World) :
    SafeFor L kekOf i (fun r w => ∀ row, r = .ok row → Stored L kekOf w row)
      (authorizedKey user kid opClass) w := by
  simp only [authorizedKey, loadKey, bind_assoc]
  refine safe_harmless rfl fun w' t _ hw' _ => ?_
  have hgrow := (step_harmless (i := i) (show harmless (.keyById kid) = true from rfl) t hw').2.1.1
  cases hanswer : (perform L i t (.keyById kid) w').1 with
  | error message => exact fun _ _ _ row heq => by cases heq
  | ok found =>
    cases found with
    | none => exact fun _ _ _ row heq => by cases heq
    | some row =>
      obtain ⟨row', hfind, rfl, -⟩ := loaded hanswer
      have hrow := (hw'.rows row' (Table.find_mem hfind)).mono hgrow
      simp only [orThrow_ok, Prog.liftM_eq, Prog.done_ok_bind]
      split
      · refine safe_harmless rfl fun w₂ t₂ _ _ hmove => ?_
        split
        · intro w₃ hr₃ _ row heq
          cases heq
          exact hrow.mono (hmove.1.trans hr₃.1)
        · exact fun _ _ _ row heq => by cases heq
      · exact fun _ _ _ row heq => by cases heq

theorem keyHalf_steady (hm : Agrees kekOf cfg.kek) {row : VaultKey} {w : World}
    (hw : Sound L kekOf w) (hrow : Stored L kekOf w row) (half : KeyHalf) :
    Steady L kekOf i (keyHalf L cfg row half) w := by
  have hunwrap : Steady L kekOf i (unwrapKey L cfg row) w := by
    refine Safe.tryCatch ((unwrap_steady hm hw hrow).mono fun r w' _ _ => ?_)
    cases r with
    | ok jwk => trivial
    | error e => cases e <;> exact steady_done _ _
  cases half with
  | stored => exact steady_done _ _
  | secret => exact hunwrap
  | publicOrSecret =>
    simp only [keyHalf, publicHalf]
    split
    · exact hunwrap
    · exact steady_done _ _

theorem access_steady (hm : Agrees kekOf cfg.kek) {K : KeyOperation}
    (hfinish : ∀ kid row jwk, (K.finish kid row jwk).Calls (fun c => harmless c = true))
    (w : World) :
    Steady L kekOf i (access L cfg user K) w := by
  refine steady_lift fun kid _ => Safe.bind ((authorizedKey_safe kid K.opClass w).mono ?_)
  intro r w' hw' hrow
  cases r with
  | error e => exact steady_done _ _
  | ok row =>
    refine steady_lift fun _ _ => ?_
    exact (keyHalf_steady hm hw' (hrow row rfl) K.half).seq fun jwk w'' =>
      steady_of_calls (hfinish kid row jwk) w''

theorem finish_harmless {op : Operation} {K : KeyOperation}
    (h : keyOperation L cfg data op = some K) (kid : String) (row : VaultKey) (jwk : Json) :
    (K.finish kid row jwk).Calls (fun c => harmless c = true) := by
  cases op with
  | publicKey => cases h; trivial
  | exportKey => cases h; trivial
  | createJwt => cases h; exact calls_ask rfl fun _ => Prog.calls_done _
  | verifyJwt => cases h; exact calls_ask rfl fun _ => Prog.calls_done _
  | createJwe => cases h; exact calls_ask rfl fun r => calls_lift fun token => trivial
  | decryptJwe => cases h; exact calls_ask rfl fun _ => Prog.calls_done _
  | revokeKey =>
    cases h
    refine Prog.Calls.bind ?_ fun revoked => calls_lift fun _ => trivial
    exact calls_ask rfl fun r => calls_lift fun deleted => calls_ask rfl fun _ => trivial
  | healthcheck => cases h
  | generateKey => cases h
  | listKeys => cases h

/-- Wrapping a key, continued with what opens under the active KEK. -/
theorem embed_steady (hL : Reliable L kekOf) {m : KekManager} (hm : Agrees kekOf m) {jwk : Json}
    {kid : String} {iat : Nat} {nbf exp : Option Json} {f : String × String → Api β} {w : World}
    (h : ∀ token w', (protocol L kekOf).rely i w w' →
      L.jweDecrypt token (kekOf m.active.kid).secretJwk = .ok (embedClaims kid iat nbf exp jwk) →
        Steady L kekOf i (f (m.active.kid, token)) w') :
    Steady L kekOf i (embed m jwk kid iat nbf exp >>= f) w := by
  refine Safe.bind (safe_harmless rfl fun w' t _ _ hmove => ?_)
  cases hanswer : (perform L i t (.jweEncrypt m.active.wrapAlg m.active.wrapJwk
      (embedClaims kid iat nbf exp jwk) none) w').1 with
  | error message => exact fun _ _ _ => steady_done _ _
  | ok token =>
    obtain ⟨n, hn⟩ := encrypted hanswer
    intro w₁ hr₁ _
    refine h token w₁ ((protocol L kekOf).rely_trans i _ _ _ hmove hr₁) ?_
    exact hL.inverts m.active.kid n _ _ (by rw [hm.active]; exact hn)

theorem storeGenerated_steady (hL : Reliable L kekOf) (hm : Agrees kekOf cfg.kek) {acl : AclMap}
    {nbf exp : Option Nat} {g : GeneratedKey} {w : World}
    (hown : Own i g w) : Steady L kekOf i (storeGenerated cfg acl nbf exp g) w := by
  refine safe_harmless rfl fun w' t _ _ hmove => embed_steady hL hm fun token w₁ hr₁ hwrapped => ?_
  refine safe_ask fun w₂ hr₂ hw₂ t₂ => ?_
  have hown₂ := hr₂.2 g (hr₁.2 g (hmove.2 g hown))
  obtain ⟨hsound, hguar⟩ := step_insert (newKey g acl nbf exp cfg.kek.active.kid token) t₂ hw₂
    hown₂ ⟨rfl, rfl, rfl, rfl, _, _, _, hwrapped, ⟨nbf, rfl, .inl rfl⟩, ⟨exp, rfl, .inl rfl⟩⟩
  exact ⟨hsound, hguar, steady_lift fun _ _ => steady_done _ _⟩

theorem generate_steady (hL : Reliable L kekOf) (hm : Agrees kekOf cfg.kek) {spec : KeySpec}
    (hspec : Resolved spec) (acl : AclMap) (nbf exp : Option Nat) (w : World) :
    Steady L kekOf i (generate cfg spec acl nbf exp) w := by
  refine safe_ask fun w' _ hw' t => ?_
  obtain ⟨hsound, hguar, hown⟩ := step_generate hL (i := i) hspec t hw'
  refine ⟨hsound, hguar, ?_⟩
  cases hanswer : (perform L i t (.generateVaultKey spec) w').1 with
  | error message => exact steady_done _ _
  | ok g => exact storeGenerated_steady hL hm (hown g hanswer)

theorem resolveAcl_harmless : (resolveAcl user data).Calls (fun c => harmless c = true) := by
  refine resolveAcl_asks.mono fun c hc => ?_
  obtain ⟨userIds, rfl⟩ := hc
  rfl

theorem generateKeySpec_resolved {spec : KeySpec} (h : generateKeySpec user data = .ok spec) :
    Resolved spec := by
  obtain ⟨_, -, h⟩ := ok_of_bind h
  obtain ⟨_, -, h⟩ := ok_of_bind h
  refine ⟨data, ?_⟩
  cases hr : resolveKeyGenParams data with
  | error message => rw [hr] at h; cases h
  | ok spec' => rw [hr] at h; cases h; rfl

theorem generateKey_steady (hL : Reliable L kekOf) (hm : Agrees kekOf cfg.kek) (w : World) :
    Steady L kekOf i (generateKey cfg user data) w := by
  refine steady_lift fun spec hspec => safe_harmless rfl fun w' t _ _ _ => ?_
  refine steady_lift fun _ _ => steady_lift fun _ _ => ?_
  refine (steady_of_calls resolveAcl_harmless _).seq fun acl w'' => ?_
  exact (generate_steady hL hm (generateKeySpec_resolved hspec) acl _ _ w'').seq
    fun _ _ => steady_done _ _

theorem listKeys_harmless : (Handlers.listKeys user data).Calls (fun c => harmless c = true) := by
  refine calls_lift fun _ => calls_lift fun _ => Prog.Calls.bind ?_ fun _ => trivial
  exact calls_ask rfl fun r => calls_lift fun rows => calls_ask rfl fun _ => trivial

theorem handler_steady (hL : Reliable L kekOf) (hm : Agrees kekOf cfg.kek) (op : Operation)
    (w : World) : Steady L kekOf i (handler L cfg user data op) w := by
  cases hK : keyOperation L cfg data op with
  | some K =>
    rw [handler_access hK]
    exact access_steady hm (finish_harmless hK) w
  | none =>
    cases op with
    | generateKey => exact generateKey_steady hL hm w
    | healthcheck =>
      have hcalls : (healthcheck data).Calls (fun c => harmless c = true) :=
        calls_lift fun _ => calls_ask rfl fun _ => trivial
      exact steady_of_calls hcalls w
    | listKeys => exact steady_of_calls listKeys_harmless w
    | _ => cases hK

theorem appendEvents_harmless {env : Envelope} (outcome : Outcome) :
    (appendEvents user env outcome).Calls (fun c => harmless c = true) := by
  refine calls_ask rfl fun r => calls_lift fun _ => ?_
  split
  · exact calls_ask rfl fun _ => Prog.calls_done _
  · trivial

/-- After its handler a request only appends. -/
theorem respond_steady (outcome : Outcome) (env : Envelope) (w : World) : Steady L kekOf i
    (if auditedOps.contains env.request then do
      match ← (appendEvents user env outcome).attempt with
      | .ok () => return answer env.op outcome
      | .error _ => return internalError (some env.op)
    else return answer env.op outcome) w := by
  split
  · refine (steady_of_calls (appendEvents_harmless outcome).attempt w).seq fun r w' => ?_
    split <;> exact steady_done _ _
  · exact steady_done _ _

theorem dispatch_steady (hL : Reliable L kekOf) (hm : Agrees kekOf cfg.kek) (env : Envelope)
    (w : World) : Steady L kekOf i (dispatch L cfg user env) w := by
  unfold dispatch lookupHandler
  cases hop : Operation.ofRequest env.request with
  | some op =>
    have hsteady : Steady L kekOf i (handler L cfg user env.data op) w := handler_steady hL hm op w
    exact (Safe.attempt hsteady).seq fun r w' => respond_steady _ env w'
  | none =>
    dsimp only
    by_cases hproto : objectPrototype.contains env.request = true
    · simp only [hproto, if_true]
      exact (Safe.attempt (steady_done _ w)).seq fun r w' => respond_steady _ env w'
    · simp only [hproto]
      exact steady_done _ _

theorem event_harmless (cmd : Command) (fields : JsValue.Props) :
    (event cmd fields).Calls (fun c => harmless c = true) :=
  calls_ask rfl fun _ => Prog.calls_done _

theorem command_harmless (o : Opts) {cmd : Command} (h : cmd ≠ .rewrap) :
    (command L o cmd).Calls (fun c => harmless c = true) := by
  refine (command_calls o cmd).mono fun c hc => ?_
  rcases permitted_cases hc with hspares | ⟨-, kid, acl, rfl⟩ | ⟨hrewrap, -⟩
  · cases c <;> first | rfl | cases hspares
  · rfl
  · exact absurd hrewrap h

theorem rewrapRow_steady (hL : Reliable L kekOf) {m : KekManager} (hm : Agrees kekOf m)
    {row : VaultKey} {w : World} (hw : Sound L kekOf w) (hrow : Stored L kekOf w row) :
    Steady L kekOf i (rewrapRow m row) w := by
  obtain ⟨g, hg, hholds⟩ := hrow.holds
  have hextract := safe_keep (i := i) (R := fun w => Minted w g ∧ Stored L kekOf w row)
    (extract_safe hm hholds (hw.minted_kid hg) w)
    (fun _ _ hgrow h => ⟨h.1.mono hgrow, h.2.mono hgrow⟩) ⟨hg, hrow⟩
  refine Safe.bind (Safe.attempt (hextract.mono fun r w₁ _ h => ?_))
  obtain ⟨hjwk, hg₁, hrow₁⟩ := h
  cases r with
  | error e => exact steady_done _ _
  | ok jwk =>
    have hjwk := hjwk jwk rfl
    subst hjwk
    refine safe_harmless rfl fun w₂ t₂ _ _ hmove => ?_
    refine embed_steady hL hm fun token w₃ hr₃ hwrapped => ?_
    refine safe_ask fun w₄ hr₄ hw₄ t₄ => ?_
    have hgrow : Grows w₁ w₄ := (hmove.1.trans hr₃.1).trans hr₄.1
    obtain ⟨hsound, hguar⟩ := step_reembed (i := i) t₄ hw₄ (hrow₁.mono hgrow) (hg₁.mono hgrow)
      hholds.keyId hwrapped
    exact ⟨hsound, hguar, steady_lift fun _ _ => steady_done _ _⟩

/-- Every row of the loop stays the stored row of its key until its turn comes. -/
theorem rewrapRows_steady (hL : Reliable L kekOf) {m : KekManager} (hm : Agrees kekOf m)
    {rows : List VaultKey} (rewrapped skipped : Nat) {w : World} (hw : Sound L kekOf w)
    (hrows : ∀ row ∈ rows, Stored L kekOf w row) :
    Steady L kekOf i (rewrapRows m rows rewrapped skipped) w := by
  induction rows generalizing rewrapped skipped w with
  | nil => exact steady_done _ _
  | cons row rest ih =>
    have hrow := safe_keep (R := fun w => ∀ row ∈ rest, Stored L kekOf w row)
      (rewrapRow_steady (i := i) hL hm hw (hrows row (List.mem_cons_self ..)))
      (fun _ _ hgrow h row' hrow' => (h row' hrow').mono hgrow)
      (fun row' hrow' => hrows row' (List.mem_cons_of_mem _ hrow'))
    refine Safe.bind (hrow.mono fun r w₁ hw₁ h => ?_)
    cases r with
    | error e => exact steady_done _ _
    | ok done =>
      cases done with
      | true => exact ih (rewrapped + 1) skipped hw₁ h.2
      | false => exact ih rewrapped (skipped + 1) hw₁ h.2

theorem rewrap_steady (hL : Reliable L kekOf) {o : Opts}
    (hm : ∀ m, o.kek.toOption = some m → Agrees kekOf m) (w : World) :
    Steady L kekOf i (rewrap o) w := by
  unfold rewrap
  cases hkek : o.kek with
  | error message => exact steady_done _ _
  | ok m =>
    have hm : Agrees kekOf m := hm m (by rw [hkek]; rfl)
    refine safe_harmless rfl fun w' t _ hw' hmove => ?_
    cases hanswer : (perform L i t (.keysNotEmbeddedWith m.active.kid) w').1 with
    | error message => exact steady_done _ _
    | ok rows =>
      have hstep := step_harmless (i := i)
        (show harmless (.keysNotEmbeddedWith m.active.kid) = true from rfl) t hw'
      refine (rewrapRows_steady hL hm 0 0 hstep.1 fun row hrow => ?_).seq fun counts w'' =>
        steady_of_calls ((event_harmless _ _).bind fun _ => Prog.calls_done _) w''
      obtain ⟨row', hrow', rfl⟩ := stale hanswer row hrow
      exact (hw'.rows row' hrow').mono hstep.2.1.1

variable {activities : ThreadId → Activity}

theorem program_steady (hL : Reliable L kekOf) (hc : Configured kekOf activities) (i : ThreadId)
    (w : World) : Steady L kekOf i ((activities i).program L) w := by
  cases hact : activities i with
  | operation cfg user env =>
    have hm := hc i cfg.kek (by rw [hact]; rfl)
    exact (dispatch_steady hL hm env w).seq fun _ _ => steady_done _ _
  | admin o cmd =>
    have hcommand : Steady L kekOf i (command L o cmd) w := by
      by_cases hcmd : cmd = .rewrap
      · subst hcmd
        exact rewrap_steady hL (fun m hm => hc i m (by rw [hact]; exact hm)) w
      · exact steady_of_calls (command_harmless o hcmd) w
    exact hcommand.seq fun _ _ => steady_done _ _
  | sweep cfg =>
    have hcalls : (KeyStore.sweep cfg).Calls (fun c => harmless c = true) :=
      calls_ask rfl fun _ => Prog.calls_done _
    exact (steady_of_calls hcalls w).seq fun _ _ => steady_done _ _
  | restart =>
    have hcalls : cacheClear.Calls (fun c => harmless c = true) :=
      calls_ask rfl fun _ => Prog.calls_done _
    exact (steady_of_calls hcalls w).seq fun _ _ => steady_done _ _

end

/-- A vault with these users and no keys yet. -/
def start (clock : Nat) (users : UserTable) : World := { fresh clock with users := users }

/-- The recorded run of the activities under a schedule. -/
def runs (L : Libraries) (activities : ThreadId → Activity) (w : World)
    (schedule : Schedule Turn) : Pool Ans Thrown (Option Response) (Recorded Ans World) :=
  Pool.exec (record (perform L)) schedule ⟨fun i => (activities i).program L, ⟨w, []⟩⟩

theorem start_sound (L : Libraries) (kekOf : String → Kek) (clock : Nat) (users : UserTable) :
    Sound L kekOf (start clock users) where
  minted := fun _ he => by cases he
  mintedKids := List.nodup_nil
  bornKids := List.nodup_nil
  bornMinted := fun _ hkey => by cases hkey
  rows := fun _ hrow => by cases hrow
  cached := fun _ he => by cases he

theorem runs_linked (L : Libraries) (activities : ThreadId → Activity) (w : World)
    (schedule : Schedule Turn) :
    Linked (perform L) w (runs L activities w schedule).state.trace
      (runs L activities w schedule).state.now :=
  exec_linked (perform L) schedule ⟨fun i => (activities i).program L, ⟨w, []⟩⟩ rfl

/-- In every run the vault is sound, in every state it passes through. -/
theorem runs_sound {L : Libraries} {kekOf : String → Kek} {activities : ThreadId → Activity}
    (hL : Reliable L kekOf) (hc : Configured kekOf activities) (clock : Nat) (users : UserTable)
    (schedule : Schedule Turn) :
    Sound L kekOf (runs L activities (start clock users) schedule).state.now ∧
      Kept (protocol L kekOf) (runs L activities (start clock users) schedule).state.trace :=
  exec_kept (P := protocol L kekOf)
    (W := ⟨fun i => (activities i).program L, ⟨start clock users, []⟩⟩)
    (start_sound L kekOf clock users) (fun i => program_steady hL hc i _)
    (fun _ he => by cases he) schedule

end KeyLifecycle
