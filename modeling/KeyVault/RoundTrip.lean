import KeyVault.Freshness
import KeyVault.HandlerRuns

/-!
# Round trips of tokens

A token that create-jwe or create-jwt has handed out, in any run, opens to its
payload in every later state that still holds the key, for every caller with the
right to open it and whatever has happened to the key's row in between.
-/

namespace RoundTrip

open JsValue Acl KeyGen Errors Programs Interleaving Vault KeyStore Handlers KeyOperations
  CallEffects Server KeyInvariant KeyLifecycle KeyHalves Durability Freshness Tables

section

variable {L : Libraries} {kekOf : String → Kek} {i j : ThreadId} {cfg : Config} {user : VaultUser}
  {env : Envelope}

def Smooth (s : Session) : Prop := ∀ t ∈ s.turns, t.fails = none

/-- The latest moment a session knows of. -/
def deadline (s : Session) : Nat := s.world.clock + (s.turns.map Turn.elapsed).sum

/-- A moment of the session. -/
def During (s : Session) (now : Nat) : Prop := s.world.clock ≤ now ∧ now ≤ deadline s

/-- A later part of the session. -/
structure Later (s s' : Session) : Prop where
  smooth : Smooth s → Smooth s'
  clock : s.world.clock ≤ s'.world.clock
  deadline : deadline s' = deadline s

theorem Later.refl (s : Session) : Later s s := ⟨fun h => h, Nat.le_refl _, rfl⟩

theorem Later.trans {s s' s'' : Session} (h : Later s s') (h' : Later s' s'') : Later s s'' :=
  ⟨fun hs => h'.smooth (h.smooth hs), Nat.le_trans h.clock h'.clock, h'.deadline.trans h.deadline⟩

theorem Later.during {s s' : Session} (h : Later s s') {now : Nat} (hnow : During s' now) :
    During s now :=
  ⟨Nat.le_trans h.clock hnow.1, h.deadline ▸ hnow.2⟩

theorem during_now (s : Session) : During s s.world.clock :=
  ⟨Nat.le_refl _, Nat.le_add_right _ _⟩

theorem Smooth.head {s : Session} (h : Smooth s) : (s.turns.headD {}).fails = none := by
  cases hs : s.turns with
  | nil => rfl
  | cons t rest => exact h t (by simp [hs])

theorem later_of_clock {s s' : Session} (hturns : s'.turns = s.turns.tail)
    (hclock : s'.world.clock = s.world.clock + (s.turns.headD {}).elapsed) : Later s s' := by
  refine ⟨fun h t ht => h t (List.mem_of_mem_tail (hturns ▸ ht)), ?_, ?_⟩
  · omega
  · unfold RoundTrip.deadline
    rw [hturns, hclock]
    cases s.turns with
    | nil => rfl
    | cons t rest =>
      simp only [List.headD_cons, List.tail_cons, List.map_cons, List.sum_cons]
      omega

theorem later_serve (c : Call) (s : Session) : Later s (serve L j c s).2 :=
  later_of_clock (serve_turns c s) (perform_clock _ _ _)

theorem later_pass (s : Session) : Later s s.pass := later_of_clock rfl rfl

theorem later_run {α : Type} (p : Api α) (s : Session) : Later s (p.run (serve L j) s).2 :=
  Prog.run_preserves (I := Later s) (fun c s' h => h.trans (later_serve c s')) p (Later.refl s)

theorem serve_smooth {s : Session} (h : Smooth s) (c : Call) :
    serve L j c s =
      ((effect L j c s.pass.world).1, ⟨s.turns.tail, (effect L j c s.pass.world).2⟩) := by
  simp only [serve, perform_succeeds h.head]
  rfl

/-- In a sound vault an unwrap yields the key, from the cache or from the row. -/
theorem unwrap_run {s : Session} (hs : Smooth s) (hsound : Sound L kekOf s.world)
    (hm : Agrees kekOf cfg.kek) {row : VaultKey} {g : GeneratedKey} (hg : Minted s.world g)
    (hholds : Holds L kekOf row g) (hkek : (cfg.kek.byId row.embeddingKeyId).isSome) :
    ((unwrap L cfg row).run (serve L j) s).1 = .ok g.secretKey := by
  have hkid := hsound.minted_kid hg
  have hextracts := extracts_of_holds hholds hkid hm hkek
  unfold unwrap
  split
  · exact hextracts j s hs.head
  · simp only [ask_bind, Prog.run_call, serve_smooth hs]
    have hlater :=
      later_serve (L := L) (j := j) (.cacheLookup row.keyId (L.sha256 row.embeddedKey)) s
    rw [serve_smooth hs] at hlater
    cases hlookup : (lookupCache s.pass.world.cache row.keyId (L.sha256 row.embeddedKey)
        s.pass.world.clock).1 with
    | some jwk =>
      simp only [effect, hlookup]
      obtain ⟨entry, hentry, -, -, rfl⟩ := lookupCache_hit hlookup
      obtain ⟨g', hg', hkid', hjwk⟩ := hsound.cached _ hentry
      have hgen : g' = g := hsound.minted_unique hg' hg (hkid'.trans hholds.keyId)
      rw [hjwk, hgen]
      rfl
    | none =>
      simp only [effect, hlookup]
      have hrun := hextracts j _ (hlater.smooth hs).head
      rw [Prog.run_bind]
      simp only [effect, hlookup] at hrun
      generalize Prog.run (serve L j)
        (extract cfg.kek row.embeddingKeyId row.embeddedKey row.keyId) _ = result at hrun
      obtain ⟨r, s'⟩ := result
      cases hrun
      rfl

theorem keyHalf_run {s : Session} (hs : Smooth s) (hsound : Sound L kekOf s.world)
    (hm : Agrees kekOf cfg.kek) {row : VaultKey} {g : GeneratedKey} (hg : Minted s.world g)
    (hholds : Holds L kekOf row g) (hkek : (cfg.kek.byId row.embeddingKeyId).isSome)
    (half : KeyHalf) : ((keyHalf L cfg row half).run (serve L j) s).1 = .ok (halfOf g half) := by
  have hunwrap : ((unwrapKey L cfg row).run (serve L j) s).1 = .ok g.secretKey := by
    have hrun := unwrap_run (j := j) hs hsound hm hg hholds hkek
    rw [unwrapKey, Prog.run_tryCatch]
    generalize (unwrap L cfg row).run (serve L j) s = result at hrun
    obtain ⟨r, s'⟩ := result
    cases hrun
    rfl
  cases half with
  | stored =>
    rw [halfOf, ← hholds.publicKey]
    rfl
  | secret => exact hunwrap
  | publicOrSecret =>
    simp only [keyHalf, publicHalf, halfOf, publicOf, hholds.kty]
    split
    · exact hunwrap
    · rw [← hholds.publicKey]
      rfl

/-- What a process needs for an operation of this class on the row, while `s` lasts. -/
structure Ready (kekOf : String → Kek) (cfg : Config) (user : VaultUser) (opClass : OpClass)
    (row : KeyRow) (s : Session) : Prop where
  smooth : Smooth s
  stored : row ∈ s.world.keys.rows
  agrees : Agrees kekOf cfg.kek
  hasKek : (cfg.kek.byId row.embeddingKeyId).isSome
  granted : granted user row.toVaultKey opClass = true
  inWindow : ∀ now, During s now → inWindow row.toVaultKey now = true

/-- A ready operation comes to its finish, with its half of the key. -/
theorem access_run {s : Session} {K : KeyOperation} {row : KeyRow}
    (h : Ready kekOf cfg user K.opClass row s) (hsound : Sound L kekOf s.world)
    (htarget : K.target = .ok row.keyId) (hfits : K.fits row.toVaultKey = .ok ())
    {g : GeneratedKey} (hg : Minted s.world g) (hholds : Holds L kekOf row.toVaultKey g) :
    ∃ s', Later s s' ∧ (access L cfg user K).run (serve L j) s =
      (K.finish row.keyId row.toVaultKey (halfOf g K.half)).run (serve L j) s' := by
  have hlater : Later s s.pass.pass := (later_pass s).trans (later_pass s.pass)
  have hauthorized : (authorizedKey user row.keyId K.opClass).run (serve L j) s =
      (.ok row.toVaultKey, s.pass.pass) := by
    rw [HandlerRuns.authorizedKey_run L j user row.keyId K.opClass h.smooth.head]
    simp only [show s.world.keys.find row.keyId = some row from Table.find_of_mem h.stored,
      h.granted, if_true, h.inWindow _ (hlater.during (during_now _))]
  have hhalf := keyHalf_run (j := j) (s := s.pass.pass) (hlater.smooth h.smooth)
    ((hsound.tick _).tick _) h.agrees hg hholds h.hasKek K.half
  have hlaterHalf := hlater.trans
    (later_run (L := L) (j := j) (keyHalf L cfg row.toVaultKey K.half) s.pass.pass)
  simp only [access, htarget, Prog.liftM_eq, Prog.done_ok_bind]
  rw [Prog.run_bind_ok hauthorized]
  simp only [onRow, hfits, Prog.liftM_eq, Prog.done_ok_bind]
  cases hrun : (keyHalf L cfg row.toVaultKey K.half).run (serve L j) s.pass.pass with
  | mk r s' =>
    rw [hrun] at hhalf hlaterHalf
    cases hhalf
    exact ⟨s', hlaterHalf, Prog.run_bind_ok hrun⟩

/-- A handler that came to its result without a failure around it is answered so. -/
theorem dispatch_answers {op : Operation} (hop : env.request = op.request) {s : Session}
    (hs : Smooth s) {result : HandlerResult}
    (h : ((handler L cfg user env.data op).run (serve L j) s).1 = .ok result) :
    ((dispatch L cfg user env).run (serve L j) s).1 = .ok (answer env.op (.ok result)) := by
  have hlater := later_run (L := L) (j := j) (handler L cfg user env.data op) s
  rw [Dispatch.dispatch_request L cfg user j hop]
  generalize (handler L cfg user env.data op).run (serve L j) s = run at h hlater
  obtain ⟨r, s'⟩ := run
  cases h
  exact congrArg Except.ok (Dispatch.afterwards_answer _
    fun t ht => hlater.smooth hs t (List.mem_of_mem_take ht))

/-- The request data carries this token, with or without the key id. -/
structure Presents (data : Json) (token kid : String) : Prop where
  props : checkProps data ["token", "kid"] = .ok ()
  token : data.get? "token" = some (.str token)
  kid : data.get? "kid" = none ∨
    ∃ k, data.get? "kid" = some (.str k) ∧ isUuid k = true ∧ toLowerCase k = kid

/-- The header of a token leads to its key, whether the request names the key or not. -/
theorem presented {data : Json} {token kid alg : String} {jwk : Json}
    (h : Presents data token kid) (hhead : Headed L token alg jwk)
    (hkid : jwk.get? "kid" = some (.str kid)) (huuid : isUuid kid = true ∧ toLowerCase kid = kid) :
    tokenText data = token ∧ tokenTarget L data = .ok kid ∧
      (tokenHeader L data).get? "alg" = some (.str alg) := by
  obtain ⟨hne, props, hparse, halg, hpropsKid⟩ := hhead
  have hdecode : decodeProtectedHeader L (data.get? "token") = .ok (token, .obj props) := by
    simp only [decodeProtectedHeader, h.token, hne, if_false, hparse]
  have hheader : headerKid (.obj props) = .ok (some kid) := by
    simp only [headerKid, get?_obj, hpropsKid, hkid, huuid.1, if_true, huuid.2]
  obtain ⟨htext, htokenHeader⟩ := decoded_token hdecode
  refine ⟨htext.symm, ?_, by rw [← htokenHeader]; exact halg⟩
  simp only [tokenTarget, h.props, hdecode]
  rcases h.kid with hnone | ⟨k, hk, hkuuid, hlower⟩
  · simp only [hnone]
    simp [resolveKid, requestKid, hheader, bind, Except.bind, pure, Except.pure]
  · simp only [hk]
    simp [resolveKid, requestKid, requireKid, hkuuid, hlower, hheader, Except.map,
      bind, Except.bind,
      pure, Except.pure]

/-- The answer carries this token. -/
def Carries (r : Response) (token : String) : Prop :=
  r.isOk ∧ r.body.get? "data" = some (.obj [("token", .str token)])

/-- The answer carries this payload, next to the header of the token. -/
def Opens (r : Response) (payload : Json) : Prop :=
  r.isOk ∧ ∃ header, r.body.get? "data" = some (.obj [("header", header), ("data", payload)])

theorem answer_data (op : String) (result : HandlerResult) :
    (answer op (.ok result)).body.get? "data" = result.data := by
  obtain ⟨data, audit⟩ := result
  cases data <;> simp [answer, okBody, literal, List.lookup]

theorem answer_opens (op : String) (header payload : Json) (audit : Option Props) :
    Opens (answer op (.ok ⟨some (.obj [("header", header), ("data", payload)]), audit⟩)) payload :=
  ⟨(Dispatch.answer_ok_iff _ _).mpr ⟨_, rfl⟩, header, answer_data _ _⟩

/-- Thread `i` has handed out a token of this operation for this payload and key. -/
def Issued (activities : ThreadId → Activity)
    (W : Pool Ans Thrown (Option Response) (Recorded Ans World)) (i : ThreadId) (op : Operation)
    (kid : String) (payload : Json) (token : String) : Prop :=
  ∃ cfg user env r, activities i = .operation cfg user env ∧ env.request = op.request ∧
    requireKid (env.data.get? "kid") = .ok kid ∧ env.data.get? "data" = some payload ∧
    W.threads i = .done (.ok (some r)) ∧ Carries r token

variable {activities : ThreadId → Activity} {clock : Nat} {users : UserTable}
  {schedule : Schedule Turn} {kid token : String} {payload : Json}

/-- A handed out token is the result of the key operation behind it. -/
theorem issued_access (hL : Reliable L kekOf) (hc : Configured kekOf activities)
    {W : Pool Ans Thrown (Option Response) (Recorded Ans World)}
    (hW : W = runs L activities (start clock users) schedule) {op : Operation}
    (h : Issued activities W i op kid payload token)
    (hK : ∀ cfg data, ∃ K, keyOperation L cfg data op = some K ∧
      ∀ kid', K.target = .ok kid' → requireKid (data.get? "kid") = .ok kid') :
    ∃ cfg data K row g result, keyOperation L cfg data op = some K ∧
      data.get? "data" = some payload ∧ K.fits row = .ok () ∧ Minted W.state.now g ∧
      Holds L kekOf row g ∧ row.keyId = kid ∧
      Plays W.state.trace i (K.finish kid row (halfOf g K.half)) (.ok result) ∧
      result.data = some (.obj [("token", .str token)]) := by
  obtain ⟨cfg, user, env, r, hact, hop, hkid, hpayload, hdone, hok, hdata⟩ := h
  subst hW
  obtain ⟨hsound, hkept⟩ := runs_sound hL hc clock users schedule
  have hlinked := runs_linked L activities (start clock users) schedule
  have hplays := exec_plays (perform L) schedule
    ⟨fun i => (activities i).program L, ⟨start clock users, []⟩⟩ hdone
  simp only [hact, Activity.program] at hplays
  obtain ⟨r', hr', heq⟩ := hplays.bind_ok
  cases heq
  obtain ⟨result, hresult, rfl⟩ := dispatch_plays hr' hok hop
  obtain ⟨K, hKop, htargets⟩ := hK cfg env.data
  rw [handler_access hKop] at hresult
  obtain ⟨kid', row, jwk, htarget, hmade, -, -, hfits, hhalf, hfinish⟩ := access_plays hresult
  cases hkid.symm.trans (htargets kid' htarget)
  obtain ⟨hstored, hrowKid⟩ := loaded_stored hlinked hkept hmade
  obtain ⟨g, hg, hholds⟩ := hstored.holds
  have hm := hc i cfg.kek (by rw [hact]; rfl)
  rw [keyHalf_plays hlinked hkept hsound hm hg hholds hhalf] at hfinish
  exact ⟨cfg, env.data, K, row, g, result, hKop, hpayload, hfits, hg, hholds, hrowKid, hfinish,
    (answer_data _ _).symm.trans hdata⟩

theorem createJwe_target {data : Json} {kid' : String} (h : (createJweOp data).target = .ok kid') :
    requireKid (data.get? "kid") = .ok kid' := by
  obtain ⟨_, -, h⟩ := ok_of_bind h
  obtain ⟨kid, hkid, h⟩ := ok_of_bind h
  obtain ⟨_, -, h⟩ := ok_of_bind h
  obtain ⟨_, -, h⟩ := ok_of_bind h
  cases h
  exact hkid

theorem createJwt_target {data : Json} {kid' : String} (h : (createJwtOp data).target = .ok kid') :
    requireKid (data.get? "kid") = .ok kid' := by
  obtain ⟨_, -, h⟩ := ok_of_bind h
  obtain ⟨kid, hkid, h⟩ := ok_of_bind h
  obtain ⟨_, -, h⟩ := ok_of_bind h
  cases h
  exact hkid

theorem fitsAlgs_ok {algs : List String} {row : VaultKey} (h : fitsAlgs algs row = .ok ()) :
    algs.contains row.alg = true := require_ok.mp h

/-- A token of create-jwe encrypts the payload for the public half of its key. -/
theorem issued_jwe (hL : Reliable L kekOf) (hc : Configured kekOf activities)
    {W : Pool Ans Thrown (Option Response) (Recorded Ans World)}
    (hW : W = runs L activities (start clock users) schedule)
    (h : Issued activities W i .createJwe kid payload token) :
    ∃ g n compress, Minted W.state.now g ∧ g.kid = kid ∧ jweAlgs.contains g.alg = true ∧
      L.jweEncrypt n g.alg (publicOf g) payload compress = .ok token := by
  obtain ⟨cfg, data, K, row, g, result, hK, hpayload, hfits, hg, hholds, hkid, hfinish, hresult⟩ :=
    issued_access hL hc hW h fun cfg data => ⟨_, rfl, fun kid' => createJwe_target⟩
  subst hW
  obtain ⟨-, hkept⟩ := runs_sound hL hc clock users schedule
  have hlinked := runs_linked L activities (start clock users) schedule
  cases hK
  obtain ⟨answer, hmade, hfinish⟩ := plays_ask hfinish
  obtain ⟨token', htoken, hfinish⟩ := plays_lift hfinish
  cases hfinish
  cases hresult
  obtain rfl := orThrow_eq_ok.mp htoken
  obtain ⟨before, t, hanswer, -, -⟩ := made_performed hlinked hkept hmade
  obtain ⟨n, hn⟩ := encrypted hanswer
  rw [hpayload, Option.getD_some, hholds.alg] at hn
  exact ⟨g, n, _, hg, hholds.keyId.symm.trans hkid, hholds.alg ▸ fitsAlgs_ok hfits, hn⟩

/-- A token of create-jwt signs the payload with the secret half of its key. -/
theorem issued_jwt (hL : Reliable L kekOf) (hc : Configured kekOf activities)
    {W : Pool Ans Thrown (Option Response) (Recorded Ans World)}
    (hW : W = runs L activities (start clock users) schedule)
    (h : Issued activities W i .createJwt kid payload token) :
    ∃ g n, Minted W.state.now g ∧ g.kid = kid ∧ jwtAlgs.contains g.alg = true ∧
      L.jwtEncode n g.alg g.secretKey payload = .ok token := by
  obtain ⟨cfg, data, K, row, g, result, hK, hpayload, hfits, hg, hholds, hkid, hfinish, hresult⟩ :=
    issued_access hL hc hW h fun cfg data => ⟨_, rfl, fun kid' => createJwt_target⟩
  subst hW
  obtain ⟨-, hkept⟩ := runs_sound hL hc clock users schedule
  have hlinked := runs_linked L activities (start clock users) schedule
  cases hK
  obtain ⟨answer, hmade, hfinish⟩ := plays_ask hfinish
  cases answer with
  | error message =>
    simp only [signed] at hfinish
    split at hfinish <;> cases hfinish
  | ok token' =>
    cases hfinish
    cases hresult
    obtain ⟨before, t, hanswer, -, -⟩ := made_performed hlinked hkept hmade
    rw [perform_answered hanswer (fun _ => nofun)] at hanswer
    simp only [effect, hpayload, Option.getD_some, hholds.alg] at hanswer
    exact ⟨g, _, hg, hholds.keyId.symm.trans hkid, hholds.alg ▸ fitsAlgs_ok hfits, hanswer⟩

/-- A ready operation whose finish succeeds is answered with its result. -/
theorem ready_answers {op : Operation} (hop : env.request = op.request) {K : KeyOperation}
    (hK : keyOperation L cfg env.data op = some K) {s : Session} {row : KeyRow}
    (h : Ready kekOf cfg user K.opClass row s) (hsound : Sound L kekOf s.world)
    (htarget : K.target = .ok row.keyId) (hfits : K.fits row.toVaultKey = .ok ())
    {g : GeneratedKey} (hg : Minted s.world g) (hholds : Holds L kekOf row.toVaultKey g)
    {result : HandlerResult}
    (hfinish : ∀ s', Later s s' → ((K.finish row.keyId row.toVaultKey (halfOf g K.half)).run
      (serve L j) s').1 = .ok result) :
    ((dispatch L cfg user env).run (serve L j) s).1 = .ok (answer env.op (.ok result)) := by
  obtain ⟨s', hlater, hrun⟩ := access_run (j := j) h hsound htarget hfits hg hholds
  refine dispatch_answers hop h.smooth ?_
  rw [handler_access hK, hrun]
  exact hfinish s' hlater

/-- The one row of a key holds what was generated under its id. -/
theorem holds_of_kid {w : World} (hsound : Sound L kekOf w) {g : GeneratedKey} (hg : Minted w g)
    {row : KeyRow} (hrow : row ∈ w.keys.rows) (hkid : row.keyId = g.kid) :
    Holds L kekOf row.toVaultKey g := by
  obtain ⟨g', hg', hholds⟩ := (hsound.rows row hrow).holds
  have heq : g' = g := hsound.minted_unique hg' hg (hholds.keyId.symm.trans hkid)
  rwa [heq] at hholds

theorem fitsToken_ok {algs : List String} {header : Json} {row : VaultKey}
    (halgs : algs.contains row.alg = true) (hheader : header.get? "alg" = some (.str row.alg)) :
    fitsToken algs header row = .ok () := by
  simp only [fitsToken, fitsAlgs, halgs, hheader, require_true, beq_self_eq_true]
  rfl

theorem minted_matching {w : World} (h : Sound L kekOf w) {g : GeneratedKey} (hg : Minted w g) :
    Matching L g.alg (publicOf g) g.secretKey := by
  obtain ⟨i, hi⟩ := hg
  obtain ⟨n, -, spec, hspec, hgen⟩ := h.minted _ hi
  exact generated_matching hspec hgen

theorem minted_uuid (hL : Reliable L kekOf) {w : World} (h : Sound L kekOf w) {g : GeneratedKey}
    (hg : Minted w g) : isUuid g.kid = true ∧ toLowerCase g.kid = g.kid := by
  obtain ⟨i, hi⟩ := hg
  obtain ⟨n, -, spec, -, hgen⟩ := h.minted _ hi
  exact hL.uuids n _ (generated_draws hgen)

/-- Tokens round trip, over every run: whoever may open a token that the vault has
handed out, in any later state that holds the key, gets the payload back. -/
theorem tokens_round_trip (L : Libraries) (kekOf : String → Kek)
    (activities : ThreadId → Activity) (hL : Reliable L kekOf) (hcodec : Codec L)
    (hc : Configured kekOf activities) (clock : Nat) (users : UserTable)
    (schedule : Schedule Turn) :
    let W := runs L activities (start clock users) schedule
    (∀ i kid payload token, Issued activities W i .createJwe kid payload token →
      ∀ j cfg user env s row, s.world = W.state.now → row.keyId = kid →
        Ready kekOf cfg user .decrypt row s → env.request = "decrypt-jwe" →
          Presents env.data token kid →
            ∃ r, ((dispatch L cfg user env).run (serve L j) s).1 = .ok r ∧ Opens r payload) ∧
    (∀ i kid payload token, Issued activities W i .createJwt kid payload token →
      ∀ j cfg user env s row, s.world = W.state.now → row.keyId = kid →
        Ready kekOf cfg user .verify row s → (∀ now, During s now → Admits payload now) →
          env.request = "verify-jwt" → Presents env.data token kid →
            ∃ r, ((dispatch L cfg user env).run (serve L j) s).1 = .ok r ∧ Opens r payload) := by
  intro W
  obtain ⟨hsound, -⟩ := runs_sound hL hc clock users schedule
  constructor
  · intro i kid payload token hissued j cfg user env s row hworld hrow hready hop hpresents
    obtain ⟨g, n, compress, hg, hkid, halgs, htoken⟩ := issued_jwe hL hc rfl hissued
    have hmatching := minted_matching hsound hg
    have huuid := minted_uuid hL hsound hg
    rw [show (runs L activities (start clock users) schedule).state.now = s.world from hworld.symm]
      at hsound hg
    have hholds := holds_of_kid hsound hg hready.stored (hrow.trans hkid.symm)
    have hpublic : (publicOf g).get? "kid" = some (.str g.kid) := by
      obtain ⟨kid', hpub, hsec⟩ := hmatching.kid
      cases hsec.symm.trans (hsound.minted_kid hg)
      exact hpub
    obtain ⟨htext, htarget, hheader⟩ := presented (hkid ▸ hpresents)
      (hcodec.jweHeader n _ _ _ _ _ _ hmatching htoken) hpublic huuid
    have hfinish : ∀ s', Later s s' → (((decryptJweOp L env.data).finish row.keyId row.toVaultKey
        (halfOf g .secret)).run (serve L j) s').1 = .ok ⟨some (.obj
          [("header", tokenHeader L env.data), ("data", payload)]), auditKid row.keyId⟩ := by
      intro s' hlater
      simp only [decryptJweOp, htext, halfOf, ask_bind, Prog.run_call,
        serve_smooth (hlater.smooth hready.smooth), effect,
        hcodec.jwe n _ _ _ _ _ _ hmatching htoken]
      rfl
    have hop : env.request = Operation.decryptJwe.request := hop
    exact ⟨_, ready_answers hop rfl hready hsound (htarget.trans (by rw [hrow, hkid]))
      (fitsToken_ok (by rw [hholds.alg]; exact halgs) (by rw [hholds.alg]; exact hheader))
      hg hholds hfinish, answer_opens _ _ _ _⟩
  · intro i kid payload token hissued j cfg user env s row hworld hrow hready hadmits hop hpresents
    obtain ⟨g, n, hg, hkid, halgs, htoken⟩ := issued_jwt hL hc rfl hissued
    have hmatching := minted_matching hsound hg
    have huuid := minted_uuid hL hsound hg
    rw [show (runs L activities (start clock users) schedule).state.now = s.world from hworld.symm]
      at hsound hg
    have hholds := holds_of_kid hsound hg hready.stored (hrow.trans hkid.symm)
    obtain ⟨htext, htarget, hheader⟩ := presented (hkid ▸ hpresents)
      (hcodec.jwtHeader n _ _ _ _ _ hmatching htoken) (hsound.minted_kid hg) huuid
    have hfinish : ∀ s', Later s s' → (((verifyJwtOp L env.data).finish row.keyId row.toVaultKey
        (halfOf g .publicOrSecret)).run (serve L j) s').1 = .ok ⟨some (.obj
          [("header", tokenHeader L env.data), ("data", payload)]), auditKid row.keyId⟩ := by
      intro s' hlater
      have hnow : During s s'.pass.world.clock :=
        hlater.during ((later_pass s').during (during_now _))
      simp only [verifyJwtOp, htext, halfOf, ask_bind, Prog.run_call,
        serve_smooth (hlater.smooth hready.smooth), effect,
        hcodec.jwt n _ _ _ _ _ _ hmatching htoken (hadmits _ hnow)]
      rfl
    have hop : env.request = Operation.verifyJwt.request := hop
    exact ⟨_, ready_answers hop rfl hready hsound (htarget.trans (by rw [hrow, hkid]))
      (fitsToken_ok (by rw [hholds.alg]; exact halgs) (by rw [hholds.alg]; exact hheader))
      hg hholds hfinish, answer_opens _ _ _ _⟩

end

open Fixtures

/-- The one token of these libraries. -/
theorem working_encrypts {n : Nat} {alg : String} {pub sec payload : Json} {compress : Option Json}
    {token : String} (hmatching : Matching working alg pub sec)
    (h : working.jweEncrypt n alg pub payload compress = .ok token) :
    payload = .str "hello" ∧ alg = "A128KW" ∧ pub = wrapKey.secretKey ∧
      sec = wrapKey.secretKey ∧ token = wrapToken := by
  obtain ⟨jwkAlg, -, halg, -⟩ := hmatching.serves
  have hkek : pub ≠ kek.wrapJwk := by
    rintro rfl
    cases halg
  have hkek2 : pub ≠ kek2.wrapJwk := by
    rintro rfl
    cases halg
  have hsec : sec = pub := by
    cases hmatching.sameKey with
    | oct => rfl
    | pair hpair => rcases hpair with ⟨_, hpair⟩ | ⟨_, hpair⟩ | ⟨_, hpair⟩ <;> cases hpair
  simp only [working, hkek, hkek2, and_false, if_false] at h
  split at h
  · rename_i htoken
    obtain ⟨rfl, rfl, rfl⟩ := htoken
    cases h
    exact ⟨rfl, rfl, rfl, hsec, rfl⟩
  · cases h

theorem working_codec : Codec working where
  jwe := by
    intro n alg pub sec payload compress token hmatching h
    obtain ⟨rfl, rfl, rfl, rfl, rfl⟩ := working_encrypts hmatching h
    exact working_opens
  jweHeader := by
    intro n alg pub sec payload compress token hmatching h
    obtain ⟨rfl, rfl, rfl, rfl, rfl⟩ := working_encrypts hmatching h
    exact ⟨by decide +kernel, _, working_header, rfl, rfl⟩
  jwt := fun _ _ _ _ _ _ _ _ h => by cases h
  jwtHeader := fun _ _ _ _ _ _ _ h => by cases h

/-- Alice generates a key and encrypts with it; then the operator rewraps it. -/
def courier (i : ThreadId) : Activity :=
  if i = 0 then .operation config alice generateEnvelope
  else if i = 1 then .operation config alice encryptEnvelope
  else if i = 2 then .admin { actor := "ops", kek := .ok rotated } .rewrap
  else .restart

theorem courier_configured : Configured denoted courier := by
  intro i m hm
  unfold courier at hm
  repeat' split at hm
  · cases hm
    exact agrees_manager
  · cases hm
    exact agrees_manager
  · cases hm
    exact agrees_rotated
  · cases hm

def courierSchedule : Schedule Turn :=
  (List.replicate 6 0 ++ List.replicate 7 1 ++ List.replicate 6 2 ++ [3]).map
    (fun i => (i, { elapsed := 0 }))

theorem courier_issued :
    Issued courier (runs working courier (start 0 Table.empty) courierSchedule) 1 .createJwe keyId1
      (.str "hello") wrapToken := by
  have hdone : ((runs working courier (start 0 Table.empty) courierSchedule).threads 1).result? =
      some (.ok (some ⟨200, okBody opId (some (.obj [("token", .str wrapToken)])), false⟩)) := by
    decide +kernel
  exact ⟨config, alice, encryptEnvelope, _, rfl, rfl, by decide, rfl, Prog.result?_eq_some hdone,
    by decide, rfl⟩

/-- The row that the rewrap has left. -/
theorem courier_row :
    ∃ row ∈ (runs working courier (start 0 Table.empty) courierSchedule).state.now.keys.rows,
      row.keyId = keyId1 ∧ row.embeddingKeyId = "kek-2" ∧ row.notBefore = none ∧
        row.expiresAt = none ∧ granted alice row.toVaultKey .decrypt = true := by
  decide +kernel

/-- A restarted process that has only the new KEK as its active one opens the token. -/
theorem courier_round_trip :
    let W := runs working courier (start 0 Table.empty) courierSchedule
    W.state.now.keys.rows.map (fun row => row.embeddingKeyId) = ["kek-2"] ∧
    ∃ r, ((dispatch working { config with kek := rotated } alice decryptEnvelope).run
        (serve working 4) (quiet W.state.now)).1 = .ok r ∧ Opens r (.str "hello") := by
  intro W
  obtain ⟨row, hrow, hkid, hkek, hnbf, hexp, hgranted⟩ := courier_row
  refine ⟨by decide +kernel, ?_⟩
  refine (tokens_round_trip working denoted courier working_reliable working_codec
    courier_configured 0 Table.empty courierSchedule).1 1 keyId1 (.str "hello") wrapToken
    courier_issued 4 { config with kek := rotated } alice decryptEnvelope (quiet W.state.now) row
    rfl hkid ?_ rfl ⟨rfl, rfl, Or.inl rfl⟩
  exact {
    smooth := fun _ ht => by cases ht
    stored := hrow
    agrees := agrees_rotated
    hasKek := by rw [hkek]; rfl
    granted := hgranted
    inWindow := fun now _ => by simp [inWindow, hnbf, hexp] }

end RoundTrip
