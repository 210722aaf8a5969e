import KeyVault.AcceptedSpecs
import KeyVault.Provenance
import KeyVault.Recollection
import KeyVault.RequestChecks
import KeyVault.RoundTrip

/-!
# Algorithm confusion

verify-jwt and decrypt-jwe take the algorithm and a key id from a token that anybody can
have written. Neither touches the libraries or the unwrap cache before the decoded
header, the request and the stored row agree, and a stored row is of the key type that
its algorithm has.
-/

namespace AlgConfusion

open JsValue KeyGen Errors Programs Interleaving Recollection Vault KeyStore Handlers KeyOperations
  HandlerCalls CallEffects Server AuditTrail GenerateKeyRuns KeyInvariant KeyLifecycle KeyHalves
  Freshness Provenance KeySpecs RequestChecks Tables

/-- The row is of the key type that its algorithm has, and exactly the asymmetric rows
have a public JWK. -/
structure Typed (row : VaultKey) : Prop where
  kty : ∃ a, lookupAlg row.alg = some a ∧ a.kty = some row.kty
  publicKey : row.publicKey.isSome = true ↔ row.kty ≠ "oct"

variable {L : Libraries}

/-- A generated key has a public half unless it is symmetric. -/
theorem generated_public {n : Nat} {spec : KeySpec} {g : GeneratedKey}
    (h : generateVaultKey L n spec = .ok g) : g.publicKey.isSome = true ↔ g.kty ≠ "oct" := by
  unfold generateVaultKey at h
  split at h
  · cases hjwk : L.cipherKeyGen n spec.alg <;> rw [hjwk] at h <;> cases h
    simp [octKey]
  · cases hjwk : L.macKeyGen n spec.alg spec.bits <;> rw [hjwk] at h <;> cases h
    simp [octKey]
  · cases hpair : L.ecKeyGen n spec.crv <;> rw [hpair] at h <;> cases h
    simp [pairKey]
  · cases hpair : L.rsaKeyGen n spec.modulusLength <;> rw [hpair] at h <;> cases h
    simp [pairKey]
  · cases hpair : L.mlKemKeyGen n spec.variant <;> rw [hpair] at h <;> cases h
    simp [pairKey]
  · cases h

theorem lookupAlg_own : ∀ e ∈ keygenAlgs, lookupAlg e.1 = some e.2 := by decide

/-- There is no generator for a name that the algorithm table has inherited. -/
theorem generated_alg {n : Nat} {g : GeneratedKey} (h : Generated L n g) :
    ∃ a, lookupAlg g.alg = some a ∧ a.kty = some g.kty := by
  obtain ⟨spec, ⟨params, hresolve⟩, hgenerate⟩ := h
  rcases resolve_cases hresolve with ⟨a, hmem, hfits⟩ | hinherits
  · obtain ⟨halg, hkty⟩ :=
      (generates_of_fits (keygenAlgs_wellFormed _ hmem) hfits L n).returns g hgenerate
    refine ⟨a, ?_, ?_⟩
    · rw [halg]
      exact lookupAlg_own _ hmem
    · rw [hkty, hfits.kty]
  · obtain ⟨spec', hspec', -, hkind⟩ := resolve_inherited hinherits
    rw [hresolve] at hspec'
    cases hspec'
    simp only [generateVaultKey, hkind] at hgenerate
    cases hgenerate

theorem genuine_typed {row : VaultKey} (h : Genuine L row) : Typed row := by
  obtain ⟨n, g, hgenerated, hcarries⟩ := h
  constructor
  · rw [hcarries.alg, hcarries.kty]
    exact generated_alg hgenerated
  · rw [hcarries.publicKey, hcarries.kty]
    obtain ⟨spec, -, hgenerate⟩ := hgenerated
    exact generated_public hgenerate

inductive TokenOp where
  | verifyJwt
  | decryptJwe

namespace TokenOp

def operation : TokenOp → Operation
  | verifyJwt => .verifyJwt
  | decryptJwe => .decryptJwe

def algs : TokenOp → List String
  | verifyJwt => jwtAlgs
  | decryptJwe => jweAlgs

def half : TokenOp → KeyHalf
  | verifyJwt => .publicOrSecret
  | decryptJwe => .secret

/-- The library call that the token is for. -/
def opens (token : String) (jwk : Json) : TokenOp → Call
  | verifyJwt => .jwtDecode token jwk
  | decryptJwe => .jweDecrypt token jwk

def key (L : Libraries) (data : Json) : TokenOp → KeyOperation
  | verifyJwt => verifyJwtOp L data
  | decryptJwe => decryptJweOp L data

theorem keyOperation_eq {cfg : Config} (data : Json) (op : TokenOp) :
    keyOperation L cfg data op.operation = some (op.key L data) := by
  cases op <;> rfl

theorem key_target (data : Json) (op : TokenOp) : (op.key L data).target = tokenTarget L data := by
  cases op <;> rfl

theorem key_fits (data : Json) (op : TokenOp) :
    (op.key L data).fits = fitsToken op.algs (tokenHeader L data) := by
  cases op <;> rfl

theorem key_half (data : Json) (op : TokenOp) : (op.key L data).half = op.half := by
  cases op <;> rfl

end TokenOp

/-- The value is a key id that is the same but for its case. -/
def SameKid (value : Json) (kid : String) : Prop :=
  ∃ text, value = .str text ∧ toLowerCase text = toLowerCase kid

/-- The request or the token names the key, and neither names another one. -/
structure Names (data header : Json) (kid : String) : Prop where
  ofRequest : ∀ value, data.get? "kid" = some value → SameKid value kid
  ofToken : ∀ value, header.get? "kid" = some value → SameKid value kid
  named : (data.get? "kid").isSome = true ∨ (header.get? "kid").isSome = true

structure Guarded (op : TokenOp) (data header : Json) (row : VaultKey) : Prop where
  alg : header.get? "alg" = some (.str row.alg)
  listed : row.alg ∈ op.algs
  names : Names data header row.keyId

theorem sameKid_lower (text : String) : SameKid (.str text) (toLowerCase text) :=
  ⟨text, rfl, (toLowerCase_toLowerCase text).symm⟩

/-- What the resolution of the key id has checked. -/
theorem resolveKid_names {data header : Json} {kid : String}
    (h : resolveKid (data.get? "kid") header = .ok kid) : Names data header kid := by
  obtain ⟨reqKid, hreq, h⟩ := ok_of_bind h
  obtain ⟨hdrKid, hhdr, h⟩ := ok_of_bind h
  rcases requestKid_ok hreq with ⟨hdata, rfl⟩ | ⟨text, hdata, -, rfl⟩
  · rcases headerKid_ok hhdr with ⟨hheader, rfl⟩ | ⟨text', hheader, -, rfl⟩
    · cases h
    · cases h
      constructor
      · intro value hvalue
        rw [hdata] at hvalue
        cases hvalue
      · intro value hvalue
        rw [hheader] at hvalue
        cases hvalue
        exact sameKid_lower text'
      · exact Or.inr (by rw [hheader]; rfl)
  · rcases headerKid_ok hhdr with ⟨hheader, rfl⟩ | ⟨text', hheader, -, rfl⟩
    · cases h
      constructor
      · intro value hvalue
        rw [hdata] at hvalue
        cases hvalue
        exact sameKid_lower text
      · intro value hvalue
        rw [hheader] at hvalue
        cases hvalue
      · exact Or.inl (by rw [hdata]; rfl)
    · dsimp only at h
      split at h
      · rename_i hsame
        cases h
        constructor
        · intro value hvalue
          rw [hdata] at hvalue
          cases hvalue
          exact sameKid_lower text
        · intro value hvalue
          rw [hheader] at hvalue
          cases hvalue
          rw [hsame]
          exact sameKid_lower text'
        · exact Or.inl (by rw [hdata]; rfl)
      · cases h

/-- The target of a token operation is a key that is named, by a header that decodes. -/
theorem tokenTarget_ok {data : Json} {kid : String} (h : tokenTarget L data = .ok kid) :
    Decodes L data (tokenText data) (tokenHeader L data) ∧ Names data (tokenHeader L data) kid := by
  obtain ⟨-, -, h⟩ := ok_of_bind h
  obtain ⟨⟨token, header⟩, hdecode, h⟩ := ok_of_bind h
  obtain ⟨rfl, rfl⟩ := decoded_token hdecode
  exact ⟨decodes_header hdecode, resolveKid_names h⟩

theorem fitsToken_guards {algs : List String} {header : Json} {row : VaultKey}
    (h : fitsToken algs header row = .ok ()) :
    header.get? "alg" = some (.str row.alg) ∧ row.alg ∈ algs := by
  obtain ⟨_, hlisted, halg⟩ := ok_of_bind h
  have hlisted := require_ok.mp hlisted
  have halg := require_ok.mp halg
  exact ⟨by simpa using halg, by simpa using hlisted⟩

/-- Calls that give the libraries a key or a token, or touch the unwrap cache. -/
def secretive : Call → Bool
  | .generateVaultKey _ => true
  | .jweEncrypt _ _ _ _ => true
  | .jweDecrypt _ _ => true
  | .jwtEncode _ _ _ => true
  | .jwtDecode _ _ => true
  | .cacheLookup _ _ => true
  | .cacheFill _ _ _ => true
  | _ => false

/-- The call is a step of unwrapping the secret of the row. -/
inductive Unwraps (L : Libraries) (cfg : Config) (row : VaultKey) : Call → Prop where
  | lookup : Unwraps L cfg row (.cacheLookup row.keyId (L.sha256 row.embeddedKey))
  | decrypt {kek : Kek} : cfg.kek.byId row.embeddingKeyId = some kek →
      Unwraps L cfg row (.jweDecrypt row.embeddedKey kek.secretJwk)
  | fill (entry : CacheEntry) (max : Nat) : Unwraps L cfg row (.cacheFill row.keyId entry max)

/-- The key is what the cache or the KEK has given for the row. -/
inductive Unwrapped (L : Libraries) (cfg : Config) (told : Told Ans) (row : VaultKey) (jwk : Json) :
    Prop where
  | cached {now : Nat} :
      (⟨.cacheLookup row.keyId (L.sha256 row.embeddedKey), (now, some jwk)⟩ : (c : Call) × Ans c) ∈
        told → Unwrapped L cfg told row jwk
  | decrypted {kek : Kek} {claims : Json} : cfg.kek.byId row.embeddingKeyId = some kek →
      (⟨.jweDecrypt row.embeddedKey kek.secretJwk, .ok claims⟩ : (c : Call) × Ans c) ∈ told →
        embeddedJwk claims row.keyId = .ok jwk → Unwrapped L cfg told row jwk

/-- The half of the row's key that the operation takes. -/
def Handed (L : Libraries) (cfg : Config) (told : Told Ans) (row : VaultKey) (jwk : Json) :
    KeyHalf → Prop
  | .stored => row.publicKey.getD .null = jwk
  | .secret => Unwrapped L cfg told row jwk
  | .publicOrSecret =>
    if row.kty = "oct" then Unwrapped L cfg told row jwk else row.publicKey.getD .null = jwk

/-- The request has loaded the row that its token names. -/
structure Cleared (L : Libraries) (op : TokenOp) (data : Json) (told : Told Ans) (kid : String)
    (row : VaultKey) : Prop where
  loaded : (⟨.keyById kid, .ok (some row)⟩ : (c : Call) × Ans c) ∈ told
  decodes : Decodes L data (tokenText data) (tokenHeader L data)
  alg : (tokenHeader L data).get? "alg" = some (.str row.alg)
  listed : row.alg ∈ op.algs
  names : Names data (tokenHeader L data) kid

/-- The call needs no secret, or a cleared row allows it. -/
def allowed (L : Libraries) (cfg : Config) (op : TokenOp) (data : Json) (told : Told Ans)
    (c : Call) : Prop :=
  secretive c = true → ∃ kid row, Cleared L op data told kid row ∧
    (Unwraps L cfg row c ∨ ∃ jwk, c = op.opens (tokenText data) jwk ∧
      Handed L cfg told row jwk op.half)

section

variable {cfg : Config} {user : VaultUser} {op : TokenOp} {data : Json}
  {told : Told Ans} {α β : Type}
  {Q : Told Ans → β → Prop}

/-- Every call of the program is allowed. -/
def Confined (L : Libraries) (cfg : Config) (op : TokenOp) (data : Json) (Q : Told Ans → α → Prop)
    (told : Told Ans) (p : Api α) : Prop :=
  Prog.Tracks Told.hear (allowed L cfg op data) Q told p

theorem allowed_open {c : Call} (h : secretive c = false) : allowed L cfg op data told c := by
  intro hsecretive
  rw [h] at hsecretive
  cases hsecretive

theorem confined_aside {p : Api α} (h : p.Calls (fun c => secretive c = false)) :
    Confined L cfg op data (fun _ _ => True) told p :=
  Prog.Tracks.of_calls h (fun _ _ hc => allowed_open hc) (fun _ _ _ _ => trivial) trivial

theorem Cleared.hear {kid : String} {row : VaultKey} (h : Cleared L op data told kid row) (c : Call)
    (a : Ans c) : Cleared L op data (told.hear c a) kid row :=
  ⟨List.mem_cons_of_mem _ h.loaded, h.decodes, h.alg, h.listed, h.names⟩

theorem Cleared.unwraps {kid : String} {row : VaultKey} (h : Cleared L op data told kid row)
    {c : Call} (hc : Unwraps L cfg row c) : allowed L cfg op data told c :=
  fun _ => ⟨kid, row, h, Or.inl hc⟩

/-- What an unwrap hands over has been unwrapped, and the row stays cleared. -/
def HandsOver (L : Libraries) (cfg : Config) (op : TokenOp) (data : Json) (kid : String)
    (row : VaultKey) (half : KeyHalf) (told : Told Ans) (jwk : Json) : Prop :=
  Cleared L op data told kid row ∧ Handed L cfg told row jwk half

theorem extract_confined {kid : String} {row : VaultKey} (h : Cleared L op data told kid row) :
    Confined L cfg op data (HandsOver L cfg op data kid row .secret) told
      (extract cfg.kek row.embeddingKeyId row.embeddedKey row.keyId) := by
  unfold extract
  cases hkek : cfg.kek.byId row.embeddingKeyId with
  | none => trivial
  | some kek =>
    refine tracks_ask (h.unwraps (.decrypt hkek)) fun answer => ?_
    refine tracks_lift fun claims hclaims => ?_
    obtain rfl : answer = .ok claims := orThrow_eq_ok.mp hclaims
    cases hjwk : embeddedJwk claims row.keyId with
    | error e => trivial
    | ok jwk =>
      constructor
      · exact h.hear _ _
      · exact .decrypted hkek List.mem_cons_self hjwk

theorem unwrap_confined {kid : String} {row : VaultKey} (h : Cleared L op data told kid row) :
    Confined L cfg op data (HandsOver L cfg op data kid row .secret) told (unwrap L cfg row) := by
  unfold unwrap
  by_cases hmax : cfg.cacheMaxEntries < 1
  · rw [if_pos hmax]
    exact extract_confined h
  · rw [if_neg hmax]
    refine tracks_ask (h.unwraps .lookup) fun answer => ?_
    obtain ⟨now, cached⟩ := answer
    cases cached with
    | some jwk =>
      constructor
      · exact h.hear _ _
      · exact .cached List.mem_cons_self
    | none =>
      refine (extract_confined (h.hear _ _)).bind fun told' jwk hjwk => ?_
      refine tracks_ask (hjwk.1.unwraps (.fill _ _)) fun _ => ?_
      constructor
      · exact hjwk.1.hear _ _
      · cases hjwk.2 with
        | cached hmem => exact .cached (List.mem_cons_of_mem _ hmem)
        | decrypted hkek hmem hok => exact .decrypted hkek (List.mem_cons_of_mem _ hmem) hok

theorem keyHalf_confined {kid : String} {row : VaultKey} (h : Cleared L op data told kid row)
    (half : KeyHalf) :
    Confined L cfg op data (HandsOver L cfg op data kid row half) told
      (keyHalf L cfg row half) := by
  have hunwrap : Confined L cfg op data (HandsOver L cfg op data kid row .secret) told
      (unwrapKey L cfg row) := by
    refine (unwrap_confined h).tryCatch fun told' e => ?_
    cases e <;> trivial
  cases half with
  | stored => exact ⟨h, rfl⟩
  | secret => exact hunwrap
  | publicOrSecret =>
    simp only [keyHalf, publicHalf]
    by_cases hoct : row.kty = "oct"
    · rw [if_pos hoct]
      refine hunwrap.mono fun told' jwk hjwk => ⟨hjwk.1, ?_⟩
      simp only [Handed, if_pos hoct]
      exact hjwk.2
    · rw [if_neg hoct]
      refine ⟨h, ?_⟩
      simp only [Handed, if_neg hoct]

theorem authorizedKey_confined (kid : String) (opClass : Acl.OpClass) :
    Confined L cfg op data
      (fun told row => (⟨.keyById kid, .ok (some row)⟩ : (c : Call) × Ans c) ∈ told) told
      (authorizedKey user kid opClass) := by
  simp only [authorizedKey, loadKey, bind_assoc]
  refine tracks_ask (allowed_open rfl) fun answer => tracks_lift fun found hfound => ?_
  obtain rfl : answer = .ok found := orThrow_eq_ok.mp hfound
  cases found with
  | none => trivial
  | some row =>
    dsimp only
    split
    · refine tracks_ask (allowed_open rfl) fun now => ?_
      split
      · exact List.mem_cons_of_mem _ List.mem_cons_self
      · trivial
    · trivial

/-- The finish of either operation gives its token to the library, and nothing else. -/
theorem finish_confined {kid : String} {row : VaultKey} {jwk : Json}
    (h : HandsOver L cfg op data kid row op.half told jwk) :
    Confined L cfg op data (fun _ _ => True) told ((op.key L data).finish kid row jwk) := by
  have hallowed : allowed L cfg op data told (op.opens (tokenText data) jwk) :=
    fun _ => ⟨kid, row, h.1, Or.inr ⟨jwk, rfl, h.2⟩⟩
  cases op with
  | verifyJwt =>
    refine tracks_ask hallowed fun answer => ?_
    cases answer <;> trivial
  | decryptJwe =>
    refine tracks_ask hallowed fun answer => ?_
    cases answer <;> trivial

theorem access_confined :
    Confined L cfg op data (fun _ _ => True) told (access L cfg user (op.key L data)) := by
  refine tracks_lift fun kid hkid => ?_
  rw [TokenOp.key_target] at hkid
  obtain ⟨hdecodes, hnames⟩ := tokenTarget_ok hkid
  refine (authorizedKey_confined kid _).bind fun told' row hloaded => ?_
  refine tracks_lift fun _ hfits => ?_
  rw [TokenOp.key_fits] at hfits
  obtain ⟨halg, hlisted⟩ := fitsToken_guards hfits
  rw [TokenOp.key_half]
  refine (keyHalf_confined ⟨hloaded, hdecodes, halg, hlisted, hnames⟩ op.half).bind
    fun told'' jwk hjwk => ?_
  exact finish_confined hjwk

theorem dispatch_confined {env : Envelope} (hrequest : env.request = op.operation.request) :
    Confined L cfg op env.data (fun _ _ => True) told (dispatch L cfg user env) := by
  have hrespond := @Processes.respond_calls user env (fun c => secretive c = false) fun _ _ => rfl
  have hfound : lookupHandler L cfg env.request =
      some (fun user data => handler L cfg user data op.operation) := by
    rw [hrequest, Dispatch.lookupHandler_request]
  simp only [dispatch, hfound]
  rw [handler_access (op.keyOperation_eq env.data)]
  exact access_confined.attempt.bind fun told' r _ => confined_aside (hrespond _)

/-- Invalid request data, no such key, another kind of key, or an invalid token. -/
def tokenErrors : List Err := [.invalidRequestData, .keyNotFound, .incompatibleKeyType,
  .invalidInputToken]

def TokenError (e : Thrown) : Prop :=
  ∃ errorCode message masked, e = .api errorCode message masked ∧ errorCode ∈ tokenErrors

theorem tokenError_ofCode {errorCode : Err} (h : errorCode ∈ tokenErrors) :
    TokenError (.ofCode errorCode) := ⟨errorCode, _, false, rfl, h⟩

theorem tokenError_rejects {data : Json} {errorCodes : List Err} {e : Thrown}
    (h : Rejects data errorCodes e) (hsub : errorCodes ⊆ tokenErrors) : TokenError e := by
  obtain ⟨errorCode, hcode, message, masked, rfl⟩ := h.code
  exact ⟨errorCode, message, masked, rfl, hsub hcode⟩

theorem tokenTarget_refuses {data : Json} {e : Thrown} (h : tokenTarget L data = .error e) :
    TokenError e := tokenError_rejects (tokenTarget_rejects h) (by decide)

theorem fitsToken_refuses {algs : List String} {header : Json} {row : VaultKey} {e : Thrown}
    (h : fitsToken algs header row = .error e) : TokenError e :=
  tokenError_rejects (@fitsToken_rejects .null e algs header row h) (by decide)

variable {i : ThreadId} {es : List (Entry Ans World)} {env : Envelope}

/-- No call has failed. -/
def Unfailing (es : List (Entry Ans World)) : Prop :=
  ∀ e ∈ es, ∀ message, failure message e.call ≠ some e.answer

/-- A row that is not handed out is hidden behind one error. -/
theorem authorizedKey_refuses {kid : String} {opClass : Acl.OpClass} {e : Thrown}
    (hno : Unfailing es) (h : Makes i (authorizedKey user kid opClass) es (.done (.error e))) :
    TokenError e := by
  have hnone : TokenError (.ofCode .keyNotFound) := tokenError_ofCode (by decide)
  obtain ⟨answer, before, after, rest, rfl, hrest⟩ := makes_call h
  cases answer with
  | error message => exact absurd rfl (hno _ List.mem_cons_self message)
  | ok found =>
    cases found with
    | none =>
      obtain ⟨-, hq⟩ := makes_done hrest
      cases hq
      exact hnone
    | some row =>
      replace hrest : Makes i (if granted user row opClass then do
          let now ← ask .dateNow
          if inWindow row now then return row else throw (.ofCode .keyNotFound)
        else throw maskedDenial) rest (.done (.error e)) := hrest
      by_cases hgranted : granted user row opClass = true
      · rw [if_pos hgranted] at hrest
        obtain ⟨now, before', after', last, rfl, hwindow⟩ := makes_call hrest
        replace hwindow : Makes i (if inWindow row now then return row
          else throw (.ofCode .keyNotFound)) last (.done (.error e)) := hwindow
        split at hwindow
        · obtain ⟨-, hq⟩ := makes_done hwindow
          cases hq
        · obtain ⟨-, hq⟩ := makes_done hwindow
          cases hq
          exact hnone
      · rw [if_neg hgranted] at hrest
        obtain ⟨-, hq⟩ := makes_done hrest
        cases hq
        exact ⟨.keyNotFound, _, true, rfl, by decide⟩

/-- Where no row is cleared the operation ends in one of the four errors. -/
theorem access_refuses {q : Except Thrown HandlerResult} (hno : Unfailing es)
    (hnone : ∀ kid row, ¬ Cleared L op data (toldOf es) kid row)
    (h : Makes i (access L cfg user (op.key L data)) es (.done q)) :
    ∃ e, q = .error e ∧ TokenError e := by
  obtain ⟨first, rest, rfl, ⟨kid, hkid, hrest⟩ | ⟨e, hkid, -, rfl⟩⟩ := h.bind
  · obtain ⟨rfl, htarget⟩ := makes_done hkid
    rw [List.nil_append] at hno hnone
    obtain ⟨load, rest, rfl, ⟨row, hload, hrest⟩ | ⟨e, hload, -, rfl⟩⟩ := hrest.bind
    · obtain ⟨first, rest, rfl, ⟨_, hfits, -⟩ | ⟨e, hfits, -, rfl⟩⟩ := hrest.bind
      · obtain ⟨-, hfits⟩ := makes_done hfits
        have hconfined : Confined L cfg op data
            (fun told row => (⟨.keyById kid, .ok (some row)⟩ : (c : Call) × Ans c) ∈ told) []
            (authorizedKey user kid (op.key L data).opClass) := authorizedKey_confined kid _
        have hloaded := hload.tracks_end hconfined
        obtain ⟨e, he, heq⟩ := mem_toldOf.mp hloaded
        have htarget' : tokenTarget L data = .ok kid := by
          rw [← op.key_target]
          exact (Prog.done.inj htarget).symm
        have hfits' : fitsToken op.algs (tokenHeader L data) row = .ok () := by
          rw [← op.key_fits]
          exact (Prog.done.inj hfits).symm
        obtain ⟨hdecodes, hnames⟩ := tokenTarget_ok htarget'
        obtain ⟨halg, hlisted⟩ := fitsToken_guards hfits'
        refine absurd ?_ (hnone kid row)
        exact ⟨mem_toldOf.mpr ⟨e, List.mem_append_left _ he, heq⟩, hdecodes, halg, hlisted, hnames⟩
      · obtain ⟨-, hfits⟩ := makes_done hfits
        have hfits' : fitsToken op.algs (tokenHeader L data) row = .error e := by
          rw [← op.key_fits]
          exact (Prog.done.inj hfits).symm
        exact ⟨e, rfl, fitsToken_refuses hfits'⟩
    · have hno' : Unfailing load := fun e he => hno e (List.mem_append_left _ he)
      exact ⟨e, rfl, authorizedKey_refuses hno' hload⟩
  · obtain ⟨-, htarget⟩ := makes_done hkid
    have htarget' : tokenTarget L data = .error e := by
      rw [← op.key_target]
      exact (Prog.done.inj htarget).symm
    exact ⟨e, rfl, tokenTarget_refuses htarget'⟩

/-- So does the request, with the code of that error. -/
theorem dispatch_refuses {r : Except Thrown Response}
    (hrequest : env.request = op.operation.request) (hno : Unfailing es)
    (hnone : ∀ kid row, ¬ Cleared L op env.data (toldOf es) kid row)
    (h : Makes i (dispatch L cfg user env) es (.done r)) :
    ∃ response, r = .ok response ∧ ∃ errorCode ∈ tokenErrors,
      response.errorCode = some (.num errorCode.code) := by
  have happends : AppendsSucceed es := by
    intro j type fields message before after hmem
    exact absurd rfl (hno _ hmem message)
  have hne : op.operation ≠ .healthcheck := by
    cases op <;> decide
  obtain ⟨called, logged, q, rfl, hhandler, -, rfl⟩ := dispatch_makes hrequest hne happends h
  rw [handler_access (op.keyOperation_eq env.data)] at hhandler
  have hno' : Unfailing called := fun e he => hno e (List.mem_append_left _ he)
  have hnone' : ∀ kid row, ¬ Cleared L op env.data (toldOf called) kid row := by
    intro kid row hcleared
    obtain ⟨e, he, heq⟩ := mem_toldOf.mp hcleared.loaded
    refine hnone kid row ⟨?_, hcleared.decodes, hcleared.alg, hcleared.listed, hcleared.names⟩
    exact mem_toldOf.mpr ⟨e, List.mem_append_left _ he, heq⟩
  obtain ⟨e, rfl, errorCode, message, masked, rfl, hcode⟩ := access_refuses hno' hnone' hhandler
  exact ⟨_, rfl, errorCode, hcode, answer_error_errorCode _ _⟩

end

def Says (kty : String) (pair : JwkPair) : Prop :=
  pair.publicKey.props.lookup "kty" = some (.str kty) ∧
    pair.secretKey.props.lookup "kty" = some (.str kty)

/-- The generators of key pairs name the key type in both halves. -/
structure Labelled (L : Libraries) : Prop where
  ec : ∀ n crv pair, L.ecKeyGen n crv = .ok pair → Says "EC" pair
  rsa : ∀ n bits pair, L.rsaKeyGen n bits = .ok pair → Says "RSA" pair
  mlKem : ∀ n variant pair, L.mlKemKeyGen n variant = .ok pair → Says "AKP" pair

/-- A generated key names its key type in both halves. -/
structure NamesKty (g : GeneratedKey) : Prop where
  secretKey : g.secretKey.get? "kty" = some (.str g.kty)
  otherHalf : (publicOf g).get? "kty" = some (.str g.kty)

theorem octKey_kty (spec : KeySpec) (jwk : OctJwk) : NamesKty (octKey spec jwk) := by
  have hkty : (octKey spec jwk).secretKey.get? "kty" = some (.str "oct") := by
    cases h : spec.use <;> simp [octKey, literal, h, List.lookup]
  constructor
  · exact hkty
  · exact hkty

theorem pairKey_kty (spec : KeySpec) {kty : String} (hne : kty ≠ "oct") (jwkAlg : Option String)
    {pair : JwkPair} (h : Says kty pair) : NamesKty (pairKey spec kty jwkAlg pair) := by
  have hstamp : ∀ props : Props, (stamp props jwkAlg spec.use).lookup "kty" = props.lookup "kty" :=
    fun props => stamp_lookup_ne props _ _ (by decide) (by decide) (by decide)
  constructor
  · exact (hstamp _).trans h.2
  · have hpublic : (pairKey spec kty jwkAlg pair).kty ≠ "oct" := hne
    rw [publicOf, if_neg hpublic]
    exact (hstamp _).trans h.1

theorem generated_kty (hL : Labelled L) {n : Nat} {spec : KeySpec} {g : GeneratedKey}
    (h : generateVaultKey L n spec = .ok g) : NamesKty g := by
  unfold generateVaultKey at h
  split at h
  · cases hjwk : L.cipherKeyGen n spec.alg <;> rw [hjwk] at h <;> cases h
    exact octKey_kty _ _
  · cases hjwk : L.macKeyGen n spec.alg spec.bits <;> rw [hjwk] at h <;> cases h
    exact octKey_kty _ _
  · cases hpair : L.ecKeyGen n spec.crv <;> rw [hpair] at h <;> cases h
    exact pairKey_kty spec (by decide) _ (hL.ec _ _ _ hpair)
  · cases hpair : L.rsaKeyGen n spec.modulusLength <;> rw [hpair] at h <;> cases h
    exact pairKey_kty spec (by decide) _ (hL.rsa _ _ _ hpair)
  · cases hpair : L.mlKemKeyGen n spec.variant <;> rw [hpair] at h <;> cases h
    exact pairKey_kty spec (by decide) _ (hL.mlKem _ _ _ hpair)
  · cases h

section

variable {activities : ThreadId → Activity} {clock : Nat} {users : UserTable}
  {schedule : Schedule Turn} {i : ThreadId} {op : TokenOp} {cfg : Config} {user : VaultUser}
  {env : Envelope}

/-- A row that a thread loads has been generated in the same run. -/
theorem loaded_typed {kid : String} {row : VaultKey}
    (h : Made (runs L activities (start clock users) schedule).state.trace i (.keyById kid)
      (.ok (some row))) : Typed row ∧ row.keyId = kid := by
  have hlinked := runs_linked L activities (start clock users) schedule
  obtain ⟨before, after, hmem⟩ := h
  obtain ⟨pre, post, htrace⟩ := List.append_of_mem hmem
  rw [htrace] at hlinked
  obtain ⟨w, hpre, rfl, ⟨t, hstep⟩, -⟩ := hlinked.split
  obtain ⟨row', hfind, rfl, hkid⟩ := loaded (congrArg Prod.fst hstep)
  have hgenuine := rows_genuine hpre (fun first e rest heq => ?_) (fun row hrow => by cases hrow)
    row' (Table.find_mem hfind)
  · exact ⟨genuine_typed hgenuine, hkid⟩
  · have hcut := htrace
    rw [heq, List.append_assoc, List.cons_append] at hcut
    exact exec_founded (L := L) (R := fun _ _ => True)
      (fun j => activity_founded {} (activities j)) (start clock users) schedule hcut

/-- Where the libraries do what they promise and every process has the same KEKs, the key
is the half of the key that was generated for the row, and it says so itself. -/
def Proper (L : Libraries) (activities : ThreadId → Activity) (op : TokenOp) (row : VaultKey)
    (jwk : Json) : Prop :=
  ∀ kekOf, Reliable L kekOf → Configured kekOf activities → Labelled L →
    ∃ n g, Generated L n g ∧ Carries row g ∧ jwk = halfOf g op.half ∧
      jwk.get? "kty" = some (.str row.kty)

theorem handed_proper (hact : activities i = .operation cfg user env)
    {pre post : List (Entry Ans World)} {kid : String} {row : VaultKey} {jwk : Json}
    (htrace : (runs L activities (start clock users) schedule).state.trace = pre ++ post)
    (hcleared : Cleared L op env.data (toldOf (own i pre)) kid row)
    (hhanded : Handed L cfg (toldOf (own i pre)) row jwk op.half) :
    Proper L activities op row jwk := by
  intro kekOf hL hc hlabelled
  have hsub : pre ⊆ (runs L activities (start clock users) schedule).state.trace := by
    rw [htrace]
    exact List.subset_append_left _ _
  obtain ⟨hsound, hkept⟩ := runs_sound hL hc clock users schedule
  have hlinked := runs_linked L activities (start clock users) schedule
  have hm : Agrees kekOf cfg.kek := hc i cfg.kek (by rw [hact]; rfl)
  obtain ⟨hstored, -⟩ := loaded_stored hlinked hkept (made_of_told hsub hcleared.loaded)
  obtain ⟨g, hg, hholds⟩ := hstored.holds
  have hunwrapped : Unwrapped L cfg (toldOf (own i pre)) row jwk → jwk = g.secretKey := by
    intro h
    cases h with
    | cached hmem => exact cached_key hlinked hkept hsound hg hholds (made_of_told hsub hmem)
    | decrypted hkek hmem hok =>
      exact decrypted_key hlinked hkept hm hholds (hsound.minted_kid hg) hkek
        (made_of_told hsub hmem) hok
  have hhalf : jwk = halfOf g op.half := by
    cases op with
    | decryptJwe => exact hunwrapped hhanded
    | verifyJwt =>
      simp only [TokenOp.half, Handed] at hhanded
      simp only [TokenOp.half, halfOf, publicOf, ← hholds.kty, ← hholds.publicKey]
      by_cases hoct : row.kty = "oct"
      · rw [if_pos hoct] at hhanded ⊢
        exact hunwrapped hhanded
      · rw [if_neg hoct] at hhanded ⊢
        exact hhanded.symm
  obtain ⟨j, hj⟩ := hg
  obtain ⟨n, -, spec, hspec, hgenerate⟩ := hsound.minted _ hj
  have hkty := generated_kty hlabelled hgenerate
  refine ⟨n, g, ⟨spec, hspec, hgenerate⟩, ?_, hhalf, ?_⟩
  · exact ⟨hholds.keyId, hholds.kty, hholds.alg, hholds.publicKey⟩
  · rw [hhalf, hholds.kty]
    cases op with
    | verifyJwt => exact hkty.otherHalf
    | decryptJwe => exact hkty.secretKey

/-- What the operation may do with secrets once it has been told so much: unwrap the key
of a row that is of its algorithm's key type and that the token and the request name, and
open the token with it. -/
def Sanctioned (L : Libraries) (activities : ThreadId → Activity) (cfg : Config) (op : TokenOp)
    (data : Json) (told : Told Ans) (c : Call) : Prop :=
  ∃ row, Cleared L op data told row.keyId row ∧ Typed row ∧
    (Unwraps L cfg row c ∨ ∃ jwk, c = op.opens (tokenText data) jwk ∧
      Handed L cfg told row jwk op.half ∧ Proper L activities op row jwk)

/-- In every run verify-jwt and decrypt-jwe use a secret only for a token whose header
names the algorithm of the row, under the key id of the row, and only as a key of that
algorithm's type; where no loaded row fits, no secret is touched and the answer is one of
four errors. -/
theorem token_guards (L : Libraries) (activities : ThreadId → Activity) (clock : Nat)
    (users : UserTable) (schedule : Schedule Turn) (op : TokenOp) (i : ThreadId) (cfg : Config)
    (user : VaultUser) (env : Envelope) (hact : activities i = .operation cfg user env)
    (hrequest : env.request = op.operation.request) :
    let W := runs L activities (start clock users) schedule
    (∀ pre e post, W.state.trace = pre ++ e :: post → e.thread = i → secretive e.call = true →
      Sanctioned L activities cfg op env.data (toldOf (own i pre)) e.call) ∧
    ((∀ row, ¬ Cleared L op env.data (toldOf (own i W.state.trace)) row.keyId row) →
      (∀ e ∈ W.state.trace, e.thread = i → secretive e.call = false) ∧
      (Unfailing (own i W.state.trace) → ∀ r, W.threads i = .done r →
        ∃ response, r = .ok (some response) ∧ ∃ errorCode ∈ tokenErrors,
          response.errorCode = some (.num errorCode.code))) := by
  intro W
  have hmakes : Makes i ((activities i).program L) (own i W.state.trace) (W.threads i) :=
    (started_makes (perform L) (fun i => (activities i).program L) (start clock users) schedule).2 i
  rw [hact] at hmakes
  have hsanctioned : ∀ pre e post, W.state.trace = pre ++ e :: post → e.thread = i →
      secretive e.call = true →
        Sanctioned L activities cfg op env.data (toldOf (own i pre)) e.call := by
    intro pre e post hcut hthread hsecretive
    have hconfined : Confined L cfg op env.data (fun _ _ => True) []
        ((Activity.operation cfg user env).program L) :=
      (dispatch_confined hrequest).bind fun _ _ _ => trivial
    have hmade := hmakes
    rw [hcut, own_append, own_cons_self hthread] at hmade
    obtain ⟨kid, row, hcleared, huse⟩ := hmade.tracks hconfined hsecretive
    have hsub : pre ⊆ W.state.trace := by
      rw [hcut]
      exact List.subset_append_left _ _
    obtain ⟨htyped, rfl⟩ := loaded_typed (made_of_told hsub hcleared.loaded)
    refine ⟨row, hcleared, htyped, huse.imp_right fun ⟨jwk, hcall, hhanded⟩ => ?_⟩
    exact ⟨jwk, hcall, hhanded, handed_proper hact hcut hcleared hhanded⟩
  refine ⟨hsanctioned, fun hnone => ⟨?_, ?_⟩⟩
  · intro e he hthread
    by_contra hsecretive
    obtain ⟨pre, post, hcut⟩ := List.append_of_mem he
    obtain ⟨row, hcleared, -⟩ := hsanctioned pre e post hcut hthread (by simpa using hsecretive)
    obtain ⟨x, hx, heq⟩ := mem_toldOf.mp hcleared.loaded
    refine hnone row ⟨?_, hcleared.decodes, hcleared.alg, hcleared.listed, hcleared.names⟩
    refine mem_toldOf.mpr ⟨x, ?_, heq⟩
    rw [hcut, own_append]
    exact List.mem_append_left _ hx
  · intro hno r hdone
    rw [hdone] at hmakes
    have hnone' : ∀ kid row, ¬ Cleared L op env.data (toldOf (own i W.state.trace)) kid row := by
      intro kid row hcleared
      obtain ⟨-, rfl⟩ := loaded_typed (made_of_told (List.Subset.refl _) hcleared.loaded)
      exact hnone row hcleared
    generalize own i W.state.trace = es at hmakes hno hnone'
    obtain ⟨first, rest, rfl, ⟨response, hfirst, hrest⟩ | ⟨e, hfirst, rfl, -⟩⟩ := hmakes.bind
    · obtain ⟨rfl, hr⟩ := makes_done hrest
      rw [List.append_nil] at hno hnone'
      obtain ⟨_, heq, herror⟩ := dispatch_refuses hrequest hno hnone' hfirst
      cases heq
      cases hr
      exact ⟨response, rfl, herror⟩
    · rw [List.append_nil] at hno hnone'
      obtain ⟨_, heq, -⟩ := dispatch_refuses hrequest hno hnone' hfirst
      cases heq

end

open Fixtures

/-- Alice generates a key and opens a token that is for it. -/
def recipient (i : ThreadId) : Activity :=
  if i = 0 then .operation config alice generateEnvelope
  else .operation config alice decryptEnvelope

def recipientSchedule : Schedule Turn :=
  (List.replicate 6 0 ++ List.replicate 7 1).map (fun i => (i, { elapsed := 0 }))

/-- The decryptions of a run. -/
def decryptions (trace : List (Entry Ans World)) : List (ThreadId × String × Json) :=
  trace.filterMap (fun e => match e.call with
    | .jweDecrypt token jwk => some (e.thread, token, jwk)
    | _ => none)

theorem recipient_guards :
    let W := runs working recipient (start 0 Table.empty) recipientSchedule
    decryptions W.state.trace =
      [(1, "sealed-1", kek.secretJwk), (1, wrapToken, wrapKey.secretKey)] ∧
    (∀ pre e post, W.state.trace = pre ++ e :: post → e.thread = 1 → secretive e.call = true →
      Sanctioned working recipient config .decryptJwe decryptEnvelope.data (toldOf (own 1 pre))
        e.call) :=
  ⟨by decide +kernel, (token_guards working recipient 0 Table.empty recipientSchedule .decryptJwe 1
    config alice decryptEnvelope rfl rfl).1⟩

end AlgConfusion
