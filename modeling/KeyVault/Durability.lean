import KeyVault.Fixtures
import KeyVault.KeyLifecycle

/-!
# Durability of stored keys

Whatever has happened to a vault, every row still opens to the key that was
generated under its id, with the window of the row in the claims.
-/

namespace Durability

open JsValue KeyGen Errors Programs Interleaving Vault KeyStore KvAdmin CallEffects KeyInvariant
  KeyLifecycle Timestamps

section

variable {L : Libraries} {kekOf : String → Kek}

/-- What an answered call has generated. -/
def mintedBy (i : ThreadId) : (c : Call) → Ans c → List (ThreadId × GeneratedKey)
  | .generateVaultKey _, .ok g => [(i, g)]
  | _, _ => []

theorem mintedBy_failure {i : ThreadId} {message : String} {c : Call} {answer : Ans c}
    (h : failure message c = some answer) : mintedBy i c answer = [] := by
  cases c <;> cases h <;> rfl

theorem perform_minted (i : ThreadId) (t : Turn) (c : Call) (w : World) :
    (perform L i t c w).2.minted = w.minted ++ mintedBy i c (perform L i t c w).1 := by
  rcases perform_cases L i t c w with ⟨message, answer, -, ha, hp⟩ | hp
  · rw [hp, mintedBy_failure ha, List.append_nil]
    rfl
  · rw [hp]
    by_cases hgen : ∃ spec, c = .generateVaultKey spec
    · obtain ⟨spec, rfl⟩ := hgen
      simp only [effect]
      cases generateVaultKey L (w.tick t.elapsed).seed spec <;> rfl
    · rw [effect_minted (fun spec heq => hgen ⟨spec, heq⟩)]
      have hnone : ∀ answer : Ans c, mintedBy i c answer = [] := by
        intro answer
        cases c <;> first | rfl | exact absurd ⟨_, rfl⟩ hgen
      rw [hnone, List.append_nil]
      rfl

theorem linked_minted {w w' : World} {trace : List (Entry Ans World)}
    (h : Linked (perform L) w trace w') :
    w'.minted = w.minted ++ trace.flatMap (fun e => mintedBy e.thread e.call e.answer) := by
  induction trace generalizing w with
  | nil =>
    cases h
    simp
  | cons e rest ih =>
    obtain ⟨rfl, ⟨t, hstep⟩, hrest⟩ := h
    have hmint := perform_minted (L := L) e.thread t e.call e.before
    rw [hstep] at hmint
    rw [ih hrest, hmint, List.flatMap_cons, List.append_assoc]

/-- The generated keys are the answers that the trace has seen. -/
theorem minted_iff_made {w : World} {trace : List (Entry Ans World)} (hw : w.minted = [])
    {w' : World} (h : Linked (perform L) w trace w') (i : ThreadId) (g : GeneratedKey) :
    (i, g) ∈ w'.minted ↔ ∃ spec, Made trace i (.generateVaultKey spec) (.ok g) := by
  rw [linked_minted h, hw, List.nil_append, List.mem_flatMap]
  constructor
  · rintro ⟨⟨j, c, answer, before, after⟩, he, hmem⟩
    cases c with
    | generateVaultKey spec =>
      cases answer with
      | error message => cases hmem
      | ok g' =>
        cases List.mem_singleton.mp hmem
        exact ⟨spec, before, after, he⟩
    | _ => cases hmem
  · rintro ⟨spec, before, after, he⟩
    exact ⟨_, he, List.mem_singleton_self _⟩

/-- The secret JWK that some generation in the run has produced under this id; no
other generation has used the id. -/
def ProducedFor (trace : List (Entry Ans World)) (kid : String) (jwk : Json) : Prop :=
  ∃ i spec g, Made trace i (.generateVaultKey spec) (.ok g) ∧ g.kid = kid ∧ g.secretKey = jwk ∧
    ∀ j spec' g', Made trace j (.generateVaultKey spec') (.ok g') → g'.kid = kid → g' = g

/-- A bound in the claims is there when its column is. It is the second of which TO_TIMESTAMP
has made the column, or the one that the column is in. For seconds of a `Date` the two are
one, unless TO_TIMESTAMP stores the second early. -/
structure Tells (column : Option Nat) (claim : Option Json) : Prop where
  present : claim.isSome = column.isSome
  second : ∀ micros, column = some micros → ∃ s : Nat, micros = toTimestamp s ∧
    (claim = some (.num s) ∨ claim = dateSeconds column) ∧
    (s * 1000 ≤ dateMax → (dateSeconds column = some (.num s) ↔ s * 1000000 ≤ micros)) ∧
    (s ≤ lastExact → micros = s * 1000000)

/-- The row opens under the KEK it names to claims around the JWK. -/
structure Embeds (L : Libraries) (kekOf : String → Kek) (row : VaultKey) (claims jwk : Json) :
    Prop where
  opens : L.jweDecrypt row.embeddedKey (kekOf row.embeddingKeyId).secretJwk = .ok claims
  claimsKid : claims.get? "kid" = some (.str row.keyId)
  keyKid : jwk.get? "kid" = some (.str row.keyId)
  key : claims.get? "key" = some jwk

/-- The claims of the row agree with its columns. -/
def OpensTo (L : Libraries) (kekOf : String → Kek) (row : VaultKey) (jwk : Json) : Prop :=
  ∃ claims, Embeds L kekOf row claims jwk ∧ Tells row.notBefore (claims.get? "nbf") ∧
    Tells row.expiresAt (claims.get? "exp")

/-- `extract` of the row gives the JWK, wherever the library does not fail. -/
def Extracts (L : Libraries) (m : KekManager) (row : VaultKey) (jwk : Json) : Prop :=
  ∀ (i : ThreadId) (s : Session), (s.turns.headD {}).fails = none →
    ((extract m row.embeddingKeyId row.embeddedKey row.keyId).run (serve L i) s).1 = .ok jwk

/-- A second comes back from its column exactly if it has not been stored early. -/
theorem dateSeconds_toTimestamp {s : Nat} (h : s * 1000 ≤ dateMax) :
    dateSeconds (some (toTimestamp s)) = some (.num s) ↔ s * 1000000 ≤ toTimestamp s := by
  simp only [dateMax] at h
  obtain ⟨hearly, hlate⟩ := toTimestamp_near (show s ≤ 9224318015999 by omega)
  have hdate : toTimestamp s / 1000 ≤ dateMax := by
    simp only [dateMax]
    omega
  simp only [dateSeconds, getTime, hdate, if_true, Option.map_some, Option.elim_some,
    Option.some.injEq, Json.num.injEq]
  omega

theorem tells_of_bound (hts : L.toTimestamp = toTimestamp) {column : Option Nat}
    {claim : Option Json} (h : Bound L column claim) : Tells column claim := by
  obtain ⟨seconds, rfl, hclaim⟩ := h
  rw [hts] at hclaim ⊢
  cases seconds with
  | none =>
    refine ⟨?_, fun micros hmicros => by cases hmicros⟩
    rcases hclaim with rfl | rfl
    · rfl
    · rfl
  | some s =>
    refine ⟨?_, ?_⟩
    · rcases hclaim with rfl | rfl
      · rfl
      · rfl
    · rintro micros hmicros
      cases hmicros
      exact ⟨s, rfl, hclaim, dateSeconds_toTimestamp, toTimestamp_exact⟩

theorem embeds_of_holds {row : VaultKey} {g : GeneratedKey} (h : Holds L kekOf row g)
    (hkid : g.secretKey.get? "kid" = some (.str g.kid)) :
    ∃ claims, Embeds L kekOf row claims g.secretKey ∧ Bound L row.notBefore (claims.get? "nbf") ∧
      Bound L row.expiresAt (claims.get? "exp") := by
  obtain ⟨iat, nbf, exp, hwrapped, hnbf, hexp⟩ := h.wrapped
  refine ⟨_, ⟨hwrapped, embedClaims_kid _ _ _ _ _, h.keyId ▸ hkid, embedClaims_key _ _ _ _ _⟩,
    ?_, ?_⟩
  · rwa [embedClaims_nbf]
  · rwa [embedClaims_exp]

theorem opensTo_of_holds (hts : L.toTimestamp = toTimestamp) {row : VaultKey} {g : GeneratedKey}
    (h : Holds L kekOf row g) (hkid : g.secretKey.get? "kid" = some (.str g.kid)) :
    OpensTo L kekOf row g.secretKey := by
  obtain ⟨claims, hembeds, hnbf, hexp⟩ := embeds_of_holds h hkid
  exact ⟨claims, hembeds, tells_of_bound hts hnbf, tells_of_bound hts hexp⟩

theorem extracts_of_holds {row : VaultKey} {g : GeneratedKey} (h : Holds L kekOf row g)
    (hkid : g.secretKey.get? "kid" = some (.str g.kid)) {m : KekManager} (hm : Agrees kekOf m)
    (hkek : (m.byId row.embeddingKeyId).isSome) : Extracts L m row g.secretKey := by
  intro i s hs
  obtain ⟨k, hk⟩ := Option.isSome_iff_exists.mp hkek
  obtain ⟨iat, nbf, exp, hwrapped, -⟩ := h.wrapped
  rw [← h.keyId] at hkid
  simp only [extract, hk, hm.byId hk, ask_bind, Prog.run_call, serve, perform_succeeds hs, effect,
    hwrapped, orThrow_ok]
  exact embeddedJwk_embedClaims hkid iat _ _

/-- Key durability: over every run, with any KEK configurations in between. The second of a
bound is lost in a rewrap exactly if TO_TIMESTAMP has stored it early. -/
theorem keys_durable (L : Libraries) (kekOf : String → Kek) (activities : ThreadId → Activity)
    (hL : Reliable L kekOf) (hts : L.toTimestamp = toTimestamp) (hc : Configured kekOf activities)
    (clock : Nat) (users : UserTable) (schedule : Schedule Turn) :
    let W := runs L activities (start clock users) schedule
    ∀ row ∈ W.state.now.keys.rows, ∃ jwk, ProducedFor W.state.trace row.keyId jwk ∧
      OpensTo L kekOf row.toVaultKey jwk ∧
      ∀ m, Agrees kekOf m → (m.byId row.embeddingKeyId).isSome →
        Extracts L m row.toVaultKey jwk := by
  intro W row hrow
  obtain ⟨hsound, -⟩ := runs_sound hL hc clock users schedule
  have hlinked := runs_linked L activities (start clock users) schedule
  obtain ⟨g, ⟨i, hi⟩, hholds⟩ := (hsound.rows row hrow).holds
  have hkid := hsound.minted_kid ⟨i, hi⟩
  obtain ⟨spec, hmade⟩ := (minted_iff_made rfl hlinked i g).mp hi
  refine ⟨g.secretKey,
    ⟨i, spec, g, hmade, hholds.keyId.symm, rfl, fun j spec' g' hmade' hkid' => ?_⟩,
    opensTo_of_holds hts hholds hkid, fun m hm hkek => extracts_of_holds hholds hkid hm hkek⟩
  have hg' := (minted_iff_made rfl hlinked j g').mpr ⟨spec', hmade'⟩
  exact hsound.minted_unique ⟨j, hg'⟩ ⟨i, hi⟩ (hkid'.trans hholds.keyId)

end

open Fixtures

/-- The two KEKs of the fixtures. -/
def denoted (id : String) : Kek := if id = "kek-2" then kek2 else kek

theorem working_reliable : Reliable working denoted where
  inverts := by
    intro id n payload token h
    unfold denoted at h ⊢
    by_cases hpayload : payload = wrapClaims
    · subst hpayload
      by_cases hid : id = "kek-2"
      · have htoken : token = "sealed-2" := by
          simpa [hid, working, kek, kek2] using h.symm
        subst htoken
        simp [hid, working, kek, kek2]
      · have htoken : token = "sealed-1" := by
          simpa [hid, working, kek, kek2] using h.symm
        subst htoken
        simp [hid, working]
    · have hkey : (if id = "kek-2" then kek2 else kek).wrapJwk ≠ wrapKey.secretKey := by
        split <;> decide
      simp [working, hpayload, hkey] at h
  freshKids := by
    have hzero : ∀ n kid, Draws working n kid → n = 0 := by
      intro n kid h
      cases h with
      | cipher hjwk =>
        by_contra hn
        simp [working, hn] at hjwk
      | mac hjwk => cases hjwk
      | ec hpair => cases hpair
      | rsa hpair => cases hpair
      | mlKem hpair => cases hpair
    intro n n' kid h h'
    rw [hzero n kid h, hzero n' kid h']
  uuids := by
    intro n kid h
    cases h with
    | @cipher alg jwk hjwk =>
      simp only [working] at hjwk
      split at hjwk
      · cases hjwk
        decide
      · cases hjwk
    | mac hjwk => cases hjwk
    | ec hpair => cases hpair
    | rsa hpair => cases hpair
    | mlKem hpair => cases hpair

theorem agrees_rotated : Agrees denoted rotated := by
  intro k hk
  rcases List.mem_cons.mp hk with rfl | hk
  · rfl
  · rw [List.mem_singleton.mp hk]
    rfl

theorem agrees_manager : Agrees denoted manager := by
  intro k hk
  rw [List.mem_singleton.mp hk]
  rfl

/-- Alice asks for a key, and the operator rewraps it under a new KEK. -/
def rotating (env : Server.Envelope) (i : ThreadId) : Activity :=
  if i = 0 then .operation config alice env
  else if i = 1 then .admin { actor := "ops", kek := .ok rotated } .rewrap
  else .restart

theorem rotating_configured (env : Server.Envelope) : Configured denoted (rotating env) := by
  intro i m hm
  unfold rotating at hm
  split at hm
  · cases hm
    exact agrees_manager
  · split at hm
    · cases hm
      exact agrees_rotated
    · cases hm

def rotation : ThreadId → Activity := rotating generateEnvelope

def rotationSchedule : Schedule Turn :=
  List.replicate 6 (0, { elapsed := 0 }) ++ List.replicate 6 (1, { elapsed := 0 })

theorem rotation_durable :
    let W := runs working rotation (start 0 Tables.Table.empty) rotationSchedule
    W.state.now.keys.rows.map (fun row => row.embeddingKeyId) = ["kek-2"] ∧
    ∀ row ∈ W.state.now.keys.rows, ∃ jwk, ProducedFor W.state.trace row.keyId jwk ∧
      OpensTo working denoted row.toVaultKey jwk ∧
      ∀ m, Agrees denoted m → (m.byId row.embeddingKeyId).isSome →
        Extracts working m row.toVaultKey jwk :=
  ⟨by decide +kernel, keys_durable working denoted rotation working_reliable rfl
    (rotating_configured _) 0 Tables.Table.empty rotationSchedule⟩

/-- The first second that TO_TIMESTAMP stores early. -/
def lateSecond : Nat := lastExact + 1

def lateClaims (second : Nat) : Json :=
  embedClaims keyId1 0 (some (.num second)) none wrapKey.secretKey

/-- Libraries that wrap the key with the second of its request, and with the one before. -/
def late : Libraries :=
  { working with
    jweEncrypt := fun _ _ jwk payload _ =>
      if payload = lateClaims lateSecond ∧ jwk = kek.wrapJwk then .ok "sealed-1"
      else if payload = lateClaims lastExact ∧ jwk = kek2.wrapJwk then .ok "sealed-2"
      else .error "no encryption"
    jweDecrypt := fun token jwk =>
      if token = "sealed-1" ∧ jwk = kek.secretJwk then .ok (lateClaims lateSecond)
      else if token = "sealed-2" ∧ jwk = kek2.secretJwk then .ok (lateClaims lastExact)
      else .error "no decryption" }

theorem late_draws {n : Nat} {kid : String} (h : Draws late n kid) : Draws working n kid := by
  cases h with
  | cipher hjwk => exact .cipher hjwk
  | mac hjwk => cases hjwk
  | ec hpair => cases hpair
  | rsa hpair => cases hpair
  | mlKem hpair => cases hpair

theorem late_reliable : Reliable late denoted where
  inverts := by
    intro id n payload token h
    by_cases hid : id = "kek-2"
    · have hkek : denoted id = kek2 := if_pos hid
      rw [hkek] at h ⊢
      have hfirst : kek2.wrapJwk ≠ kek.wrapJwk := by decide
      have hsecret : kek2.secretJwk ≠ kek.secretJwk := by decide
      simp only [late, hfirst, and_false, if_false] at h
      split at h
      · rename_i hpayload
        obtain ⟨rfl, -⟩ := hpayload
        cases h
        simp only [late, hsecret, and_false, if_false, and_self, if_true]
      · cases h
    · have hkek : denoted id = kek := if_neg hid
      rw [hkek] at h ⊢
      have hsecond : kek.wrapJwk ≠ kek2.wrapJwk := by decide
      simp only [late, hsecond, and_false, if_false] at h
      split at h
      · rename_i hpayload
        obtain ⟨rfl, -⟩ := hpayload
        cases h
        simp only [late, and_self, if_true]
      · cases h
  freshKids := fun n n' kid h h' =>
    working_reliable.freshKids n n' kid (late_draws h) (late_draws h')
  uuids := fun n kid h => working_reliable.uuids n kid (late_draws h)

/-- The key is to start in that second. -/
def lateRotation : ThreadId → Activity :=
  rotating (generating [("alg", .str "A128KW"), ("nbf", .num lateSecond)])

/-- The claims of the rows of a vault, and the seconds of their columns. -/
def starts (L : Libraries) (kekOf : String → Kek) (w : World) : List (Option Json × Option Json) :=
  w.keys.rows.map fun row =>
    ((L.jweDecrypt row.embeddedKey (kekOf row.embeddingKeyId).secretJwk).toOption.bind
      fun claims => claims.get? "nbf", dateSeconds row.notBefore)

/-- The second is one of a `Date`. The row is stored with the second before it, which the
claims do not have; a rewrap then puts that one into the claims. -/
theorem second_lost :
    Reliable late denoted ∧ late.toTimestamp = toTimestamp ∧ Configured denoted lateRotation ∧
    lateSecond * 1000 ≤ dateMax ∧
    starts late denoted
        (runs late lateRotation (start 0 Tables.Table.empty) (rotationSchedule.take 6)).state.now =
      [(some (.num lateSecond), some (.num lastExact))] ∧
    starts late denoted
        (runs late lateRotation (start 0 Tables.Table.empty) rotationSchedule).state.now =
      [(some (.num lastExact), some (.num lastExact))] :=
  ⟨late_reliable, rfl, rotating_configured _, by decide, by decide +kernel, by decide +kernel⟩

end Durability
