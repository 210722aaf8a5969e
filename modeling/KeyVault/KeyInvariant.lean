import KeyVault.CallEffects
import KeyVault.KvAdmin

/-!
# The invariant of stored keys

Every row is the wrapped form of a key that was once generated, and every cache
entry is the secret half of one. Each kind of call that can create such data keeps
this when its caller knows enough; the others keep it without any knowledge.
-/

namespace KeyInvariant

open JsValue KeyGen Errors Programs Interleaving Vault KeyStore KvAdmin CallEffects InsertionMap
  Tables

/-- A use of a tr-jwk generator that returned a key with this id. -/
inductive Draws (L : Libraries) (n : Nat) : String → Prop where
  | cipher {alg : String} {jwk : OctJwk} : L.cipherKeyGen n alg = .ok jwk → Draws L n jwk.kid
  | mac {alg : String} {bits : Option Nat} {jwk : OctJwk} :
    L.macKeyGen n alg bits = .ok jwk → Draws L n jwk.kid
  | ec {crv : Option String} {pair : JwkPair} :
    L.ecKeyGen n crv = .ok pair → Draws L n pair.secretKey.kid
  | rsa {modulusLength : Option Nat} {pair : JwkPair} :
    L.rsaKeyGen n modulusLength = .ok pair → Draws L n pair.secretKey.kid
  | mlKem {variant : Option String} {pair : JwkPair} :
    L.mlKemKeyGen n variant = .ok pair → Draws L n pair.secretKey.kid

/-- What the vault relies on: `kekOf` says which key a KEK id denotes, its secret half
opens what its wrapping half has sealed, and key ids are fresh lower-case UUIDs. -/
structure Reliable (L : Libraries) (kekOf : String → Kek) : Prop where
  inverts : ∀ id n payload token,
    L.jweEncrypt n (kekOf id).wrapAlg (kekOf id).wrapJwk payload none = .ok token →
      L.jweDecrypt token (kekOf id).secretJwk = .ok payload
  freshKids : ∀ n n' kid, Draws L n kid → Draws L n' kid → n = n'
  uuids : ∀ n kid, Draws L n kid → isUuid kid = true ∧ toLowerCase kid = kid

/-- A manager whose ids denote what `kekOf` says. -/
def Agrees (kekOf : String → Kek) (m : KekManager) : Prop := ∀ k ∈ m.all, kekOf k.kid = k

theorem Agrees.byId {kekOf : String → Kek} {m : KekManager} (h : Agrees kekOf m) {id : String}
    {k : Kek} (hk : m.byId id = some k) : k = kekOf id := by
  obtain ⟨hmem, rfl⟩ := KekManager.byId_mem hk
  exact (h k hmem).symm

theorem Agrees.active {kekOf : String → Kek} {m : KekManager} (h : Agrees kekOf m) :
    kekOf m.active.kid = m.active := h m.active (List.mem_cons_self ..)

/-- A specification that parameter resolution has produced. -/
def Resolved (spec : KeySpec) : Prop := ∃ params, resolveKeyGenParams params = .ok spec

section

variable {L : Libraries} {kekOf : String → Kek}

theorem generated_draws {n : Nat} {spec : KeySpec} {g : GeneratedKey}
    (h : generateVaultKey L n spec = .ok g) : Draws L n g.kid := by
  unfold generateVaultKey at h
  split at h
  · cases hjwk : L.cipherKeyGen n spec.alg <;> rw [hjwk] at h <;> cases h
    exact Draws.cipher hjwk
  · cases hjwk : L.macKeyGen n spec.alg spec.bits <;> rw [hjwk] at h <;> cases h
    exact Draws.mac hjwk
  · cases hpair : L.ecKeyGen n spec.crv <;> rw [hpair] at h <;> cases h
    exact Draws.ec hpair
  · cases hpair : L.rsaKeyGen n spec.modulusLength <;> rw [hpair] at h <;> cases h
    exact Draws.rsa hpair
  · cases hpair : L.mlKemKeyGen n spec.variant <;> rw [hpair] at h <;> cases h
    exact Draws.mlKem hpair
  · cases h

/-- The secret JWK of a generated key carries its key id. -/
theorem generated_kid {n : Nat} {spec : KeySpec} {g : GeneratedKey}
    (h : generateVaultKey L n spec = .ok g) : g.secretKey.get? "kid" = some (.str g.kid) := by
  unfold generateVaultKey at h
  split at h
  · cases hjwk : L.cipherKeyGen n spec.alg <;> rw [hjwk] at h <;> cases h
    exact octKey_secret_kid _ _
  · cases hjwk : L.macKeyGen n spec.alg spec.bits <;> rw [hjwk] at h <;> cases h
    exact octKey_secret_kid _ _
  · cases hpair : L.ecKeyGen n spec.crv <;> rw [hpair] at h <;> cases h
    exact pairKey_secret_kid _ _ _ _
  · cases hpair : L.rsaKeyGen n spec.modulusLength <;> rw [hpair] at h <;> cases h
    exact pairKey_secret_kid _ _ _ _
  · cases hpair : L.mlKemKeyGen n spec.variant <;> rw [hpair] at h <;> cases h
    exact pairKey_secret_kid _ _ _ _
  · cases h

/-- The claims have the seconds of which the column was made, or what a rewrap has read back
from it. -/
def Bound (L : Libraries) (column : Option Nat) (claim : Option Json) : Prop :=
  ∃ seconds : Option Nat, column = seconds.map L.toTimestamp ∧
    (claim = secondsClaim seconds ∨ claim = dateSeconds column)

/-- What a rewrap reads back. -/
theorem Bound.reread {L : Libraries} {column : Option Nat} {claim : Option Json}
    (h : Bound L column claim) : Bound L column (dateSeconds column) := by
  obtain ⟨seconds, hcolumn, -⟩ := h
  exact ⟨seconds, hcolumn, .inr rfl⟩

/-- The row is the wrapped form of `g`, with its own window in the claims. -/
structure Holds (L : Libraries) (kekOf : String → Kek) (row : VaultKey) (g : GeneratedKey) :
    Prop where
  keyId : row.keyId = g.kid
  kty : row.kty = g.kty
  alg : row.alg = g.alg
  publicKey : row.publicKey = g.publicKey
  wrapped : ∃ iat nbf exp, L.jweDecrypt row.embeddedKey (kekOf row.embeddingKeyId).secretJwk =
    .ok (embedClaims row.keyId iat nbf exp g.secretKey) ∧
      Bound L row.notBefore nbf ∧ Bound L row.expiresAt exp

/-- `g` has been generated. -/
def Minted (w : World) (g : GeneratedKey) : Prop := ∃ i, (i, g) ∈ w.minted

/-- A row of a generated key whose window is the one it was inserted with. -/
structure Stored (L : Libraries) (kekOf : String → Kek) (w : World) (row : VaultKey) : Prop where
  origin : ∃ key ∈ w.born, key.keyId = row.keyId ∧ key.notBefore = row.notBefore ∧
    key.expiresAt = row.expiresAt
  holds : ∃ g, Minted w g ∧ Holds L kekOf row g

/-- The invariant. -/
structure Sound (L : Libraries) (kekOf : String → Kek) (w : World) : Prop where
  minted : ∀ e ∈ w.minted, ∃ n < w.seed, ∃ spec, Resolved spec ∧
    generateVaultKey L n spec = .ok e.2
  mintedKids : (w.minted.map (fun e => e.2.kid)).Nodup
  bornKids : (w.born.map VaultKey.keyId).Nodup
  bornMinted : ∀ key ∈ w.born, ∃ g, Minted w g ∧ g.kid = key.keyId
  rows : ∀ row ∈ w.keys.rows, Stored L kekOf w row.toVaultKey
  cached : ∀ e ∈ w.cache.entries, ∃ g, Minted w g ∧ g.kid = e.1 ∧ e.2.jwk = g.secretKey

/-- Nothing generated or inserted is forgotten. -/
def Grows (w w' : World) : Prop := w.minted <+: w'.minted ∧ w.born <+: w'.born

theorem Grows.refl (w : World) : Grows w w := ⟨List.prefix_rfl, List.prefix_rfl⟩

theorem Grows.trans {w w' w'' : World} (h : Grows w w') (h' : Grows w' w'') : Grows w w'' :=
  ⟨h.1.trans h'.1, h.2.trans h'.2⟩

theorem Minted.mono {w w' : World} {g : GeneratedKey} (h : Minted w g) (grow : Grows w w') :
    Minted w' g := by
  obtain ⟨i, hmem⟩ := h
  exact ⟨i, grow.1.subset hmem⟩

theorem Stored.mono {w w' : World} {row : VaultKey} (h : Stored L kekOf w row)
    (grow : Grows w w') : Stored L kekOf w' row := by
  obtain ⟨⟨key, hkey, horigin⟩, g, hg, hholds⟩ := h
  exact ⟨⟨key, grow.2.subset hkey, horigin⟩, g, hg.mono grow, hholds⟩

theorem Sound.eq_of_kid {w : World} (h : Sound L kekOf w) {e e' : ThreadId × GeneratedKey}
    (he : e ∈ w.minted) (he' : e' ∈ w.minted) (hkid : e.2.kid = e'.2.kid) : e = e' :=
  List.inj_on_of_nodup_map h.mintedKids he he' hkid

theorem Sound.minted_unique {w : World} (h : Sound L kekOf w) {g g' : GeneratedKey}
    (hg : Minted w g) (hg' : Minted w g') (hkid : g.kid = g'.kid) : g = g' := by
  obtain ⟨i, hi⟩ := hg
  obtain ⟨j, hj⟩ := hg'
  exact congrArg Prod.snd (h.eq_of_kid hi hj hkid)

theorem Sound.minted_kid {w : World} (h : Sound L kekOf w) {g : GeneratedKey} (hg : Minted w g) :
    g.secretKey.get? "kid" = some (.str g.kid) := by
  obtain ⟨i, hi⟩ := hg
  obtain ⟨n, -, spec, -, hspec⟩ := h.minted _ hi
  exact generated_kid hspec

/-- Two stored rows under one id were inserted once, with one window. -/
theorem Sound.stored_window {w : World} (h : Sound L kekOf w) {row row' : VaultKey}
    (hrow : Stored L kekOf w row) (hrow' : Stored L kekOf w row') (hkid : row.keyId = row'.keyId) :
    row.notBefore = row'.notBefore ∧ row.expiresAt = row'.expiresAt := by
  obtain ⟨key, hkey, hid, hnbf, hexp⟩ := hrow.origin
  obtain ⟨key', hkey', hid', hnbf', hexp'⟩ := hrow'.origin
  have heq : key = key' :=
    List.inj_on_of_nodup_map h.bornKids hkey hkey' ((hid.trans hkid).trans hid'.symm)
  subst heq
  exact ⟨hnbf.symm.trans hnbf', hexp.symm.trans hexp'⟩

/-- A row yields its key in every process that has the KEK. -/
theorem Holds.extracted {row : VaultKey} {g : GeneratedKey} (h : Holds L kekOf row g)
    (hkid : g.secretKey.get? "kid" = some (.str g.kid)) {m : KekManager} (hm : Agrees kekOf m)
    (hkek : (m.byId row.embeddingKeyId).isSome) :
    extracted L m row.embeddingKeyId row.embeddedKey row.keyId = .ok g.secretKey := by
  obtain ⟨k, hk⟩ := Option.isSome_iff_exists.mp hkek
  obtain ⟨iat, nbf, exp, hwrapped, -⟩ := h.wrapped
  rw [← h.keyId] at hkid
  simp only [KeyStore.extracted, hk, hm.byId hk, hwrapped, orThrow_ok]
  exact embeddedJwk_embedClaims hkid iat _ _

/-- Thread `i` has generated `g` and nobody has inserted a row for it. -/
def Own (i : ThreadId) (g : GeneratedKey) (w : World) : Prop :=
  (i, g) ∈ w.minted ∧ ∀ key ∈ w.born, key.keyId ≠ g.kid

/-- Nobody forgets a key, and nobody inserts a key that another thread owns. -/
def protocol (L : Libraries) (kekOf : String → Kek) : Protocol World where
  inv := Sound L kekOf
  rely := fun i w w' => Grows w w' ∧ ∀ g, Own i g w → Own i g w'
  guar := fun i w w' => Grows w w' ∧ ∀ j, j ≠ i → ∀ g, Own j g w → Own j g w'
  rely_refl := fun _ w => ⟨Grows.refl w, fun _ h => h⟩
  rely_trans := fun _ _ _ _ h h' => ⟨h.1.trans h'.1, fun g hg => h'.2 g (h.2 g hg)⟩
  guar_rely := fun _ _ _ _ hij h => ⟨h.1, h.2 _ (Ne.symm hij)⟩

/-- Calls that neither generate, insert nor wrap a key, nor fill the cache. -/
def harmless : Call → Bool
  | .insertKey _ => false
  | .updateKeyEmbedding _ _ _ => false
  | .generateVaultKey _ => false
  | .cacheFill _ _ _ => false
  | _ => true

/-- What is left after a harmless call: some of the rows, perhaps with another ACL,
and some of the cache entries. -/
structure Shrinks (w w' : World) : Prop where
  minted : w'.minted = w.minted
  born : w'.born = w.born
  seed : w.seed ≤ w'.seed
  rows : ∀ row ∈ w'.keys.rows, ∃ row₀ ∈ w.keys.rows,
    row.toVaultKey = { row₀.toVaultKey with acl := row.acl }
  cached : ∀ e ∈ w'.cache.entries, e ∈ w.cache.entries

theorem Shrinks.tick {w w' : World} {ms : Nat} (h : Shrinks (w.tick ms) w') : Shrinks w w' :=
  ⟨h.minted, h.born, h.seed, h.rows, h.cached⟩

theorem effect_minted {i : ThreadId} {c : Call} (h : ∀ spec, c ≠ .generateVaultKey spec)
    (w : World) : (effect L i c w).2.minted = w.minted := by
  cases c <;> first | (simp only [effect]; repeat' split) <;> rfl | exact absurd rfl (h _)

theorem effect_born {i : ThreadId} {c : Call} (h : harmless c = true) (w : World) :
    (effect L i c w).2.born = w.born := by
  cases c <;> first | (simp only [effect]; repeat' split) <;> rfl | simp [harmless] at h

theorem effect_seed (i : ThreadId) (c : Call) (w : World) : w.seed ≤ (effect L i c w).2.seed := by
  cases c <;> (simp only [effect]; repeat' split) <;> first | exact Nat.le_refl _ |
    exact Nat.le_succ _

theorem effect_rows {i : ThreadId} {c : Call} (h : harmless c = true) (w : World) {row : KeyRow}
    (hrow : row ∈ (effect L i c w).2.keys.rows) :
    ∃ row₀ ∈ w.keys.rows, row.toVaultKey = { row₀.toVaultKey with acl := row.acl } := by
  cases hc : writesKeys c with
  | false =>
    rw [effect_keys hc] at hrow
    exact ⟨row, hrow, rfl⟩
  | true =>
    cases c with
    | deleteKey keyId => exact ⟨row, (Table.mem_erase.mp hrow).1, rfl⟩
    | sweepExpiredKeys graceSeconds => exact ⟨row, (Table.mem_filter.mp hrow).1, rfl⟩
    | updateKeyAcl keyId acl =>
      simp only [effect] at hrow
      rcases Table.mem_update hrow with ⟨row₀, hrow₀, -, rfl⟩ | ⟨hrow₀, -⟩
      · exact ⟨row₀, hrow₀, rfl⟩
      · exact ⟨row, hrow₀, rfl⟩
    | insertKey key => cases h
    | updateKeyEmbedding keyId embeddingKeyId embeddedKey => cases h
    | _ => cases hc

theorem effect_cached {i : ThreadId} {c : Call} (h : harmless c = true) (w : World)
    {e : String × CacheEntry} (he : e ∈ (effect L i c w).2.cache.entries) :
    e ∈ w.cache.entries := by
  cases hc : usesCache c with
  | false =>
    rw [effect_cache hc] at he
    exact he
  | true =>
    cases c with
    | cacheLookup kid embHash => exact lookupCache_entries he
    | cacheDelete kid => exact (OrderedMap.mem_delete.mp he).1
    | cacheClear => cases he
    | cacheFill kid entry max => cases h
    | _ => cases hc

theorem perform_shrinks {i : ThreadId} {c : Call} (h : harmless c = true) (t : Turn) (w : World) :
    Shrinks w (perform L i t c w).2 := by
  rcases perform_cases L i t c w with ⟨_, _, _, _, hp⟩ | hp
  · rw [hp]
    exact ⟨rfl, rfl, Nat.le_refl _, fun row hrow => ⟨row, hrow, rfl⟩, fun _ he => he⟩
  · rw [hp]
    exact Shrinks.tick
      ⟨effect_minted (by rintro spec rfl; cases h) _, effect_born h _, effect_seed i c _,
      fun _ => effect_rows h _, fun _ => effect_cached h _⟩

theorem Shrinks.grows {w w' : World} (h : Shrinks w w') : Grows w w' :=
  ⟨h.minted ▸ List.prefix_rfl, h.born ▸ List.prefix_rfl⟩

theorem Shrinks.own {w w' : World} (h : Shrinks w w') {i : ThreadId} {g : GeneratedKey}
    (hg : Own i g w) : Own i g w' := by
  unfold Own
  rw [h.minted, h.born]
  exact hg

/-- What a row holds does not depend on its ACL. -/
theorem Stored.withAcl {w : World} {row : VaultKey} (h : Stored L kekOf w row) (acl : Json) :
    Stored L kekOf w { row with acl := acl } := by
  obtain ⟨g, hg, hholds⟩ := h.holds
  exact ⟨h.origin, g, hg, ⟨hholds.keyId, hholds.kty, hholds.alg, hholds.publicKey, hholds.wrapped⟩⟩

/-- The same keys, with rows and cache entries that were sound before. -/
theorem Sound.replace {w w' : World} (h : Sound L kekOf w) (hminted : w'.minted = w.minted)
    (hborn : w'.born = w.born) (hseed : w.seed ≤ w'.seed)
    (hrows : ∀ row ∈ w'.keys.rows, Stored L kekOf w row.toVaultKey)
    (hcached : ∀ e ∈ w'.cache.entries, ∃ g, Minted w g ∧ g.kid = e.1 ∧ e.2.jwk = g.secretKey) :
    Sound L kekOf w' := by
  have hgrow : Grows w w' := ⟨hminted ▸ List.prefix_rfl, hborn ▸ List.prefix_rfl⟩
  refine ⟨fun e he => ?_, hminted ▸ h.mintedKids, hborn ▸ h.bornKids, fun key hkey => ?_,
    fun row hrow => (hrows row hrow).mono hgrow, fun e he => ?_⟩
  · rw [hminted] at he
    obtain ⟨n, hn, hspec⟩ := h.minted e he
    exact ⟨n, Nat.lt_of_lt_of_le hn hseed, hspec⟩
  · rw [hborn] at hkey
    obtain ⟨g, hg, hkid⟩ := h.bornMinted key hkey
    exact ⟨g, hg.mono hgrow, hkid⟩
  · obtain ⟨g, hg, hkid, hjwk⟩ := hcached e he
    exact ⟨g, hg.mono hgrow, hkid, hjwk⟩

theorem Sound.shrinks {w w' : World} (h : Sound L kekOf w) (hs : Shrinks w w') :
    Sound L kekOf w' := by
  refine h.replace hs.minted hs.born hs.seed (fun row hrow => ?_) fun e he =>
    h.cached e (hs.cached e he)
  obtain ⟨row₀, hrow₀, heq⟩ := hs.rows row hrow
  rw [heq]
  exact (h.rows row₀ hrow₀).withAcl _

theorem step_harmless {i : ThreadId} {c : Call} (hc : harmless c = true) (t : Turn) {w : World}
    (h : Sound L kekOf w) : Sound L kekOf (perform L i t c w).2 ∧
      (protocol L kekOf).rely i w (perform L i t c w).2 ∧
      (protocol L kekOf).guar i w (perform L i t c w).2 := by
  have hs := perform_shrinks (L := L) (i := i) hc t w
  exact ⟨h.shrinks hs, ⟨hs.grows, fun _ => hs.own⟩, hs.grows, fun _ _ _ => hs.own⟩

theorem perform_failed_or {P : World → Prop} {i : ThreadId} {t : Turn} {c : Call} {w : World}
    (hfail : P (w.tick t.elapsed)) (heffect : P (effect L i c (w.tick t.elapsed)).2) :
    P (perform L i t c w).2 := by
  rcases perform_cases L i t c w with ⟨_, _, _, _, hp⟩ | hp
  · rw [hp]
    exact hfail
  · rw [hp]
    exact heffect

theorem Sound.tick {w : World} (h : Sound L kekOf w) (ms : Nat) : Sound L kekOf (w.tick ms) :=
  h.shrinks ⟨rfl, rfl, Nat.le_refl _, fun row hrow => ⟨row, hrow, rfl⟩, fun _ he => he⟩

/-- A generated key has an id that no other key has. -/
theorem Sound.mint (hL : Reliable L kekOf) {w : World} (h : Sound L kekOf w) (i : ThreadId)
    {spec : KeySpec} (hspec : Resolved spec) :
    Sound L kekOf (effect L i (.generateVaultKey spec) w).2 ∧
      (∀ g, generateVaultKey L w.seed spec = .ok g →
        Own i g (effect L i (.generateVaultKey spec) w).2) := by
  cases hg : generateVaultKey L w.seed spec with
  | error message =>
    simp only [effect, hg, List.append_nil]
    refine ⟨h.shrinks ⟨rfl, rfl, Nat.le_succ _, fun row hrow => ⟨row, hrow, rfl⟩,
      fun _ he => he⟩, ?_⟩
    intro g heq
    cases heq
  | ok g =>
    simp only [effect, hg]
    have hgrow : Grows w { w with seed := w.seed + 1, minted := w.minted ++ [(i, g)] } :=
      ⟨List.prefix_append _ _, List.prefix_rfl⟩
    have hnew : ∀ e ∈ w.minted, e.2.kid ≠ g.kid := by
      intro e he heq
      obtain ⟨n, hn, spec', -, hspec'⟩ := h.minted e he
      have hdraw := generated_draws hspec'
      rw [heq] at hdraw
      have := hL.freshKids n w.seed g.kid hdraw (generated_draws hg)
      omega
    have hunborn : ∀ key ∈ w.born, key.keyId ≠ g.kid := by
      intro key hkey heq
      obtain ⟨g', ⟨j, hj⟩, hkid⟩ := h.bornMinted key hkey
      exact hnew _ hj (hkid.trans heq)
    refine ⟨⟨fun e he => ?_, ?_, h.bornKids, fun key hkey => ?_, fun row hrow =>
      (h.rows row hrow).mono hgrow, fun e he => ?_⟩, fun g' heq => ?_⟩
    · rcases List.mem_append.mp he with he | he
      · obtain ⟨n, hn, hspec'⟩ := h.minted e he
        exact ⟨n, Nat.lt_succ_of_lt hn, hspec'⟩
      · rw [List.mem_singleton.mp he]
        exact ⟨w.seed, Nat.lt_succ_self _, spec, hspec, hg⟩
    · rw [List.map_append, List.nodup_append]
      refine ⟨h.mintedKids, by simp, ?_⟩
      rintro a ha b hb rfl
      obtain ⟨e, he, rfl⟩ := List.mem_map.mp ha
      simp only [List.map_cons, List.map_nil, List.mem_singleton] at hb
      exact hnew e he hb
    · obtain ⟨g', hg', hkid⟩ := h.bornMinted key hkey
      exact ⟨g', hg'.mono hgrow, hkid⟩
    · obtain ⟨g', hg', hkid, hjwk⟩ := h.cached e he
      exact ⟨g', hg'.mono hgrow, hkid, hjwk⟩
    · cases heq
      exact ⟨List.mem_append_right _ (List.mem_singleton_self _), hunborn⟩

theorem step_generate (hL : Reliable L kekOf) {i : ThreadId} {spec : KeySpec}
    (hspec : Resolved spec) (t : Turn) {w : World} (h : Sound L kekOf w) :
    Sound L kekOf (perform L i t (.generateVaultKey spec) w).2 ∧
      (protocol L kekOf).guar i w (perform L i t (.generateVaultKey spec) w).2 ∧
      ∀ g, (perform L i t (.generateVaultKey spec) w).1 = .ok g →
        Own i g (perform L i t (.generateVaultKey spec) w).2 := by
  rcases perform_cases L i t (.generateVaultKey spec) w with ⟨message, answer, -, ha, hp⟩ | hp
  · rw [hp]
    refine ⟨h.tick _, ⟨Grows.refl w, fun _ _ _ hg => hg⟩, fun g heq => ?_⟩
    rw [← Option.some.inj ha] at heq
    cases heq
  · rw [hp]
    obtain ⟨hsound, hown⟩ := (h.tick t.elapsed).mint hL i hspec
    refine ⟨hsound, ⟨⟨List.prefix_append _ _, List.prefix_rfl⟩, fun j _ g hg => ?_⟩, hown⟩
    exact ⟨List.mem_append_left _ hg.1, hg.2⟩

theorem Sound.insert {i : ThreadId} {row : KeyRow} {g : GeneratedKey} {w : World}
    (h : Sound L kekOf w) (hown : Own i g w) (hholds : Holds L kekOf row.toVaultKey g) :
    Sound L kekOf { w with keys := w.keys.insert row, born := w.born ++ [row.toVaultKey] } := by
  have hgrow : Grows w { w with keys := w.keys.insert row, born := w.born ++ [row.toVaultKey] } :=
    ⟨List.prefix_rfl, List.prefix_append _ _⟩
  refine ⟨h.minted, h.mintedKids, ?_, fun key hkey => ?_, fun row' hrow' => ?_, fun e he => ?_⟩
  · rw [List.map_append, List.nodup_append]
    refine ⟨h.bornKids, by simp, ?_⟩
    rintro a ha b hb rfl
    obtain ⟨key, hkey, rfl⟩ := List.mem_map.mp ha
    simp only [List.map_cons, List.map_nil, List.mem_singleton] at hb
    exact hown.2 key hkey (hb.trans hholds.keyId)
  · rcases List.mem_append.mp hkey with hkey | hkey
    · obtain ⟨g', hg', hkid⟩ := h.bornMinted key hkey
      exact ⟨g', hg'.mono hgrow, hkid⟩
    · rw [List.mem_singleton.mp hkey]
      exact ⟨g, ⟨i, hown.1⟩, hholds.keyId.symm⟩
  · rcases Table.mem_insert hrow' with rfl | hrow'
    · exact ⟨⟨row'.toVaultKey, List.mem_append_right _ (List.mem_singleton_self _), rfl, rfl, rfl⟩,
        g, ⟨i, hown.1⟩, hholds⟩
    · exact (h.rows row' hrow').mono hgrow
  · obtain ⟨g', hg', hkid, hjwk⟩ := h.cached e he
    exact ⟨g', hg'.mono hgrow, hkid, hjwk⟩

/-- A thread may insert the row of a key it owns. -/
theorem step_insert {i : ThreadId} (key : VaultKey) {g : GeneratedKey} (t : Turn) {w : World}
    (h : Sound L kekOf w) (hown : Own i g w) (hholds : Holds L kekOf (key.toColumns L) g) :
    Sound L kekOf (perform L i t (.insertKey key) w).2 ∧
      (protocol L kekOf).guar i w (perform L i t (.insertKey key) w).2 := by
  refine perform_failed_or (P := fun w' => Sound L kekOf w' ∧ (protocol L kekOf).guar i w w')
    ⟨h.tick _, Grows.refl w, fun _ _ _ hg => hg⟩ ?_
  simp only [effect]
  split
  · exact ⟨h.tick _, Grows.refl w, fun _ _ _ hg => hg⟩
  · split
    · refine ⟨(h.tick _).insert hown hholds, ⟨List.prefix_rfl, List.prefix_append _ _⟩, ?_⟩
      intro j hj g' hg'
      refine ⟨hg'.1, fun key' hkey' => ?_⟩
      rcases List.mem_append.mp hkey' with hkey' | hkey'
      · exact hg'.2 key' hkey'
      · rw [List.mem_singleton.mp hkey', hholds.keyId]
        intro hkid
        exact hj (congrArg Prod.fst (h.eq_of_kid hg'.1 hown.1 hkid.symm))
    · exact ⟨h.tick _, Grows.refl w, fun _ _ _ hg => hg⟩

/-- A row may be wrapped again around its key and the window that can be read from it. -/
theorem step_reembed {i : ThreadId} {row : VaultKey} {g : GeneratedKey} {iat : Nat}
    {embeddingKeyId embeddedKey : String} (t : Turn) {w : World} (h : Sound L kekOf w)
    (hrow : Stored L kekOf w row) (hg : Minted w g) (hkid : row.keyId = g.kid)
    (hwrapped : L.jweDecrypt embeddedKey (kekOf embeddingKeyId).secretJwk =
      .ok (embedClaims row.keyId iat (dateSeconds row.notBefore) (dateSeconds row.expiresAt)
        g.secretKey)) :
    Sound L kekOf (perform L i t (.updateKeyEmbedding row.keyId embeddingKeyId embeddedKey) w).2 ∧
      (protocol L kekOf).guar i w
        (perform L i t (.updateKeyEmbedding row.keyId embeddingKeyId embeddedKey) w).2 := by
  refine perform_failed_or (P := fun w' => Sound L kekOf w' ∧ (protocol L kekOf).guar i w w')
    ⟨h.tick _, Grows.refl w, fun _ _ _ hg => hg⟩ ?_
  refine ⟨h.replace rfl rfl (Nat.le_refl _) (fun row' hrow' => ?_) h.cached, Grows.refl w,
    fun _ _ _ hg => hg⟩
  dsimp only [effect] at hrow'
  rcases Table.mem_update hrow' with ⟨row₀, hrow₀, hid, rfl⟩ | ⟨hrow', -⟩
  · have hstored := h.rows row₀ hrow₀
    obtain ⟨g₀, hg₀, hholds⟩ := hstored.holds
    obtain ⟨hnbf, hexp⟩ := h.stored_window hrow hstored hid.symm
    have heq : g₀ = g := h.minted_unique hg₀ hg ((hholds.keyId.symm.trans hid).trans hkid)
    subst heq
    obtain ⟨_, _, _, _, hfrom, huntil⟩ := hholds.wrapped
    refine ⟨hstored.origin, g₀, hg₀, hholds.keyId, hholds.kty, hholds.alg, hholds.publicKey, iat,
      dateSeconds row₀.notBefore, dateSeconds row₀.expiresAt, ?_, hfrom.reread, huntil.reread⟩
    rw [hwrapped, hid, hnbf, hexp]
  · exact h.rows row' hrow'

/-- The cache may be filled with what a key's own row holds. -/
theorem step_fill {i : ThreadId} {kid : String} (entry : CacheEntry) (max : Nat)
    {g : GeneratedKey} (t : Turn) {w : World} (h : Sound L kekOf w) (hg : Minted w g)
    (hkid : g.kid = kid)
    (hjwk : entry.jwk = g.secretKey) :
    Sound L kekOf (perform L i t (.cacheFill kid entry max) w).2 ∧
      (protocol L kekOf).guar i w (perform L i t (.cacheFill kid entry max) w).2 := by
  refine perform_failed_or (P := fun w' => Sound L kekOf w' ∧ (protocol L kekOf).guar i w w')
    ⟨h.tick _, Grows.refl w, fun _ _ _ hg => hg⟩ ?_
  refine ⟨h.replace rfl rfl (Nat.le_refl _) h.rows fun e he => ?_, Grows.refl w,
    fun _ _ _ hg => hg⟩
  rcases fillCache_entries he with rfl | he
  · exact ⟨g, hg, hkid, hjwk⟩
  · exact h.cached e he

end

end KeyInvariant
