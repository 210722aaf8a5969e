import KeyVault.KeyOperations
import KeyVault.Fixtures
import KeyVault.RecentlyUsed

/-!
# What the unwrap cache holds

After any sequence of unwrap calls the cache holds the keys that were unwrapped most
recently, the latest last. A call asks the KEK unless its key is among them with the same
digest and was extracted less than one TTL ago.
-/

namespace CacheContent

open JsValue Errors Programs Interleaving Vault KeyStore CallEffects InsertionMap RecentlyUsed

/-- One unwrap call: its row, the clock it has read, and whether it has asked the KEK. -/
structure Visit where
  row : VaultKey
  now : Nat
  extracted : Bool

def isDecrypt : Call → Bool
  | .jweDecrypt _ _ => true
  | _ => false

/-- The visit of a call from this session. -/
def visit (L : Libraries) (cfg : Config) (i : ThreadId) (row : VaultKey) (s : Session) : Visit where
  row := row
  now := s.world.clock + (s.turns.headD {}).elapsed
  extracted := ((unwrap L cfg row).callsOf (serve L i) s).any isDecrypt

/-- From an empty cache these unwrap calls, each of which has succeeded, have led to the
world. Between two calls time may pass, and whatever leaves the cache alone may happen. -/
inductive Visited (L : Libraries) (cfg : Config) : List Visit → World → Prop where
  | start {w : World} : w.cache = OrderedMap.empty → Visited L cfg [] w
  | idle {visits : List Visit} {w w' : World} : Visited L cfg visits w → w'.cache = w.cache →
      w.clock ≤ w'.clock → Visited L cfg visits w'
  | unwrap {visits : List Visit} {s s' : Session} {jwk : Json} (i : ThreadId) (row : VaultKey) :
      Visited L cfg visits s.world → (KeyStore.unwrap L cfg row).run (serve L i) s = (.ok jwk, s') →
        Visited L cfg (visits ++ [visit L cfg i row s]) s'.world

def kids (visits : List Visit) : List String := visits.map (fun v => v.row.keyId)

/-- The last call for the key that has asked the KEK. -/
def lastExtract (visits : List Visit) (kid : String) : Option Visit :=
  visits.reverse.find? (fun v => v.row.keyId == kid && v.extracted)

/-- The key is among the most recently unwrapped ones, its row has the digest of the last
extraction, and that was less than one TTL ago. -/
def Fresh (L : Libraries) (cfg : Config) (visits : List Visit) (v : Visit) : Prop :=
  v.row.keyId ∈ recent cfg.cacheMaxEntries (kids visits) ∧
    ∃ x, lastExtract visits v.row.keyId = some x ∧
      L.sha256 x.row.embeddedKey = L.sha256 v.row.embeddedKey ∧
        v.now - x.now < cfg.cacheTtlSeconds * 1000

variable {L : Libraries} {cfg : Config} {i : ThreadId} {row : VaultKey}
  {s s' : Session} {jwk : Json}
  {visits : List Visit} {w : World} {v : Visit} {kid : String}

theorem serve_lookup (kid embHash : String) (s : Session) :
    serve L i (.cacheLookup kid embHash) s =
      ((s.pass.world.clock, (lookupCache s.world.cache kid embHash s.pass.world.clock).1),
        ⟨s.turns.tail, { s.pass.world with
          cache := (lookupCache s.world.cache kid embHash s.pass.world.clock).2 }⟩) := by
  have hperform := perform_answered (L := L) (i := i) (t := s.turns.headD {})
    (c := .cacheLookup kid embHash) (w := s.world) rfl (fun _ => nofun)
  simp only [serve, hperform]
  rfl

theorem serve_fill (kid : String) (entry : CacheEntry) (max : Nat) (s : Session) :
    serve L i (.cacheFill kid entry max) s =
      ((), ⟨s.turns.tail, { s.pass.world with
        cache := fillCache s.world.cache kid entry max }⟩) := by
  have hperform := perform_answered (L := L) (i := i) (t := s.turns.headD {})
    (c := .cacheFill kid entry max) (w := s.world) rfl (fun _ => nofun)
  simp only [serve, hperform]
  rfl

/-- A decryption leaves the cache alone. -/
theorem serve_decrypt (token : String) (secretJwk : Json) (s : Session) :
    (serve L i (.jweDecrypt token secretJwk) s).2.world.cache = s.world.cache ∧
      s.world.clock ≤ (serve L i (.jweDecrypt token secretJwk) s).2.world.clock := by
  rcases perform_cases L i (s.turns.headD {}) (.jweDecrypt token secretJwk) s.world with
    ⟨_, _, -, -, hp⟩ | hp
  · simp only [serve, hp]
    exact ⟨rfl, Nat.le_add_right _ _⟩
  · simp only [serve, hp]
    exact ⟨rfl, Nat.le_add_right _ _⟩

/-- An extraction that succeeds has asked the KEK. -/
theorem extract_visit {m : KekManager} {embeddingKeyId embeddedKey : String}
    (h : (extract m embeddingKeyId embeddedKey kid).run (serve L i) s = (.ok jwk, s')) :
    s'.world.cache = s.world.cache ∧ s.world.clock ≤ s'.world.clock ∧
      ((extract m embeddingKeyId embeddedKey kid).callsOf (serve L i) s).any isDecrypt = true := by
  unfold extract at h ⊢
  cases hkek : m.byId embeddingKeyId with
  | none =>
    rw [hkek] at h
    cases h
  | some kek =>
    rw [hkek] at h
    obtain ⟨hcache, hclock⟩ := serve_decrypt (L := L) (i := i) embeddedKey kek.secretJwk s
    simp only [ask_bind, Prog.run_call, Prog.callsOf_call] at h ⊢
    cases hanswer : (serve L i (.jweDecrypt embeddedKey kek.secretJwk) s).1 with
    | error message =>
      rw [hanswer] at h
      cases h
    | ok claims =>
      rw [hanswer] at h
      obtain ⟨-, rfl⟩ := Prod.mk.inj h
      exact ⟨hcache, hclock, rfl⟩

/-- The entry answers a call for this digest at this time. -/
def Answers (entry : CacheEntry) (embHash : String) (now : Nat) : Prop :=
  entry.embHash = embHash ∧ now < entry.expires

/-- A call that succeeds is answered by the entry of its key, which moves to the end, or
asks the KEK and stores a new entry. -/
theorem unwrap_visit (hmax : 1 ≤ cfg.cacheMaxEntries)
    (h : (unwrap L cfg row).run (serve L i) s = (.ok jwk, s')) :
    (visit L cfg i row s).now ≤ s'.world.clock ∧
    ((∃ entry, (row.keyId, entry) ∈ s.world.cache.entries ∧
        Answers entry (L.sha256 row.embeddedKey) (visit L cfg i row s).now ∧
        (visit L cfg i row s).extracted = false ∧
        s'.world.cache = (s.world.cache.delete row.keyId).set row.keyId entry) ∨
      ((∀ entry, (row.keyId, entry) ∈ s.world.cache.entries →
          ¬ Answers entry (L.sha256 row.embeddedKey) (visit L cfg i row s).now) ∧
        (visit L cfg i row s).extracted = true ∧ ∃ jwk', s'.world.cache = fillCache
          (lookupCache s.world.cache row.keyId (L.sha256 row.embeddedKey)
            (visit L cfg i row s).now).2 row.keyId ⟨L.sha256 row.embeddedKey, jwk',
              (visit L cfg i row s).now + cfg.cacheTtlSeconds * 1000⟩ cfg.cacheMaxEntries)) := by
  have hnow : (visit L cfg i row s).now = s.pass.world.clock := rfl
  have hcalls : (visit L cfg i row s).extracted =
      ((unwrap L cfg row).callsOf (serve L i) s).any isDecrypt := rfl
  have hpositive : ¬ cfg.cacheMaxEntries < 1 := by omega
  rw [hcalls, hnow]
  simp only [unwrap, if_neg hpositive, ask_bind, Prog.run_call, Prog.callsOf_call, serve_lookup]
    at h ⊢
  cases hlookup : (lookupCache s.world.cache row.keyId (L.sha256 row.embeddedKey)
      s.pass.world.clock).1 with
  | some cached =>
    rw [hlookup] at h
    obtain ⟨entry, hentry, hhash, hfresh, -⟩ := lookupCache_hit hlookup
    have hget := (OrderedMap.get?_eq_some_iff s.world.cache row.keyId entry).mpr hentry
    obtain ⟨-, rfl⟩ := Prod.mk.inj h
    refine ⟨Nat.le_refl _, Or.inl ⟨entry, hentry, ⟨hhash, hfresh⟩, rfl, ?_⟩⟩
    simp only [lookupCache, hget, hhash, hfresh, and_self, if_true]
  | none =>
    rw [hlookup] at h
    dsimp only at h ⊢
    -- the extraction starts from the session that the look-up has left
    generalize hstart : (⟨s.turns.tail, { s.pass.world with cache := (lookupCache s.world.cache
      row.keyId (L.sha256 row.embeddedKey) s.pass.world.clock).2 }⟩ : Session) = start at h ⊢
    have hcache : start.world.cache = (lookupCache s.world.cache row.keyId
        (L.sha256 row.embeddedKey) s.pass.world.clock).2 := by
      rw [← hstart]
    have hclock : start.world.clock = s.pass.world.clock := by
      rw [← hstart]
    rw [Prog.run_bind] at h
    cases hrun : (extract cfg.kek row.embeddingKeyId row.embeddedKey row.keyId).run (serve L i)
        start with
    | mk r s₂ =>
      rw [hrun] at h
      cases r with
      | error e => cases h
      | ok jwk' =>
        obtain ⟨hkept, hlater, hasked⟩ := extract_visit hrun
        dsimp only at h
        simp only [Prog.run_call, serve_fill, Prog.pure_eq, Prog.run_done] at h
        obtain ⟨-, rfl⟩ := Prod.mk.inj h
        have hpass : start.world.clock ≤ s₂.pass.world.clock :=
          Nat.le_trans hlater (Nat.le_add_right _ _)
        refine ⟨hclock ▸ hpass, Or.inr ⟨?_, ?_, jwk', ?_⟩⟩
        · rintro entry hentry ⟨hhash, hfresh⟩
          have hget := (OrderedMap.get?_eq_some_iff s.world.cache row.keyId entry).mpr hentry
          simp only [lookupCache, hget, hhash, hfresh, and_self, if_true] at hlookup
          cases hlookup
        · rw [Prog.callsOf_bind_ok hrun, List.any_cons, List.any_append, hasked]
          rfl
        · have hread : (serve L i (.cacheLookup row.keyId (L.sha256 row.embeddedKey)) s).1.1 =
              s.pass.world.clock := by
            rw [serve_lookup]
          rw [← hcache, ← hkept, ← hread]

/-- After the call its key is the latest, and the others are as they were. -/
theorem unwrap_cache (hmax : 1 ≤ cfg.cacheMaxEntries)
    (hsize : s.world.cache.keys.length ≤ cfg.cacheMaxEntries)
    (h : (unwrap L cfg row).run (serve L i) s = (.ok jwk, s')) :
    s'.world.cache.keys = (touch s.world.cache.keys row.keyId).rtake cfg.cacheMaxEntries ∧
    ∀ e ∈ s'.world.cache.entries, (e ∈ s.world.cache.entries ∧ (e.1 ≠ row.keyId ∨
        (visit L cfg i row s).extracted = false)) ∨
      (e.1 = row.keyId ∧ (visit L cfg i row s).extracted = true ∧
        e.2.embHash = L.sha256 row.embeddedKey ∧
        e.2.expires = (visit L cfg i row s).now + cfg.cacheTtlSeconds * 1000) := by
  obtain ⟨-, ⟨entry, hentry, -, hextracted, hcache⟩ | ⟨hnone, hextracted, jwk', hcache⟩⟩ :=
    unwrap_visit hmax h
  · rw [hcache]
    constructor
    · have hmem : row.keyId ∈ s.world.cache.keys := List.mem_map_of_mem (f := Prod.fst) hentry
      rw [keys_touch, rtake_all (Nat.le_trans (touch_length hmem) hsize)]
    · intro e he
      rcases OrderedMap.mem_set he with rfl | he
      · exact Or.inl ⟨hentry, Or.inr hextracted⟩
      · obtain ⟨hold, hne⟩ := OrderedMap.mem_delete.mp he
        exact Or.inl ⟨hold, Or.inl hne⟩
  · -- the look-up has left no entry of the key, so the new one is the last
    have hkeys : row.keyId ∉ (lookupCache s.world.cache row.keyId (L.sha256 row.embeddedKey)
          (visit L cfg i row s).now).2.keys ∧
        touch (lookupCache s.world.cache row.keyId (L.sha256 row.embeddedKey)
          (visit L cfg i row s).now).2.keys row.keyId = touch s.world.cache.keys row.keyId := by
      cases hget : s.world.cache.get? row.keyId with
      | none =>
        have habsent : row.keyId ∉ s.world.cache.keys := by
          intro hmem
          obtain ⟨⟨k, entry⟩, he, hk⟩ := List.mem_map.mp hmem
          dsimp only at hk
          subst k
          rw [(OrderedMap.get?_eq_some_iff s.world.cache row.keyId entry).mpr he] at hget
          cases hget
        simp only [lookupCache, hget]
        exact ⟨habsent, trivial⟩
      | some entry =>
        have hentry := (OrderedMap.get?_eq_some_iff s.world.cache row.keyId entry).mp hget
        have hstale : ¬ (entry.embHash = L.sha256 row.embeddedKey ∧
            (visit L cfg i row s).now < entry.expires) := hnone entry hentry
        simp only [lookupCache, hget, if_neg hstale]
        refine ⟨deleted_absent _ _, ?_⟩
        rw [touch, keys_delete, filter_absent (k := row.keyId) (by simp), touch]
    rw [hcache]
    constructor
    · rw [fillCache, keys_evict, keys_new hkeys.1, hkeys.2]
    · intro e he
      rcases fillCache_entries he with rfl | he
      · exact Or.inr ⟨rfl, hextracted, rfl, rfl⟩
      · refine Or.inl ⟨lookupCache_entries he, Or.inl ?_⟩
        intro heq
        have hmem := List.mem_map_of_mem (f := Prod.fst) he
        rw [heq] at hmem
        exact hkeys.1 hmem

theorem lastExtract_snoc (hother : v.row.keyId ≠ kid ∨ v.extracted = false) :
    lastExtract (visits ++ [v]) kid = lastExtract visits kid := by
  have hnot : (v.row.keyId == kid && v.extracted) = false := by
    rcases hother with hne | hextracted
    · simp [hne]
    · simp [hextracted]
  simp only [lastExtract, List.reverse_append, List.reverse_singleton, List.singleton_append,
    List.find?_cons, hnot]

theorem lastExtract_self (hextracted : v.extracted = true) :
    lastExtract (visits ++ [v]) v.row.keyId = some v := by
  simp [lastExtract, hextracted]

/-- The cache holds the recent keys, each as it was last extracted, in the past. -/
structure Content (L : Libraries) (cfg : Config) (visits : List Visit) (w : World) : Prop where
  keys : w.cache.keys = recent cfg.cacheMaxEntries (kids visits)
  entries : ∀ e ∈ w.cache.entries, ∃ x, lastExtract visits e.1 = some x ∧
    e.2.embHash = L.sha256 x.row.embeddedKey ∧
    e.2.expires = x.now + cfg.cacheTtlSeconds * 1000 ∧ x.now ≤ w.clock

theorem Content.size (h : Content L cfg visits w) :
    w.cache.keys.length ≤ cfg.cacheMaxEntries := by
  rw [h.keys, recent_length]
  exact Nat.min_le_left _ _

theorem Content.step (hmax : 1 ≤ cfg.cacheMaxEntries) (h : Content L cfg visits s.world)
    (hrun : (unwrap L cfg row).run (serve L i) s = (.ok jwk, s')) :
    Content L cfg (visits ++ [visit L cfg i row s]) s'.world := by
  obtain ⟨hkeys, hentries⟩ := unwrap_cache hmax h.size hrun
  obtain ⟨hnow, -⟩ := unwrap_visit hmax hrun
  have hclock : s.world.clock ≤ s'.world.clock := Nat.le_trans (Nat.le_add_right _ _) hnow
  constructor
  · have hkids : kids (visits ++ [visit L cfg i row s]) = kids visits ++ [row.keyId] := by
      simp [kids, visit]
    rw [hkeys, h.keys, hkids, recent_concat hmax]
  · intro e he
    rcases hentries e he with ⟨hold, hother⟩ | ⟨hkid, hextracted, hhash, hexpires⟩
    · obtain ⟨x, hlast, hhash, hexpires, hpast⟩ := h.entries e hold
      refine ⟨x, ?_, hhash, hexpires, Nat.le_trans hpast hclock⟩
      rw [lastExtract_snoc (hother.imp_left Ne.symm), hlast]
    · refine ⟨visit L cfg i row s, ?_, hhash, hexpires, hnow⟩
      rw [hkid]
      exact lastExtract_self hextracted

/-- A call does without the KEK exactly if its key is fresh. -/
theorem Content.avoids (hmax : 1 ≤ cfg.cacheMaxEntries) (h : Content L cfg visits s.world)
    (hrun : (unwrap L cfg row).run (serve L i) s = (.ok jwk, s')) :
    (visit L cfg i row s).extracted = false ↔ Fresh L cfg visits (visit L cfg i row s) := by
  have hpast : s.world.clock ≤ (visit L cfg i row s).now := Nat.le_add_right _ _
  have hrow : (visit L cfg i row s).row = row := rfl
  -- the entry of the key answers exactly if its extraction is fresh
  have hanswers : ∀ entry, (row.keyId, entry) ∈ s.world.cache.entries →
      (Answers entry (L.sha256 row.embeddedKey) (visit L cfg i row s).now ↔
        Fresh L cfg visits (visit L cfg i row s)) := by
    intro entry hentry
    obtain ⟨x, hlast, hhash, hexpires, hold⟩ := h.entries _ hentry
    dsimp only at hlast hhash hexpires
    have hmem : row.keyId ∈ recent cfg.cacheMaxEntries (kids visits) := by
      rw [← h.keys]
      exact List.mem_map_of_mem (f := Prod.fst) hentry
    constructor
    · rintro ⟨hsame, hfresh⟩
      refine ⟨hmem, x, hlast, hhash.symm.trans hsame, ?_⟩
      omega
    · rintro ⟨-, x', hlast', hsame, hfresh⟩
      rw [hrow] at hlast' hsame
      rw [hlast] at hlast'
      cases hlast'
      refine ⟨hhash.trans hsame, ?_⟩
      omega
  obtain ⟨-, ⟨entry, hentry, hfound, hextracted, -⟩ | ⟨hnone, hextracted, -⟩⟩ :=
    unwrap_visit hmax hrun
  · exact ⟨fun _ => (hanswers entry hentry).mp hfound, fun _ => hextracted⟩
  · constructor
    · intro hfalse
      rw [hextracted] at hfalse
      cases hfalse
    · intro hfresh
      have hmem : row.keyId ∈ s.world.cache.keys := by
        rw [h.keys]
        exact hfresh.1
      obtain ⟨⟨k, entry⟩, hentry, rfl⟩ := List.mem_map.mp hmem
      exact absurd ((hanswers entry hentry).mpr hfresh) (hnone entry hentry)

/-- Every sequence of calls leaves the recent keys in the cache, and each of its calls has
done without the KEK exactly if its key was fresh. -/
theorem visited_content (hmax : 1 ≤ cfg.cacheMaxEntries) (h : Visited L cfg visits w) :
    Content L cfg visits w ∧ ∀ pre v post, visits = pre ++ v :: post →
      (v.extracted = false ↔ Fresh L cfg pre v) := by
  induction h with
  | start hempty =>
    constructor
    · constructor
      · rw [hempty]
        simp [OrderedMap.keys, OrderedMap.empty, recent, kids, List.rtake]
      · intro e he
        rw [hempty] at he
        cases he
    · intro pre v post heq
      cases pre <;> cases heq
  | idle _ hcache hclock ih =>
    obtain ⟨hcontent, hcalls⟩ := ih
    refine ⟨⟨?_, ?_⟩, hcalls⟩
    · rw [hcache]
      exact hcontent.keys
    · intro e he
      rw [hcache] at he
      obtain ⟨x, hlast, hhash, hexpires, hpast⟩ := hcontent.entries e he
      exact ⟨x, hlast, hhash, hexpires, Nat.le_trans hpast hclock⟩
  | unwrap i row _ hrun ih =>
    obtain ⟨hcontent, hcalls⟩ := ih
    refine ⟨hcontent.step hmax hrun, fun pre v post heq => ?_⟩
    rcases List.eq_nil_or_concat post with rfl | ⟨post', last, rfl⟩
    · obtain ⟨rfl, hlast⟩ := List.append_inj' heq rfl
      cases hlast
      exact hcontent.avoids hmax hrun
    · have hsplit := heq
      rw [List.concat_eq_append, ← List.cons_append, ← List.append_assoc] at hsplit
      obtain ⟨rfl, -⟩ := List.append_inj' hsplit rfl
      exact hcalls pre v post' rfl

/-- The cache is exactly least-recently-used with a time to live: after every call it holds
the `min max n` keys unwrapped last, in that order, and a call asks the KEK exactly if its
key is not among them, or has another digest, or was extracted a TTL ago. -/
theorem lru_ttl (L : Libraries) (cfg : Config) (hmax : 1 ≤ cfg.cacheMaxEntries)
    (visits : List Visit) (w : World) (h : Visited L cfg visits w) :
    w.cache.keys = recent cfg.cacheMaxEntries (kids visits) ∧
    w.cache.keys.length = min cfg.cacheMaxEntries (kids visits).dedup.length ∧
    ∀ pre v post, visits = pre ++ v :: post → (v.extracted = false ↔ Fresh L cfg pre v) := by
  obtain ⟨hcontent, hcalls⟩ := visited_content hmax h
  refine ⟨hcontent.keys, ?_, hcalls⟩
  rw [hcontent.keys, recent_length]

section

open Fixtures

def bobsRow : VaultKey := bobsKey.toVaultKey

/-- A second key, with an embedding of its own. -/
def otherRow : VaultKey := { bobsRow with keyId := keyId2, embeddedKey := "sealed too" }

def otherJwk : Json := .obj [("kty", .str "oct"), ("k", .str "b3RoZXI"), ("kid", .str keyId2)]

/-- Libraries that open both rows. -/
def twoKeys : Libraries :=
  { opening with
    jweDecrypt := fun token jwk =>
      if token = "sealed too" ∧ jwk = kek.secretJwk then
        .ok (embedClaims keyId2 0 none none otherJwk)
      else opening.jweDecrypt token jwk }

/-- A cache with room for one key. -/
def narrow : Config := { config with cacheMaxEntries := 1 }

/-- The world after a call. -/
def later (row : VaultKey) (s : Session) : World :=
  ((unwrap twoKeys narrow row).run (serve twoKeys 0) s).2.world

def visit₁ : Session := quiet (fresh 0)

/-- Bob's key is unwrapped again, 5 ms later. -/
def visit₂ : Session := ⟨[{ elapsed := 5 }], later bobsRow visit₁⟩

def visit₃ : Session := quiet (later bobsRow visit₂)

def visit₄ : Session := quiet (later otherRow visit₃)

/-- Bob's key twice, the other key, and Bob's key once more. -/
def fourVisits : List Visit :=
  [visit twoKeys narrow 0 bobsRow visit₁, visit twoKeys narrow 0 bobsRow visit₂,
    visit twoKeys narrow 0 otherRow visit₃, visit twoKeys narrow 0 bobsRow visit₄]

theorem visited_later {visits : List Visit} {s : Session} {jwk : Json} (row : VaultKey)
    (h : Visited twoKeys narrow visits s.world)
    (hrun : ((unwrap twoKeys narrow row).run (serve twoKeys 0) s).1 = .ok jwk) :
    Visited twoKeys narrow (visits ++ [visit twoKeys narrow 0 row s]) (later row s) :=
  Visited.unwrap 0 row h (Prod.ext hrun rfl)

theorem four_visited : Visited twoKeys narrow fourVisits (later bobsRow visit₄) := by
  have h₁ := visited_later (s := visit₁) bobsRow (Visited.start rfl) rfl
  have hwait : Visited twoKeys narrow _ visit₂.world := h₁.idle rfl (Nat.le_refl _)
  have h₂ := visited_later (s := visit₂) bobsRow hwait rfl
  have h₃ := visited_later (s := visit₃) otherRow h₂ rfl
  exact visited_later (s := visit₄) bobsRow h₃ rfl

/-- The second call is answered from the cache; the third one evicts Bob's key, so that the
fourth asks the KEK again. -/
theorem bobs_visits :
    fourVisits.map (fun v => v.extracted) = [true, false, true, true] ∧
    (later bobsRow visit₄).cache.keys = recent narrow.cacheMaxEntries (kids fourVisits) ∧
    (later bobsRow visit₄).cache.keys.length =
      min narrow.cacheMaxEntries (kids fourVisits).dedup.length ∧
    ∀ pre v post, fourVisits = pre ++ v :: post →
      (v.extracted = false ↔ Fresh twoKeys narrow pre v) :=
  ⟨rfl, lru_ttl twoKeys narrow (by decide) fourVisits _ four_visited⟩

end

end CacheContent
