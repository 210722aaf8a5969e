import KeyVault.CallEffects
import KeyVault.Fixtures

/-!
# The unwrap cache

Any number of unwrap, revoke and cacheClear tasks interleave over one cache.
Every entry has a source: an unwrap call that missed, extracted the key, and
stored it under the expiry of its own clock reading. What a hit returns is then
what the extraction would return.
-/

namespace UnwrapCache

open JsValue Errors Programs Interleaving Vault KeyStore CallEffects InsertionMap

inductive Task where
  | unwrap (row : VaultKey)
  | revoke (kid : String)
  | cacheClear

namespace Task

def program (L : Libraries) (cfg : Config) : Task → Api Json
  | unwrap row => KeyStore.unwrap L cfg row
  | revoke kid => do return .bool (← KeyStore.revoke kid)
  | cacheClear => do
    KeyStore.cacheClear
    return .null

def isUnwrap : Task → Bool
  | unwrap _ => true
  | _ => false

end Task

/-- `extract` is a function of its arguments: no call of an unwrap task fails. -/
def performTask (L : Libraries) (tasks : ThreadId → Task) : Perform Ans World Turn :=
  fun i t => perform L i (if (tasks i).isUnwrap then { t with fails := none } else t)

/-- The extraction of a row, without the cache. -/
def plain (L : Libraries) (cfg : Config) (row : VaultKey) : Except Thrown Json :=
  extracted L cfg.kek row.embeddingKeyId row.embeddedKey row.keyId

abbrev Trace := List (Entry Ans World)

/-- Thread `j` is an unwrap call of a row with this key id and digest; it missed at
clock `t`, extracted the key, and stored it with an expiry one TTL after `t`. -/
def Extracted (L : Libraries) (cfg : Config) (tasks : ThreadId → Task) (trace : Trace)
    (j : ThreadId) (kid embHash : String) (jwk : Json) (t : Nat) : Prop :=
  ∃ row, tasks j = .unwrap row ∧ row.keyId = kid ∧ L.sha256 row.embeddedKey = embHash ∧
    plain L cfg row = .ok jwk ∧ Made trace j (.cacheLookup kid embHash) (t, none) ∧
    Made trace j (.cacheFill kid ⟨embHash, jwk, t + cfg.cacheTtlSeconds * 1000⟩
      cfg.cacheMaxEntries) ()

/-- A recorded hit on the cache. -/
def IsHit (e : Entry Ans World) (kid embHash : String) (now : Nat) (jwk : Json) : Prop :=
  ∃ i before after, e = ⟨i, .cacheLookup kid embHash, (now, some jwk), before, after⟩

/-- Every hit returns a key extracted less than one TTL ago, by an earlier call. -/
def FreshHits (L : Libraries) (cfg : Config) (tasks : ThreadId → Task) (trace : Trace) : Prop :=
  ∀ pre e post, trace = pre ++ e :: post → ∀ kid embHash now jwk, IsHit e kid embHash now jwk →
    ∃ j t, Extracted L cfg tasks pre j kid embHash jwk t ∧ now < t + cfg.cacheTtlSeconds * 1000

section

variable {L : Libraries} {cfg : Config} {tasks : ThreadId → Task}

theorem Extracted.mono {trace trace' : Trace} {j : ThreadId} {kid embHash : String} {jwk : Json}
    {t : Nat} (h : Extracted L cfg tasks trace j kid embHash jwk t) (hsub : trace <+: trace') :
    Extracted L cfg tasks trace' j kid embHash jwk t := by
  obtain ⟨row, htask, hkid, hhash, hplain, hmiss, hfill⟩ := h
  exact ⟨row, htask, hkid, hhash, hplain, hmiss.mono hsub, hfill.mono hsub⟩

theorem FreshHits.snoc {trace : Trace} {e : Entry Ans World} (h : FreshHits L cfg tasks trace)
    (he : ∀ kid embHash now jwk, IsHit e kid embHash now jwk →
      ∃ j t, Extracted L cfg tasks trace j kid embHash jwk t ∧
        now < t + cfg.cacheTtlSeconds * 1000) :
    FreshHits L cfg tasks (trace ++ [e]) := by
  intro pre e' post heq
  rcases List.eq_nil_or_concat post with rfl | ⟨post', last, rfl⟩
  · obtain ⟨rfl, hlast⟩ := List.append_inj' heq rfl
    cases hlast
    exact he
  · have hsplit : trace ++ [e] = (pre ++ e' :: post') ++ [last] := by simpa using heq
    obtain ⟨rfl, -⟩ := List.append_inj' hsplit rfl
    exact h pre e' post' rfl

theorem lookupCache_size (cache : Cache) (kid embHash : String) (now : Nat) :
    (lookupCache cache kid embHash now).2.size ≤ cache.size := by
  unfold lookupCache
  cases hget : cache.get? kid with
  | none => exact Nat.le_refl _
  | some cached =>
    have hcached := (OrderedMap.get?_eq_some_iff cache kid cached).mp hget
    have hlt := OrderedMap.size_delete_lt (m := cache) (k := kid)
      (List.mem_map_of_mem (f := Prod.fst) hcached)
    dsimp only
    split
    · exact Nat.le_trans (OrderedMap.size_set_le (cache.delete kid) kid cached) hlt
    · exact Nat.le_of_lt hlt

/-- The cache is within its bound, each entry has a source, and each hit had one. -/
structure Sound (L : Libraries) (cfg : Config) (tasks : ThreadId → Task)
    (s : Recorded Ans World) : Prop where
  bounded : s.now.cache.size ≤ cfg.cacheMaxEntries
  sourced : ∀ e ∈ s.now.cache.entries, ∃ j t,
    Extracted L cfg tasks s.trace j e.1 e.2.embHash e.2.jwk t ∧
      e.2.expires = t + cfg.cacheTtlSeconds * 1000
  hits : FreshHits L cfg tasks s.trace

/-- Everybody keeps the invariant and only adds to the trace. -/
def protocol (L : Libraries) (cfg : Config) (tasks : ThreadId → Task) :
    Protocol (Recorded Ans World) where
  inv := Sound L cfg tasks
  rely := fun _ s s' => s.trace <+: s'.trace
  guar := fun _ s s' => s.trace <+: s'.trace
  rely_refl := fun _ _ => List.prefix_rfl
  rely_trans := fun _ _ _ _ h h' => h.trans h'
  guar_rely := fun _ _ _ _ _ h => h

/-- A step that adds no entry, stays within the bound and is no hit. -/
theorem Sound.step {s : Recorded Ans World} (h : Sound L cfg tasks s) {i : ThreadId} {t : Turn}
    {c : Call}
    (hentries : ∀ e ∈ (performTask L tasks i t c s.now).2.cache.entries, e ∈ s.now.cache.entries)
    (hsize : (performTask L tasks i t c s.now).2.cache.size ≤ s.now.cache.size)
    (hhit : ∀ kid embHash now jwk, IsHit ⟨i, c, (performTask L tasks i t c s.now).1, s.now,
      (performTask L tasks i t c s.now).2⟩ kid embHash now jwk →
        ∃ j t, Extracted L cfg tasks s.trace j kid embHash jwk t ∧
          now < t + cfg.cacheTtlSeconds * 1000) :
    Sound L cfg tasks (record (performTask L tasks) i t c s).2 where
  bounded := Nat.le_trans hsize h.bounded
  sourced := fun e he => by
    obtain ⟨j, t', hex, hexp⟩ := h.sourced e (hentries e he)
    exact ⟨j, t', hex.mono (List.prefix_append _ _), hexp⟩
  hits := h.hits.snoc hhit

theorem not_hit_of_call {i : ThreadId} {c : Call} {answer : Ans c} {before after : World}
    (hc : ∀ kid embHash, c ≠ .cacheLookup kid embHash) {kid embHash : String} {now : Nat}
    {jwk : Json} (h : IsHit ⟨i, c, answer, before, after⟩ kid embHash now jwk) : False := by
  obtain ⟨i', before', after', heq⟩ := h
  exact hc kid embHash (congrArg Entry.call heq)

theorem Sound.other {s : Recorded Ans World} (h : Sound L cfg tasks s) (i : ThreadId) (t : Turn)
    {c : Call} (hc : usesCache c = false) :
    Sound L cfg tasks (record (performTask L tasks) i t c s).2 := by
  have hcache : (performTask L tasks i t c s.now).2.cache = s.now.cache := perform_cache hc _ _
  refine h.step (fun e he => hcache ▸ he) (by rw [hcache]) fun kid embHash now jwk hhit => ?_
  refine absurd hhit (fun hhit => not_hit_of_call (fun kid embHash heq => ?_) hhit)
  rw [heq] at hc
  cases hc

theorem Sound.delete {s : Recorded Ans World} (h : Sound L cfg tasks s) (i : ThreadId) (t : Turn)
    (kid : String) :
    Sound L cfg tasks (record (performTask L tasks) i t (.cacheDelete kid) s).2 := by
  have hcache : (performTask L tasks i t (.cacheDelete kid) s.now).2.cache =
      s.now.cache.delete kid := by
    unfold performTask
    split <;> cases t with | mk fails elapsed => cases fails <;> rfl
  refine h.step (fun e he => ?_) ?_ fun kid embHash now jwk hhit => ?_
  · rw [hcache] at he
    exact (OrderedMap.mem_delete.mp he).1
  · rw [hcache]
    exact OrderedMap.size_delete_le _ _
  · exact absurd hhit (not_hit_of_call (fun _ _ heq => by cases heq))

theorem Sound.clear {s : Recorded Ans World} (h : Sound L cfg tasks s) (i : ThreadId) (t : Turn) :
    Sound L cfg tasks (record (performTask L tasks) i t .cacheClear s).2 := by
  have hcache : (performTask L tasks i t .cacheClear s.now).2.cache = OrderedMap.empty := by
    unfold performTask
    split <;> cases t with | mk fails elapsed => cases fails <;> rfl
  refine h.step (fun e he => ?_) ?_ fun kid embHash now jwk hhit => ?_
  · rw [hcache] at he
    cases he
  · rw [hcache]
    exact Nat.zero_le _
  · exact absurd hhit (not_hit_of_call (fun _ _ heq => by cases heq))

/-- The answer of a lookup is the clock with what the cache holds. -/
theorem perform_lookup (L : Libraries) (tasks : ThreadId → Task) (i : ThreadId) (t : Turn)
    (kid embHash : String)
    (w : World) :
    performTask L tasks i t (.cacheLookup kid embHash) w =
      ((w.clock + t.elapsed, (lookupCache w.cache kid embHash (w.clock + t.elapsed)).1),
        { w.tick t.elapsed with
          cache := (lookupCache w.cache kid embHash (w.clock + t.elapsed)).2 }) := by
  unfold performTask
  split <;> cases t with | mk fails elapsed => cases fails <;> rfl

theorem Sound.lookup {s : Recorded Ans World} (h : Sound L cfg tasks s) (i : ThreadId) (t : Turn)
    (kid embHash : String) :
    Sound L cfg tasks (record (performTask L tasks) i t (.cacheLookup kid embHash) s).2 := by
  have hperform := perform_lookup L tasks i t kid embHash s.now
  refine h.step (fun e he => ?_) ?_ fun kid' embHash' now jwk hhit => ?_
  · rw [hperform] at he
    exact lookupCache_entries he
  · rw [hperform]
    exact lookupCache_size _ _ _ _
  · obtain ⟨i', before, after, heq⟩ := hhit
    rw [hperform] at heq
    simp only [Entry.mk.injEq, Call.cacheLookup.injEq] at heq
    obtain ⟨-, ⟨rfl, rfl⟩, hanswer, -, -⟩ := heq
    obtain ⟨rfl, hjwk⟩ := Prod.mk.inj (eq_of_heq hanswer)
    obtain ⟨entry, hentry, rfl, hexp, rfl⟩ := lookupCache_hit hjwk
    obtain ⟨j, t', hex, hexp'⟩ := h.sourced _ hentry
    exact ⟨j, t', hex, hexp' ▸ hexp⟩

theorem perform_fill (L : Libraries) (tasks : ThreadId → Task) (i : ThreadId) (t : Turn)
    (kid : String) (entry : CacheEntry) (max : Nat)
    (w : World) :
    performTask L tasks i t (.cacheFill kid entry max) w =
      ((), { w.tick t.elapsed with cache := fillCache w.cache kid entry max }) := by
  unfold performTask
  split <;> cases t with | mk fails elapsed => cases fails <;> rfl

/-- A fill stores what its thread has extracted after its own miss. -/
theorem Sound.fill {s : Recorded Ans World} (h : Sound L cfg tasks s) {i : ThreadId} (t : Turn)
    {row : VaultKey} (htask : tasks i = .unwrap row) {jwk : Json}
    (hplain : plain L cfg row = .ok jwk) {now : Nat}
    (hmiss : Made s.trace i (.cacheLookup row.keyId (L.sha256 row.embeddedKey)) (now, none)) :
    Sound L cfg tasks (record (performTask L tasks) i t (.cacheFill row.keyId
      ⟨L.sha256 row.embeddedKey, jwk, now + cfg.cacheTtlSeconds * 1000⟩ cfg.cacheMaxEntries)
      s).2 := by
  have hperform := perform_fill L tasks i t row.keyId
    ⟨L.sha256 row.embeddedKey, jwk, now + cfg.cacheTtlSeconds * 1000⟩ cfg.cacheMaxEntries s.now
  refine ⟨?_, fun e he => ?_, h.hits.snoc fun kid embHash now jwk hhit => ?_⟩
  · rw [record_now, hperform]
    exact OrderedMap.size_evict_le _ _
  · rw [record_now, hperform] at he
    rw [record_trace]
    rcases fillCache_entries he with rfl | he
    · refine ⟨i, now, ⟨row, htask, rfl, rfl, hplain, hmiss.mono (List.prefix_append _ _), ?_⟩, rfl⟩
      exact ⟨_, _, List.mem_append_right _ (List.mem_singleton_self _)⟩
    · obtain ⟨j, t', hex, hexp⟩ := h.sourced e he
      exact ⟨j, t', hex.mono (List.prefix_append _ _), hexp⟩
  · exact absurd hhit (not_hit_of_call (fun _ _ heq => by cases heq))

/-- An extraction gives the plain result and forgets nothing that the trace has shown. -/
theorem extract_safe {i : ThreadId} {row : VaultKey} (htask : tasks i = .unwrap row)
    {R : Trace → Prop} (hR : ∀ trace trace', trace <+: trace' → R trace → R trace')
    {s : Recorded Ans World} (h : R s.trace) :
    Safe (protocol L cfg tasks) (record (performTask L tasks)) i
      (fun r s => r = plain L cfg row ∧ R s.trace)
      (extract cfg.kek row.embeddingKeyId row.embeddedKey row.keyId) s := by
  unfold extract plain extracted
  cases cfg.kek.byId row.embeddingKeyId with
  | none => exact fun s' hr _ => ⟨rfl, hR _ _ hr h⟩
  | some kek =>
    refine safe_ask fun s' hr hinv t => ⟨hinv.other i t rfl, List.prefix_append _ _, ?_⟩
    have hanswer : (record (performTask L tasks) i t (.jweDecrypt row.embeddedKey kek.secretJwk)
        s').1 = L.jweDecrypt row.embeddedKey kek.secretJwk := by
      simp only [record_fst, performTask, htask, Task.isUnwrap, if_true]
      rfl
    rw [hanswer, ← Prog.liftM_bind]
    exact fun s'' hr' _ => ⟨rfl, hR _ _ ((hr.trans (List.prefix_append _ _)).trans hr') h⟩

/-- The stored strings determine the rows they came from, and have no common digest. -/
structure Consistent (L : Libraries) (tasks : ThreadId → Task) : Prop where
  determines : ∀ i j row row', tasks i = .unwrap row → tasks j = .unwrap row' →
    row.embeddedKey = row'.embeddedKey →
      row.embeddingKeyId = row'.embeddingKeyId ∧ row.keyId = row'.keyId
  collisionFree : ∀ i j row row', tasks i = .unwrap row → tasks j = .unwrap row' →
    L.sha256 row.embeddedKey = L.sha256 row'.embeddedKey → row.embeddedKey = row'.embeddedKey

/-- What a source of the same key id and digest extracted is what this row holds. -/
theorem Extracted.plain_eq (hc : Consistent L tasks) {trace : Trace} {i j : ThreadId}
    {row : VaultKey} (htask : tasks i = .unwrap row) {kid : String} {jwk : Json} {t : Nat}
    (h : Extracted L cfg tasks trace j kid (L.sha256 row.embeddedKey) jwk t) :
    plain L cfg row = .ok jwk := by
  obtain ⟨row', htask', -, hhash, hplain, -, -⟩ := h
  have hkey := hc.collisionFree j i row' row htask' htask hhash
  obtain ⟨hkek, hkid⟩ := hc.determines j i row' row htask' htask hkey
  rw [← hplain, plain, plain, hkey, hkek, hkid]

theorem unwrap_safe (hc : Consistent L tasks) {i : ThreadId} {row : VaultKey}
    (htask : tasks i = .unwrap row) (s : Recorded Ans World) :
    Safe (protocol L cfg tasks) (record (performTask L tasks)) i
      (fun r _ => r = plain L cfg row) (KeyStore.unwrap L cfg row) s := by
  unfold KeyStore.unwrap
  split
  · exact (extract_safe htask (R := fun _ => True) (fun _ _ _ h => h) trivial).mono
      fun r _ _ h => h.1
  · refine safe_ask fun s' _ hinv t => ⟨hinv.lookup i t _ _, List.prefix_append _ _, ?_⟩
    have hmade : Made (record (performTask L tasks) i t
        (.cacheLookup row.keyId (L.sha256 row.embeddedKey)) s').2.trace i
        (.cacheLookup row.keyId (L.sha256 row.embeddedKey)) (performTask L tasks i t
          (.cacheLookup row.keyId (L.sha256 row.embeddedKey)) s'.now).1 :=
      ⟨_, _, List.mem_append_right _ (List.mem_singleton_self _)⟩
    rw [record_fst]
    cases hanswer : (performTask L tasks i t
        (.cacheLookup row.keyId (L.sha256 row.embeddedKey)) s'.now).1 with
    | mk now cached =>
      rw [hanswer] at hmade
      cases cached with
      | some jwk =>
        -- a hit: the entry's source extracted the same row
        rw [perform_lookup] at hanswer
        obtain ⟨entry, hentry, hhash, -, rfl⟩ := lookupCache_hit (Prod.mk.inj hanswer).2
        obtain ⟨j, t', hex, -⟩ := hinv.sourced _ hentry
        rw [show entry.embHash = _ from hhash] at hex
        exact fun _ _ _ => (hex.plain_eq hc htask).symm
      | none =>
        refine Safe.bind ((extract_safe htask (R := fun trace => Made trace i
          (.cacheLookup row.keyId (L.sha256 row.embeddedKey)) (now, none))
          (fun _ _ hsub h => h.mono hsub) hmade).mono fun r s₁ _ hr => ?_)
        obtain ⟨hplain, hmiss⟩ := hr
        cases r with
        | error e => exact fun _ _ _ => hplain
        | ok jwk =>
          refine safe_ask fun s₂ hr₂ hinv₂ t₂ =>
            ⟨hinv₂.fill t₂ htask hplain.symm (hmiss.mono hr₂), List.prefix_append _ _, ?_⟩
          exact fun _ _ _ => hplain

theorem task_safe (hc : Consistent L tasks) (i : ThreadId) (s : Recorded Ans World) :
    Safe (protocol L cfg tasks) (record (performTask L tasks)) i
      (fun r _ => ∀ row, tasks i = .unwrap row → r = plain L cfg row)
      ((tasks i).program L cfg) s := by
  cases htask : tasks i with
  | unwrap row =>
    refine (unwrap_safe hc htask s).mono fun r _ _ hr row' hrow' => ?_
    cases hrow'
    exact hr
  | revoke kid =>
    refine Safe.bind (safe_ask fun s' _ hinv t => ⟨hinv.other i t rfl, List.prefix_append _ _, ?_⟩)
    refine safe_lift (fun deleted _ => ?_) fun e _ _ _ _ => fun _ _ _ _ hrow => by cases hrow
    refine safe_ask fun s' _ hinv t => ⟨hinv.delete i t kid, List.prefix_append _ _, ?_⟩
    exact fun _ _ _ => fun _ _ _ _ hrow => by cases hrow
  | cacheClear =>
    refine safe_ask fun s' _ hinv t => ⟨hinv.clear i t, List.prefix_append _ _, ?_⟩
    exact fun _ _ _ _ hrow => by cases hrow

/-- Over every interleaving: the cache keeps its bound, an unwrap yields what the
extraction yields, and no hit outlives the TTL of the call that extracted the key. -/
theorem unwrap_transparent (L : Libraries) (cfg : Config) (tasks : ThreadId → Task) (w : World)
    (schedule : Schedule Turn) (hempty : w.cache = OrderedMap.empty)
    (hc : Consistent L tasks) :
    let W := Pool.exec (record (performTask L tasks)) schedule
      ⟨fun i => (tasks i).program L cfg, ⟨w, []⟩⟩
    W.state.now.cache.size ≤ cfg.cacheMaxEntries ∧
      (∀ i row r, tasks i = .unwrap row → W.threads i = .done r → r = plain L cfg row) ∧
      FreshHits L cfg tasks W.state.trace := by
  have hstart : Sound L cfg tasks ⟨w, []⟩ := by
    refine ⟨?_, fun e he => ?_, fun pre e post h => ?_⟩
    · rw [hempty]
      exact Nat.zero_le _
    · rw [hempty] at he
      cases he
    · simp at h
  intro W
  have hsafe := fun i => @task_safe L cfg tasks hc i ⟨w, []⟩
  obtain ⟨hinv, -⟩ := exec_safe (P := protocol L cfg tasks)
    (W := ⟨fun i => (tasks i).program L cfg, ⟨w, []⟩⟩) hstart hsafe schedule
  refine ⟨hinv.bounded, fun i row r htask hdone => ?_, hinv.hits⟩
  exact exec_result (P := protocol L cfg tasks)
    (W := ⟨fun i => (tasks i).program L cfg, ⟨w, []⟩⟩) hstart hsafe hdone row htask

end

/-- Two unwraps of Bob's key beside a cacheClear. -/
def bobsTasks (i : ThreadId) : Task :=
  if i = 2 then .cacheClear else .unwrap Fixtures.bobsKey.toVaultKey

theorem bobsTasks_row {i : ThreadId} {row : VaultKey} (h : bobsTasks i = .unwrap row) :
    row = Fixtures.bobsKey.toVaultKey := by
  unfold bobsTasks at h
  split at h
  · cases h
  · exact (Task.unwrap.inj h).symm

/-- The second unwrap hits what the first has stored, or extracts after the clear. -/
theorem bobs_unwraps :
    let W := Pool.exec (record (performTask Fixtures.opening bobsTasks))
      [(0, {}), (0, {}), (0, {}), (1, { elapsed := 5 }), (2, {}), (3, {}), (3, {}), (3, {})]
      ⟨fun i => (bobsTasks i).program Fixtures.opening Fixtures.config, ⟨fresh 0, []⟩⟩
    W.state.now.cache.size ≤ Fixtures.config.cacheMaxEntries ∧
      (∀ i row r, bobsTasks i = .unwrap row → W.threads i = .done r →
        r = plain Fixtures.opening Fixtures.config row) ∧
      FreshHits Fixtures.opening Fixtures.config bobsTasks W.state.trace :=
  unwrap_transparent Fixtures.opening Fixtures.config bobsTasks (fresh 0)
    [(0, {}), (0, {}), (0, {}), (1, { elapsed := 5 }), (2, {}), (3, {}), (3, {}), (3, {})] rfl
    { determines :=
      fun _ _ _ _ h h' _ => by rw [bobsTasks_row h, bobsTasks_row h']; exact ⟨rfl, rfl⟩
      collisionFree := fun _ _ _ _ h h' _ => by rw [bobsTasks_row h, bobsTasks_row h'] }

example : plain Fixtures.opening Fixtures.config Fixtures.bobsKey.toVaultKey =
    .ok Fixtures.bobsJwk := rfl

end UnwrapCache
