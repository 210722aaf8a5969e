import KeyVault.Fixtures
import KeyVault.Provenance

/-!
# Revocation and the unwrap cache

revoke deletes the row and then the cache entry. An operation that has loaded the row
before may still be waiting for the extraction: it fills the cache when it comes back.
Nothing else can bring an entry back, since no row ever has the key id again.
-/

namespace Revocation

open JsValue Errors Programs Interleaving Vault KeyStore ServerAuth CallEffects Processes
  KeyInvariant KeyLifecycle Provenance InsertionMap Tables

/-- The row that an answer reports as deleted. -/
def deletedBy : (c : Call) → Ans c → Option String
  | .deleteKey kid, .ok true => some kid
  | _, _ => none

def uncachedBy : Call → Option String
  | .cacheDelete kid => some kid
  | _ => none

def filledBy : Call → Option String
  | .cacheFill kid _ _ => some kid
  | _ => none

/-- The thread has deleted the row with `d` and the cache entry with `c`: revoke has
returned true. -/
structure Revokes (kid : String) (d c : Entry Ans World) : Prop where
  thread : d.thread = c.thread
  row : deletedBy d.call d.answer = some kid
  entry : uncachedBy c.call = some kid

/-- The row with the key id has been handed out. -/
def Loads (kid : String) (e : Entry Ans World) : Prop :=
  ∃ row, loadedBy e.call e.answer = some row ∧ row.keyId = kid

/-- After this history the call fills the cache for a key that has been revoked, in an
operation that loaded the row before the revocation. -/
def Late (history : Trace) (e : Entry Ans World) : Prop :=
  ∃ kid pre d mid c post, history = pre ++ d :: (mid ++ c :: post) ∧ Revokes kid d c ∧
    filledBy e.call = some kid ∧ ∃ g ∈ pre, g.thread = e.thread ∧ Loads kid g

/-- No fill is late. -/
def Timely (trace : Trace) : Prop :=
  ∀ history e rest, trace = history ++ e :: rest → ¬ Late history e

/-- From the end of a revocation on, the cache has no entry for the key. -/
def Forgotten (trace : Trace) : Prop :=
  ∀ kid pre d mid c post, trace = pre ++ d :: (mid ++ c :: post) → Revokes kid d c →
    ∀ e ∈ c :: post, kid ∉ e.after.cache.keys

/-- Once a revocation has returned true and every operation that was in flight has
finished, the cache has no entry for the key. -/
def RevocationForgets {α : Type} (W : Pool Ans Thrown α (Recorded Ans World)) : Prop :=
  ∀ kid pre d mid c post, W.state.trace = pre ++ d :: (mid ++ c :: post) → Revokes kid d c →
    (∀ e ∈ pre ++ d :: (mid ++ [c]), ∃ r, W.threads e.thread = .done r) →
      kid ∉ W.state.now.cache.keys

variable {L : Libraries} {kid : String}

/-- Only a fill of the key brings it into the cache. -/
theorem perform_uncached {i : ThreadId} {t : Turn} {c : Call} {w : World}
    (habsent : kid ∉ w.cache.keys) (hpresent : kid ∈ (perform L i t c w).2.cache.keys) :
    filledBy c = some kid := by
  obtain ⟨e, he, rfl⟩ := List.mem_map.mp hpresent
  have hold : e ∉ w.cache.entries := fun hmem => habsent (List.mem_map_of_mem hmem)
  by_cases hharmless : harmless c = true
  · exact absurd ((perform_shrinks hharmless t w).cached e he) hold
  · have hunused : usesCache c = false → e ∈ w.cache.entries := by
      intro huses
      rwa [perform_cache huses] at he
    cases c with
    | generateVaultKey spec => exact absurd (hunused rfl) hold
    | insertKey key => exact absurd (hunused rfl) hold
    | updateKeyEmbedding keyId embeddingKeyId embeddedKey => exact absurd (hunused rfl) hold
    | cacheFill kid entry max =>
      rcases perform_cases L i t (.cacheFill kid entry max) w with ⟨_, _, -, -, hp⟩ | hp
      · rw [hp] at he
        exact absurd he hold
      · rw [hp] at he
        rcases fillCache_entries he with rfl | hmem
        · rfl
        · exact absurd hmem hold
    | _ => exact absurd rfl hharmless

theorem perform_cacheDelete (i : ThreadId) (t : Turn) (w : World) :
    kid ∉ (perform L i t (.cacheDelete kid) w).2.cache.keys := by
  have hp : perform L i t (.cacheDelete kid) w = effect L i (.cacheDelete kid) (w.tick t.elapsed) :=
    perform_answered (rfl : _ = ()) fun _ => nofun
  rw [hp]
  intro hmem
  obtain ⟨e, he, hkey⟩ := List.mem_map.mp hmem
  exact (OrderedMap.mem_delete.mp he).2 hkey

/-- A new entry is the last one, and is not evicted. -/
theorem fillCache_keys {cache : Cache} {entry : CacheEntry} {max : Nat} (habsent : kid ∉ cache.keys)
    (hmax : 0 < max) : kid ∈ (fillCache cache kid entry max).keys := by
  have hset : (cache.set kid entry).entries = cache.entries ++ [(kid, entry)] := by
    unfold OrderedMap.set
    rw [dif_neg habsent]
  refine List.mem_map.mpr ⟨(kid, entry), ?_, rfl⟩
  simp only [fillCache, OrderedMap.evict, OrderedMap.size, hset, List.length_append,
    List.length_singleton]
  rw [List.drop_append_of_le_length (by omega)]
  exact List.mem_append_right _ (List.mem_singleton_self _)

theorem perform_filled {i : ThreadId} {t : Turn} {c : Call} {w : World} {k : Known}
    (hc : founded k c) (hfill : filledBy c = some kid) (habsent : kid ∉ w.cache.keys) :
    kid ∈ (perform L i t c w).2.cache.keys := by
  cases c with
  | cacheFill keyId entry max =>
    obtain rfl : keyId = kid := Option.some.inj hfill
    have hp : perform L i t (.cacheFill keyId entry max) w =
        effect L i (.cacheFill keyId entry max) (w.tick t.elapsed) :=
      perform_answered (rfl : _ = ()) fun _ => nofun
    rw [hp]
    exact fillCache_keys habsent hc.2
  | _ => cases hfill

/-- A fill is founded on a row that its thread has loaded. -/
theorem filled_loaded {k : Known} {c : Call} (hc : founded k c) (hfill : filledBy c = some kid) :
    ∃ row ∈ k.loaded, row.keyId = kid := by
  cases c with
  | cacheFill keyId entry max => exact Option.some.inj hfill ▸ hc.1
  | _ => cases hfill

theorem perform_uncache {i : ThreadId} {t : Turn} {c : Call} {w : World}
    (h : uncachedBy c = some kid) : kid ∉ (perform L i t c w).2.cache.keys := by
  cases c with
  | cacheDelete keyId =>
    obtain rfl : keyId = kid := Option.some.inj h
    exact perform_cacheDelete i t w
  | _ => cases h

/-- The row was there, and is deleted. -/
theorem perform_deleted {i : ThreadId} {t : Turn} {c : Call} {w : World}
    (h : deletedBy c (perform L i t c w).1 = some kid) :
    (∃ row, w.keys.find kid = some row) ∧ (perform L i t c w).2.keys = w.keys.erase kid := by
  cases c with
  | deleteKey keyId =>
    have hanswer : (perform L i t (.deleteKey keyId) w).1 = .ok true ∧ keyId = kid := by
      rcases hr : (perform L i t (.deleteKey keyId) w).1 with message | _ | _
      · rw [hr] at h
        cases h
      · rw [hr] at h
        cases h
      · rw [hr] at h
        exact ⟨rfl, Option.some.inj h⟩
    obtain ⟨hanswer, rfl⟩ := hanswer
    have hp := perform_answered hanswer fun _ => nofun
    rw [hp] at hanswer ⊢
    exact ⟨Option.isSome_iff_exists.mp (Except.ok.inj hanswer), rfl⟩
  | _ => cases h

theorem loadedBy_of_deleted {c : Call} {answer : Ans c} (h : deletedBy c answer = some kid) :
    loadedBy c answer = none := by
  cases c with
  | keyById keyId => cases h
  | _ => rfl

section

variable {w final : World} {trace : Trace}
  (hlinked : Linked (perform L) w trace final)
  (hfounded : ∀ pre e post, trace = pre ++ e :: post → founded (knownOf e.thread pre) e.call)
  (hissued : ∀ pre e post, trace = pre ++ e :: post → Issued L pre e.before)

include hlinked hfounded hissued

/-- Once the row is deleted there is never again a row with the key id. -/
theorem row_gone {pre mid post : Trace} {d c e : Entry Ans World} (hrevokes : Revokes kid d c)
    (heq : trace = pre ++ d :: (mid ++ e :: post)) : e.before.keys.find kid = none := by
  subst heq
  obtain ⟨⟨t, hstep⟩, hrest⟩ := hlinked.cut
  have hdeleted := hrevokes.row
  obtain ⟨⟨row, hrow⟩, herased⟩ :=
    perform_deleted (L := L) (i := d.thread) (t := t) (w := d.before)
      (by rw [hstep]; exact hdeleted)
  rw [hstep] at herased
  have hspent : Spent L pre d.before kid := by
    have hstored := (hissued pre _ _ rfl).rows row (Table.find_mem hrow)
    rwa [Table.find_key (r := row) hrow] at hstored
  obtain ⟨m, hmid, hlast⟩ := hrest.split
  obtain ⟨rfl, -, -⟩ := hlast
  have hcarried := hmid.history
    (Q := fun first w => Spent L (pre ++ d :: first) w kid ∧ w.keys.find kid = none) ?_ ⟨?_, ?_⟩
  · exact hcarried.2
  · rintro first f rest rfl ⟨t', hf⟩ ⟨hspent', habsent⟩
    have hfounded' := hfounded (pre ++ d :: first) f (rest ++ e :: post) (by simp)
    refine ⟨by simpa using hspent'.step hf hfounded', ?_⟩
    by_contra hsome
    obtain ⟨row', hrow'⟩ := Option.ne_none_iff_exists'.mp hsome
    have hmem : row' ∈ (perform L f.thread t' f.call f.before).2.keys.rows := by
      rw [hf]
      exact Table.find_mem hrow'
    have hkid : row'.keyId = kid := Table.find_key (r := row') hrow'
    rcases perform_row hmem with ⟨old, hold, halike⟩ | hinsert
    · have hthere := Table.find_of_mem hold
      rw [show old.keyId = kid from halike.keyId.trans hkid, habsent] at hthere
      cases hthere
    · obtain ⟨key, hkey, halike⟩ := hinsert
      rw [hkey] at hfounded'
      obtain ⟨g, hg, hcarries⟩ := hfounded'
      exact hspent'.held f.thread g hg (hcarries.keyId.symm.trans (halike.keyId.trans hkid))
  · exact hspent.step hstep (hfounded pre _ _ rfl)
  · rw [herased]
    exact Table.find_erase_self _ _

/-- A fill after the revocation is late: its operation has loaded the row before. -/
theorem fill_late {pre mid post rest : Trace} {d c e : Entry Ans World} (hrevokes : Revokes kid d c)
    (heq : trace = pre ++ d :: (mid ++ c :: (post ++ e :: rest)))
    (hfill : filledBy e.call = some kid) :
    Late (pre ++ d :: (mid ++ c :: post)) e := by
  have hfounded' := hfounded (pre ++ d :: (mid ++ c :: post)) e rest (by rw [heq]; simp)
  obtain ⟨row, hrow, hkid⟩ := filled_loaded hfounded' hfill
  obtain ⟨g, hg, hthread, hloaded⟩ := loaded_seen hrow
  refine ⟨kid, pre, d, mid, c, post, rfl, hrevokes, hfill, ?_⟩
  rcases List.mem_append.mp hg with hpre | hlater
  · exact ⟨g, hpre, hthread, row, hloaded, hkid⟩
  · exfalso
    rcases List.mem_cons.mp hlater with rfl | hafter
    · rw [loadedBy_of_deleted hrevokes.row] at hloaded
      cases hloaded
    · -- the row was gone when the operation loaded it
      obtain ⟨first, last, hsplit⟩ := List.append_of_mem hafter
      have hg' : trace = pre ++ d :: (first ++ g :: (last ++ e :: rest)) := by
        have hmid : mid ++ c :: (post ++ e :: rest) = (mid ++ c :: post) ++ e :: rest := by simp
        rw [heq, hmid, hsplit]
        simp
      have hgone := row_gone hlinked hfounded hissued hrevokes hg'
      obtain ⟨t, hstep⟩ := hlinked.mem (e := g) (by rw [hg']; simp)
      obtain ⟨i, call, answer, before, after⟩ := g
      cases call with
      | keyById keyId =>
        rcases answer with message | _ | row'
        · cases hloaded
        · cases hloaded
        · cases hloaded
          have hanswer : (perform L i t (.keyById keyId) before).1 = .ok (some row) := by rw [hstep]
          obtain ⟨row', hfind, -, hkeyId⟩ := loaded hanswer
          rw [← hkeyId, hkid, hgone] at hfind
          cases hfind
      | _ => cases hloaded

/-- Where no fill is late, the cache has no entry for the key after any revocation. -/
theorem forgotten_of_timely (htimely : Timely trace) {pre mid post : Trace} {d c : Entry Ans World}
    (heq : trace = pre ++ d :: (mid ++ c :: post)) (hrevokes : Revokes kid d c) :
    kid ∉ final.cache.keys ∧ ∀ e ∈ c :: post, kid ∉ e.after.cache.keys := by
  have hrest : Linked (perform L) c.after post final ∧ kid ∉ c.after.cache.keys := by
    rw [heq, ← List.cons_append, ← List.append_assoc] at hlinked
    obtain ⟨⟨t, hstep⟩, hrest⟩ := hlinked.cut
    refine ⟨hrest, ?_⟩
    have hafter : (perform L c.thread t c.call c.before).2 = c.after := by rw [hstep]
    rw [← hafter]
    exact perform_uncache hrevokes.entry
  obtain ⟨hrest, hdeleted⟩ := hrest
  have hstep : ∀ first e last, post = first ++ e :: last → kid ∉ e.before.cache.keys →
      kid ∉ e.after.cache.keys := by
    rintro first e last rfl habsent hpresent
    obtain ⟨⟨t, hperform⟩, -⟩ := hrest.cut
    have hafter : (perform L e.thread t e.call e.before).2 = e.after := by rw [hperform]
    rw [← hafter] at hpresent
    have hlate := fill_late hlinked hfounded hissued hrevokes heq
      (perform_uncached habsent hpresent)
    exact htimely _ e last (by rw [heq]; simp) hlate
  obtain ⟨hend, hbefore⟩ := hrest.carries (Q := fun w => kid ∉ w.cache.keys) hstep hdeleted
  refine ⟨hend, fun e he => ?_⟩
  rcases List.mem_cons.mp he with rfl | he
  · exact hdeleted
  · obtain ⟨first, last, hpost⟩ := List.append_of_mem he
    exact hstep first e last hpost (hbefore e he)

omit hissued in
/-- A late fill brings the entry back. -/
theorem timely_of_forgotten (hforgotten : Forgotten trace) : Timely trace := by
  rintro history e rest heq ⟨kid, pre, d, mid, c, post, rfl, hrevokes, hfill, -⟩
  have htrace : trace = pre ++ d :: (mid ++ c :: (post ++ e :: rest)) := by rw [heq]; simp
  have hforgets := hforgotten kid pre d mid c _ htrace hrevokes
  have habsent : kid ∉ e.before.cache.keys := by
    rw [htrace, ← List.cons_append, ← List.append_assoc] at hlinked
    obtain ⟨m, hpost, hlast⟩ := (hlinked.cut.2).split
    obtain ⟨rfl, -, -⟩ := hlast
    refine (hpost.carries (Q := fun w => kid ∉ w.cache.keys) (fun first f last hsplit _ => ?_) ?_).1
    · exact hforgets f (by rw [hsplit]; simp)
    · exact hforgets c List.mem_cons_self
  obtain ⟨t, hstep⟩ := hlinked.mem (e := e) (by rw [heq]; simp)
  have hafter : (perform L e.thread t e.call e.before).2 = e.after := by rw [hstep]
  refine hforgets e (by simp) ?_
  rw [← hafter]
  exact perform_filled (hfounded _ e rest heq) hfill habsent

end

/-- In every run, of any processes under any schedule, in which no operation that loaded a
row before its revocation fills the cache after it, the cache forgets every revoked key. -/
theorem revocation_forgets (L : Libraries)
    (hfresh : ∀ m n kid, Draws L m kid → Draws L n kid → m = n) (processes : ThreadId → Process)
    (w : World) (hunused : ExpirySweep.Unused L w) (schedule : Schedule Turn) :
    (Timely (runs L processes w schedule).state.trace →
      RevocationForgets (runs L processes w schedule)) ∧
    (Timely (runs L processes w schedule).state.trace ↔
      Forgotten (runs L processes w schedule).state.trace) := by
  have hlinked := (runs_makes L processes w schedule).1
  have hfounded := fun pre e post => @runs_founded L processes w schedule pre post e
  have hissued := fun pre e post => @runs_issued L hfresh processes w hunused schedule pre post e
  refine ⟨?_, ?_, timely_of_forgotten hlinked hfounded⟩
  · intro htimely kid pre d mid c post heq hrevokes _
    exact (forgotten_of_timely hlinked hfounded hissued htimely heq hrevokes).1
  · intro htimely kid pre d mid c post heq hrevokes
    exact (forgotten_of_timely hlinked hfounded hissued htimely heq hrevokes).2

def bobs (request : String) (props : Props) : HttpRequest where
  method := "POST"
  pathname := some "/api/v1"
  contentType := some "application/json"
  authorization := some ("Bearer " ++ Fixtures.bobId)
  xForwardedFor := none
  remoteAddress := some "127.0.0.1"
  body := .text (some (.obj [("user", .str Fixtures.bobId), ("op", .str Fixtures.opId),
    ("request", .str request), ("data", .obj (("kid", .str Fixtures.keyId1) :: props))]))

def signsAndRevokes : ThreadId → Process
  | 0 => .request Fixtures.config (bobs "create-jwt" [("data", .obj [])])
  | 1 => .request Fixtures.config (bobs "revoke-key" [])
  | _ => .restart

def bobsVault : World :=
  { Fixtures.holding Fixtures.bobsKey with
    users := Table.empty.insert ⟨Fixtures.bobId, some Fixtures.bobId,
      .obj [("allowedIP", .arr [.str "127.0.0.1"])]⟩ }

/-- The first request is waiting for the extraction when the second one runs. -/
def overtaken : Schedule Turn :=
  List.replicate 6 (0, ({} : Turn)) ++ List.replicate 9 (1, ({} : Turn)) ++
    List.replicate 3 (0, ({} : Turn))

/-- The first request is done when the second one runs. -/
def sequential : Schedule Turn :=
  List.replicate 9 (0, ({} : Turn)) ++ List.replicate 9 (1, ({} : Turn))

def summary (e : Entry Ans World) : ThreadId × Option String × Option String :=
  (e.thread, deletedBy e.call e.answer, uncachedBy e.call)

/-- The key is in the cache after both requests, and stays there. -/
theorem revoked_key_cached :
    ¬ RevocationForgets (runs Fixtures.opening signsAndRevokes bobsVault overtaken) := by
  have hsummary :
      (runs Fixtures.opening signsAndRevokes bobsVault overtaken).state.trace.map summary =
      (List.replicate 6 (0, none, none) ++ List.replicate 4 (1, none, none)) ++
        (1, some Fixtures.keyId1, none) :: (1, none, some Fixtures.keyId1) ::
          ((1, none, none) :: List.replicate 3 (0, none, none)) := by decide +kernel
  have hthreads : ∀ i ∈ (runs Fixtures.opening signsAndRevokes bobsVault overtaken).state.trace.map
      Entry.thread, i = 0 ∨ i = 1 := by decide +kernel
  have hfirst :
      ((runs Fixtures.opening signsAndRevokes bobsVault overtaken).threads 0).result?.isSome =
      true := by decide +kernel
  have hsecond :
      ((runs Fixtures.opening signsAndRevokes bobsVault overtaken).threads 1).result?.isSome =
      true := by decide +kernel
  have hcached : Fixtures.keyId1 ∈
      (runs Fixtures.opening signsAndRevokes bobsVault overtaken).state.now.cache.keys := by
    decide +kernel
  obtain ⟨pre, rest, heq, -, hrest⟩ := List.map_eq_append_iff.mp hsummary
  obtain ⟨d, rest, rfl, hd, hrest⟩ := List.map_eq_cons_iff.mp hrest
  obtain ⟨c, post, rfl, hc, -⟩ := List.map_eq_cons_iff.mp hrest
  have hd1 : d.thread = 1 := congrArg Prod.fst hd
  have hc1 : c.thread = 1 := congrArg Prod.fst hc
  have hrevokes : Revokes Fixtures.keyId1 d c := by
    constructor
    · exact hd1.trans hc1.symm
    · exact congrArg (fun s => s.2.1) hd
    · exact congrArg (fun s => s.2.2) hc
  intro hforgets
  refine hforgets Fixtures.keyId1 pre d [] c post heq hrevokes (fun e he => ?_) hcached
  have hmem : e ∈ (runs Fixtures.opening signsAndRevokes bobsVault overtaken).state.trace := by
    rw [heq]
    simp only [List.nil_append, List.mem_append, List.mem_cons, List.not_mem_nil, or_false] at he ⊢
    tauto
  rcases hthreads e.thread (List.mem_map_of_mem hmem) with h | h
  · rw [h]
    obtain ⟨r, hr⟩ := Option.isSome_iff_exists.mp hfirst
    exact ⟨r, Prog.result?_eq_some hr⟩
  · rw [h]
    obtain ⟨r, hr⟩ := Option.isSome_iff_exists.mp hsecond
    exact ⟨r, Prog.result?_eq_some hr⟩

theorem opening_draws_nothing (n : Nat) (kid : String) : ¬ Draws Fixtures.opening n kid := by
  intro hdraws
  cases hdraws with
  | cipher h => cases h
  | mac h => cases h
  | ec h => cases h
  | rsa h => cases h
  | mlKem h => cases h

/-- A fill before the revocation is not late. -/
theorem revoked_key_forgotten :
    RevocationForgets (runs Fixtures.opening signsAndRevokes bobsVault sequential) := by
  refine (revocation_forgets Fixtures.opening
    (fun m n kid hdraws => absurd hdraws (opening_draws_nothing m kid)) signsAndRevokes bobsVault
    (fun n kid _ hdraws => absurd hdraws (opening_draws_nothing n kid)) sequential).1 ?_
  have hordered : ((runs Fixtures.opening signsAndRevokes bobsVault sequential).state.trace.map
      (fun e => (uncachedBy e.call, filledBy e.call))).Pairwise
        (fun s s' => s.1 = none ∨ s'.2 = none) := by decide +kernel
  rintro history e rest heq ⟨kid, pre, d, mid, c, post, rfl, hrevokes, hfill, -⟩
  rw [heq] at hordered
  have hpair := (List.pairwise_append.mp (List.pairwise_map.mp hordered)).2.2 c (by simp) e
    List.mem_cons_self
  rw [hrevokes.entry, hfill] at hpair
  simp at hpair

end Revocation
