import KeyVault.Answers
import KeyVault.Rewrap
import KeyVault.VaultRegistry

/-!
# Configured KEKs

At start-up the server counts the keys under each KEK that it does not have, and warns that
they are not available. A server that started without a warning never lacks a KEK later,
as long as whoever wraps keys does so under one that it has.
-/

namespace KekCoverage

open JsValue Errors Programs Interleaving Vault KeyStore KvAdmin CallEffects ServerAuth Server
  KeyInvariant Processes Rewrap Answers Tables

def kekIds (m : KekManager) : List String := m.all.map Kek.kid

theorem byId_isSome {m : KekManager} {id : String} : (m.byId id).isSome = true ↔ id ∈ kekIds m := by
  simp [KekManager.byId, kekIds]

/-- The rows under a KEK that is not known. -/
def unknownRows (keys : KeyTable) (knownKekIds : List String) : List KeyRow :=
  keys.rows.filter fun row => !knownKekIds.contains row.embeddingKeyId

/-- The statement groups the rows by KEK id, in an order that the database collates. -/
def unknownEmbeddingKeyIds (collate : String → String → Bool) (keys : KeyTable)
    (knownKekIds : List String) : List (String × Nat) :=
  let unknown := unknownRows keys knownKekIds
  (((unknown.map fun row => row.embeddingKeyId).dedup).mergeSort collate).map fun id =>
    (id, (unknown.filter fun row => row.embeddingKeyId == id).length)

/-- The lines that the server logs before it is up. -/
def warnings (collate : String → String → Bool) (m : KekManager) (keys : KeyTable) : List String :=
  (unknownEmbeddingKeyIds collate keys (kekIds m)).map fun u =>
    "WARNING: " ++ toString u.2 ++ " key(s) wrapped with unconfigured embedding key " ++ u.1 ++
      " — these keys are not available until the key is configured"

section

variable {collate : String → String → Bool} {keys : KeyTable} {known ids : List String}

theorem unknown_mem {id : String} {n : Nat} :
    (id, n) ∈ unknownEmbeddingKeyIds collate keys known ↔ id ∉ known ∧ 0 < n ∧
      n = (keys.rows.filter fun row => row.embeddingKeyId == id).length := by
  have hcount : id ∉ known → (unknownRows keys known).filter (fun row => row.embeddingKeyId == id) =
      keys.rows.filter fun row => row.embeddingKeyId == id := by
    intro hid
    rw [unknownRows, List.filter_filter]
    refine List.filter_congr fun row _ => ?_
    by_cases heq : row.embeddingKeyId = id
    · simp [heq, hid]
    · simp [heq]
  simp only [unknownEmbeddingKeyIds, List.mem_map, List.mem_mergeSort,
    List.mem_dedup, Prod.mk.injEq]
  constructor
  · rintro ⟨_, ⟨row, hrow, rfl⟩, rfl, rfl⟩
    have hid : row.embeddingKeyId ∉ known := by
      simpa using (List.mem_filter.mp hrow).2
    refine ⟨hid, List.length_pos_of_mem (List.mem_filter.mpr ⟨hrow, beq_self_eq_true _⟩), ?_⟩
    rw [hcount hid]
  · rintro ⟨hid, hpos, hn⟩
    rw [hn] at hpos
    obtain ⟨row, hrow⟩ := List.exists_mem_of_length_pos hpos
    obtain ⟨hmem, heq⟩ := List.mem_filter.mp hrow
    refine ⟨id, ⟨row, ?_, by simpa using heq⟩, rfl, by rw [hcount hid, hn]⟩
    rw [unknownRows, List.mem_filter]
    exact ⟨hmem, by simpa [show row.embeddingKeyId = id by simpa using heq] using hid⟩

theorem unknown_nodup :
    ((unknownEmbeddingKeyIds collate keys known).map Prod.fst).Nodup := by
  simp only [unknownEmbeddingKeyIds, List.map_map]
  refine (List.Nodup.map (fun a b h => h) ?_)
  exact (List.mergeSort_perm _ collate).nodup_iff.mpr (List.nodup_dedup _)

/-- Every stored key is under one of the ids. -/
def Covered (ids : List String) (w : World) : Prop := ∀ row ∈ w.keys.rows, row.embeddingKeyId ∈ ids

theorem unknown_nil {w : World} :
    unknownEmbeddingKeyIds collate w.keys known = [] ↔ Covered known w := by
  constructor
  · intro h row hrow
    by_contra hid
    have hmem : (row.embeddingKeyId, (w.keys.rows.filter fun r =>
        r.embeddingKeyId == row.embeddingKeyId).length) ∈
          unknownEmbeddingKeyIds collate w.keys known :=
      unknown_mem.mpr ⟨hid, List.length_pos_of_mem
        (List.mem_filter.mpr ⟨hrow, beq_self_eq_true _⟩), rfl⟩
    rw [h] at hmem
    cases hmem
  · intro h
    refine List.eq_nil_iff_forall_not_mem.mpr fun u hu => ?_
    obtain ⟨hid, hpos, hn⟩ := unknown_mem.mp hu
    rw [hn] at hpos
    obtain ⟨row, hrow⟩ := List.exists_mem_of_length_pos hpos
    obtain ⟨hmem, heq⟩ := List.mem_filter.mp hrow
    rw [← show row.embeddingKeyId = u.1 by simpa using heq] at hid
    exact hid (h row hmem)

/-- Calls that wrap keys under one of the ids. -/
def under (ids : List String) : Call → Prop
  | .insertKey key => key.embeddingKeyId ∈ ids
  | .updateKeyEmbedding _ embeddingKeyId _ => embeddingKeyId ∈ ids
  | _ => True

/-- The process wraps keys under one of the ids, if it does at all. -/
def Wraps (ids : List String) : Process → Prop
  | .request cfg _ => cfg.kek.active.kid ∈ ids
  | .admin o cmd => cmd = .rewrap → ∀ m, o.kek = .ok m → m.active.kid ∈ ids
  | .sweep _ => True
  | .restart => True

theorem under_beside {K : String} (hK : K ∈ ids) {c : Call} (h : beside K c) : under ids c := by
  cases c with
  | insertKey key => rw [under, show key.embeddingKeyId = K from h]; exact hK
  | updateKeyEmbedding _ _ _ => exact h.elim
  | _ => trivial

theorem under_reembeds {K : String} (hK : K ∈ ids) {c : Call} (h : reembeds K c) : under ids c := by
  rcases h.2 with haside | ⟨kid, embeddedKey, rfl⟩
  · cases c <;> trivial
  · exact hK

theorem under_harmless {c : Call} (h : harmless c = true) : under ids c := by
  cases c <;> trivial

variable {L : Libraries}

theorem process_under {process : Process} (h : Wraps ids process) :
    (process.program L).Calls (under ids) := by
  cases process with
  | request cfg req =>
    have hbeside : (Process.program L (.request cfg req)).Calls (beside cfg.kek.active.kid) :=
      companion_beside rfl
    exact hbeside.mono fun c hc => under_beside h hc
  | admin o cmd =>
    by_cases hcmd : cmd = .rewrap
    · subst hcmd
      refine Prog.Calls.bind ?_ fun _ => trivial
      cases hkek : o.kek with
      | error e =>
        show (rewrap o).Calls (under ids)
        unfold rewrap
        rw [hkek]
        trivial
      | ok m => exact (rewrap_reembeds hkek).mono fun c hc => under_reembeds (h rfl m hkek) hc
    · exact ((KeyLifecycle.command_harmless o hcmd).mono fun c hc => under_harmless hc).bind
        fun _ => trivial
  | sweep cfg =>
    exact Prog.Calls.bind (calls_ask trivial fun _ => Prog.calls_done _) fun _ => trivial
  | restart => exact Prog.Calls.bind (calls_ask trivial fun _ => trivial) fun _ => trivial

theorem effect_covered {i : ThreadId} {c : Call} {w : World} (hc : under ids c)
    (hw : Covered ids w) :
    Covered ids (effect L i c w).2 := by
  intro row hrow
  cases hwrites : writesKeys c with
  | false =>
    rw [effect_keys hwrites] at hrow
    exact hw row hrow
  | true =>
    cases c with
    | insertKey key =>
      simp only [effect] at hrow
      split at hrow
      · exact hw row hrow
      · split at hrow
        · rcases Table.mem_insert hrow with rfl | hrow
          · exact hc
          · exact hw row hrow
        · exact hw row hrow
    | deleteKey kid => exact hw row (Table.mem_erase.mp hrow).1
    | updateKeyAcl kid acl =>
      simp only [effect] at hrow
      rcases Table.mem_update hrow with ⟨row₀, hrow₀, -, rfl⟩ | ⟨hrow₀, -⟩
      · exact hw row₀ hrow₀
      · exact hw row hrow₀
    | updateKeyEmbedding kid embeddingKeyId embeddedKey =>
      simp only [effect] at hrow
      rcases Table.mem_update hrow with ⟨row₀, hrow₀, -, rfl⟩ | ⟨hrow₀, -⟩
      · exact hc
      · exact hw row hrow₀
    | sweepExpiredKeys graceSeconds => exact hw row (Table.mem_filter.mp hrow).1
    | _ => cases hwrites

theorem perform_covered {i : ThreadId} {t : Turn} {c : Call} {w : World} (hc : under ids c)
    (hw : Covered ids w) : Covered ids (perform L i t c w).2 :=
  perform_failed_or hw (effect_covered hc hw)

theorem warnings_nil {m : KekManager} {w : World} :
    warnings collate m w.keys = [] ↔ Covered (kekIds m) w := by
  rw [warnings, List.map_eq_nil_iff, unknown_nil]

end

/-- The start-up check names each KEK that is missing, once, with the number of its keys;
and if it warns of none, then in every run in which all keys are wrapped under KEKs of the
server it would warn of none later, and no request is answered that a key is not available. -/
theorem startup_check (L : Libraries) (collate : String → String → Bool) (m : KekManager) :
    (∀ w : World,
      ((unknownEmbeddingKeyIds collate w.keys (kekIds m)).map Prod.fst).Nodup ∧
      ∀ id n, (id, n) ∈ unknownEmbeddingKeyIds collate w.keys (kekIds m) ↔
        m.byId id = none ∧ 0 < n ∧
        n = (w.keys.rows.filter fun row => row.embeddingKeyId == id).length) ∧
    ∀ (processes : ThreadId → Process) (w : World) (schedule : Schedule Turn),
      (∀ i, Wraps (kekIds m) (processes i)) → warnings collate m w.keys = [] →
        warnings collate m (runs L processes w schedule).state.now.keys = [] ∧
        ∀ i cfg req r, processes i = .request cfg req → cfg.kek = m →
          (runs L processes w schedule).threads i = .done (.ok (some r)) →
            r.errorCode ≠ some (.num Err.keyNotAvailable.code) := by
  refine ⟨fun w => ⟨unknown_nodup, fun id n => ?_⟩, fun processes w schedule hwraps hstart => ?_⟩
  · rw [unknown_mem, ← byId_isSome, Bool.not_eq_true, Option.isSome_eq_false_iff,
      Option.isNone_iff_eq_none]
  obtain ⟨hlinked, hmakes⟩ := runs_makes L processes w schedule
  obtain ⟨hnow, hbefore⟩ := hlinked.carries (Q := Covered (kekIds m))
    (fun pre e post htrace hw => by
    have hmem : e ∈ (runs L processes w schedule).state.trace :=
      htrace ▸ List.mem_append_right _ (List.mem_cons_self ..)
    obtain ⟨t, ht⟩ := hlinked.mem hmem
    have hafter := perform_covered (L := L) (i := e.thread) (t := t)
      ((hmakes e.thread).calls (process_under (hwraps e.thread)) e (mem_own.mpr ⟨hmem, rfl⟩)) hw
    rwa [ht] at hafter) (warnings_nil.mp hstart)
  refine ⟨warnings_nil.mpr hnow, ?_⟩
  rintro i cfg req r hprocess rfl hdone
  refine catalogued_available (runs_catalogued hprocess hdone) ?_
  -- a loaded row was stored in a covered state, so its KEK is there
  rintro ⟨kid, row, ⟨before, after, hmem⟩, hnone⟩
  obtain ⟨t, ht⟩ := hlinked.mem hmem
  obtain ⟨row', hfind, rfl, -⟩ := KeyLifecycle.loaded (congrArg Prod.fst ht)
  have hid := byId_isSome.mpr (hbefore _ hmem row' (Table.find_mem hfind))
  rw [hnone] at hid
  cases hid

theorem rewrapped_wraps (i : ThreadId) :
    Wraps (kekIds Fixtures.rotated) (VaultRegistry.rewrapped i) := by
  unfold VaultRegistry.rewrapped
  split
  · exact List.mem_cons_of_mem _ (List.mem_singleton_self _)
  · intro _ m hm
    cases hm
    exact List.mem_cons_self
  · exact List.mem_cons_self
  · trivial

theorem startup_check_rotated :
    let W := runs Fixtures.working VaultRegistry.rewrapped VaultRegistry.alicesVault
      VaultRegistry.inTurn
    warnings (fun _ _ => true) Fixtures.rotated W.state.now.keys = [] ∧
      VaultRegistry.encryptedResponse.errorCode ≠ some (.num Err.keyNotAvailable.code) := by
  intro W
  obtain ⟨hnow, hanswers⟩ := (startup_check Fixtures.working (fun _ _ => true) Fixtures.rotated).2
    VaultRegistry.rewrapped VaultRegistry.alicesVault VaultRegistry.inTurn rewrapped_wraps
    (warnings_nil.mpr fun _ h => by cases h)
  exact ⟨hnow, hanswers 2 _ _ _ rfl rfl (Prog.result?_eq_some (by decide +kernel))⟩

end KekCoverage
