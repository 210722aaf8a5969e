import Mathlib.Data.List.Basic
import Mathlib.Data.List.Nodup

/-!
# Tables with a primary key

The rows of a relation in insertion order; no two rows share a key. Inserting
under a key that is taken changes nothing.
-/

namespace Tables

universe u v

variable {Row : Type u} {K : Type v} [DecidableEq K] {key : Row → K}

structure Table (Row : Type u) (key : Row → K) where
  rows : List Row
  distinct : (rows.map key).Nodup

namespace Table

omit [DecidableEq K] in
theorem ext_rows {t t' : Table Row key} (h : t.rows = t'.rows) : t = t' := by
  cases t
  cases t'
  cases h
  rfl

def empty : Table Row key := ⟨[], List.nodup_nil⟩

def find (t : Table Row key) (k : K) : Option Row := t.rows.find? (fun r => key r == k)

def insert (t : Table Row key) (r : Row) : Table Row key :=
  if h : key r ∈ t.rows.map key then t
  else ⟨t.rows ++ [r], by
    rw [List.map_append, List.nodup_append]
    refine ⟨t.distinct, by simp, ?_⟩
    rintro a ha b hb rfl
    simp only [List.map_cons, List.map_nil, List.mem_singleton] at hb
    exact h (hb ▸ ha)⟩

def filter (t : Table Row key) (p : Row → Bool) : Table Row key :=
  ⟨t.rows.filter p, t.distinct.sublist (List.filter_sublist.map _)⟩

def erase (t : Table Row key) (k : K) : Table Row key := t.filter (fun r => !(key r == k))

/-- The row under `k` changed by a function that keeps its key. -/
def update (t : Table Row key) (k : K) (f : Row → Row) (keeps : ∀ r, key (f r) = key r) :
    Table Row key where
  rows := t.rows.map (fun r => if key r == k then f r else r)
  distinct := by
    have hmap : (t.rows.map (fun r => if key r == k then f r else r)).map key =
        t.rows.map key := by
      rw [List.map_map]
      refine List.map_congr_left (fun r _ => ?_)
      by_cases h : key r = k
      · simp [h, keeps]
      · simp [h]
    rw [hmap]
    exact t.distinct

theorem find_eq_some_iff (t : Table Row key) (k : K) (r : Row) :
    t.find k = some r ↔ r ∈ t.rows ∧ key r = k := by
  obtain ⟨rows, distinct⟩ := t
  simp only [find]
  induction rows with
  | nil => simp
  | cons a rest ih =>
    obtain ⟨hnot, hrest⟩ := List.nodup_cons.mp (show (key a :: rest.map key).Nodup from distinct)
    by_cases h : key a = k
    · subst h
      simp only [List.find?_cons, beq_self_eq_true, Option.some.injEq, List.mem_cons]
      constructor
      · rintro rfl
        exact ⟨Or.inl rfl, rfl⟩
      · rintro ⟨rfl | hmem, hk⟩
        · rfl
        · exact absurd (hk ▸ List.mem_map_of_mem (f := key) hmem) hnot
    · have hb : (key a == k) = false := by simpa using h
      simp only [List.find?_cons, hb, List.mem_cons]
      rw [ih hrest]
      constructor
      · rintro ⟨hmem, hk⟩
        exact ⟨Or.inr hmem, hk⟩
      · rintro ⟨rfl | hmem, hk⟩
        · exact absurd hk h
        · exact ⟨hmem, hk⟩

theorem find_mem {t : Table Row key} {k : K} {r : Row} (h : t.find k = some r) : r ∈ t.rows :=
  ((find_eq_some_iff t k r).mp h).1

theorem find_key {t : Table Row key} {k : K} {r : Row} (h : t.find k = some r) : key r = k :=
  ((find_eq_some_iff t k r).mp h).2

theorem find_of_mem {t : Table Row key} {r : Row} (h : r ∈ t.rows) : t.find (key r) = some r :=
  (find_eq_some_iff t _ r).mpr ⟨h, rfl⟩

theorem find_eq_none_iff (t : Table Row key) (k : K) :
    t.find k = none ↔ k ∉ t.rows.map key := by
  simp [find]

theorem eq_of_key_eq {t : Table Row key} {r r' : Row} (h : r ∈ t.rows) (h' : r' ∈ t.rows)
    (hk : key r = key r') : r = r' := by
  have hr := find_of_mem h
  rw [hk, find_of_mem h'] at hr
  exact (Option.some.inj hr).symm

omit [DecidableEq K] in
@[simp] theorem mem_filter {t : Table Row key} {p : Row → Bool} {r : Row} :
    r ∈ (t.filter p).rows ↔ r ∈ t.rows ∧ p r = true := List.mem_filter

@[simp] theorem mem_erase {t : Table Row key} {k : K} {r : Row} :
    r ∈ (t.erase k).rows ↔ r ∈ t.rows ∧ key r ≠ k := by
  simp [erase]

theorem insert_rows {t : Table Row key} {r : Row} (h : t.find (key r) = none) :
    (t.insert r).rows = t.rows ++ [r] := by
  have hnot := (find_eq_none_iff t (key r)).mp h
  unfold insert
  rw [dif_neg hnot]

theorem mem_insert {t : Table Row key} {r r' : Row} (h : r' ∈ (t.insert r).rows) :
    r' = r ∨ r' ∈ t.rows := by
  unfold insert at h
  split at h
  · exact Or.inr h
  · rcases List.mem_append.mp h with h | h
    · exact Or.inr h
    · exact Or.inl (List.mem_singleton.mp h)

theorem mem_update {t : Table Row key} {k : K} {f : Row → Row}
    {keeps : ∀ r, key (f r) = key r} {r' : Row} (h : r' ∈ (t.update k f keeps).rows) :
    (∃ r ∈ t.rows, key r = k ∧ r' = f r) ∨ (r' ∈ t.rows ∧ key r' ≠ k) := by
  obtain ⟨r, hr, heq⟩ := List.mem_map.mp h
  by_cases hk : key r = k
  · simp only [hk, beq_self_eq_true, if_true] at heq
    exact Or.inl ⟨r, hr, hk, heq.symm⟩
  · have hb : (key r == k) = false := by simpa using hk
    simp only [hb, Bool.false_eq_true, if_false] at heq
    exact Or.inr ⟨heq ▸ hr, heq ▸ hk⟩

theorem find_filter (t : Table Row key) (p : Row → Bool) (k : K) :
    (t.filter p).find k = (t.find k).filter p := by
  cases h : t.find k with
  | none =>
    rw [find_eq_none_iff] at h
    simp only [Option.filter_none, find_eq_none_iff]
    intro hmem
    obtain ⟨r, hr, hk⟩ := List.mem_map.mp hmem
    exact h (hk ▸ List.mem_map_of_mem (mem_filter.mp hr).1)
  | some r =>
    have hk := find_key h
    subst hk
    by_cases hp : p r = true
    · rw [Option.filter_some_pos hp]
      exact find_of_mem (mem_filter.mpr ⟨find_mem h, hp⟩)
    · rw [Option.filter_some_neg (by simpa using hp), find_eq_none_iff]
      intro hmem
      obtain ⟨r', hr', hk⟩ := List.mem_map.mp hmem
      obtain ⟨hmem', hp'⟩ := mem_filter.mp hr'
      exact hp (eq_of_key_eq hmem' (find_mem h) hk ▸ hp')

theorem find_update_self (t : Table Row key) (k : K) (f : Row → Row)
    (keeps : ∀ r, key (f r) = key r) : (t.update k f keeps).find k = (t.find k).map f := by
  cases h : t.find k with
  | none =>
    rw [find_eq_none_iff] at h
    simp only [Option.map_none, find_eq_none_iff]
    intro hmem
    obtain ⟨r', hr', hk⟩ := List.mem_map.mp hmem
    rcases mem_update hr' with ⟨r, hr, hk', rfl⟩ | ⟨hr, hne⟩
    · exact h (hk' ▸ List.mem_map_of_mem hr)
    · exact hne hk
  | some r =>
    rw [Option.map_some, find_eq_some_iff]
    refine ⟨List.mem_map.mpr ⟨r, find_mem h, ?_⟩, (keeps r).trans (find_key h)⟩
    simp [find_key h]

theorem find_update_ne (t : Table Row key) {k k' : K} (f : Row → Row)
    (keeps : ∀ r, key (f r) = key r) (hne : k' ≠ k) :
    (t.update k f keeps).find k' = t.find k' := by
  cases h : t.find k' with
  | none =>
    rw [find_eq_none_iff] at h ⊢
    intro hmem
    obtain ⟨r', hr', hk⟩ := List.mem_map.mp hmem
    rcases mem_update hr' with ⟨r, hr, hk', rfl⟩ | ⟨hr, _⟩
    · exact hne (hk.symm.trans ((keeps r).trans hk'))
    · exact h (hk ▸ List.mem_map_of_mem hr)
  | some r =>
    have hk := find_key h
    subst hk
    rw [find_eq_some_iff]
    refine ⟨List.mem_map.mpr ⟨r, find_mem h, ?_⟩, rfl⟩
    simp [hne]

theorem find_insert_self {t : Table Row key} {r : Row} (h : t.find (key r) = none) :
    (t.insert r).find (key r) = some r := by
  refine find_of_mem ?_
  rw [insert_rows h]
  exact List.mem_append_right _ (List.mem_singleton_self r)

omit [DecidableEq K] in
theorem filter_of_all {t : Table Row key} {p : Row → Bool} (h : ∀ r ∈ t.rows, p r = true) :
    t.filter p = t := ext_rows (List.filter_eq_self.mpr h)

theorem erase_of_absent {t : Table Row key} {k : K} (h : t.find k = none) : t.erase k = t := by
  refine filter_of_all fun r hr => ?_
  have hnot := (find_eq_none_iff _ _).mp h
  simp only [Bool.not_eq_true', beq_eq_false_iff_ne]
  rintro rfl
  exact hnot (List.mem_map_of_mem hr)

theorem update_of_absent {t : Table Row key} {k : K} {f : Row → Row}
    (keeps : ∀ r, key (f r) = key r) (h : t.find k = none) : t.update k f keeps = t := by
  have hnot := (find_eq_none_iff _ _).mp h
  refine ext_rows ((List.map_congr_left fun r hr => ?_).trans (List.map_id _))
  have hne : key r ≠ k := by
    rintro rfl
    exact hnot (List.mem_map_of_mem hr)
  simp [hne]

theorem find_erase_self (t : Table Row key) (k : K) : (t.erase k).find k = none := by
  rw [find_eq_none_iff]
  intro hmem
  obtain ⟨r, hr, hk⟩ := List.mem_map.mp hmem
  exact (mem_erase.mp hr).2 hk

theorem find_erase_ne (t : Table Row key) {k k' : K} (h : k' ≠ k) :
    (t.erase k).find k' = t.find k' := by
  rw [erase, find_filter]
  cases hf : t.find k' with
  | none => rfl
  | some r =>
    refine Option.filter_some_pos ?_
    simpa [find_key hf] using h

theorem find_insert_ne {t : Table Row key} {r : Row} {k : K} (h : k ≠ key r) :
    (t.insert r).find k = t.find k := by
  unfold insert
  split
  · rfl
  · simp only [find, List.find?_append, List.find?_cons, List.find?_nil]
    have hb : (key r == k) = false := by simpa using Ne.symm h
    simp [hb]

end Table

end Tables
