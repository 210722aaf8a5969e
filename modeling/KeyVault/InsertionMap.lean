import Mathlib.Data.List.Basic
import Mathlib.Data.List.Nodup

/-!
# Maps that remember insertion order

A JavaScript `Map` as the list of its entries, oldest insertion first. Setting a
key that is present keeps its place; deleting and setting again moves it to the
end, which is how a least-recently-used cache keeps its order.
-/

namespace InsertionMap

universe u v

variable {K : Type u} {V : Type v} [DecidableEq K]

structure OrderedMap (K : Type u) (V : Type v) where
  entries : List (K × V)
  nodup : (entries.map Prod.fst).Nodup

namespace OrderedMap

def empty : OrderedMap K V := ⟨[], List.nodup_nil⟩

def size (m : OrderedMap K V) : Nat := m.entries.length

def keys (m : OrderedMap K V) : List K := m.entries.map Prod.fst

def get? (m : OrderedMap K V) (k : K) : Option V :=
  (m.entries.find? (fun e => e.1 == k)).map Prod.snd

def delete (m : OrderedMap K V) (k : K) : OrderedMap K V where
  entries := m.entries.filter (fun e => !(e.1 == k))
  nodup := m.nodup.sublist (List.filter_sublist.map _)

theorem replace_keys (l : List (K × V)) (k : K) (v : V) :
    (l.map (fun e => if e.1 == k then (k, v) else e)).map Prod.fst = l.map Prod.fst := by
  induction l with
  | nil => rfl
  | cons e rest ih =>
    simp only [List.map_cons, ih]
    by_cases h : e.1 = k
    · simp [h]
    · simp [h]

def set (m : OrderedMap K V) (k : K) (v : V) : OrderedMap K V :=
  if h : k ∈ m.keys then
    ⟨m.entries.map (fun e => if e.1 == k then (k, v) else e), by
      rw [replace_keys]; exact m.nodup⟩
  else
    ⟨m.entries ++ [(k, v)], by
      rw [List.map_append, List.nodup_append]
      refine ⟨m.nodup, by simp, ?_⟩
      rintro a ha b hb rfl
      simp only [List.map_cons, List.map_nil, List.mem_singleton] at hb
      exact h (hb ▸ ha)⟩

/-- `while (map.size > max) map.delete(map.keys().next().value)`. -/
def evict (m : OrderedMap K V) (max : Nat) : OrderedMap K V where
  entries := m.entries.drop (m.size - max)
  nodup := m.nodup.sublist ((List.drop_sublist _ _).map _)

theorem get?_eq_some_iff (m : OrderedMap K V) (k : K) (v : V) :
    m.get? k = some v ↔ (k, v) ∈ m.entries := by
  obtain ⟨l, hl⟩ := m
  simp only [get?]
  induction l with
  | nil => simp
  | cons e rest ih =>
    obtain ⟨k', v'⟩ := e
    have hl' : (k' :: rest.map Prod.fst).Nodup := hl
    obtain ⟨hnot, hrest⟩ := List.nodup_cons.mp hl'
    by_cases h : k' = k
    · subst h
      simp only [List.find?_cons, beq_self_eq_true, Option.map_some, Option.some.injEq,
        List.mem_cons, Prod.mk.injEq, true_and]
      constructor
      · intro hv
        exact Or.inl hv.symm
      · rintro (hv | hmem)
        · exact hv.symm
        · exact absurd (List.mem_map_of_mem (f := Prod.fst) hmem) hnot
    · have hb : (k' == k) = false := by simpa using h
      simp only [List.find?_cons, hb, List.mem_cons, Prod.mk.injEq]
      rw [ih hrest]
      constructor
      · exact Or.inr
      · rintro (⟨rfl, _⟩ | hmem)
        · exact absurd rfl h
        · exact hmem

theorem mem_delete {m : OrderedMap K V} {k : K} {e : K × V} :
    e ∈ (m.delete k).entries ↔ e ∈ m.entries ∧ e.1 ≠ k := by
  simp [delete]

theorem mem_set {m : OrderedMap K V} {k : K} {v : V} {e : K × V}
    (h : e ∈ (m.set k v).entries) : e = (k, v) ∨ e ∈ m.entries := by
  unfold set at h
  split at h
  · obtain ⟨e', he', heq⟩ := List.mem_map.mp h
    split at heq
    · exact Or.inl heq.symm
    · exact Or.inr (heq ▸ he')
  · rcases List.mem_append.mp h with h | h
    · exact Or.inr h
    · exact Or.inl (List.mem_singleton.mp h)

omit [DecidableEq K] in
theorem mem_evict {m : OrderedMap K V} {max : Nat} {e : K × V}
    (h : e ∈ (m.evict max).entries) : e ∈ m.entries :=
  List.mem_of_mem_drop h

omit [DecidableEq K] in
theorem size_evict_le (m : OrderedMap K V) (max : Nat) : (m.evict max).size ≤ max := by
  simp only [size, evict, List.length_drop]
  omega

theorem size_delete_le (m : OrderedMap K V) (k : K) : (m.delete k).size ≤ m.size :=
  List.length_filter_le _ _

theorem size_delete_lt {m : OrderedMap K V} {k : K} (h : k ∈ m.keys) :
    (m.delete k).size < m.size := by
  obtain ⟨e, he, rfl⟩ := List.mem_map.mp h
  refine List.length_filter_lt_length_iff_exists.mpr ⟨e, he, by simp⟩

theorem size_set_le (m : OrderedMap K V) (k : K) (v : V) : (m.set k v).size ≤ m.size + 1 := by
  unfold set
  split
  · simp [size]
  · simp [size]

end OrderedMap

end InsertionMap
