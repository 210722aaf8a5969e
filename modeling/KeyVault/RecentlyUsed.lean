import Mathlib.Data.List.Dedup
import Mathlib.Data.List.DropRight
import KeyVault.InsertionMap

/-!
# Recently used keys

A map of bounded size in which every used key moves to the end holds the most recently
used keys, the latest last.
-/

namespace RecentlyUsed

open InsertionMap

universe u v

variable {K : Type u} {V : Type v} [DecidableEq K]

/-- The `max` keys that have been used most recently, each once, the latest last. -/
def recent (max : Nat) (uses : List K) : List K := uses.dedup.rtake max

/-- A key moves to the end. -/
def touch (keys : List K) (k : K) : List K := keys.filter (fun x => !(x == k)) ++ [k]

theorem filter_absent {keys : List K} {k : K} (h : k ∉ keys) :
    keys.filter (fun x => !(x == k)) = keys := by
  refine List.filter_eq_self.mpr fun x hx => ?_
  have hne : x ≠ k := fun heq => h (heq ▸ hx)
  simpa using hne

/-- Using a key once more moves it to the end of the order of last uses. -/
theorem dedup_concat (uses : List K) (k : K) : (uses ++ [k]).dedup = touch uses.dedup k := by
  induction uses with
  | nil => rfl
  | cons x rest ih =>
    rw [List.cons_append]
    by_cases hx : x ∈ rest
    · rw [List.dedup_cons_of_mem (List.mem_append_left _ hx), List.dedup_cons_of_mem hx, ih]
    · by_cases hk : x = k
      · subst hk
        have hlast : x ∈ rest ++ [x] := List.mem_append_right _ (List.mem_singleton_self x)
        rw [List.dedup_cons_of_mem hlast, List.dedup_cons_of_notMem hx, ih]
        simp [touch]
      · have hnew : x ∉ rest ++ [k] := by
          simp [hx, hk]
        rw [List.dedup_cons_of_notMem hnew, List.dedup_cons_of_notMem hx, ih]
        simp [touch, hk]

omit [DecidableEq K] in
theorem rtake_append {first last : List K} {n : Nat} (h : n ≤ last.length) :
    (first ++ last).rtake n = last.rtake n := by
  have hdrop : first.length + last.length - n = first.length + (last.length - n) := by omega
  simp [List.rtake, hdrop, List.drop_append]

omit [DecidableEq K] in
theorem rtake_split (keys : List K) (n : Nat) :
    ∃ first, keys = first ++ keys.rtake n ∧ (first = [] ∨ (keys.rtake n).length = n) := by
  refine ⟨keys.take (keys.length - n), (List.take_append_drop _ _).symm, ?_⟩
  by_cases hshort : keys.length ≤ n
  · left
    simp [Nat.sub_eq_zero_of_le hshort]
  · right
    rw [List.rtake, List.length_drop]
    omega

/-- Without repetitions at most one key is filtered out. -/
theorem length_filter_ne {keys : List K} (h : keys.Nodup) (k : K) :
    keys.length ≤ (keys.filter (fun x => !(x == k))).length + 1 := by
  induction keys with
  | nil => simp
  | cons x rest ih =>
    obtain ⟨hx, hrest⟩ := List.nodup_cons.mp h
    by_cases hk : x = k
    · subst hk
      simp [filter_absent hx]
    · have hkept := ih hrest
      simp [hk]
      omega

/-- The latest of the touched keys are the latest touched keys. -/
theorem rtake_touch {keys : List K} (h : keys.Nodup) (k : K) (n : Nat) :
    (touch keys k).rtake (n + 1) = (touch (keys.rtake (n + 1)) k).rtake (n + 1) := by
  obtain ⟨first, hsplit, hfirst⟩ := rtake_split keys (n + 1)
  rw [touch, touch, List.rtake_concat_succ, List.rtake_concat_succ]
  rcases hfirst with rfl | hlength
  · rw [List.nil_append] at hsplit
    rw [← hsplit]
  · have hlast : (keys.rtake (n + 1)).Nodup := h.sublist (List.drop_sublist _ _)
    have hlong := length_filter_ne hlast k
    have hle : n ≤ ((keys.rtake (n + 1)).filter (fun x => !(x == k))).length := by omega
    have hfilter : keys.filter (fun x => !(x == k)) = first.filter (fun x => !(x == k)) ++
        (keys.rtake (n + 1)).filter (fun x => !(x == k)) := by
      rw [← List.filter_append, ← hsplit]
    rw [hfilter, rtake_append hle]

/-- One more use decides the recent keys from the recent keys. -/
theorem recent_concat {max : Nat} (hmax : 1 ≤ max) (uses : List K) (k : K) :
    recent max (uses ++ [k]) = (touch (recent max uses) k).rtake max := by
  obtain ⟨n, rfl⟩ := Nat.exists_eq_add_of_le' hmax
  rw [recent, recent, dedup_concat, rtake_touch (List.nodup_dedup uses)]

theorem recent_length (max : Nat) (uses : List K) :
    (recent max uses).length = min max uses.dedup.length := by
  rw [recent, List.rtake, List.length_drop]
  omega

theorem keys_delete (m : OrderedMap K V) (k : K) :
    (m.delete k).keys = m.keys.filter (fun x => !(x == k)) := by
  simp [OrderedMap.keys, OrderedMap.delete, List.filter_map, Function.comp_def]

theorem keys_set {m : OrderedMap K V} {k : K} (h : k ∉ m.keys) (v : V) :
    (m.set k v).keys = m.keys ++ [k] := by
  rw [OrderedMap.set, dif_neg h]
  simp [OrderedMap.keys]

omit [DecidableEq K] in
theorem keys_evict (m : OrderedMap K V) (max : Nat) : (m.evict max).keys = m.keys.rtake max := by
  simp [OrderedMap.keys, OrderedMap.evict, OrderedMap.size, List.rtake]

theorem deleted_absent (m : OrderedMap K V) (k : K) : k ∉ (m.delete k).keys := by
  rw [keys_delete]
  simp

/-- Deleting a key and setting it again moves it to the end. -/
theorem keys_touch (m : OrderedMap K V) (k : K) (v : V) :
    ((m.delete k).set k v).keys = touch m.keys k := by
  rw [keys_set (deleted_absent m k), keys_delete, touch]

/-- A new key goes to the end as well. -/
theorem keys_new {m : OrderedMap K V} {k : K} (h : k ∉ m.keys) (v : V) :
    (m.set k v).keys = touch m.keys k := by
  rw [keys_set h, touch, filter_absent h]

omit [DecidableEq K] in
theorem rtake_all {keys : List K} {n : Nat} (h : keys.length ≤ n) : keys.rtake n = keys := by
  rw [List.rtake, Nat.sub_eq_zero_of_le h, List.drop_zero]

theorem touch_length {keys : List K} {k : K} (h : k ∈ keys) :
    (touch keys k).length ≤ keys.length := by
  have hlt : (keys.filter (fun x => !(x == k))).length < keys.length :=
    List.length_filter_lt_length_iff_exists.mpr ⟨k, h, by simp⟩
  rw [touch, List.length_append, List.length_singleton]
  omega

end RecentlyUsed
