import Mathlib.Data.List.Basic

/-!
# The last write in a history

A history of events, some of which write a value under a key. What a key holds is what
was last written under it.
-/

namespace LastWrites

universe u v x

variable {Event : Type u} {K : Type v} {V : Type x} {write : Event → Option (K × V)}
  {history : List Event} {e : Event} {k : K} {value : V}

/-- The last write under `k` has written `value`. -/
def LastWrite (write : Event → Option (K × V)) (history : List Event) (k : K) (value : V) : Prop :=
  ∃ pre e post, history = pre ++ e :: post ∧ write e = some (k, value) ∧
    ∀ x ∈ post, ∀ other, write x ≠ some (k, other)

def Untouched (write : Event → Option (K × V)) (history : List Event) (k : K) : Prop :=
  ∀ x ∈ history, ∀ other, write x ≠ some (k, other)

theorem LastWrite.self (history : List Event) (h : write e = some (k, value)) :
    LastWrite write (history ++ [e]) k value :=
  ⟨history, e, [], rfl, h, fun x hx => by cases hx⟩

theorem LastWrite.snoc (h : LastWrite write history k value)
    (he : ∀ other, write e ≠ some (k, other)) : LastWrite write (history ++ [e]) k value := by
  obtain ⟨pre, x, post, rfl, hx, hpost⟩ := h
  refine ⟨pre, x, post ++ [e], by simp, hx, fun y hy => ?_⟩
  rcases List.mem_append.mp hy with hy | hy
  · exact hpost y hy
  · rw [List.mem_singleton.mp hy]
    exact he

theorem Untouched.snoc (h : Untouched write history k) (he : ∀ other, write e ≠ some (k, other)) :
    Untouched write (history ++ [e]) k := by
  intro x hx
  rcases List.mem_append.mp hx with hx | hx
  · exact h x hx
  · rw [List.mem_singleton.mp hx]
    exact he

/-- What another write has replaced was written again since. -/
theorem LastWrite.since {pre post : List Event} {other : V}
    (h : LastWrite write (pre ++ e :: post) k value) (he : write e = some (k, other))
    (hne : other ≠ value) : ∃ x ∈ post, write x = some (k, value) := by
  obtain ⟨before, x, after, heq, hx, hafter⟩ := h
  have hnot : x ≠ e := by
    rintro rfl
    rw [hx] at he
    exact hne (Prod.mk.inj (Option.some.inj he)).2.symm
  rcases List.append_eq_append_iff.mp heq with ⟨gap, -, hgap⟩ | ⟨gap, -, hgap⟩
  · cases gap with
    | nil => exact absurd (List.cons.inj hgap).1.symm hnot
    | cons y gap =>
      refine ⟨x, ?_, hx⟩
      rw [(List.cons.inj hgap).2]
      exact List.mem_append_right _ List.mem_cons_self
  · cases gap with
    | nil => exact absurd (List.cons.inj hgap).1 hnot
    | cons y gap =>
      have hmem : e ∈ after := by
        rw [(List.cons.inj hgap).2]
        exact List.mem_append_right _ List.mem_cons_self
      exact absurd he (hafter e hmem other)

end LastWrites
