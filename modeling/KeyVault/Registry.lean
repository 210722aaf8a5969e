import KeyVault.LastWrites
import Mathlib.Data.Set.Insert

/-!
# A registry of immutable items

Items are held under names, each with a permission. A name is used once: its item never
changes, the permission may be replaced, and what is dropped does not come back.
-/

namespace Registry

open LastWrites

universe u v x

structure Holding (Item : Type v) (Permission : Type x) where
  item : Item
  permission : Permission

/-- `used` are the names that have ever been registered. -/
structure State (Name : Type u) (Item : Type v) (Permission : Type x) where
  held : Name → Option (Holding Item Permission)
  used : Set Name
  covers : ∀ n, held n ≠ none → n ∈ used

inductive Act (Name : Type u) (Item : Type v) (Permission : Type x) where
  | register (n : Name) (r : Holding Item Permission)
  | permit (n : Name) (p : Permission)
  | drop (gone : Set Name)
  | idle

variable {Name : Type u} {Item : Type v} {Permission : Type x}
  {s s' : State Name Item Permission} {a : Act Name Item Permission}
  {acts : List (Act Name Item Permission)} {n : Name} {r r' : Holding Item Permission}

def Step (s : State Name Item Permission) :
    Act Name Item Permission → State Name Item Permission → Prop
  | .register n r, s' => n ∉ s.used ∧ s'.held n = some r ∧ (∀ m, m ≠ n → s'.held m = s.held m) ∧
      s'.used = insert n s.used
  | .permit n p, s' => s'.held n = (s.held n).map (fun r => ⟨r.item, p⟩) ∧
      (∀ m, m ≠ n → s'.held m = s.held m) ∧ s'.used = s.used
  | .drop gone, s' => (∀ m ∈ gone, s'.held m = none) ∧ (∀ m, m ∉ gone → s'.held m = s.held m) ∧
      s'.used = s.used
  | .idle, s' => s'.held = s.held ∧ s'.used = s.used

/-- The acts lead from the first state to the last one. -/
inductive Path (s : State Name Item Permission) : List (Act Name Item Permission) →
    State Name Item Permission → Prop where
  | nil : Path s [] s
  | snoc {m s' : State Name Item Permission} {acts : List (Act Name Item Permission)}
      {a : Act Name Item Permission} : Path s acts m → Step m a s' → Path s (acts ++ [a]) s'

/-- The permission that an act writes under a name. -/
def permits : Act Name Item Permission → Option (Name × Permission)
  | .register n r => some (n, r.permission)
  | .permit n p => some (n, p)
  | .drop _ => none
  | .idle => none

theorem step_permission (h : Step s a s') (hn : s'.held n = some r') :
    permits a = some (n, r'.permission) ∨
      ((∀ other, permits a ≠ some (n, other)) ∧ ∃ r, s.held n = some r ∧
        r.permission = r'.permission) := by
  cases a with
  | register m q =>
    by_cases hnm : n = m
    · subst hnm
      rw [h.2.1] at hn
      rw [← Option.some.inj hn]
      exact Or.inl rfl
    · rw [h.2.2.1 n hnm] at hn
      exact Or.inr ⟨fun other heq => hnm (Prod.mk.inj (Option.some.inj heq)).1.symm, r', hn, rfl⟩
  | permit m p =>
    by_cases hnm : n = m
    · subst hnm
      rw [h.1] at hn
      obtain ⟨r, -, rfl⟩ := Option.map_eq_some_iff.mp hn
      exact Or.inl rfl
    · rw [h.2.1 n hnm] at hn
      exact Or.inr ⟨fun other heq => hnm (Prod.mk.inj (Option.some.inj heq)).1.symm, r', hn, rfl⟩
  | drop gone =>
    refine Or.inr ⟨fun other heq => (by cases heq), r', ?_, rfl⟩
    by_cases hgone : n ∈ gone
    · rw [h.1 n hgone] at hn
      cases hn
    · rwa [h.2.1 n hgone] at hn
  | idle =>
    rw [h.1] at hn
    exact Or.inr ⟨fun other heq => (by cases heq), r', hn, rfl⟩

/-- The permission of a name is the last one written under it, or still the first one. -/
theorem path_permission (h : Path s acts s') (hn : s'.held n = some r') :
    LastWrite permits acts n r'.permission ∨
      (Untouched permits acts n ∧ ∃ r, s.held n = some r ∧ r.permission = r'.permission) := by
  induction h generalizing r' with
  | nil => exact Or.inr ⟨fun _ hx => (by cases hx), r', hn, rfl⟩
  | @snoc m s' acts a hpath hstep ih =>
    rcases step_permission hstep hn with hwritten | ⟨hspared, q, hq, hsame⟩
    · exact Or.inl (LastWrite.self acts hwritten)
    · rw [← hsame]
      rcases ih hq with hlast | ⟨huntouched, hfirst⟩
      · exact Or.inl (hlast.snoc hspared)
      · exact Or.inr ⟨huntouched.snoc hspared, hfirst⟩

end Registry
