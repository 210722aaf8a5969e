import Mathlib.Algebra.Order.Group.Nat
import Mathlib.Data.List.Induction
import Mathlib.Tactic.Ring

/-!
# Positional numerals

Horner's rule on a list of digits in any base, the most significant one first, and the
list of the lowest digits of a number. On lists of one length they undo each other.
-/

namespace Numerals

variable {b : Nat}

/-- The number with these digits, the most significant one first. -/
def horner (b : Nat) (ds : List Nat) : Nat := ds.foldl (fun v d => v * b + d) 0

@[simp] theorem horner_nil : horner b [] = 0 := rfl

theorem horner_concat (ds : List Nat) (d : Nat) : horner b (ds ++ [d]) = horner b ds * b + d := by
  simp [horner]

theorem horner_lt {ds : List Nat} (h : ∀ d ∈ ds, d < b) : horner b ds < b ^ ds.length := by
  induction ds using List.reverseRecOn with
  | nil => simp
  | append_singleton ds d ih =>
    have hrest := ih (fun e he => h e (by simp [he]))
    have hd : d < b := h d (by simp)
    rw [horner_concat, List.length_append, List.length_singleton, Nat.pow_succ]
    calc horner b ds * b + d < horner b ds * b + b := by omega
      _ = (horner b ds + 1) * b := by ring
      _ ≤ b ^ ds.length * b := Nat.mul_le_mul_right b hrest

/-- The `n` lowest digits of a number, the most significant one first. -/
def digits (b : Nat) : Nat → Nat → List Nat
  | 0, _ => []
  | n + 1, v => digits b n (v / b) ++ [v % b]

@[simp] theorem length_digits (n v : Nat) : (digits b n v).length = n := by
  induction n generalizing v with
  | zero => rfl
  | succ n ih => simp [digits, ih]

theorem horner_digits (n v : Nat) : horner b (digits b n v) = v % b ^ n := by
  induction n generalizing v with
  | zero => simp [digits, Nat.mod_one]
  | succ n ih =>
    rw [digits, horner_concat, ih, Nat.pow_succ', Nat.mod_mul]
    ring

theorem digits_horner {ds : List Nat} (h : ∀ d ∈ ds, d < b) :
    digits b ds.length (horner b ds) = ds := by
  induction ds using List.reverseRecOn with
  | nil => rfl
  | append_singleton ds d ih =>
    have hd : d < b := h d (by simp)
    have hdiv : (horner b ds * b + d) / b = horner b ds := by
      rw [Nat.add_comm, Nat.add_mul_div_right d _ (by omega), Nat.div_eq_of_lt hd, Nat.zero_add]
    have hmod : (horner b ds * b + d) % b = d := by
      rw [Nat.add_comm, Nat.add_mul_mod_self_right, Nat.mod_eq_of_lt hd]
    rw [horner_concat, List.length_append, List.length_singleton, digits, hdiv, hmod,
      ih (fun e he => h e (by simp [he]))]

end Numerals
