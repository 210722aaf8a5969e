import Mathlib.Algebra.Group.Nat.Defs

/-!
# Timestamps in double precision

TO_TIMESTAMP counts microseconds from the year 2000 in double precision: a count of more
than 53 bits becomes the nearest double, the even one when two are equally near.
-/

namespace Timestamps

/-- The distance of the doubles around a number. -/
def spacing (n : Nat) : Nat := 2 ^ (n.log2 - 52)

def nearestDouble (n : Nat) : Nat :=
  let below := n / spacing n
  let rest := n % spacing n
  if 2 * rest < spacing n ∨ (2 * rest = spacing n ∧ below % 2 = 0) then below * spacing n
  else (below + 1) * spacing n

theorem spacing_pos (n : Nat) : 0 < spacing n := Nat.two_pow_pos _

theorem spacing_dvd {n k : Nat} (h : n < 2 ^ (k + 53)) : spacing n ∣ 2 ^ k := by
  by_cases hzero : n = 0
  · subst hzero
    exact Nat.one_dvd _
  · have hlog := (Nat.log2_lt hzero).mpr h
    exact Nat.pow_dvd_pow 2 (by omega)

/-- A multiple of the spacing is a double. -/
theorem nearestDouble_of_dvd {n : Nat} (h : spacing n ∣ n) : nearestDouble n = n := by
  have hrest : n % spacing n = 0 := Nat.mod_eq_zero_of_dvd h
  have hpos := spacing_pos n
  simp only [nearestDouble, hrest, Nat.mul_zero, hpos, true_or, if_true]
  exact Nat.div_mul_cancel h

/-- Rounding moves a number by half the spacing at most. -/
theorem nearestDouble_near (n : Nat) :
    2 * n ≤ 2 * nearestDouble n + spacing n ∧ 2 * nearestDouble n ≤ 2 * n + spacing n := by
  have hsplit := Nat.div_add_mod' n (spacing n)
  have hrest := Nat.mod_lt n (spacing_pos n)
  unfold nearestDouble
  dsimp only
  split
  · omega
  · rw [Nat.add_mul, Nat.one_mul]
    omega

/-- The second in which the count of a timestamp starts. -/
def epoch : Nat := 946684800

/-- The microseconds of TO_TIMESTAMP, both counted from 1970. Before the year 2000 the
count is short. -/
def toTimestamp (seconds : Nat) : Nat :=
  if seconds < epoch then seconds * 1000000
  else epoch * 1000000 + nearestDouble ((seconds - epoch) * 1000000)

/-- Up to here a timestamp is its second. -/
def lastExact : Nat := 577407437104

theorem toTimestamp_exact {seconds : Nat} (h : seconds ≤ lastExact) :
    toTimestamp seconds = seconds * 1000000 := by
  unfold toTimestamp
  split
  · rfl
  · rename_i hlate
    have hdouble : nearestDouble ((seconds - epoch) * 1000000) = (seconds - epoch) * 1000000 := by
      by_cases hlast : seconds = lastExact
      · subst hlast
        decide +kernel
      · apply nearestDouble_of_dvd
        have hshort : (seconds - epoch) * 1000000 < 2 ^ (6 + 53) := by
          simp only [epoch, lastExact] at h hlast ⊢
          omega
        have hmillion : 2 ^ 6 ∣ (seconds - epoch) * 1000000 :=
          Nat.dvd_trans (by decide) (Nat.dvd_mul_left 1000000 _)
        exact Nat.dvd_trans (spacing_dvd hshort) hmillion
    rw [hdouble]
    omega

/-- In a column a timestamp is off by less than a millisecond. -/
theorem toTimestamp_near {seconds : Nat} (h : seconds ≤ 9224318015999) :
    seconds * 1000000 ≤ toTimestamp seconds + 512 ∧
      toTimestamp seconds ≤ seconds * 1000000 + 512 := by
  unfold toTimestamp
  split
  · omega
  · have hshort : (seconds - epoch) * 1000000 < 2 ^ (10 + 53) := by
      simp only [epoch]
      omega
    have hspacing := Nat.le_of_dvd (Nat.two_pow_pos _) (spacing_dvd hshort)
    have hnear := nearestDouble_near ((seconds - epoch) * 1000000)
    omega

/-- The next second is stored early. -/
example : toTimestamp (lastExact + 1) < (lastExact + 1) * 1000000 := by decide +kernel

end Timestamps
