import Mathlib.Logic.Function.Basic

/-!
# UTF-16

The code units that a string is made of where characters beyond the first plane take two.
A string is determined by them.
-/

namespace Utf16

/-- The code units of a character. -/
def codeUnits (c : Char) : List Nat :=
  if c.toNat < 0x10000 then [c.toNat]
  else [0xd800 + (c.toNat - 0x10000) / 1024, 0xdc00 + (c.toNat - 0x10000) % 1024]

def utf16 (s : String) : List Nat := s.toList.flatMap codeUnits

theorem codeUnits_append {c d : Char} {rest rest' : List Nat}
    (h : codeUnits c ++ rest = codeUnits d ++ rest') : c = d ∧ rest = rest' := by
  have hc : c.toNat < 0xd800 ∨ (0xdfff < c.toNat ∧ c.toNat < 0x110000) := c.valid
  have hd : d.toNat < 0xd800 ∨ (0xdfff < d.toNat ∧ d.toNat < 0x110000) := d.valid
  have hnat : c.toNat = d.toNat ∧ rest = rest' := by
    unfold codeUnits at h
    split at h
    · split at h
      · simpa using h
      · simp only [List.cons_append, List.cons.injEq] at h
        omega
    · split at h
      · simp only [List.cons_append, List.cons.injEq] at h
        omega
      · simp only [List.cons_append, List.nil_append, List.cons.injEq] at h
        obtain ⟨hhigh, hlow, hrest⟩ := h
        exact ⟨by omega, hrest⟩
  exact ⟨Char.toNat_inj.mp hnat.1, hnat.2⟩

theorem codeUnits_ne_nil (c : Char) : codeUnits c ≠ [] := by
  unfold codeUnits
  split
  · exact List.cons_ne_nil _ _
  · exact List.cons_ne_nil _ _

theorem utf16_injective : Function.Injective utf16 := by
  have hchars : ∀ cs ds : List Char, cs.flatMap codeUnits = ds.flatMap codeUnits → cs = ds := by
    intro cs
    induction cs with
    | nil =>
      intro ds h
      cases ds with
      | nil => rfl
      | cons d ds =>
        have hnil := (List.append_eq_nil_iff.mp h.symm).1
        exact absurd hnil (codeUnits_ne_nil d)
    | cons c cs ih =>
      intro ds h
      cases ds with
      | nil => exact absurd (List.append_eq_nil_iff.mp h).1 (codeUnits_ne_nil c)
      | cons d ds =>
        obtain ⟨rfl, hrest⟩ := codeUnits_append h
        rw [ih ds hrest]
  intro a b h
  exact String.toList_inj.mp (hchars _ _ h)

end Utf16
