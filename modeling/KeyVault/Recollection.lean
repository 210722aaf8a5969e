import KeyVault.Interleaving

/-!
# What a program remembers

The calls that a program has made so far, with their answers. A condition on a call may
ask for an earlier one, and in a run that earlier one has been recorded.
-/

namespace Recollection

open Programs Interleaving

universe u

variable {Call : Type} {Ans : Call → Type} {S : Type u}

/-- Calls and their answers, the latest first. -/
abbrev Told (Ans : Call → Type) := List ((c : Call) × Ans c)

def Told.hear (told : Told Ans) (c : Call) (a : Ans c) : Told Ans := ⟨c, a⟩ :: told

/-- What the recorded calls have told. -/
def toldOf (es : List (Entry Ans S)) : Told Ans :=
  es.foldl (fun told e => told.hear e.call e.answer) []

theorem mem_toldOf {es : List (Entry Ans S)} {x : (c : Call) × Ans c} :
    x ∈ toldOf es ↔ ∃ e ∈ es, (⟨e.call, e.answer⟩ : (c : Call) × Ans c) = x := by
  have hfold : ∀ told : Told Ans, es.foldl (fun told e => told.hear e.call e.answer) told =
      (es.map fun e => (⟨e.call, e.answer⟩ : (c : Call) × Ans c)).reverse ++ told := by
    induction es with
    | nil => intro told; rfl
    | cons e rest ih =>
      intro told
      rw [List.foldl_cons, ih, List.map_cons, List.reverse_cons, List.append_assoc]
      rfl
  rw [toldOf, hfold, List.append_nil, List.mem_reverse, List.mem_map]

theorem made_of_told {i : ThreadId} {pre trace : List (Entry Ans S)} (hsub : pre ⊆ trace) {c : Call}
    {a : Ans c} (h : (⟨c, a⟩ : (c : Call) × Ans c) ∈ toldOf (own i pre)) : Made trace i c a := by
  obtain ⟨⟨thread, call, answer, before, after⟩, he, heq⟩ := mem_toldOf.mp h
  obtain ⟨hmem, hthread⟩ := mem_own.mp he
  cases hthread
  cases heq
  exact ⟨before, after, hsub hmem⟩

end Recollection
