import KeyVault.Vault

/-!
# What a call can change

Every call is classified by the part of the vault it can write. A call that does
not write a part leaves it as it was, whether it fails or not, and so does every
program whose calls are all of that kind.
-/

namespace CallEffects

open Programs Vault Interleaving

def writesKeys : Call → Bool
  | .insertKey _ => true
  | .deleteKey _ => true
  | .updateKeyAcl _ _ => true
  | .updateKeyEmbedding _ _ _ => true
  | .sweepExpiredKeys _ => true
  | _ => false

def writesUsers : Call → Bool
  | .insertUser _ => true
  | .setUserToken _ _ => true
  | .setUserData _ _ => true
  | .removeUser _ => true
  | _ => false

def usesCache : Call → Bool
  | .cacheLookup _ _ => true
  | .cacheFill _ _ _ => true
  | .cacheDelete _ => true
  | .cacheClear => true
  | _ => false

def appends : Call → Bool
  | .recordEvent _ _ => true
  | _ => false

/-- Calls that neither read nor write the key table. -/
def offKeys : Call → Bool
  | .insertKey _ => false
  | .keyById _ => false
  | .keysByAclUser _ => false
  | .deleteKey _ => false
  | .updateKeyAcl _ _ => false
  | .updateKeyEmbedding _ _ _ => false
  | .sweepExpiredKeys _ => false
  | .keysNotEmbeddedWith _ => false
  | _ => true

theorem writesKeys_of_offKeys {c : Call} (h : offKeys c = true) : writesKeys c = false := by
  cases c <;> first | rfl | cases h

variable {L : Libraries} {i : ThreadId}

theorem perform_fails {t : Turn} {c : Call} {message : String} {answer : Ans c}
    (ht : t.fails = some message) (h : failure message c = some answer) (w : World) :
    perform L i t c w = (answer, w.tick t.elapsed) := by
  simp only [perform, ht, Option.bind_some, h]

theorem perform_succeeds {t : Turn} (ht : t.fails = none) (c : Call) (w : World) :
    perform L i t c w = effect L i c (w.tick t.elapsed) := by
  simp only [perform, ht, Option.bind_none]

/-- A call either fails and only lets time pass, or has its effect. -/
theorem perform_cases (L : Libraries) (i : ThreadId) (t : Turn) (c : Call) (w : World) :
    (∃ message answer, t.fails = some message ∧ failure message c = some answer ∧
      perform L i t c w = (answer, w.tick t.elapsed)) ∨
    perform L i t c w = effect L i c (w.tick t.elapsed) := by
  unfold perform
  cases ht : t.fails with
  | none => exact Or.inr rfl
  | some message =>
    cases hf : failure message c with
    | none => exact Or.inr (by simp only [Option.bind_some, hf])
    | some answer => exact Or.inl ⟨message, answer, rfl, hf, by simp only [Option.bind_some, hf]⟩

/-- A call that did not answer with a failure has had its effect. -/
theorem perform_answered {t : Turn} {c : Call} {w : World} {answer : Ans c}
    (h : (perform L i t c w).1 = answer) (hne : ∀ message, failure message c ≠ some answer) :
    perform L i t c w = effect L i c (w.tick t.elapsed) := by
  rcases perform_cases L i t c w with ⟨message, failed, -, hf, hp⟩ | hp
  · rw [hp] at h
    rw [← h] at hne
    exact absurd hf (hne message)
  · exact hp

theorem effect_keys {c : Call} (h : writesKeys c = false) (w : World) :
    (effect L i c w).2.keys = w.keys := by
  cases c <;> first | (simp only [effect]; repeat' split) <;> rfl | simp [writesKeys] at h

theorem effect_users {c : Call} (h : writesUsers c = false) (w : World) :
    (effect L i c w).2.users = w.users := by
  cases c <;> first | (simp only [effect]; repeat' split) <;> rfl | simp [writesUsers] at h

theorem effect_events {c : Call} (h : appends c = false) (w : World) :
    (effect L i c w).2.events = w.events := by
  cases c <;> first | (simp only [effect]; repeat' split) <;> rfl | simp [appends] at h

theorem effect_cache {c : Call} (h : usesCache c = false) (w : World) :
    (effect L i c w).2.cache = w.cache := by
  cases c <;> first | (simp only [effect]; repeat' split) <;> rfl | simp [usesCache] at h

theorem effect_clock (c : Call) (w : World) : (effect L i c w).2.clock = w.clock := by
  cases c <;> (simp only [effect]; repeat' split) <;> rfl

/-- Where every effect keeps a projection of the state, so does every call. -/
theorem perform_keeps {β : Type} (f : World → β)
    (htick : ∀ (w : World) (ms : Nat), f (w.tick ms) = f w)
    {c : Call} (heffect : ∀ w, f (effect L i c w).2 = f w) (t : Turn) (w : World) :
    f (perform L i t c w).2 = f w := by
  rcases perform_cases L i t c w with ⟨_, _, _, _, h⟩ | h
  · rw [h]
    exact htick w _
  · rw [h, heffect, htick]

theorem perform_keys {c : Call} (h : writesKeys c = false) (t : Turn) (w : World) :
    (perform L i t c w).2.keys = w.keys :=
  perform_keeps World.keys (fun _ _ => rfl) (effect_keys h) t w

theorem perform_users {c : Call} (h : writesUsers c = false) (t : Turn) (w : World) :
    (perform L i t c w).2.users = w.users :=
  perform_keeps World.users (fun _ _ => rfl) (effect_users h) t w

theorem perform_events {c : Call} (h : appends c = false) (t : Turn) (w : World) :
    (perform L i t c w).2.events = w.events :=
  perform_keeps World.events (fun _ _ => rfl) (effect_events h) t w

theorem perform_cache {c : Call} (h : usesCache c = false) (t : Turn) (w : World) :
    (perform L i t c w).2.cache = w.cache :=
  perform_keeps World.cache (fun _ _ => rfl) (effect_cache h) t w

theorem perform_clock (t : Turn) (c : Call) (w : World) :
    (perform L i t c w).2.clock = w.clock + t.elapsed := by
  rcases perform_cases L i t c w with ⟨_, _, _, _, h⟩ | h
  · rw [h]
    rfl
  · rw [h, effect_clock]
    rfl

@[simp] theorem serve_fst (c : Call) (s : Session) :
    (serve L i c s).1 = (perform L i (s.turns.headD {}) c s.world).1 := rfl

@[simp] theorem serve_world (c : Call) (s : Session) :
    (serve L i c s).2.world = (perform L i (s.turns.headD {}) c s.world).2 := rfl

@[simp] theorem serve_turns (c : Call) (s : Session) :
    (serve L i c s).2.turns = s.turns.tail := rfl

theorem serve_cases (L : Libraries) (i : ThreadId) (c : Call) (s : Session) :
    (∃ message answer, (s.turns.headD {}).fails = some message ∧
      failure message c = some answer ∧ serve L i c s = (answer, s.pass)) ∨
    serve L i c s =
      ((effect L i c s.pass.world).1, ⟨s.turns.tail, (effect L i c s.pass.world).2⟩) := by
  rcases perform_cases L i (s.turns.headD {}) c s.world with ⟨message, answer, ht, ha, hp⟩ | hp
  · exact Or.inl ⟨message, answer, ht, ha, by rw [serve, hp]; rfl⟩
  · exact Or.inr (by rw [serve, hp]; rfl)

theorem serve_quiet (c : Call) (w : World) :
    serve L i c (quiet w) = ((effect L i c w).1, quiet (effect L i c w).2) := rfl

theorem run_quiet {α : Type} (p : Api α) (w : World) :
    (p.run (serve L i) (quiet w)).2 = quiet (p.run (serve L i) (quiet w)).2.world := by
  have hturns : (p.run (serve L i) (quiet w)).2.turns = [] :=
    p.run_preserves (I := fun s : Session => s.turns = [])
      (fun c s hs => by rw [serve_turns, hs]; rfl) rfl
  generalize (p.run (serve L i) (quiet w)).2 = s at hturns
  obtain ⟨turns, world⟩ := s
  cases hturns
  rfl

theorem run_keys {α : Type} {p : Api α} (hp : p.Calls (fun c => writesKeys c = false))
    (s : Session) : (p.run (serve L i) s).2.world.keys = s.world.keys :=
  hp.run_preserves (I := fun s' : Session => s'.world.keys = s.world.keys)
    (fun _ _ hc hs => (perform_keys hc _ _).trans hs) rfl

theorem run_events {α : Type} {p : Api α} (hp : p.Calls (fun c => appends c = false))
    (s : Session) : (p.run (serve L i) s).2.world.events = s.world.events :=
  hp.run_preserves (I := fun s' : Session => s'.world.events = s.world.events)
    (fun _ _ hc hs => (perform_events hc _ _).trans hs) rfl

end CallEffects
