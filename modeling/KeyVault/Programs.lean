import Mathlib.Logic.Function.Basic

/-!
# Call trees with exceptions

A program is a finite tree: it has ended, with a value or an exception, or it
makes one call and continues with whatever the call answers. Everything
between two calls is atomic. A handler answers calls against a state, and
`Prog.run` is the execution of one program that nothing interrupts.
-/

namespace Programs

universe u

variable {Call : Type} {Ans : Call → Type} {ε α β : Type} {S : Type u}

inductive Prog (Ans : Call → Type) (ε α : Type) : Type where
  | done (result : Except ε α)
  | call (c : Call) (next : Ans c → Prog Ans ε α)

namespace Prog

def bind : Prog Ans ε α → (α → Prog Ans ε β) → Prog Ans ε β
  | done (.ok a), f => f a
  | done (.error e), _ => done (.error e)
  | call c next, f => call c (fun a => (next a).bind f)

/-- What a program that has ended has come to. -/
def result? : Prog Ans ε α → Option (Except ε α)
  | done r => some r
  | call _ _ => none

theorem result?_eq_some {p : Prog Ans ε α} {r : Except ε α} (h : p.result? = some r) :
    p = done r := by
  cases p with
  | done r' => exact congrArg done (Option.some.inj h)
  | call c next => cases h

/-- The outcome of a program as a value: nothing escapes from `attempt p`. -/
def attempt : Prog Ans ε α → Prog Ans ε (Except ε α)
  | done r => done (.ok r)
  | call c next => call c (fun a => (next a).attempt)

def tryCatch : Prog Ans ε α → (ε → Prog Ans ε α) → Prog Ans ε α
  | done (.ok a), _ => done (.ok a)
  | done (.error e), recover => recover e
  | call c next, recover => call c (fun a => (next a).tryCatch recover)

instance : Monad (Prog Ans ε) where
  pure a := done (.ok a)
  bind := bind

instance : MonadExceptOf ε (Prog Ans ε) where
  throw e := done (.error e)
  tryCatch := tryCatch

instance : MonadLift (Except ε) (Prog Ans ε) where
  monadLift := done

/-- One call, answered by its value. -/
def invoke (c : Call) : Prog Ans ε (Ans c) := call c (fun a => done (.ok a))

@[simp] theorem pure_eq (a : α) : (pure a : Prog Ans ε α) = done (.ok a) := rfl

@[simp] theorem throw_eq (e : ε) : (throw e : Prog Ans ε α) = done (.error e) := rfl

@[simp] theorem lift_eq (r : Except ε α) :
    (MonadLift.monadLift r : Prog Ans ε α) = done r := rfl

@[simp] theorem liftM_eq (r : Except ε α) : (liftM r : Prog Ans ε α) = done r := rfl

@[simp] theorem done_ok_bind (a : α) (f : α → Prog Ans ε β) :
    (done (.ok a) >>= f) = f a := rfl

@[simp] theorem done_error_bind (e : ε) (f : α → Prog Ans ε β) :
    (done (.error e) >>= f) = done (.error e) := rfl

@[simp] theorem call_bind (c : Call) (next : Ans c → Prog Ans ε α) (f : α → Prog Ans ε β) :
    (call c next >>= f) = call c (fun a => next a >>= f) := rfl

/-- Lifting a computation without calls commutes with sequencing. -/
theorem liftM_bind (r : Except ε α) (f : α → Except ε β) :
    (liftM (r >>= f) : Prog Ans ε β) = (liftM r >>= fun a => liftM (f a)) := by
  cases r <;> rfl

theorem liftM_pure (a : α) :
    (liftM (pure a : Except ε α) : Prog Ans ε α) = pure a := rfl

theorem bind_done_ok (p : Prog Ans ε α) : (p >>= fun a => done (.ok a)) = p := by
  induction p with
  | done r => cases r <;> rfl
  | call c next ih => exact congrArg (call c) (funext ih)

theorem bind_assoc' {γ : Type} (p : Prog Ans ε α) (f : α → Prog Ans ε β)
    (g : β → Prog Ans ε γ) : ((p >>= f) >>= g) = (p >>= fun a => f a >>= g) := by
  induction p with
  | done r => cases r <;> rfl
  | call c next ih => exact congrArg (call c) (funext ih)

instance : LawfulMonad (Prog Ans ε) :=
  LawfulMonad.mk' _ bind_done_ok (fun _ _ => rfl) bind_assoc'

@[simp] theorem attempt_done (r : Except ε α) :
    (done r : Prog Ans ε α).attempt = done (.ok r) := rfl

@[simp] theorem attempt_call (c : Call) (next : Ans c → Prog Ans ε α) :
    (call c next).attempt = call c (fun a => (next a).attempt) := rfl

end Prog

/-- A handler answers one call and moves the state. -/
abbrev Handler (Ans : Call → Type) (S : Type u) := (c : Call) → S → Ans c × S

namespace Prog

def run (h : Handler Ans S) : Prog Ans ε α → S → Except ε α × S
  | done r, s => (r, s)
  | call c next, s => (next (h c s).1).run h (h c s).2

@[simp] theorem run_done (h : Handler Ans S) (r : Except ε α) (s : S) :
    (done r : Prog Ans ε α).run h s = (r, s) := rfl

@[simp] theorem run_call (h : Handler Ans S) (c : Call) (next : Ans c → Prog Ans ε α) (s : S) :
    (call c next).run h s = (next (h c s).1).run h (h c s).2 := rfl

/-- The calls that a run makes, in order. -/
def callsOf (h : Handler Ans S) : Prog Ans ε α → S → List Call
  | done _, _ => []
  | call c next, s => c :: (next (h c s).1).callsOf h (h c s).2

@[simp] theorem callsOf_done (h : Handler Ans S) (r : Except ε α) (s : S) :
    (done r : Prog Ans ε α).callsOf h s = [] := rfl

@[simp] theorem callsOf_call (h : Handler Ans S) (c : Call) (next : Ans c → Prog Ans ε α) (s : S) :
    (call c next).callsOf h s = c :: (next (h c s).1).callsOf h (h c s).2 := rfl

/-- What every call keeps, a whole run keeps. -/
theorem run_preserves {h : Handler Ans S} {I : S → Prop} (step : ∀ c s, I s → I (h c s).2)
    (p : Prog Ans ε α) {s : S} (hs : I s) : I (p.run h s).2 := by
  induction p generalizing s with
  | done r => exact hs
  | call c next ih => exact ih (h c s).1 (step c s hs)

theorem run_bind (h : Handler Ans S) (p : Prog Ans ε α) (f : α → Prog Ans ε β) (s : S) :
    (p >>= f).run h s = match p.run h s with
      | (.ok a, s') => (f a).run h s'
      | (.error e, s') => (.error e, s') := by
  induction p generalizing s with
  | done r => cases r <;> rfl
  | call c next ih => exact ih (h c s).1 (h c s).2

theorem run_bind_ok {h : Handler Ans S} {p : Prog Ans ε α} {f : α → Prog Ans ε β}
    {s s' : S} {a : α} (hp : p.run h s = (.ok a, s')) :
    (p >>= f).run h s = (f a).run h s' := by
  rw [run_bind, hp]

theorem run_bind_error {h : Handler Ans S} {p : Prog Ans ε α} {f : α → Prog Ans ε β}
    {s s' : S} {e : ε} (hp : p.run h s = (.error e, s')) :
    (p >>= f).run h s = (.error e, s') := by
  rw [run_bind, hp]

/-- A sequence makes the calls of its first part, and then those of the rest. -/
theorem callsOf_bind_ok {h : Handler Ans S} {p : Prog Ans ε α} {f : α → Prog Ans ε β}
    {s s' : S} {a : α} (hp : p.run h s = (.ok a, s')) :
    (p >>= f).callsOf h s = p.callsOf h s ++ (f a).callsOf h s' := by
  induction p generalizing s with
  | done r =>
    cases hp
    rfl
  | call c next ih => exact congrArg (c :: ·) (ih (h c s).1 hp)

@[simp] theorem run_attempt (h : Handler Ans S) (p : Prog Ans ε α) (s : S) :
    p.attempt.run h s = (.ok (p.run h s).1, (p.run h s).2) := by
  induction p generalizing s with
  | done r => rfl
  | call c next ih => exact ih (h c s).1 (h c s).2

theorem run_tryCatch (h : Handler Ans S) (p : Prog Ans ε α) (recover : ε → Prog Ans ε α)
    (s : S) :
    (p.tryCatch recover).run h s = match p.run h s with
      | (.ok a, s') => (.ok a, s')
      | (.error e, s') => (recover e).run h s' := by
  induction p generalizing s with
  | done r => cases r <;> rfl
  | call c next ih => exact ih (h c s).1 (h c s).2

end Prog

namespace Prog

/-- Every call that the program can reach, whatever is answered, satisfies `G`. -/
def Calls (G : Call → Prop) : Prog Ans ε α → Prop
  | done _ => True
  | call c next => G c ∧ ∀ a, (next a).Calls G

variable {G : Call → Prop}

@[simp] theorem calls_done (r : Except ε α) : (done r : Prog Ans ε α).Calls G := trivial

@[simp] theorem calls_call (c : Call) (next : Ans c → Prog Ans ε α) :
    (call c next).Calls G ↔ G c ∧ ∀ a, (next a).Calls G := Iff.rfl

theorem Calls.bind {p : Prog Ans ε α} {f : α → Prog Ans ε β} (hp : p.Calls G)
    (hf : ∀ a, (f a).Calls G) : (p >>= f).Calls G := by
  induction p with
  | done r =>
    cases r with
    | ok a => exact hf a
    | error e => trivial
  | call c next ih => exact ⟨hp.1, fun a => ih a (hp.2 a)⟩

theorem Calls.attempt {p : Prog Ans ε α} (hp : p.Calls G) : p.attempt.Calls G := by
  induction p with
  | done r => trivial
  | call c next ih => exact ⟨hp.1, fun a => ih a (hp.2 a)⟩

theorem Calls.tryCatch {p : Prog Ans ε α} {recover : ε → Prog Ans ε α} (hp : p.Calls G)
    (hr : ∀ e, (recover e).Calls G) : (p.tryCatch recover).Calls G := by
  induction p with
  | done r =>
    cases r with
    | ok a => trivial
    | error e => exact hr e
  | call c next ih => exact ⟨hp.1, fun a => ih a (hp.2 a)⟩

theorem Calls.mono {G' : Call → Prop} {p : Prog Ans ε α} (hp : p.Calls G)
    (h : ∀ c, G c → G' c) : p.Calls G' := by
  induction p with
  | done r => trivial
  | call c next ih => exact ⟨h c hp.1, fun a => ih a (hp.2 a)⟩

/-- What every permitted call keeps, a whole run keeps. -/
theorem Calls.run_preserves {p : Prog Ans ε α} (hp : p.Calls G) {h : Handler Ans S}
    {I : S → Prop} (step : ∀ c s, G c → I s → I (h c s).2) {s : S} (hs : I s) :
    I (p.run h s).2 := by
  induction p generalizing s with
  | done r => exact hs
  | call c next ih => exact ih (h c s).1 (hp.2 _) (step c s hp.1 hs)

/-- As `Calls`, and what the program returns satisfies `Q`. -/
def CallsTo (G : Call → Prop) (Q : α → Prop) : Prog Ans ε α → Prop
  | done (.ok a) => Q a
  | done (.error _) => True
  | call c next => G c ∧ ∀ a, (next a).CallsTo G Q

theorem CallsTo.bind {Q : α → Prop} {p : Prog Ans ε α} {f : α → Prog Ans ε β}
    (hp : p.CallsTo G Q) (hf : ∀ a, Q a → (f a).Calls G) : (p >>= f).Calls G := by
  induction p with
  | done r =>
    cases r with
    | ok a => exact hf a hp
    | error e => trivial
  | call c next ih => exact ⟨hp.1, fun a => ih a (hp.2 a)⟩

theorem CallsTo.mono {H : Call → Prop} {Q : α → Prop} {p : Prog Ans ε α} (hp : p.CallsTo G Q)
    (h : ∀ c, G c → H c) : p.CallsTo H Q := by
  induction p with
  | done r =>
    cases r with
    | ok a => exact hp
    | error e => trivial
  | call c next ih => exact ⟨h c hp.1, fun a => ih a (hp.2 a)⟩

theorem Calls.bind_to {Q : β → Prop} {p : Prog Ans ε α} {f : α → Prog Ans ε β} (hp : p.Calls G)
    (hf : ∀ a, (f a).CallsTo G Q) : (p >>= f).CallsTo G Q := by
  induction p with
  | done r =>
    cases r with
    | ok a => exact hf a
    | error e => trivial
  | call c next ih => exact ⟨hp.1, fun a => ih a (hp.2 a)⟩

/-- Whatever is answered, what the program comes to satisfies `Q`. -/
def Ends (Q : Except ε α → Prop) : Prog Ans ε α → Prop
  | done r => Q r
  | call _ next => ∀ a, (next a).Ends Q

theorem Ends.bind {Q : Except ε β → Prop} {R : Except ε α → Prop} {p : Prog Ans ε α}
    {f : α → Prog Ans ε β} (hp : p.Ends R) (hok : ∀ a, R (.ok a) → (f a).Ends Q)
    (herror : ∀ e, R (.error e) → Q (.error e)) : (p >>= f).Ends Q := by
  induction p with
  | done r =>
    cases r with
    | ok a => exact hok a hp
    | error e => exact herror e hp
  | call c next ih => exact fun a => ih a (hp a)

theorem Ends.tryCatch {Q R : Except ε α → Prop} {p : Prog Ans ε α} {recover : ε → Prog Ans ε α}
    (hp : p.Ends R) (hok : ∀ a, R (.ok a) → Q (.ok a))
    (hrecover : ∀ e, R (.error e) → (recover e).Ends Q) : (p.tryCatch recover).Ends Q := by
  induction p with
  | done r =>
    cases r with
    | ok a => exact hok a hp
    | error e => exact hrecover e hp
  | call c next ih => exact fun a => ih a (hp a)

/-- An attempt ends with a value. -/
theorem ends_attempt (p : Prog Ans ε α) : p.attempt.Ends (fun r => ∃ a, r = .ok a) := by
  induction p with
  | done r => exact ⟨r, rfl⟩
  | call c next ih => exact fun a => ih a

theorem Ends.run {Q : Except ε α → Prop} {p : Prog Ans ε α} (hp : p.Ends Q) (h : Handler Ans S)
    (s : S) : Q (p.run h s).1 := by
  induction p generalizing s with
  | done r => exact hp
  | call c next ih => exact ih _ (hp _) _

/-- Every normal end of the program has the property. -/
theorem CallsTo.ends {Q : α → Prop} {p : Prog Ans ε α} (hp : p.CallsTo G Q) :
    p.Ends (fun r => ∀ a, r = .ok a → Q a) := by
  induction p with
  | done r =>
    cases r with
    | ok a =>
      intro b hb
      exact Except.ok.inj hb ▸ hp
    | error e =>
      intro b hb
      cases hb
  | call c next ih => exact fun a => ih a (hp.2 a)

/-- As `CallsTo`, where `k` is what the program has learned from the answers so far. -/
def Tracks {κ : Type} (learn : κ → (c : Call) → Ans c → κ) (G : κ → Call → Prop)
    (Q : κ → α → Prop) :
    κ → Prog Ans ε α → Prop
  | k, done (.ok a) => Q k a
  | _, done (.error _) => True
  | k, call c next => G k c ∧ ∀ a, Tracks learn G Q (learn k c a) (next a)

section

variable {κ : Type} {learn : κ → (c : Call) → Ans c → κ} {G : κ → Call → Prop} {k : κ}

theorem Tracks.bind {Q : κ → α → Prop} {R : κ → β → Prop} {p : Prog Ans ε α}
    {f : α → Prog Ans ε β} (hp : Tracks learn G Q k p)
    (hf : ∀ k a, Q k a → Tracks learn G R k (f a)) : Tracks learn G R k (p >>= f) := by
  induction p generalizing k with
  | done r =>
    cases r with
    | ok a => exact hf k a hp
    | error e => trivial
  | call c next ih => exact ⟨hp.1, fun a => ih a (hp.2 a)⟩

theorem Tracks.attempt {Q : κ → α → Prop} {p : Prog Ans ε α} (hp : Tracks learn G Q k p) :
    Tracks learn G (fun _ _ => True) k p.attempt := by
  induction p generalizing k with
  | done r => trivial
  | call c next ih => exact ⟨hp.1, fun a => ih a (hp.2 a)⟩

theorem Tracks.tryCatch {Q : κ → α → Prop} {p : Prog Ans ε α} {recover : ε → Prog Ans ε α}
    (hp : Tracks learn G Q k p) (hr : ∀ k e, Tracks learn G Q k (recover e)) :
    Tracks learn G Q k (p.tryCatch recover) := by
  induction p generalizing k with
  | done r =>
    cases r with
    | ok a => exact hp
    | error e => exact hr k e
  | call c next ih => exact ⟨hp.1, fun a => ih a (hp.2 a)⟩

theorem Tracks.mono {Q R : κ → α → Prop} {p : Prog Ans ε α} (hp : Tracks learn G Q k p)
    (h : ∀ k a, Q k a → R k a) : Tracks learn G R k p := by
  induction p generalizing k with
  | done r =>
    cases r with
    | ok a => exact h k a hp
    | error e => trivial
  | call c next ih => exact ⟨hp.1, fun a => ih a (hp.2 a)⟩

/-- Calls that need nothing keep what no answer takes away. -/
theorem Tracks.of_calls {H : Call → Prop} {R : κ → Prop} {p : Prog Ans ε α} (hp : p.Calls H)
    (hG : ∀ k c, H c → G k c) (hR : ∀ k c a, R k → R (learn k c a)) (hk : R k) :
    Tracks learn G (fun k _ => R k) k p := by
  induction p generalizing k with
  | done r =>
    cases r with
    | ok a => exact hk
    | error e => trivial
  | call c next ih => exact ⟨hG k c hp.1, fun a => ih a (hp.2 a) (hR k c a hk)⟩

end

/-- While every answer satisfies `A`, the calls satisfy `G` and what the program comes to
satisfies `Q`. -/
def Trusts (A : (c : Call) → Ans c → Prop) (G : Call → Prop) (Q : Except ε α → Prop) :
    Prog Ans ε α → Prop
  | done r => Q r
  | call c next => G c ∧ ∀ a, A c a → (next a).Trusts A G Q

section

variable {A : (c : Call) → Ans c → Prop} {Q R : Except ε α → Prop}

theorem Trusts.mono {p : Prog Ans ε α} (hp : p.Trusts A G Q) (h : ∀ r, Q r → R r) :
    p.Trusts A G R := by
  induction p with
  | done r => exact h r hp
  | call c next ih => exact ⟨hp.1, fun a ha => ih a (hp.2 a ha)⟩

theorem Trusts.bind {Q' : Except ε β → Prop} {p : Prog Ans ε α} {f : α → Prog Ans ε β}
    (hp : p.Trusts A G Q) (hok : ∀ a, Q (.ok a) → (f a).Trusts A G Q')
    (herror : ∀ e, Q (.error e) → Q' (.error e)) : (p >>= f).Trusts A G Q' := by
  induction p with
  | done r =>
    cases r with
    | ok a => exact hok a hp
    | error e => exact herror e hp
  | call c next ih => exact ⟨hp.1, fun a ha => ih a (hp.2 a ha)⟩

theorem Trusts.attempt {Q' : Except ε (Except ε α) → Prop} {p : Prog Ans ε α}
    (hp : p.Trusts A G Q) (h : ∀ r, Q r → Q' (.ok r)) : p.attempt.Trusts A G Q' := by
  induction p with
  | done r => exact h r hp
  | call c next ih => exact ⟨hp.1, fun a ha => ih a (hp.2 a ha)⟩

theorem Trusts.tryCatch {p : Prog Ans ε α} {recover : ε → Prog Ans ε α} (hp : p.Trusts A G Q)
    (hok : ∀ a, Q (.ok a) → R (.ok a)) (herror : ∀ e, Q (.error e) → (recover e).Trusts A G R) :
    (p.tryCatch recover).Trusts A G R := by
  induction p with
  | done r =>
    cases r with
    | ok a => exact hok a hp
    | error e => exact herror e hp
  | call c next ih => exact ⟨hp.1, fun a ha => ih a (hp.2 a ha)⟩

end

/-- Two states that no permitted call can tell apart give the same result. -/
theorem Calls.run_related {p : Prog Ans ε α} (hp : p.Calls G) {h : Handler Ans S}
    {R : S → S → Prop}
    (step : ∀ c s t, G c → R s t → (h c s).1 = (h c t).1 ∧ R (h c s).2 (h c t).2) {s t : S}
    (hR : R s t) : (p.run h s).1 = (p.run h t).1 ∧ R (p.run h s).2 (p.run h t).2 := by
  induction p generalizing s t with
  | done r => exact ⟨rfl, hR⟩
  | call c next ih =>
    obtain ⟨heq, hR'⟩ := step c s t hp.1 hR
    simp only [run_call, heq]
    exact ih _ (hp.2 _) hR'

end Prog

end Programs
