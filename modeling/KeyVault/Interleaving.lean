import KeyVault.Programs

/-!
# Interleaved programs

A pool runs any number of programs over one shared state. A schedule names, step
by step, which thread makes its next call, with the circumstances of that call;
every finite schedule is a run. Threads are killed by never scheduling them again.

The rules are rely-guarantee reasoning with one invariant: `Safe` follows one
program under any interference its protocol allows, and the calls it makes keep
what the protocol promises to the others.
-/

namespace Interleaving

open Programs

universe u

variable {Call : Type} {Ans : Call → Type} {ε α β : Type} {S : Type u} {T : Type}

abbrev ThreadId := Nat

/-- One atomic call of a thread, under circumstances `T` that nobody controls. -/
abbrev Perform (Ans : Call → Type) (S : Type u) (T : Type) :=
  ThreadId → T → Handler Ans S

structure Pool (Ans : Call → Type) (ε α : Type) (S : Type u) where
  threads : ThreadId → Prog Ans ε α
  state : S

abbrev Schedule (T : Type) := List (ThreadId × T)

namespace Pool

/-- Scheduling a finished thread changes nothing. -/
def step (perform : Perform Ans S T) (P : Pool Ans ε α S) (i : ThreadId) (t : T) :
    Pool Ans ε α S :=
  match P.threads i with
  | .done _ => P
  | .call c next =>
    let r := perform i t c P.state
    ⟨Function.update P.threads i (next r.1), r.2⟩

def exec (perform : Perform Ans S T) : Schedule T → Pool Ans ε α S → Pool Ans ε α S
  | [], P => P
  | (i, t) :: rest, P => exec perform rest (P.step perform i t)

@[simp] theorem exec_nil (perform : Perform Ans S T) (P : Pool Ans ε α S) :
    exec perform [] P = P := rfl

@[simp] theorem exec_cons (perform : Perform Ans S T) (i : ThreadId) (t : T)
    (rest : Schedule T) (P : Pool Ans ε α S) :
    exec perform ((i, t) :: rest) P = exec perform rest (P.step perform i t) := rfl

theorem step_done {perform : Perform Ans S T} {P : Pool Ans ε α S} {i : ThreadId} {t : T}
    {r : Except ε α} (h : P.threads i = .done r) : P.step perform i t = P := by
  simp only [step, h]

theorem step_call {perform : Perform Ans S T} {P : Pool Ans ε α S} {i : ThreadId} {t : T}
    {c : Call} {next : Ans c → Prog Ans ε α} (h : P.threads i = .call c next) :
    P.step perform i t = ⟨Function.update P.threads i (next (perform i t c P.state).1),
      (perform i t c P.state).2⟩ := by
  simp only [step, h]

end Pool

/-- What every permitted call keeps, every run of permitted programs keeps. -/
theorem Pool.exec_calls {perform : Perform Ans S T} {G : ThreadId → Call → Prop} {I : S → Prop}
    (step : ∀ i t c s, G i c → I s → I (perform i t c s).2) {P : Pool Ans ε α S}
    (hcalls : ∀ i, (P.threads i).Calls (G i)) (h : I P.state) (schedule : Schedule T) :
    I (Pool.exec perform schedule P).state := by
  induction schedule generalizing P with
  | nil => exact h
  | cons x rest ih =>
    obtain ⟨i, t⟩ := x
    rw [Pool.exec_cons]
    cases hi : P.threads i with
    | done r =>
      rw [Pool.step_done hi]
      exact ih hcalls h
    | call c next =>
      rw [Pool.step_call hi]
      have hc := hcalls i
      rw [hi] at hc
      refine ih (fun j => ?_) (step i t c P.state hc.1 h)
      by_cases hj : j = i
      · subst hj
        simpa only [Function.update_self] using hc.2 _
      · simpa only [Function.update_of_ne hj] using hcalls j

/-- What every state satisfies, what thread `i` may assume of the moves of the
others, and what it promises of its own. -/
structure Protocol (S : Type u) where
  inv : S → Prop
  rely : ThreadId → S → S → Prop
  guar : ThreadId → S → S → Prop
  rely_refl : ∀ i s, rely i s s
  rely_trans : ∀ i s s' s'', rely i s s' → rely i s' s'' → rely i s s''
  guar_rely : ∀ i j s s', i ≠ j → guar i s s' → rely j s s'

variable {P : Protocol S} {perform : Perform Ans S T} {i : ThreadId}

/-- From `s` on, and whatever the others do, thread `i` keeps the invariant and its
guarantee, and when it ends its result satisfies `Q` in every later state. -/
def Safe (P : Protocol S) (perform : Perform Ans S T) (i : ThreadId)
    (Q : Except ε α → S → Prop) : Prog Ans ε α → S → Prop
  | .done r, s => ∀ s', P.rely i s s' → P.inv s' → Q r s'
  | .call c next, s => ∀ s', P.rely i s s' → P.inv s' → ∀ t,
      P.inv (perform i t c s').2 ∧ P.guar i s' (perform i t c s').2 ∧
        Safe P perform i Q (next (perform i t c s').1) (perform i t c s').2

theorem Safe.stable {Q : Except ε α → S → Prop} {p : Prog Ans ε α} {s s' : S}
    (h : Safe P perform i Q p s) (move : P.rely i s s') : Safe P perform i Q p s' := by
  cases p with
  | done r => exact fun s'' h' hi => h s'' (P.rely_trans _ _ _ _ move h') hi
  | call c next => exact fun s'' h' hi t => h s'' (P.rely_trans _ _ _ _ move h') hi t

theorem Safe.mono {Q Q' : Except ε α → S → Prop} {p : Prog Ans ε α} {s : S}
    (h : Safe P perform i Q p s) (imp : ∀ r s, P.inv s → Q r s → Q' r s) :
    Safe P perform i Q' p s := by
  induction p generalizing s with
  | done r => exact fun s' hr hi => imp r s' hi (h s' hr hi)
  | call c next ih =>
    intro s' hr hi t
    obtain ⟨hinv, hguar, hnext⟩ := h s' hr hi t
    exact ⟨hinv, hguar, ih _ hnext⟩

/-- To be safe it is enough to be safe wherever the others may move. -/
theorem Safe.of_moves {Q : Except ε α → S → Prop} {p : Prog Ans ε α} {s : S}
    (h : ∀ s', P.rely i s s' → P.inv s' → Safe P perform i Q p s') :
    Safe P perform i Q p s := by
  cases p with
  | done r => exact fun s' hr hi => h s' hr hi s' (P.rely_refl _ _) hi
  | call c next => exact fun s' hr hi t => h s' hr hi s' (P.rely_refl _ _) hi t

theorem Safe.bind {Q : Except ε β → S → Prop} {p : Prog Ans ε α} {f : α → Prog Ans ε β} {s : S}
    (h : Safe P perform i (fun r s => match r with
      | .ok a => Safe P perform i Q (f a) s
      | .error e => Safe P perform i Q (.done (.error e)) s) p s) :
    Safe P perform i Q (p >>= f) s := by
  induction p generalizing s with
  | done r =>
    cases r with
    | ok a => exact Safe.of_moves h
    | error e => exact Safe.of_moves h
  | call c next ih =>
    intro s' hr hi t
    obtain ⟨hinv, hguar, hnext⟩ := h s' hr hi t
    exact ⟨hinv, hguar, ih _ hnext⟩

theorem Safe.invoke {Q : Except ε β → S → Prop} {c : Call} {f : Ans c → Prog Ans ε β} {s : S}
    (h : ∀ s', P.rely i s s' → P.inv s' → ∀ t,
      P.inv (perform i t c s').2 ∧ P.guar i s' (perform i t c s').2 ∧
        Safe P perform i Q (f (perform i t c s').1) (perform i t c s').2) :
    Safe P perform i Q (Prog.invoke c >>= f) s := h

theorem Safe.lift {Q : Except ε β → S → Prop} {r : Except ε α} {f : α → Prog Ans ε β} {s : S}
    (hok : ∀ a, r = .ok a → Safe P perform i Q (f a) s)
    (herror : ∀ e, r = .error e → Safe P perform i Q (.done (.error e)) s) :
    Safe P perform i Q (liftM r >>= f) s := by
  cases r with
  | ok a => exact hok a rfl
  | error e => exact herror e rfl

/-- Programs that owe nothing but the invariant and the guarantee compose freely. -/
theorem Safe.seq {p : Prog Ans ε α} {f : α → Prog Ans ε β} {s : S}
    (h : Safe P perform i (fun _ _ => True) p s)
    (hf : ∀ a s, Safe P perform i (fun _ _ => True) (f a) s) :
    Safe P perform i (fun _ _ => True) (p >>= f) s := by
  refine Safe.bind (h.mono fun r s _ _ => ?_)
  cases r with
  | ok a => exact hf a s
  | error e => exact fun _ _ _ => trivial

theorem Safe.attempt {Q : Except ε (Except ε α) → S → Prop} {p : Prog Ans ε α} {s : S}
    (h : Safe P perform i (fun r => Q (.ok r)) p s) : Safe P perform i Q p.attempt s := by
  induction p generalizing s with
  | done r => exact h
  | call c next ih =>
    intro s' hr hi t
    obtain ⟨hinv, hguar, hnext⟩ := h s' hr hi t
    exact ⟨hinv, hguar, ih _ hnext⟩

theorem Safe.tryCatch {Q : Except ε α → S → Prop} {p : Prog Ans ε α}
    {recover : ε → Prog Ans ε α} {s : S}
    (h : Safe P perform i (fun r s => match r with
      | .ok a => Q (.ok a) s
      | .error e => Safe P perform i Q (recover e) s) p s) :
    Safe P perform i Q (p.tryCatch recover) s := by
  induction p generalizing s with
  | done r =>
    cases r with
    | ok a => exact h
    | error e => exact Safe.of_moves h
  | call c next ih =>
    intro s' hr hi t
    obtain ⟨hinv, hguar, hnext⟩ := h s' hr hi t
    exact ⟨hinv, hguar, ih _ hnext⟩

/-- What neither the thread nor the others can undo is still known at the end. -/
theorem Safe.keep {Q : Except ε α → S → Prop} {R : S → Prop} {p : Prog Ans ε α} {s : S}
    (h : Safe P perform i Q p s) (hrely : ∀ s s', P.rely i s s' → R s → R s')
    (hguar : ∀ s s', P.guar i s s' → R s → R s') (hR : R s) :
    Safe P perform i (fun r s => Q r s ∧ R s) p s := by
  induction p generalizing s with
  | done r => exact fun s' hr hi => ⟨h s' hr hi, hrely s s' hr hR⟩
  | call c next ih =>
    intro s' hr hi t
    obtain ⟨hinv, hg, hnext⟩ := h s' hr hi t
    exact ⟨hinv, hg, ih _ hnext (hguar _ _ hg (hrely _ _ hr hR))⟩

/-- Calls that keep the invariant and the guarantee from every state need no bookkeeping. -/
theorem Safe.of_calls {G : Call → Prop} {p : Prog Ans ε α} (hp : p.Calls G)
    (keep : ∀ c s t, G c → P.inv s →
      P.inv (perform i t c s).2 ∧ P.guar i s (perform i t c s).2) (s : S) :
    Safe P perform i (fun _ _ => True) p s := by
  induction p generalizing s with
  | done r => exact fun _ _ _ => trivial
  | call c next ih =>
    intro s' _ hi t
    obtain ⟨hinv, hguar⟩ := keep c s' t hp.1 hi
    exact ⟨hinv, hguar, ih _ (hp.2 _) _⟩

/-- One step keeps the invariant and the safety of every thread. -/
theorem step_safe {Q : ThreadId → Except ε α → S → Prop} {W : Pool Ans ε α S}
    (hinv : P.inv W.state) (hsafe : ∀ i, Safe P perform i (Q i) (W.threads i) W.state)
    (i : ThreadId) (t : T) :
    P.inv (W.step perform i t).state ∧
      ∀ j, Safe P perform j (Q j) ((W.step perform i t).threads j) (W.step perform i t).state := by
  cases h : W.threads i with
  | done r => rw [Pool.step_done h]; exact ⟨hinv, hsafe⟩
  | call c next =>
    rw [Pool.step_call h]
    have hi := hsafe i
    rw [h] at hi
    obtain ⟨hinv', hguar, hnext⟩ := hi W.state (P.rely_refl _ _) hinv t
    refine ⟨hinv', fun j => ?_⟩
    by_cases hj : j = i
    · subst hj
      simpa only [Function.update_self] using hnext
    · simp only [Function.update_of_ne hj]
      exact (hsafe j).stable (P.guar_rely i j _ _ (Ne.symm hj) hguar)

theorem exec_safe {Q : ThreadId → Except ε α → S → Prop} {W : Pool Ans ε α S}
    (hinv : P.inv W.state) (hsafe : ∀ i, Safe P perform i (Q i) (W.threads i) W.state)
    (schedule : Schedule T) :
    P.inv (W.exec perform schedule).state ∧
      ∀ i, Safe P perform i (Q i) ((W.exec perform schedule).threads i)
        (W.exec perform schedule).state := by
  induction schedule generalizing W with
  | nil => exact ⟨hinv, hsafe⟩
  | cons x rest ih =>
    obtain ⟨hinv', hsafe'⟩ := step_safe hinv hsafe x.1 x.2
    exact ih hinv' hsafe'

/-- What every guarantee promises between two states, a run promises. -/
theorem exec_moves {Q : ThreadId → Except ε α → S → Prop} {R : S → S → Prop} {W : Pool Ans ε α S}
    (hrefl : ∀ s, R s s) (htrans : ∀ s s' s'', R s s' → R s' s'' → R s s'')
    (hguar : ∀ i s s', P.guar i s s' → R s s') (hinv : P.inv W.state)
    (hsafe : ∀ i, Safe P perform i (Q i) (W.threads i) W.state) (schedule : Schedule T) :
    R W.state (W.exec perform schedule).state := by
  induction schedule generalizing W with
  | nil => exact hrefl _
  | cons x rest ih =>
    obtain ⟨i, t⟩ := x
    obtain ⟨hinv', hsafe'⟩ := step_safe hinv hsafe i t
    refine htrans _ _ _ ?_ (ih hinv' hsafe')
    cases h : W.threads i with
    | done r =>
      rw [Pool.step_done h]
      exact hrefl _
    | call c next =>
      rw [Pool.step_call h]
      have hi := hsafe i
      rw [h] at hi
      exact hguar i _ _ (hi W.state (P.rely_refl _ _) hinv t).2.1

theorem exec_result {Q : ThreadId → Except ε α → S → Prop} {W : Pool Ans ε α S}
    (hinv : P.inv W.state) (hsafe : ∀ i, Safe P perform i (Q i) (W.threads i) W.state)
    {schedule : Schedule T} {i : ThreadId} {r : Except ε α}
    (hdone : (W.exec perform schedule).threads i = .done r) :
    Q i r (W.exec perform schedule).state := by
  obtain ⟨hinv', hsafe'⟩ := exec_safe hinv hsafe schedule
  have h := hsafe' i
  rw [hdone] at h
  exact h _ (P.rely_refl _ _) hinv'

/-- A call that a thread has made, with its answer and the states around it. -/
structure Entry (Ans : Call → Type) (S : Type u) where
  thread : ThreadId
  call : Call
  answer : Ans call
  before : S
  after : S

/-- The calls of a run that nothing interrupts. -/
def trail (h : Handler Ans S) (i : ThreadId) : Prog Ans ε α → S → List (Entry Ans S)
  | .done _, _ => []
  | .call c next, s =>
    ⟨i, c, (h c s).1, s, (h c s).2⟩ :: trail h i (next (h c s).1) (h c s).2

/-- The state together with everything that has happened to it. -/
structure Recorded (Ans : Call → Type) (S : Type u) where
  now : S
  trace : List (Entry Ans S)

def record (perform : Perform Ans S T) : Perform Ans (Recorded Ans S) T :=
  fun i t c s =>
    ((perform i t c s.now).1, ⟨(perform i t c s.now).2,
      s.trace ++ [⟨i, c, (perform i t c s.now).1, s.now, (perform i t c s.now).2⟩]⟩)

@[simp] theorem record_fst (perform : Perform Ans S T) (i : ThreadId) (t : T) (c : Call)
    (s : Recorded Ans S) : (record perform i t c s).1 = (perform i t c s.now).1 := rfl

@[simp] theorem record_now (perform : Perform Ans S T) (i : ThreadId) (t : T) (c : Call)
    (s : Recorded Ans S) : (record perform i t c s).2.now = (perform i t c s.now).2 := rfl

@[simp] theorem record_trace (perform : Perform Ans S T) (i : ThreadId) (t : T) (c : Call)
    (s : Recorded Ans S) : (record perform i t c s).2.trace = s.trace ++
      [⟨i, c, (perform i t c s.now).1, s.now, (perform i t c s.now).2⟩] := rfl

/-- Every recorded call was made in a state of the invariant, led to one, and kept
the guarantee of its thread. -/
def Kept (P : Protocol S) (trace : List (Entry Ans S)) : Prop :=
  ∀ e ∈ trace, P.inv e.before ∧ P.inv e.after ∧ P.guar e.thread e.before e.after

/-- The rules hold of recorded runs, whose past they then describe. -/
theorem exec_kept {Q : ThreadId → Except ε α → S → Prop} {W : Pool Ans ε α (Recorded Ans S)}
    (hinv : P.inv W.state.now)
    (hsafe : ∀ i, Safe P perform i (Q i) (W.threads i) W.state.now)
    (hkept : Kept P W.state.trace) (schedule : Schedule T) :
    P.inv (W.exec (record perform) schedule).state.now ∧
      Kept P (W.exec (record perform) schedule).state.trace := by
  induction schedule generalizing W with
  | nil => exact ⟨hinv, hkept⟩
  | cons x rest ih =>
    obtain ⟨i, t⟩ := x
    rw [Pool.exec_cons]
    cases h : W.threads i with
    | done r =>
      rw [Pool.step_done h]
      exact ih hinv hsafe hkept
    | call c next =>
      have hstep := step_safe (W := ⟨W.threads, W.state.now⟩) hinv hsafe i t
      have hi := hsafe i
      rw [h] at hi
      obtain ⟨hinv', hguar, -⟩ := hi W.state.now (P.rely_refl _ _) hinv t
      rw [Pool.step_call (P := ⟨W.threads, W.state.now⟩) h] at hstep
      rw [Pool.step_call h]
      refine ih hinv' hstep.2 fun e he => ?_
      rcases List.mem_append.mp he with he | he
      · exact hkept e he
      · rw [List.mem_singleton.mp he]
        exact ⟨hinv, hinv', hguar⟩

/-- A call that `trace` has recorded. -/
def Made (trace : List (Entry Ans S)) (i : ThreadId) (c : Call) (answer : Ans c) : Prop :=
  ∃ before after, ⟨i, c, answer, before, after⟩ ∈ trace

theorem Made.mono {trace trace' : List (Entry Ans S)} {i : ThreadId} {c : Call} {answer : Ans c}
    (h : Made trace i c answer) (hsub : trace <+: trace') : Made trace' i c answer := by
  obtain ⟨before, after, hmem⟩ := h
  exact ⟨before, after, hsub.subset hmem⟩

/-- The program comes to the result if its calls are answered as thread `i` has seen. -/
def Plays (trace : List (Entry Ans S)) (i : ThreadId) :
    Prog Ans ε α → Except ε α → Prop
  | .done r, r' => r = r'
  | .call c next, r' => ∃ answer, Made trace i c answer ∧ Plays trace i (next answer) r'

theorem Plays.mono {trace trace' : List (Entry Ans S)} {i : ThreadId} {p : Prog Ans ε α}
    {r : Except ε α} (h : Plays trace i p r) (hsub : trace <+: trace') : Plays trace' i p r := by
  induction p with
  | done r' => exact h
  | call c next ih =>
    obtain ⟨answer, hmade, hnext⟩ := h
    exact ⟨answer, hmade.mono hsub, ih answer hnext⟩

/-- A program that ends well has come through its first part. -/
theorem Plays.bind_ok {trace : List (Entry Ans S)} {i : ThreadId} {p : Prog Ans ε α}
    {f : α → Prog Ans ε β} {b : β} (h : Plays trace i (p >>= f) (.ok b)) :
    ∃ a, Plays trace i p (.ok a) ∧ Plays trace i (f a) (.ok b) := by
  induction p with
  | done r =>
    cases r with
    | ok a => exact ⟨a, rfl, h⟩
    | error e => cases h
  | call c next ih =>
    obtain ⟨answer, hmade, hnext⟩ := h
    obtain ⟨a, ha, hf⟩ := ih answer hnext
    exact ⟨a, ⟨answer, hmade, ha⟩, hf⟩

/-- What a program comes to while its answers can be trusted. -/
theorem Plays.trusts {trace : List (Entry Ans S)} {i : ThreadId} {A : (c : Call) → Ans c → Prop}
    {G : Call → Prop} {Q : Except ε α → Prop} {p : Prog Ans ε α} {r : Except ε α}
    (h : Plays trace i p r) (hp : p.Trusts A G Q) (hA : ∀ c a, Made trace i c a → A c a) : Q r := by
  induction p with
  | done r' =>
    rw [← show r' = r from h]
    exact hp
  | call c next ih =>
    obtain ⟨answer, hmade, hnext⟩ := h
    exact ih answer hnext (hp.2 answer (hA c answer hmade))

theorem Plays.attempt {trace : List (Entry Ans S)} {i : ThreadId} {p : Prog Ans ε α}
    {r : Except ε α} (h : Plays trace i p.attempt (.ok r)) : Plays trace i p r := by
  induction p with
  | done r' => exact Except.ok.inj h
  | call c next ih =>
    obtain ⟨answer, hmade, hnext⟩ := h
    exact ⟨answer, hmade, ih answer hnext⟩

theorem Plays.tryCatch_ok {trace : List (Entry Ans S)} {i : ThreadId} {p : Prog Ans ε α}
    {recover : ε → Prog Ans ε α} {a : α}
    (h : Plays trace i (p.tryCatch recover) (.ok a)) :
    Plays trace i p (.ok a) ∨ ∃ e, Plays trace i (recover e) (.ok a) := by
  induction p with
  | done r =>
    cases r with
    | ok a' => exact Or.inl h
    | error e => exact Or.inr ⟨e, h⟩
  | call c next ih =>
    obtain ⟨answer, hmade, hnext⟩ := h
    rcases ih answer hnext with ha | hr
    · exact Or.inl ⟨answer, hmade, ha⟩
    · exact Or.inr hr

theorem trace_prefix (perform : Perform Ans S T) (schedule : Schedule T)
    (W : Pool Ans ε α (Recorded Ans S)) :
    W.state.trace <+: (W.exec (record perform) schedule).state.trace := by
  induction schedule generalizing W with
  | nil => exact List.prefix_rfl
  | cons x rest ih =>
    obtain ⟨i, t⟩ := x
    refine List.IsPrefix.trans ?_ (ih _)
    cases h : W.threads i with
    | done r =>
      have hidle : W.step (record perform) i t = W := Pool.step_done h
      exact hidle.symm ▸ List.prefix_rfl
    | call c next =>
      rw [Pool.step_call h]
      exact List.prefix_append _ _

/-- What a thread has come to, its program comes to on the recorded answers. -/
theorem exec_plays (perform : Perform Ans S T) (schedule : Schedule T)
    (W : Pool Ans ε α (Recorded Ans S)) {i : ThreadId} {r : Except ε α}
    (h : (W.exec (record perform) schedule).threads i = .done r) :
    Plays (W.exec (record perform) schedule).state.trace i (W.threads i) r := by
  induction schedule generalizing W with
  | nil =>
    rw [show W.threads i = .done r from h]
    exact rfl
  | cons x rest ih =>
    obtain ⟨j, t⟩ := x
    have hplays := ih (W.step (record perform) j t) h
    have hprefix := trace_prefix perform rest (W.step (record perform) j t)
    cases hj : W.threads j with
    | done r' =>
      rw [Pool.step_done hj] at hplays
      rwa [Pool.exec_cons, Pool.step_done hj]
    | call c next =>
      rw [Pool.exec_cons]
      rw [Pool.step_call hj] at hplays hprefix ⊢
      by_cases hij : i = j
      · subst hij
        rw [hj]
        refine ⟨_, Made.mono ?_ hprefix, by simpa only [Function.update_self] using hplays⟩
        exact ⟨_, _, List.mem_append_right _ (List.mem_singleton_self _)⟩
      · simpa only [Function.update_of_ne hij] using hplays

/-- The entries of one thread. -/
def own (i : ThreadId) (trace : List (Entry Ans S)) : List (Entry Ans S) :=
  trace.filter (fun e => e.thread == i)

theorem own_append (i : ThreadId) (first rest : List (Entry Ans S)) :
    own i (first ++ rest) = own i first ++ own i rest := List.filter_append ..

theorem own_cons_self {i : ThreadId} {e : Entry Ans S} (h : e.thread = i)
    (rest : List (Entry Ans S)) : own i (e :: rest) = e :: own i rest :=
  List.filter_cons_of_pos (by simpa using h)

theorem own_cons_ne {i : ThreadId} {e : Entry Ans S} (h : e.thread ≠ i)
    (rest : List (Entry Ans S)) : own i (e :: rest) = own i rest :=
  List.filter_cons_of_neg (by simpa using h)

theorem own_eq_cons {i : ThreadId} {trace rest : List (Entry Ans S)} {e : Entry Ans S}
    (h : own i trace = e :: rest) :
    ∃ pre post, trace = pre ++ e :: post ∧ own i pre = [] ∧ own i post = rest := by
  obtain ⟨pre, post, htrace, hpre, -, hpost⟩ := List.filter_eq_cons_iff.mp h
  exact ⟨pre, post, htrace, List.filter_eq_nil_iff.mpr hpre, hpost⟩

theorem mem_own {i : ThreadId} {trace : List (Entry Ans S)} {e : Entry Ans S} :
    e ∈ own i trace ↔ e ∈ trace ∧ e.thread = i := by
  rw [own, List.mem_filter, beq_iff_eq]

/-- By exactly these calls, answered as recorded, thread `i` has come from `p` to `q`. -/
def Makes (i : ThreadId) : Prog Ans ε α → List (Entry Ans S) → Prog Ans ε α → Prop
  | p, [], q => p = q
  | p, e :: rest, q => e.thread = i ∧ ∃ next, p = .call e.call next ∧
      Makes i (next e.answer) rest q

theorem makes_done {i : ThreadId} {r : Except ε α} {q : Prog Ans ε α} {es : List (Entry Ans S)}
    (h : Makes i (.done r) es q) : es = [] ∧ q = .done r := by
  cases es with
  | nil => exact ⟨rfl, h.symm⟩
  | cons e rest =>
    obtain ⟨-, next, heq, -⟩ := h
    cases heq

theorem makes_call {i : ThreadId} {c : Call} {next : Ans c → Prog Ans ε α} {r : Except ε α}
    {es : List (Entry Ans S)} (h : Makes i (.call c next) es (.done r)) :
    ∃ answer before after rest, es = ⟨i, c, answer, before, after⟩ :: rest ∧
      Makes i (next answer) rest (.done r) := by
  cases es with
  | nil => cases h
  | cons e rest =>
    obtain ⟨thread, call, answer, before, after⟩ := e
    obtain ⟨rfl, next', heq, hrest⟩ := h
    cases heq
    exact ⟨answer, before, after, rest, rfl, hrest⟩

/-- A sequence has made the calls of its first part, and then those of the rest. -/
theorem Makes.bind {i : ThreadId} {p : Prog Ans ε α} {f : α → Prog Ans ε β} {r : Except ε β}
    {es : List (Entry Ans S)} (h : Makes i (p >>= f) es (.done r)) :
    ∃ first rest, es = first ++ rest ∧
      ((∃ a, Makes i p first (.done (.ok a)) ∧ Makes i (f a) rest (.done r)) ∨
        ∃ e, Makes i p first (.done (.error e)) ∧ rest = [] ∧ r = .error e) := by
  induction p generalizing es with
  | done r' =>
    cases r' with
    | ok a => exact ⟨[], es, rfl, Or.inl ⟨a, rfl, h⟩⟩
    | error e =>
      obtain ⟨rfl, hr⟩ := makes_done h
      cases hr
      exact ⟨[], [], rfl, Or.inr ⟨e, rfl, rfl, rfl⟩⟩
  | call c next ih =>
    obtain ⟨answer, before, after, rest, rfl, hrest⟩ := makes_call h
    obtain ⟨first, rest, rfl, hcases⟩ := ih answer hrest
    refine ⟨⟨i, c, answer, before, after⟩ :: first, rest, rfl, ?_⟩
    rcases hcases with ⟨a, hfirst, hthen⟩ | ⟨e, hfirst, hthen⟩
    · exact Or.inl ⟨a, ⟨rfl, next, rfl, hfirst⟩, hthen⟩
    · exact Or.inr ⟨e, ⟨rfl, next, rfl, hfirst⟩, hthen⟩

theorem Makes.attempt {i : ThreadId} {p : Prog Ans ε α} {r : Except ε (Except ε α)}
    {es : List (Entry Ans S)} (h : Makes i p.attempt es (.done r)) :
    ∃ result, r = .ok result ∧ Makes i p es (.done result) := by
  induction p generalizing es with
  | done r' =>
    obtain ⟨rfl, hr⟩ := makes_done h
    cases hr
    exact ⟨r', rfl, rfl⟩
  | call c next ih =>
    obtain ⟨answer, before, after, rest, rfl, hrest⟩ := makes_call h
    obtain ⟨result, rfl, hresult⟩ := ih answer hrest
    exact ⟨result, rfl, rfl, next, rfl, hresult⟩

theorem Makes.tryCatch {i : ThreadId} {p : Prog Ans ε α} {recover : ε → Prog Ans ε α}
    {r : Except ε α} {es : List (Entry Ans S)}
    (h : Makes i (p.tryCatch recover) es (.done r)) :
    ∃ first rest, es = first ++ rest ∧
      ((∃ a, Makes i p first (.done (.ok a)) ∧ rest = [] ∧ r = .ok a) ∨
        ∃ e, Makes i p first (.done (.error e)) ∧ Makes i (recover e) rest (.done r)) := by
  induction p generalizing es with
  | done r' =>
    cases r' with
    | ok a =>
      obtain ⟨rfl, hr⟩ := makes_done h
      cases hr
      exact ⟨[], [], rfl, Or.inl ⟨a, rfl, rfl, rfl⟩⟩
    | error e => exact ⟨[], es, rfl, Or.inr ⟨e, rfl, h⟩⟩
  | call c next ih =>
    obtain ⟨answer, before, after, rest, rfl, hrest⟩ := makes_call h
    obtain ⟨first, rest, rfl, hcases⟩ := ih answer hrest
    refine ⟨⟨i, c, answer, before, after⟩ :: first, rest, rfl, ?_⟩
    rcases hcases with ⟨a, hfirst, hthen⟩ | ⟨e, hfirst, hthen⟩
    · exact Or.inl ⟨a, ⟨rfl, next, rfl, hfirst⟩, hthen⟩
    · exact Or.inr ⟨e, ⟨rfl, next, rfl, hfirst⟩, hthen⟩

theorem Makes.calls {i : ThreadId} {G : Call → Prop} {p q : Prog Ans ε α}
    {es : List (Entry Ans S)} (h : Makes i p es q) (hp : p.Calls G) : ∀ e ∈ es, G e.call := by
  induction es generalizing p with
  | nil => intro e he; cases he
  | cons e rest ih =>
    obtain ⟨-, next, rfl, hrest⟩ := h
    intro e' he'
    rcases List.mem_cons.mp he' with rfl | he'
    · exact hp.1
    · exact ih hrest (hp.2 _) e' he'

theorem Makes.ends {i : ThreadId} {Q : Except ε α → Prop} {p : Prog Ans ε α} {r : Except ε α}
    {es : List (Entry Ans S)} (h : Makes i p es (.done r)) (hp : p.Ends Q) : Q r := by
  induction p generalizing es with
  | done r' =>
    obtain ⟨-, hr⟩ := makes_done h
    cases hr
    exact hp
  | call c next ih =>
    obtain ⟨answer, before, after, rest, rfl, hrest⟩ := makes_call h
    exact ih answer hrest (hp answer)

/-- Every call of a thread is made with what its earlier answers have taught it. -/
theorem Makes.tracks {κ : Type} {learn : κ → (c : Call) → Ans c → κ} {G : κ → Call → Prop}
    {Q : κ → α → Prop} {i : ThreadId} {k : κ} {p q : Prog Ans ε α} {pre post : List (Entry Ans S)}
    {e : Entry Ans S} (h : Makes i p (pre ++ e :: post) q) (hp : Prog.Tracks learn G Q k p) :
    G (pre.foldl (fun k e => learn k e.call e.answer) k) e.call := by
  induction pre generalizing p k with
  | nil =>
    obtain ⟨-, next, rfl, -⟩ := h
    exact hp.1
  | cons e' pre ih =>
    obtain ⟨-, next, rfl, hrest⟩ := h
    exact ih hrest (hp.2 _)

/-- What a thread knows when it has ended well. -/
theorem Makes.tracks_end {κ : Type} {learn : κ → (c : Call) → Ans c → κ} {G : κ → Call → Prop}
    {Q : κ → α → Prop} {i : ThreadId} {k : κ} {p : Prog Ans ε α} {a : α} {es : List (Entry Ans S)}
    (h : Makes i p es (.done (.ok a))) (hp : Prog.Tracks learn G Q k p) :
    Q (es.foldl (fun k e => learn k e.call e.answer) k) a := by
  induction es generalizing p k with
  | nil =>
    obtain rfl : p = .done (.ok a) := h
    exact hp
  | cons e rest ih =>
    obtain ⟨-, next, rfl, hrest⟩ := h
    exact ih hrest (hp.2 _)

/-- The calls so far decide how a program goes on. -/
theorem Makes.unique {i : ThreadId} {p : Prog Ans ε α} {r r' : Except ε α}
    {first first' rest rest' : List (Entry Ans S)} (h : Makes i p first (.done r))
    (h' : Makes i p first' (.done r')) (heq : first ++ rest = first' ++ rest') :
    first = first' ∧ r = r' := by
  induction p generalizing first first' with
  | done q =>
    obtain ⟨rfl, hr⟩ := makes_done h
    obtain ⟨rfl, hr'⟩ := makes_done h'
    cases hr
    cases hr'
    exact ⟨rfl, rfl⟩
  | call c next ih =>
    obtain ⟨answer, before, after, first, rfl, hfirst⟩ := makes_call h
    obtain ⟨answer', before', after', first', rfl, hfirst'⟩ := makes_call h'
    obtain ⟨hentry, htail⟩ := List.cons_eq_cons.mp heq
    cases hentry
    obtain ⟨rfl, hr⟩ := ih answer hfirst hfirst' htail
    exact ⟨rfl, hr⟩

/-- In a run every thread has made exactly its own entries. -/
theorem exec_makes (perform : Perform Ans S T) (schedule : Schedule T)
    (W : Pool Ans ε α (Recorded Ans S)) :
    ∃ new, (W.exec (record perform) schedule).state.trace = W.state.trace ++ new ∧
      ∀ i, Makes i (W.threads i) (own i new) ((W.exec (record perform) schedule).threads i) := by
  induction schedule generalizing W with
  | nil => exact ⟨[], by simp, fun i => rfl⟩
  | cons x rest ih =>
    obtain ⟨i, t⟩ := x
    rw [Pool.exec_cons]
    obtain ⟨new, htrace, hmakes⟩ := ih (W.step (record perform) i t)
    cases hi : W.threads i with
    | done r =>
      rw [Pool.step_done hi] at htrace hmakes ⊢
      exact ⟨new, htrace, hmakes⟩
    | call c next =>
      rw [Pool.step_call hi] at htrace hmakes ⊢
      rw [record_trace, List.append_assoc] at htrace
      refine ⟨_, htrace, fun j => ?_⟩
      have hj := hmakes j
      rw [List.singleton_append]
      by_cases hij : j = i
      · subst hij
        rw [hi, own_cons_self (i := j) rfl]
        exact ⟨rfl, next, rfl, by simpa only [Function.update_self, record_fst] using hj⟩
      · rw [own_cons_ne (i := j) (Ne.symm hij)]
        simpa only [Function.update_of_ne hij] using hj

/-- From `s` the recorded calls lead, one after the other, to `s'`. -/
def Linked (perform : Perform Ans S T) : S → List (Entry Ans S) → S → Prop
  | s, [], s' => s = s'
  | s, e :: rest, s' => e.before = s ∧
      (∃ t, perform e.thread t e.call e.before = (e.answer, e.after)) ∧
      Linked perform e.after rest s'

theorem Linked.snoc {perform : Perform Ans S T} {s s' : S} {trace : List (Entry Ans S)}
    (h : Linked perform s trace s') (i : ThreadId) (t : T) (c : Call) :
    Linked perform s (trace ++ [⟨i, c, (perform i t c s').1, s', (perform i t c s').2⟩])
      (perform i t c s').2 := by
  induction trace generalizing s with
  | nil =>
    cases h
    exact ⟨rfl, ⟨t, rfl⟩, rfl⟩
  | cons e rest ih =>
    obtain ⟨hbefore, hstep, hrest⟩ := h
    exact ⟨hbefore, hstep, ih hrest⟩

theorem Linked.split {perform : Perform Ans S T} {s s' : S} {first rest : List (Entry Ans S)}
    (h : Linked perform s (first ++ rest) s') :
    ∃ m, Linked perform s first m ∧ Linked perform m rest s' := by
  induction first generalizing s with
  | nil => exact ⟨s, rfl, h⟩
  | cons e first ih =>
    obtain ⟨hbefore, hstep, hrest⟩ := h
    obtain ⟨m, hfirst, hrest⟩ := ih hrest
    exact ⟨m, ⟨hbefore, hstep, hfirst⟩, hrest⟩

/-- A recorded call was made, and the rest of the trace leads on from its effect. -/
theorem Linked.cut {perform : Perform Ans S T} {s s' : S} {pre post : List (Entry Ans S)}
    {e : Entry Ans S} (h : Linked perform s (pre ++ e :: post) s') :
    (∃ t, perform e.thread t e.call e.before = (e.answer, e.after)) ∧
      Linked perform e.after post s' := by
  obtain ⟨m, -, hrest⟩ := h.split
  exact hrest.2

theorem Linked.before {perform : Perform Ans S T} {s s' : S} {pre post : List (Entry Ans S)}
    {e : Entry Ans S} (h : Linked perform s (pre ++ e :: post) s') :
    Linked perform s pre e.before := by
  obtain ⟨m, hpre, hrest⟩ := h.split
  rwa [hrest.1]

theorem Linked.mem {perform : Perform Ans S T} {s s' : S} {trace : List (Entry Ans S)}
    (h : Linked perform s trace s') {e : Entry Ans S} (he : e ∈ trace) :
    ∃ t, perform e.thread t e.call e.before = (e.answer, e.after) := by
  obtain ⟨pre, post, rfl⟩ := List.append_of_mem he
  exact h.cut.1

/-- What every call keeps holds around every entry. -/
theorem Linked.keeps {perform : Perform Ans S T} {I : S → Prop}
    (step : ∀ i t c s, I s → I (perform i t c s).2) {s s' : S} {trace : List (Entry Ans S)}
    (h : Linked perform s trace s') (hs : I s) : ∀ e ∈ trace, I e.before ∧ I e.after := by
  induction trace generalizing s with
  | nil => intro e he; cases he
  | cons e rest ih =>
    obtain ⟨rfl, ⟨t, hstep⟩, hrest⟩ := h
    have hafter : I e.after := by
      have hkept := step e.thread t e.call e.before hs
      rwa [hstep] at hkept
    intro e' he'
    rcases List.mem_cons.mp he' with rfl | he'
    · exact ⟨hs, hafter⟩
    · exact ih hrest hafter e' he'

/-- What each entry, at its place in the trace, carries over holds before every entry
and at the end. -/
theorem Linked.carries {perform : Perform Ans S T} {Q : S → Prop} {s s' : S}
    {trace : List (Entry Ans S)} (h : Linked perform s trace s')
    (step : ∀ pre e post, trace = pre ++ e :: post → Q e.before → Q e.after) (hs : Q s) :
    Q s' ∧ ∀ e ∈ trace, Q e.before := by
  induction trace generalizing s with
  | nil =>
    cases h
    exact ⟨hs, by intro e he; cases he⟩
  | cons e rest ih =>
    obtain ⟨rfl, -, hrest⟩ := h
    have hafter : Q e.after := step [] e rest rfl hs
    obtain ⟨hend, hbefore⟩ := ih hrest
      (fun pre e' post heq => step (e :: pre) e' post (congrArg (e :: ·) heq)) hafter
    refine ⟨hend, fun e' he' => ?_⟩
    rcases List.mem_cons.mp he' with rfl | he'
    · exact hs
    · exact hbefore e' he'

/-- The same where what is carried over also speaks of the entries so far. -/
theorem Linked.history {perform : Perform Ans S T} {Q : List (Entry Ans S) → S → Prop} {s s' : S}
    {trace : List (Entry Ans S)} (h : Linked perform s trace s')
    (step : ∀ pre e post, trace = pre ++ e :: post →
      (∃ t, perform e.thread t e.call e.before = (e.answer, e.after)) →
        Q pre e.before → Q (pre ++ [e]) e.after) (hs : Q [] s) : Q trace s' := by
  induction trace generalizing s Q with
  | nil =>
    cases h
    exact hs
  | cons e rest ih =>
    obtain ⟨rfl, hperform, hrest⟩ := h
    have hafter : Q [e] e.after := step [] e rest rfl hperform hs
    exact ih (Q := fun pre w => Q (e :: pre) w) hrest
      (fun pre e' post heq => step (e :: pre) e' post (congrArg (e :: ·) heq)) hafter

theorem Linked.append {perform : Perform Ans S T} {s m s' : S} {first rest : List (Entry Ans S)}
    (h : Linked perform s first m) (h' : Linked perform m rest s') :
    Linked perform s (first ++ rest) s' := by
  induction first generalizing s with
  | nil =>
    cases h
    exact h'
  | cons e first ih => exact ⟨h.1, h.2.1, ih h.2.2⟩

theorem Linked.last_unique {perform : Perform Ans S T} {s m m' : S} {trace : List (Entry Ans S)}
    (h : Linked perform s trace m) (h' : Linked perform s trace m') : m = m' := by
  induction trace generalizing s with
  | nil => exact h.symm.trans h'
  | cons e rest ih => exact ih h.2.2 h'.2.2

/-- The run was in the state `m` at some point of its trace. -/
def Instant (perform : Perform Ans S T) (s : S) (trace : List (Entry Ans S)) (s' m : S) : Prop :=
  ∃ pre post, trace = pre ++ post ∧ Linked perform s pre m ∧ Linked perform m post s'

/-- Of two states of one run, one leads to the other by a part of the trace. -/
theorem Instant.ordered {perform : Perform Ans S T} {s s' m m' : S} {trace : List (Entry Ans S)}
    (h : Instant perform s trace s' m) (h' : Instant perform s trace s' m') :
    ∃ part : List (Entry Ans S), (∀ e ∈ part, e ∈ trace) ∧
      (Linked perform m part m' ∨ Linked perform m' part m) := by
  obtain ⟨pre, post, rfl, hpre, hpost⟩ := h
  obtain ⟨pre', post', heq, hpre', hpost'⟩ := h'
  rcases List.append_eq_append_iff.mp heq with ⟨part, rfl, rfl⟩ | ⟨part, rfl, rfl⟩
  · obtain ⟨x, hpart, -⟩ := hpost.split
    have hlast : Linked perform s (pre ++ part) x := hpre.append hpart
    rw [hlast.last_unique hpre'] at hpart
    exact ⟨part, fun e he => List.mem_append_right _ (List.mem_append_left _ he), Or.inl hpart⟩
  · obtain ⟨x, hpart, -⟩ := hpost'.split
    have hlast : Linked perform s (pre' ++ part) x := hpre'.append hpart
    rw [hlast.last_unique hpre] at hpart
    exact ⟨part, fun e he => List.mem_append_left _ (List.mem_append_right _ he), Or.inr hpart⟩

theorem exec_linked (perform : Perform Ans S T) (schedule : Schedule T)
    (W : Pool Ans ε α (Recorded Ans S)) {s : S} (h : Linked perform s W.state.trace W.state.now) :
    Linked perform s (W.exec (record perform) schedule).state.trace
      (W.exec (record perform) schedule).state.now := by
  induction schedule generalizing W with
  | nil => exact h
  | cons x rest ih =>
    obtain ⟨i, t⟩ := x
    refine ih _ ?_
    cases hi : W.threads i with
    | done r => rw [Pool.step_done hi]; exact h
    | call c next =>
      rw [Pool.step_call hi]
      exact h.snoc i t c

/-- The trace of a run leads from its first state to its last one, and every thread has made
its own entries. -/
theorem started_makes (perform : Perform Ans S T) (programs : ThreadId → Prog Ans ε α) (s : S)
    (schedule : Schedule T) :
    let W := Pool.exec (record perform) schedule ⟨programs, ⟨s, []⟩⟩
    Linked perform s W.state.trace W.state.now ∧
      ∀ i, Makes i (programs i) (own i W.state.trace) (W.threads i) := by
  intro W
  obtain ⟨new, htrace, hmakes⟩ := exec_makes perform schedule ⟨programs, ⟨s, []⟩⟩
  have hW : W.state.trace = new := htrace
  constructor
  · exact exec_linked perform schedule ⟨programs, ⟨s, []⟩⟩ rfl
  · rw [hW]
    exact hmakes

/-- In a run of tracked programs every call is made with what its thread has learned. -/
theorem started_tracks {κ : Type} {learn : κ → (c : Call) → Ans c → κ} {G : κ → Call → Prop}
    {Q : κ → α → Prop} {k : κ} {perform : Perform Ans S T} {programs : ThreadId → Prog Ans ε α}
    {s : S} {schedule : Schedule T} {pre post : List (Entry Ans S)} {e : Entry Ans S}
    (hprogram : Prog.Tracks learn G Q k (programs e.thread))
    (h : (Pool.exec (record perform) schedule ⟨programs, ⟨s, []⟩⟩).state.trace = pre ++ e :: post) :
    G ((own e.thread pre).foldl (fun k e => learn k e.call e.answer) k) e.call := by
  have hmade := (started_makes perform programs s schedule).2 e.thread
  rw [h, own_append, own_cons_self rfl] at hmade
  exact hmade.tracks hprogram

end Interleaving
