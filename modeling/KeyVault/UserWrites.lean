import KeyVault.CallEffects
import KeyVault.LastWrites

/-!
# Writes of user rows

What an answered call has done to the row of a user, and where the columns of a row
come from after any sequence of calls.
-/

namespace UserWrites

open JsValue Programs Interleaving Vault CallEffects LastWrites Tables

/-- `removed` stands for a row that has been deleted. -/
inductive UserWrite where
  | added (data : Json)
  | token (hash : Option String)
  | data (data : Json)
  | removed

namespace UserWrite

/-- The `auth_token` that the write leaves, if it writes it. -/
def token? : UserWrite → Option (Option String)
  | added _ => some none
  | token hash => some hash
  | data _ => none
  | removed => some none

def data? : UserWrite → Option Json
  | added d => some d
  | token _ => none
  | data d => some d
  | removed => none

end UserWrite

def userWritten : (c : Call) → Ans c → Option (String × UserWrite)
  | .insertUser data, .ok userId => some (userId, .added data)
  | .setUserToken userId hash, .ok true => some (userId, .token hash)
  | .setUserData userId data, .ok true => some (userId, .data data)
  | .removeUser userId, .ok true => some (userId, .removed)
  | _, _ => none

def userWrite (e : Entry Ans World) : Option (String × UserWrite) := userWritten e.call e.answer

def tokenWrite (e : Entry Ans World) : Option (String × Option String) :=
  (userWrite e).bind fun p => p.2.token?.map (Prod.mk p.1)

def dataWrite (e : Entry Ans World) : Option (String × Json) :=
  (userWrite e).bind fun p => p.2.data?.map (Prod.mk p.1)

variable {L : Libraries} {i : ThreadId} {t : Turn} {c : Call} {w w' : World}
  {trace : List (Entry Ans World)} {row : VaultUser}

theorem userWritten_failure {message : String} {answer : Ans c}
    (h : failure message c = some answer) :
    userWritten c answer = none := by
  cases c <;> first | rfl | (cases h; rfl)

theorem userWritten_aside {answer : Ans c} (h : writesUsers c = false) :
    userWritten c answer = none := by
  cases c <;> first | rfl | cases h

/-- How the row of a user stands after a call: new, rewritten in one column, or as it was
while the call has written no row with this id. -/
def Stands (w : World) (written : Option (String × UserWrite)) (row : VaultUser) : Prop :=
  (∃ data, written = some (row.userId, .added data) ∧ row.authToken = none ∧ row.data = data) ∨
  ∃ old ∈ w.users.rows, old.userId = row.userId ∧
    ((∃ hash, written = some (row.userId, .token hash) ∧ row.authToken = hash ∧
      row.data = old.data) ∨
      (∃ data, written = some (row.userId, .data data) ∧ row.authToken = old.authToken ∧
        row.data = data) ∨
      ((∀ write, written ≠ some (row.userId, write)) ∧ row = old))

theorem stands_same (hrow : row ∈ w.users.rows) {written : Option (String × UserWrite)}
    (h : ∀ write, written ≠ some (row.userId, write)) : Stands w written row :=
  Or.inr ⟨row, hrow, rfl, Or.inr (Or.inr ⟨h, rfl⟩)⟩

theorem find_isSome (h : row ∈ w.users.rows) : (w.users.find row.userId).isSome = true := by
  rw [show w.users.find row.userId = some row from Table.find_of_mem h]
  rfl

/-- The user whose row an UPDATE or DELETE names. -/
def target : Call → Option String
  | .setUserToken userId _ => some userId
  | .setUserData userId _ => some userId
  | .removeUser userId => some userId
  | _ => none

theorem userWritten_target {answer : Ans c} {k userId : String} {write : UserWrite}
    (h : userWritten c answer = some (k, write)) (htarget : target c = some userId) :
    k = userId := by
  cases c with
  | setUserToken u hash =>
    cases htarget
    rcases answer with message | _ | _ <;> cases h
    rfl
  | setUserData u data =>
    cases htarget
    rcases answer with message | _ | _ <;> cases h
    rfl
  | removeUser u =>
    cases htarget
    rcases answer with message | _ | _ <;> cases h
    rfl
  | _ => cases htarget

theorem perform_user (h : row ∈ (perform L i t c w).2.users.rows) :
    Stands w (userWritten c (perform L i t c w).1) row := by
  rcases perform_cases L i t c w with ⟨message, answer, -, hfailure, hp⟩ | hp
  · rw [hp] at h ⊢
    exact stands_same h (fun write hwrite => by
      rw [userWritten_failure hfailure] at hwrite
      cases hwrite)
  rw [hp] at h ⊢
  by_cases hwrites : writesUsers c = false
  · rw [effect_users hwrites] at h
    exact stands_same h (fun write hwrite => by
      rw [userWritten_aside hwrites] at hwrite
      cases hwrite)
  cases c with
  | insertUser data =>
    simp only [effect] at h ⊢
    split at h
    · rename_i htaken
      rw [if_pos htaken]
      exact stands_same h fun write hwrite => by cases hwrite
    · rename_i hnew
      rw [if_neg hnew]
      rcases Table.mem_insert h with rfl | h
      · exact Or.inl ⟨data, rfl, rfl, rfl⟩
      · refine stands_same h fun write hwrite => hnew ?_
        rw [(Prod.mk.inj (Option.some.inj hwrite)).1]
        exact find_isSome (w := w) h
  | setUserToken userId hash =>
    simp only [effect] at h ⊢
    split at h
    · rename_i htaken
      rw [if_pos htaken]
      exact stands_same h fun write hwrite => by cases hwrite
    · rename_i hfree
      rw [if_neg hfree]
      dsimp only at h
      rcases Table.mem_update h with ⟨old, hold, rfl, rfl⟩ | ⟨h, hne⟩
      · refine Or.inr ⟨old, hold, rfl, Or.inl ⟨hash, ?_, rfl, rfl⟩⟩
        dsimp only
        have hstored : ((w.tick t.elapsed).users.find old.userId).isSome = true :=
          find_isSome (w := w) hold
        rw [hstored]
        rfl
      · exact stands_same h fun write hwrite => hne (userWritten_target hwrite rfl)
  | setUserData userId data =>
    simp only [effect] at h ⊢
    rcases Table.mem_update h with ⟨old, hold, rfl, rfl⟩ | ⟨h, hne⟩
    · refine Or.inr ⟨old, hold, rfl, Or.inr (Or.inl ⟨data, ?_, rfl, rfl⟩)⟩
      dsimp only
      have hstored : ((w.tick t.elapsed).users.find old.userId).isSome = true :=
        find_isSome (w := w) hold
      rw [hstored]
      rfl
    · exact stands_same h fun write hwrite => hne (userWritten_target hwrite rfl)
  | removeUser userId =>
    simp only [effect] at h ⊢
    obtain ⟨h, hne⟩ := Table.mem_erase.mp h
    exact stands_same h fun write hwrite => hne (userWritten_target hwrite rfl)
  | _ => exact absurd rfl hwrites

variable {V : Type}

/-- After every call, a column is as the call has written it, or as it was while the call
has not written it. -/
def Tells (L : Libraries) (read : VaultUser → V)
    (write : Entry Ans World → Option (String × V)) : Prop :=
  ∀ (e : Entry Ans World) (t : Turn), perform L e.thread t e.call e.before = (e.answer, e.after) →
    ∀ row ∈ e.after.users.rows, write e = some (row.userId, read row) ∨
      ((∀ other, write e ≠ some (row.userId, other)) ∧
        ∃ old ∈ e.before.users.rows, old.userId = row.userId ∧ read old = read row)

theorem entry_user {e : Entry Ans World}
    (he : perform L e.thread t e.call e.before = (e.answer, e.after))
    (hrow : row ∈ e.after.users.rows) : Stands e.before (userWrite e) row := by
  rw [show e.after = (perform L e.thread t e.call e.before).2 by rw [he]] at hrow
  have hstands := perform_user hrow
  rwa [he] at hstands

theorem token_tells (L : Libraries) : Tells L VaultUser.authToken tokenWrite := by
  intro e t he row hrow
  unfold tokenWrite
  rcases entry_user he hrow with ⟨data, hwrite, htoken, -⟩ | ⟨old, hold, hid, hcases⟩
  · rw [hwrite, htoken]
    exact Or.inl rfl
  · rcases hcases with ⟨hash, hwrite, htoken, -⟩ | ⟨data, hwrite, htoken, -⟩ | ⟨hspared, rfl⟩
    · rw [hwrite, htoken]
      exact Or.inl rfl
    · rw [hwrite]
      exact Or.inr ⟨fun other h => (by cases h), old, hold, hid, htoken.symm⟩
    · refine Or.inr ⟨fun other h => ?_, row, hold, rfl, rfl⟩
      obtain ⟨p, hp, hq⟩ := Option.bind_eq_some_iff.mp h
      obtain ⟨_, -, heq⟩ := Option.map_eq_some_iff.mp hq
      exact hspared p.2 (by rw [hp, ← (Prod.mk.inj heq).1])

theorem data_tells (L : Libraries) : Tells L VaultUser.data dataWrite := by
  intro e t he row hrow
  unfold dataWrite
  rcases entry_user he hrow with ⟨data, hwrite, -, hdata⟩ | ⟨old, hold, hid, hcases⟩
  · rw [hwrite, hdata]
    exact Or.inl rfl
  · rcases hcases with ⟨hash, hwrite, -, hdata⟩ | ⟨data, hwrite, -, hdata⟩ | ⟨hspared, rfl⟩
    · rw [hwrite]
      exact Or.inr ⟨fun other h => (by cases h), old, hold, hid, hdata.symm⟩
    · rw [hwrite, hdata]
      exact Or.inl rfl
    · refine Or.inr ⟨fun other h => ?_, row, hold, rfl, rfl⟩
      obtain ⟨p, hp, hq⟩ := Option.bind_eq_some_iff.mp h
      obtain ⟨_, -, heq⟩ := Option.map_eq_some_iff.mp hq
      exact hspared p.2 (by rw [hp, ← (Prod.mk.inj heq).1])

/-- The column of every row is the last one written for it, or still the first one. -/
def Accounted (read : VaultUser → V) (write : Entry Ans World → Option (String × V)) (w₀ : World)
    (trace : List (Entry Ans World)) (w : World) : Prop :=
  ∀ row ∈ w.users.rows, LastWrite write trace row.userId (read row) ∨
    (Untouched write trace row.userId ∧
      ∃ old ∈ w₀.users.rows, old.userId = row.userId ∧ read old = read row)

variable {read : VaultUser → V} {write : Entry Ans World → Option (String × V)}

theorem accounted_start (w : World) : Accounted read write w [] w :=
  fun row hrow => Or.inr ⟨fun _ hx => (by cases hx), row, hrow, rfl, rfl⟩

theorem Accounted.step (htells : Tells L read write) {w₀ : World} {pre : List (Entry Ans World)}
    {e : Entry Ans World} (h : Accounted read write w₀ pre e.before)
    (he : perform L e.thread t e.call e.before = (e.answer, e.after)) :
    Accounted read write w₀ (pre ++ [e]) e.after := by
  intro row hrow
  rcases htells e t he row hrow with hwritten | ⟨hspared, old, hold, hid, hsame⟩
  · exact Or.inl (LastWrite.self pre hwritten)
  · rw [← hid] at hspared
    rw [← hid, ← hsame]
    rcases h old hold with hlast | ⟨huntouched, hfirst⟩
    · exact Or.inl (hlast.snoc hspared)
    · exact Or.inr ⟨huntouched.snoc hspared, hfirst⟩

theorem linked_accounted (htells : Tells L read write) (h : Linked (perform L) w trace w') :
    Accounted read write w trace w' := by
  refine h.history (Q := Accounted read write w) (fun pre e post _ hperform hpre => ?_)
    (accounted_start w)
  obtain ⟨t, ht⟩ := hperform
  exact hpre.step htells ht

/-- A condition on a column that every later write meets holds from here on. -/
theorem linked_column (htells : Tells L read write) {P : String → V → Prop}
    (h : Linked (perform L) w trace w') (hw : ∀ row ∈ w.users.rows, P row.userId (read row))
    (hwrites : ∀ x ∈ trace, ∀ userId value, write x = some (userId, value) → P userId value) :
    ∀ x ∈ trace, ∀ row ∈ x.before.users.rows, P row.userId (read row) := by
  refine (h.carries (Q := fun s => ∀ row ∈ s.users.rows, P row.userId (read row))
    (fun pre x post htrace hx row hrow => ?_) hw).2
  obtain ⟨t, ht⟩ := h.mem (e := x) (by rw [htrace]; simp)
  rcases htells x t ht row hrow with hwritten | ⟨-, old, hold, hid, hsame⟩
  · exact hwrites x (by rw [htrace]; simp) _ _ hwritten
  · rw [← hid, ← hsame]
    exact hx old hold

end UserWrites
