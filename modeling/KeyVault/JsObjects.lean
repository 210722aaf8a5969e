import KeyVault.JsValue

/-!
# Objects up to the order of their properties

An object without duplicate names is any of its properties together with the others;
setting and deleting a property are removals and insertions of one entry.
-/

namespace JsValue

variable {props : Props} {name : String} {v : Json}

theorem keys_deleteProp (props : Props) (name : String) :
    keys (deleteProp props name) = (keys props).filter (fun k => !(k == name)) := by
  simp [keys, deleteProp, List.filter_map, Function.comp_def]

theorem nodup_deleteProp (h : (keys props).Nodup) (name : String) :
    (keys (deleteProp props name)).Nodup := by
  rw [keys_deleteProp]
  exact h.filter _

theorem mem_keys_deleteProp {k : String} :
    k ∈ keys (deleteProp props name) ↔ k ∈ keys props ∧ k ≠ name := by
  simp [keys_deleteProp]

theorem deleteProp_absent (h : name ∉ keys props) : deleteProp props name = props := by
  refine List.filter_eq_self.mpr fun e he => ?_
  have hne : e.1 ≠ name := by
    rintro rfl
    exact h (List.mem_map_of_mem he)
  simpa using hne

theorem deleteProp_comm (props : Props) (name other : String) :
    deleteProp (deleteProp props name) other = deleteProp (deleteProp props other) name := by
  simp only [deleteProp, List.filter_filter, Bool.and_comm]

theorem deleteProp_self (props : Props) (name : String) :
    deleteProp (deleteProp props name) name = deleteProp props name :=
  deleteProp_absent fun h => (mem_keys_deleteProp.mp h).2 rfl

theorem deleteProp_cons_ne {e : String × Json} (h : e.1 ≠ name) :
    deleteProp (e :: props) name = e :: deleteProp props name := by
  simp [deleteProp, h]

theorem deleteProp_cons_self (h : (keys ((name, v) :: props)).Nodup) :
    deleteProp ((name, v) :: props) name = props := by
  have habsent : name ∉ keys props := (List.nodup_cons.mp h).1
  rw [← deleteProp_absent habsent]
  simp [deleteProp]

theorem lookup_of_mem (h : (keys props).Nodup) (hmem : (name, v) ∈ props) :
    props.lookup name = some v := by
  induction props with
  | nil => cases hmem
  | cons e rest ih =>
    obtain ⟨habsent, hrest⟩ := List.nodup_cons.mp h
    rcases List.mem_cons.mp hmem with rfl | hmem
    · simp
    · have hne : name ≠ e.1 := by
        rintro rfl
        exact habsent (List.mem_map.mpr ⟨_, hmem, rfl⟩)
      have hb : (name == e.1) = false := by simpa using hne
      rw [List.lookup_cons, hb]
      exact ih hrest hmem

theorem lookup_mem {α : Type} {l : List (String × α)} {k : String} {v : α}
    (h : l.lookup k = some v) : (k, v) ∈ l := by
  obtain ⟨pre, post, rfl, -⟩ := List.lookup_eq_some_iff.mp h
  exact List.mem_append_right _ List.mem_cons_self

/-- An object is any of its properties with the others. -/
theorem perm_entry (h : (keys props).Nodup) (hlookup : props.lookup name = some v) :
    props.Perm ((name, v) :: deleteProp props name) := by
  induction props with
  | nil => cases hlookup
  | cons e rest ih =>
    obtain ⟨m, u⟩ := e
    by_cases hm : m = name
    · subst hm
      have hv : u = v := by simpa using hlookup
      subst hv
      rw [deleteProp_cons_self h]
    · have hb : (name == m) = false := by simpa using Ne.symm hm
      rw [List.lookup_cons, hb] at hlookup
      rw [deleteProp_cons_ne hm]
      exact ((ih (List.nodup_cons.mp h).2 hlookup).cons _).trans (List.Perm.swap _ _ _)

theorem setProp_new (v : Json) (h : name ∉ keys props) :
    setProp props name v = props ++ [(name, v)] := by
  have hnone : props.lookup name = none := by
    rw [List.lookup_eq_none_iff]
    intro e he
    have hne : name ≠ e.1 := by
      rintro rfl
      exact h (List.mem_map_of_mem he)
    simpa using hne
  simp [setProp, hasProp, hnone]

theorem mem_keys_setProp {k : String} (h : k ∈ keys (setProp props name v)) :
    k = name ∨ k ∈ keys props := by
  obtain ⟨e, he, rfl⟩ := List.mem_map.mp h
  unfold setProp at he
  split at he
  · obtain ⟨e', he', rfl⟩ := List.mem_map.mp he
    by_cases hname : e'.1 = name
    · simp [hname]
    · have hmem : e'.1 ∈ keys props := List.mem_map_of_mem he'
      simpa [hname] using hmem
  · rcases List.mem_append.mp he with he | he
    · exact Or.inr (List.mem_map_of_mem he)
    · rw [List.mem_singleton.mp he]
      exact Or.inl rfl

theorem setProp_cons_ne {e : String × Json} (h : e.1 ≠ name) :
    setProp (e :: props) name v = e :: setProp props name v := by
  obtain ⟨m, u⟩ := e
  have hb : (name == m) = false := by simpa using Ne.symm h
  have hb' : (m == name) = false := by simpa using h
  have hhas : hasProp ((m, u) :: props) name = hasProp props name := by
    simp only [hasProp, List.lookup_cons, hb]
  simp only [setProp, hhas, List.map_cons, hb', Bool.false_eq_true, if_false]
  by_cases hold : hasProp props name = true
  · simp only [hold, if_true]
  · simp [hold]

theorem setProp_cons_self {u : Json} (h : (keys ((name, u) :: props)).Nodup) :
    setProp ((name, u) :: props) name v = (name, v) :: props := by
  have habsent : name ∉ keys props := (List.nodup_cons.mp h).1
  have hmap : props.map (fun e => if e.1 == name then (name, v) else e) = props := by
    refine (List.map_congr_left fun e he => ?_).trans (List.map_id props)
    have hne : e.1 ≠ name := by
      rintro rfl
      exact habsent (List.mem_map_of_mem he)
    simp [hne]
  have hhas : hasProp ((name, u) :: props) name = true := by simp [hasProp]
  simp only [setProp, hhas, if_true, List.map_cons, beq_self_eq_true, hmap]

theorem setProp_perm (h : (keys props).Nodup) :
    (setProp props name v).Perm ((name, v) :: deleteProp props name) := by
  induction props with
  | nil => exact List.Perm.refl _
  | cons e rest ih =>
    obtain ⟨m, u⟩ := e
    by_cases hm : m = name
    · subst hm
      rw [setProp_cons_self h, deleteProp_cons_self h]
    · rw [setProp_cons_ne hm, deleteProp_cons_ne hm]
      exact ((ih (List.nodup_cons.mp h).2).cons _).trans (List.Perm.swap _ _ _)

theorem nodup_setProp (h : (keys props).Nodup) : (keys (setProp props name v)).Nodup := by
  have hperm : (setProp props name v).Perm ((name, v) :: deleteProp props name) := setProp_perm h
  have hkeys := hperm.map Prod.fst
  rw [keys, hkeys.nodup_iff]
  refine List.nodup_cons.mpr ⟨fun hmem => ?_, nodup_deleteProp h name⟩
  exact (mem_keys_deleteProp.mp hmem).2 rfl

theorem deleteProp_setProp_self (props : Props) (name : String) (v : Json) :
    deleteProp (setProp props name v) name = deleteProp props name := by
  have hmap : ∀ l : Props, deleteProp (l.map fun p => if p.1 == name then (name, v) else p) name =
      deleteProp l name := by
    intro l
    induction l with
    | nil => rfl
    | cons e rest ih =>
      by_cases he : e.1 = name
      · simpa [deleteProp, he] using ih
      · simpa [deleteProp, he] using ih
  unfold setProp
  split
  · exact hmap props
  · simp [deleteProp]

theorem deleteProp_setProp_ne {other : String} (h : name ≠ other) :
    deleteProp (setProp props name v) other = setProp (deleteProp props other) name v := by
  have hhas : hasProp (deleteProp props other) name = hasProp props name := by
    rw [hasProp, hasProp, lookup_deleteProp_ne h]
  have hmap : ∀ l : Props, deleteProp (l.map fun p => if p.1 == name then (name, v) else p) other =
      (deleteProp l other).map fun p => if p.1 == name then (name, v) else p := by
    intro l
    induction l with
    | nil => rfl
    | cons e rest ih =>
      by_cases he : e.1 = name
      · simpa [deleteProp, he, h] using ih
      · by_cases heo : e.1 = other
        · simpa [deleteProp, heo, Ne.symm h] using ih
        · simpa [deleteProp, he, heo] using ih
  unfold setProp
  rw [hhas]
  split
  · exact hmap props
  · simp [deleteProp, h]

theorem mem_keys_literal {members : List (String × Option Json)} {k : String}
    (h : k ∈ keys (literal members)) : k ∈ members.map Prod.fst := by
  obtain ⟨e, he, rfl⟩ := List.mem_map.mp h
  obtain ⟨m, hm, heq⟩ := List.mem_filterMap.mp he
  obtain ⟨v, -, rfl⟩ := Option.map_eq_some_iff.mp heq
  exact List.mem_map_of_mem hm

/-- A copy of an object lacks `__proto__` and nothing else. -/
theorem objectAssign_nil (h : (keys props).Nodup) :
    objectAssign [] props = deleteProp props "__proto__" := by
  have hfold : ∀ (rest done : Props), (keys (done ++ rest)).Nodup →
      objectAssign done rest = done ++ deleteProp rest "__proto__" := by
    intro rest
    induction rest with
    | nil => intro done _; simp [objectAssign, deleteProp]
    | cons e rest ih =>
      intro done hdone
      obtain ⟨m, u⟩ := e
      by_cases hm : m = "__proto__"
      · subst hm
        have hrest : (keys (done ++ rest)).Nodup :=
          hdone.sublist (((List.sublist_cons_self _ _).append_left _).map _)
        have hstep : objectAssign done (("__proto__", u) :: rest) = objectAssign done rest := rfl
        rw [hstep, ih _ hrest]
        simp [deleteProp]
      · have hnew : m ∉ keys done := by
          intro hmem
          simp only [keys, List.map_append] at hdone
          exact (List.nodup_append.mp hdone).2.2 m hmem m List.mem_cons_self rfl
        have hb : (m == "__proto__") = false := by simpa using hm
        have hstep : objectAssign done ((m, u) :: rest) = objectAssign (done ++ [(m, u)]) rest := by
          simp only [objectAssign, List.foldl_cons, hb, Bool.false_eq_true, if_false,
            setProp_new u hnew]
        rw [hstep, ih _ (by simpa using hdone), deleteProp_cons_ne hm]
        simp
  simpa using hfold props [] (by simpa using h)

end JsValue
