import KeyVault.AclNormal
import KeyVault.JsObjects

/-!
# What validated ACLs mean

A user and a class are looked up in the normal form of an ACL exactly as they stand in
the ACL that was submitted, and the normal form is its own normal form.
-/

namespace AclMeaning

open JsValue Acl AclNormal

/-- The value is a list that names the class. -/
def Lists (ops : Json) (c : OpClass) : Prop := ∃ items, ops = .arr items ∧ .str c.name ∈ items

/-- The ids are the same but for the case of their letters. -/
def SameUser (a b : String) : Prop := toLowerCase a = toLowerCase b

/-- An object of UUIDs, no two of them the same user, with lists of classes, in which
somebody is an owner. -/
structure WellFormed (props : Props) : Prop where
  users : ∀ e ∈ props, isUuid e.1 = true
  distinct : props.Pairwise (fun e e' => ¬ SameUser e.1 e'.1)
  classes : ∀ e ∈ props, ∃ classes : List OpClass, (∀ c ∈ classes, c ∈ opClasses) ∧
    e.2 = .arr (classes.map (fun c => .str c.name))
  owned : ∃ e ∈ props, Lists e.2 .owner

variable {props : Props} {items : List Json}

theorem known_iff {op : Json} : known op = true ↔ ∃ c ∈ opClasses, op = .str c.name := by
  constructor
  · intro h
    obtain ⟨c, hc⟩ := Option.isSome_iff_exists.mp h
    obtain ⟨hmem, hop⟩ := findClass_mem hc
    exact ⟨c, hmem, hop⟩
  · rintro ⟨c, hc, rfl⟩
    have hfound : ∃ x ∈ opClasses, (x.name == c.name) = true := ⟨c, hc, beq_self_eq_true _⟩
    simpa [known, findClass, List.find?_isSome] using hfound

/-- A list of known names is the list of the names of its classes. -/
theorem known_list : (∀ op ∈ items, known op = true) ↔
    ∃ classes : List OpClass, (∀ c ∈ classes, c ∈ opClasses) ∧
      items = classes.map (fun c => .str c.name) := by
  constructor
  · intro h
    induction items with
    | nil => exact ⟨[], by simp, rfl⟩
    | cons op rest ih =>
      obtain ⟨c, hc, rfl⟩ := known_iff.mp (h op List.mem_cons_self)
      obtain ⟨classes, hclasses, rfl⟩ := ih fun op hop => h op (List.mem_cons_of_mem _ hop)
      refine ⟨c :: classes, ?_, rfl⟩
      intro c' hc'
      rcases List.mem_cons.mp hc' with rfl | hc'
      · exact hc
      · exact hclasses c' hc'
  · rintro ⟨classes, hclasses, rfl⟩ op hop
    obtain ⟨c, hc, rfl⟩ := List.mem_map.mp hop
    exact known_iff.mpr ⟨c, hclasses c hc, rfl⟩

/-- A class is found under its own name only. -/
theorem findClass_name {c : OpClass} {op : Json} (hc : c ∈ opClasses) :
    findClass opClasses op = some c ↔ op = .str c.name := by
  constructor
  · exact fun h => (findClass_mem h).2
  · rintro rfl
    obtain ⟨c', hc'⟩ := Option.isSome_iff_exists.mp (known_iff.mpr ⟨c, hc, rfl⟩)
    obtain ⟨-, hname⟩ := findClass_mem hc'
    have hsame : c = c' := OpClass.name_injective (Json.str.inj hname)
    rwa [← hsame] at hc'

theorem collect_names {c : OpClass} (hc : c ∈ opClasses) :
    c ∈ collect items [] ↔ .str c.name ∈ items := by
  rw [mem_collect]
  constructor
  · rintro (hnil | ⟨op, hop, hfound⟩)
    · cases hnil
    · rwa [(findClass_name hc).mp hfound] at hop
  · intro hop
    exact Or.inr ⟨_, hop, (findClass_name hc).mpr rfl⟩

theorem collect_subset {c : OpClass} (h : c ∈ collect items []) : c ∈ opClasses := by
  rcases mem_collect.mp h with hnil | ⟨op, -, hfound⟩
  · cases hnil
  · exact (findClass_mem hfound).1

theorem validEntry_iff {e : String × Json} : ValidEntry e ↔ isUuid e.1 = true ∧
    ∃ classes : List OpClass, (∀ c ∈ classes, c ∈ opClasses) ∧
      e.2 = .arr (classes.map (fun c => .str c.name)) := by
  constructor
  · rintro ⟨huuid, items, hitems, hknown⟩
    obtain ⟨classes, hclasses, rfl⟩ := known_list.mp hknown
    exact ⟨huuid, classes, hclasses, hitems⟩
  · rintro ⟨huuid, classes, hclasses, hitems⟩
    exact ⟨huuid, _, hitems, known_list.mpr ⟨classes, hclasses, rfl⟩⟩

theorem caseDistinct_iff :
    CaseDistinct props ↔ props.Pairwise (fun e e' => ¬ SameUser e.1 e'.1) := List.pairwise_map

theorem normalEntry_owner {e : String × Json} :
    .owner ∈ (normalEntry e).2 ↔ Lists e.2 .owner := by
  obtain ⟨name, ops⟩ := e
  have howner : OpClass.owner ∈ opClasses := by decide
  constructor
  · intro h
    cases ops with
    | arr items => exact ⟨items, rfl, (collect_names howner).mp h⟩
    | _ => cases h
  · rintro ⟨items, hitems, hmem⟩
    dsimp only at hitems
    subst hitems
    exact (collect_names howner).mpr hmem

theorem accepted_iff : (∃ acl, validateAcl (.obj props) = .ok acl) ↔ WellFormed props := by
  constructor
  · rintro ⟨acl, hacl⟩
    obtain ⟨hall, hdistinct, rfl, n, hn, howner⟩ := validateAcl_ok_iff.mp hacl
    obtain ⟨e, he, rfl⟩ := List.mem_map.mp hn
    constructor
    · exact fun e he => (hall e he).1
    · exact caseDistinct_iff.mp hdistinct
    · exact fun e he => (validEntry_iff.mp (hall e he)).2
    · exact ⟨e, he, normalEntry_owner.mp howner⟩
  · intro h
    obtain ⟨e, he, howner⟩ := h.owned
    refine ⟨props.map normalEntry, validateAcl_ok_iff.mpr ⟨?_, ?_, rfl, ?_⟩⟩
    · exact fun e he => validEntry_iff.mpr ⟨h.users e he, h.classes e he⟩
    · exact caseDistinct_iff.mpr h.distinct
    · exact ⟨normalEntry e, List.mem_map_of_mem he, normalEntry_owner.mpr howner⟩

theorem toJson_get (acl : AclMap) (name : String) : (toJson acl).get? name =
    (acl.lookup name).map (fun classes => .arr (classes.map (fun c => .str c.name))) := by
  induction acl with
  | nil => rfl
  | cons e rest ih =>
    obtain ⟨user, classes⟩ := e
    simp only [toJson, get?_obj, List.map_cons, List.lookup_cons] at ih ⊢
    by_cases hname : name = user
    · simp [hname]
    · have hne : (name == user) = false := by simpa using hname
      simp only [hne]
      exact ih

/-- A user has in the normal form what the one property of the same user collects. -/
theorem lookup_normal (hdistinct : CaseDistinct props) {user : String} {classes : List OpClass} :
    (props.map normalEntry).lookup (toLowerCase user) = some classes ↔
      ∃ e ∈ props, SameUser e.1 user ∧ (normalEntry e).2 = classes := by
  constructor
  · intro h
    obtain ⟨e, he, heq⟩ := List.mem_map.mp (lookup_mem h)
    obtain ⟨hname, hclasses⟩ := Prod.mk.inj heq
    exact ⟨e, he, hname, hclasses⟩
  · rintro ⟨e, he, hsame, rfl⟩
    induction props with
    | nil => cases he
    | cons first rest ih =>
      obtain ⟨hnot, hrest⟩ := List.nodup_cons.mp hdistinct
      rw [List.map_cons, List.lookup_cons]
      rcases List.mem_cons.mp he with rfl | he
      · have hname : (toLowerCase user == (normalEntry e).1) = true := beq_iff_eq.mpr hsame.symm
        rw [hname]
      · have hname : (toLowerCase user == (normalEntry first).1) = false := by
          rw [beq_eq_false_iff_ne]
          intro heq
          refine hnot (List.mem_map.mpr ⟨e, he, ?_⟩)
          exact hsame.trans heq
        rw [hname]
        exact ih hrest he

theorem sameUser_uuid {a b : String} (h : SameUser a b) : isUuid a = isUuid b := by
  rw [← isUuid_lower a, ← isUuid_lower b, h]

theorem toJson_lists (classes : List OpClass) (c : OpClass) :
    (classes.map (fun c => Json.str c.name)).contains (.str c.name) = true ↔ c ∈ classes := by
  rw [List.contains_eq_mem, decide_eq_true_eq, List.mem_map]
  constructor
  · rintro ⟨c', hc', hname⟩
    rwa [← OpClass.name_injective (Json.str.inj hname)]
  · intro hc
    exact ⟨c, hc, rfl⟩

section

variable {acl : AclMap}

theorem allows_iff (h : validateAcl (.obj props) = .ok acl) (user : String) (c : OpClass) :
    aclAllows (toJson acl) user c = true ↔
      c ∈ opClasses ∧ ∃ e ∈ props, SameUser e.1 user ∧ (Lists e.2 c ∨ Lists e.2 .owner) := by
  obtain ⟨hall, hdistinct, rfl, -⟩ := validateAcl_ok_iff.mp h
  have howner : OpClass.owner ∈ opClasses := by decide
  have hlists : ∀ e ∈ props, ∀ c' ∈ opClasses, (c' ∈ (normalEntry e).2 ↔ Lists e.2 c') := by
    intro e he c' hc'
    obtain ⟨-, items, hitems, -⟩ := hall e he
    simp only [normalEntry, hitems, Lists, Json.arr.injEq, exists_eq_left']
    exact collect_names hc'
  have hcontains : opClasses.contains c = true ↔ c ∈ opClasses := List.contains_iff_mem
  simp only [aclAllows, toJson_get, Bool.and_eq_true, hcontains]
  constructor
  · rintro ⟨⟨⟨-, -⟩, hc⟩, hallows⟩
    refine ⟨hc, ?_⟩
    cases hlookup : (props.map normalEntry).lookup (toLowerCase user) with
    | none =>
      rw [hlookup] at hallows
      cases hallows
    | some classes =>
      rw [hlookup] at hallows
      obtain ⟨e, he, hsame, rfl⟩ := (lookup_normal hdistinct).mp hlookup
      refine ⟨e, he, hsame, ?_⟩
      rw [← hlists e he c hc, ← hlists e he .owner howner]
      rcases Bool.or_eq_true_iff.mp hallows with hmem | hmem
      · exact Or.inl ((toJson_lists _ _).mp hmem)
      · exact Or.inr ((toJson_lists _ .owner).mp hmem)
  · rintro ⟨hc, e, he, hsame, hgrant⟩
    have huuid : isUuid user = true := by
      rw [← sameUser_uuid hsame]
      exact (hall e he).1
    refine ⟨⟨⟨rfl, huuid⟩, hc⟩, ?_⟩
    rw [(lookup_normal hdistinct).mpr ⟨e, he, hsame, rfl⟩]
    rw [← hlists e he c hc, ← hlists e he .owner howner] at hgrant
    refine Bool.or_eq_true_iff.mpr ?_
    rcases hgrant with hmem | hmem
    · exact Or.inl ((toJson_lists _ _).mpr hmem)
    · exact Or.inr ((toJson_lists _ .owner).mpr hmem)

theorem any_iff (h : validateAcl (.obj props) = .ok acl) (user : String) :
    aclAny (toJson acl) user = true ↔
      ∃ e ∈ props, SameUser e.1 user ∧ ∃ op items, e.2 = .arr (op :: items) := by
  obtain ⟨hall, hdistinct, rfl, -⟩ := validateAcl_ok_iff.mp h
  -- a list is empty exactly if it names no class
  have hempty : ∀ e ∈ props,
      (0 < (normalEntry e).2.length ↔ ∃ op items, e.2 = .arr (op :: items)) := by
    intro e he
    obtain ⟨-, items, hitems, hknown⟩ := hall e he
    simp only [normalEntry, hitems, Json.arr.injEq]
    cases items with
    | nil => simp [collect]
    | cons op rest =>
      obtain ⟨c, hc, rfl⟩ := known_iff.mp (hknown op List.mem_cons_self)
      have hmem : c ∈ collect (.str c.name :: rest) [] := (collect_names hc).mpr List.mem_cons_self
      have hpos := List.length_pos_of_mem hmem
      constructor
      · exact fun _ => ⟨_, rest, rfl⟩
      · exact fun _ => hpos
  simp only [aclAny, toJson_get, Bool.and_eq_true]
  constructor
  · rintro ⟨-, hany⟩
    cases hlookup : (props.map normalEntry).lookup (toLowerCase user) with
    | none =>
      rw [hlookup] at hany
      cases hany
    | some classes =>
      rw [hlookup] at hany
      obtain ⟨e, he, hsame, rfl⟩ := (lookup_normal hdistinct).mp hlookup
      refine ⟨e, he, hsame, (hempty e he).mp ?_⟩
      simpa using hany
  · rintro ⟨e, he, hsame, hsome⟩
    have huuid : isUuid user = true := by
      rw [← sameUser_uuid hsame]
      exact (hall e he).1
    refine ⟨⟨rfl, huuid⟩, ?_⟩
    rw [(lookup_normal hdistinct).mpr ⟨e, he, hsame, rfl⟩]
    simpa using (hempty e he).mpr hsome

/-- Collecting what is already collected changes nothing. -/
theorem collect_idem {classes : List OpClass} (hclasses : ∀ c ∈ classes, c ∈ opClasses)
    {seen : List OpClass} (h : (seen ++ classes).Nodup) :
    collect (classes.map (fun c => .str c.name)) seen = seen ++ classes := by
  induction classes generalizing seen with
  | nil => simp [collect]
  | cons c rest ih =>
    have hfound := (findClass_name (hclasses c List.mem_cons_self)).mpr rfl
    have hnew : c ∉ seen := by
      intro hc
      exact List.disjoint_of_nodup_append h hc List.mem_cons_self
    rw [List.append_cons] at h ⊢
    simp only [List.map_cons, collect, hfound, hnew, if_false]
    exact ih (fun c' hc' => hclasses c' (List.mem_cons_of_mem _ hc')) h

/-- The normal form of an accepted ACL is accepted as it is. -/
theorem validate_again (h : validateAcl (.obj props) = .ok acl) :
    validateAcl (toJson acl) = .ok acl := by
  obtain ⟨hall, hdistinct, rfl, owner, howner, hclass⟩ := validateAcl_ok_iff.mp h
  have hnormal : ∀ e ∈ props, normalEntry ((normalEntry e).1,
      .arr ((normalEntry e).2.map (fun c => .str c.name))) = normalEntry e := by
    intro e he
    obtain ⟨-, items, hitems, -⟩ := hall e he
    have hnodup : ([] ++ collect items []).Nodup := collect_nodup List.nodup_nil
    simp only [normalEntry, hitems, toLowerCase_toLowerCase,
      collect_idem (fun _ => collect_subset) hnodup, List.nil_append]
  refine validateAcl_ok_iff.mpr ⟨?_, ?_, ?_, owner, howner, hclass⟩
  · intro e he
    obtain ⟨n, hn, rfl⟩ := List.mem_map.mp he
    obtain ⟨raw, hraw, rfl⟩ := List.mem_map.mp hn
    obtain ⟨huuid, items, hitems, -⟩ := hall raw hraw
    refine validEntry_iff.mpr ⟨isUuid_toLowerCase huuid, (normalEntry raw).2, ?_, rfl⟩
    intro c hc
    simp only [normalEntry, hitems] at hc
    exact collect_subset hc
  · simp only [CaseDistinct, List.map_map, Function.comp_def, normalEntry, toLowerCase_toLowerCase]
    exact hdistinct
  · rw [List.map_map, List.map_map]
    refine List.map_congr_left fun e he => ?_
    exact (hnormal e he).symm

end

/-- `validateAcl` accepts exactly the well-formed ACLs; what it returns grants every user
exactly what was submitted for that user, and is accepted as it is. -/
theorem validateAcl_meaning (value : Json) :
    ((∃ acl, validateAcl value = .ok acl) ↔ ∃ props, value = .obj props ∧ WellFormed props) ∧
    ∀ acl, validateAcl value = .ok acl → ∃ props, value = .obj props ∧
      (∀ user c, aclAllows (toJson acl) user c = true ↔
        c ∈ opClasses ∧ ∃ e ∈ props, SameUser e.1 user ∧ (Lists e.2 c ∨ Lists e.2 .owner)) ∧
      (∀ user, aclAny (toJson acl) user = true ↔
        ∃ e ∈ props, SameUser e.1 user ∧ ∃ op items, e.2 = .arr (op :: items)) ∧
      validateAcl (toJson acl) = .ok acl := by
  constructor
  · constructor
    · rintro ⟨acl, hacl⟩
      obtain ⟨props, rfl⟩ := validateAcl_obj hacl
      exact ⟨props, rfl, accepted_iff.mp ⟨acl, hacl⟩⟩
    · rintro ⟨props, rfl, h⟩
      exact accepted_iff.mpr h
  · intro acl hacl
    obtain ⟨props, rfl⟩ := validateAcl_obj hacl
    exact ⟨props, rfl, allows_iff hacl, any_iff hacl, validate_again hacl⟩

/-- One user in capitals with a class twice, and one in lower case. -/
def spelled : Json := .obj
  [("A11CE000-0000-4000-8000-000000000001", .arr [.str "owner", .str "owner", .str "sign"]),
    ("b0b00000-0000-4000-8000-000000000002", .arr [.str "decrypt"])]

def spelledAcl : AclMap :=
  [("a11ce000-0000-4000-8000-000000000001", [.owner, .sign]),
    ("b0b00000-0000-4000-8000-000000000002", [.decrypt])]

theorem spelled_meaning : validateAcl spelled = .ok spelledAcl ∧
    validateAcl (toJson spelledAcl) = .ok spelledAcl := by
  have hvalid : validateAcl spelled = .ok spelledAcl := by decide +kernel
  obtain ⟨-, hmeaning⟩ := validateAcl_meaning spelled
  obtain ⟨props, -, -, -, hagain⟩ := hmeaning spelledAcl hvalid
  exact ⟨hvalid, hagain⟩

end AclMeaning
