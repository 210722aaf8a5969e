import KeyVault.Acl

/-!
# The normal form of ACLs

`validateAcl` accepts an object exactly when every name is a UUID, no two names are
equal ignoring case, every value lists known classes, and somebody is an owner. What
it returns has lower-case names, each once, and lists without duplicates.
-/

namespace AclNormal

open JsValue Acl

theorem fits_map {f : Char → Char} {ps : List (Char → Bool)} (cs : List Char)
    (h : ∀ p ∈ ps, ∀ c, p (f c) = p c) : fits ps (cs.map f) = fits ps cs := by
  induction ps generalizing cs with
  | nil => cases cs <;> rfl
  | cons p ps ih =>
    cases cs with
    | nil => rfl
    | cons c cs =>
      simp only [fits, List.map_cons, h p List.mem_cons_self c,
        ih cs fun q hq => h q (List.mem_cons_of_mem _ hq)]

/-- Lowering a character is a matter of ASCII. -/
theorem toLower_ascii {p : Char → Bool}
    (h : ∀ n < 128, p (Char.ofNat n).toLower = p (Char.ofNat n)) (c : Char) :
    p c.toLower = p c := by
  by_cases hascii : c.toNat < 128
  · have hlower := h c.toNat hascii
    rwa [Char.ofNat_toNat] at hlower
  · have hupper : ¬ (c.val ≥ 'A'.val ∧ c.val ≤ 'Z'.val) := by
      rintro ⟨-, hle⟩
      have hval : c.val.toNat = c.toNat := rfl
      have hZ : ('Z' : Char).val.toNat = 90 := rfl
      have hle' := UInt32.le_iff_toNat_le.mp hle
      omega
    unfold Char.toLower
    rw [dif_neg hupper]

theorem mem_uuidShape {p : Char → Bool} (hp : p ∈ uuidShape) : p = isHexDigit ∨ p = (· == '-') := by
  simp only [uuidShape, List.mem_append, List.mem_cons, List.mem_replicate] at hp
  tauto

theorem fits_mem {ps : List (Char → Bool)} {cs : List Char} (h : fits ps cs = true) :
    ∀ c ∈ cs, ∃ p ∈ ps, p c = true := by
  induction ps generalizing cs with
  | nil =>
    cases cs with
    | nil => intro c hc; cases hc
    | cons c cs => cases h
  | cons p ps ih =>
    cases cs with
    | nil => cases h
    | cons c cs =>
      simp only [fits, Bool.and_eq_true] at h
      intro d hd
      rcases List.mem_cons.mp hd with rfl | hd
      · exact ⟨p, List.mem_cons_self, h.1⟩
      · obtain ⟨q, hq, hqd⟩ := ih h.2 d hd
        exact ⟨q, List.mem_cons_of_mem _ hq, hqd⟩

/-- A UUID is written with hexadecimal digits and dashes. -/
theorem uuid_char {s : String} (h : isUuid s = true) {c : Char} (hc : c ∈ s.toList) :
    isHexDigit c = true ∨ c = '-' := by
  obtain ⟨p, hp, hpc⟩ := fits_mem h c hc
  rcases mem_uuidShape hp with rfl | rfl
  · exact Or.inl hpc
  · exact Or.inr (by simpa using hpc)

theorem isUuid_lower (s : String) : isUuid (toLowerCase s) = isUuid s := by
  simp only [isUuid, toLowerCase, String.toList_ofList]
  refine fits_map _ fun p hp c => ?_
  rcases mem_uuidShape hp with rfl | rfl
  · exact toLower_ascii (by decide +kernel) c
  · exact toLower_ascii (p := (· == '-')) (by decide +kernel) c

theorem isUuid_toLowerCase {s : String} (h : isUuid s = true) : isUuid (toLowerCase s) = true := by
  rwa [isUuid_lower]

/-- The classes that a list names, each where it first occurs, after those in `seen`. -/
def collect : List Json → List OpClass → List OpClass
  | [], seen => seen
  | op :: rest, seen =>
    match findClass opClasses op with
    | none => collect rest seen
    | some c => collect rest (if c ∈ seen then seen else seen ++ [c])

def known (op : Json) : Bool := (findClass opClasses op).isSome

theorem validateOps_ok_iff {items : List Json} {seen result : List OpClass} :
    validateOps items seen = .ok result ↔
      (∀ op ∈ items, known op = true) ∧ collect items seen = result := by
  induction items generalizing seen with
  | nil => simp [validateOps, collect]
  | cons op rest ih =>
    cases h : findClass opClasses op with
    | none => simp [validateOps, collect, h, known]
    | some c => simp only [validateOps, collect, h, ih, List.forall_mem_cons, known,
        Option.isSome_some, true_and]

theorem mem_collect {items : List Json} {seen : List OpClass} {c : OpClass} :
    c ∈ collect items seen ↔ c ∈ seen ∨ ∃ op ∈ items, findClass opClasses op = some c := by
  induction items generalizing seen with
  | nil => simp [collect]
  | cons op rest ih =>
    cases h : findClass opClasses op with
    | none => simp [collect, h, ih]
    | some d =>
      simp only [collect, h, ih, List.exists_mem_cons_iff, Option.some.injEq]
      by_cases hd : d ∈ seen
      · simp only [hd, if_true]
        constructor
        · rintro (hc | hc)
          · exact Or.inl hc
          · exact Or.inr (Or.inr hc)
        · rintro (hc | rfl | hc)
          · exact Or.inl hc
          · exact Or.inl hd
          · exact Or.inr hc
      · simp only [hd, if_false, List.mem_append, List.mem_singleton, or_assoc, eq_comm (a := c)]

theorem collect_nodup {items : List Json} {seen : List OpClass} (h : seen.Nodup) :
    (collect items seen).Nodup := by
  induction items generalizing seen with
  | nil => exact h
  | cons op rest ih =>
    cases hc : findClass opClasses op with
    | none => simpa only [collect, hc] using ih h
    | some c =>
      simp only [collect, hc]
      apply ih
      by_cases hmem : c ∈ seen
      · simpa only [hmem, if_true] using h
      · simp only [hmem, if_false]
        exact List.nodup_append.mpr ⟨h, List.nodup_singleton c, fun a ha b hb heq =>
          hmem (by rw [← List.mem_singleton.mp hb, ← heq]; exact ha)⟩

/-- A user id with a list of known classes. -/
def ValidEntry (e : String × Json) : Prop :=
  isUuid e.1 = true ∧ ∃ items, e.2 = .arr items ∧ ∀ op ∈ items, known op = true

def normalEntry (e : String × Json) : String × List OpClass :=
  (toLowerCase e.1, match e.2 with
    | .arr items => collect items []
    | _ => [])

/-- No two names are equal ignoring case. -/
def CaseDistinct (props : Props) : Prop := (props.map (fun e => toLowerCase e.1)).Nodup

theorem lookup_isSome {acl : AclMap} {user : String} :
    (acl.lookup user).isSome = true ↔ user ∈ acl.map Prod.fst := by
  rw [List.lookup_isSome_iff, List.mem_map]
  constructor
  · rintro ⟨e, he, heq⟩
    exact ⟨e, he, (by simpa using heq : user = e.1).symm⟩
  · rintro ⟨e, he, rfl⟩
    exact ⟨e, he, beq_self_eq_true _⟩

def ownerCount (acl : AclMap) : Nat := acl.countP (fun e => decide (.owner ∈ e.2))

/-- One more entry at the front, of a new user and with known classes. -/
theorem entries_cons_iff {user : String} {items : List Json} {rest : Props} {acc : AclMap}
    {owners : Nat} {result : AclMap × Nat} {seen : List OpClass} (huuid : isUuid user = true)
    (hmem : toLowerCase user ∉ acc.map Prod.fst) (hknown : ∀ op ∈ items, known op = true)
    (hseen : collect items [] = seen) :
    ((∀ e ∈ rest, ValidEntry e ∧
        toLowerCase e.1 ∉ (acc ++ [(toLowerCase user, seen)]).map Prod.fst) ∧
      CaseDistinct rest ∧
      result = (acc ++ [(toLowerCase user, seen)] ++ rest.map normalEntry,
        (if .owner ∈ seen then owners + 1 else owners) + ownerCount (rest.map normalEntry))) ↔
    ((∀ e ∈ (user, Json.arr items) :: rest, ValidEntry e ∧ toLowerCase e.1 ∉ acc.map Prod.fst) ∧
      CaseDistinct ((user, Json.arr items) :: rest) ∧
      result = (acc ++ ((user, Json.arr items) :: rest).map normalEntry,
        owners + ownerCount (((user, Json.arr items) :: rest).map normalEntry))) := by
  have hentry : normalEntry (user, .arr items) = (toLowerCase user, seen) := by
    simp only [normalEntry, hseen]
  have hcount : ownerCount ((toLowerCase user, seen) :: rest.map normalEntry) =
      (if .owner ∈ seen then 1 else 0) + ownerCount (rest.map normalEntry) := by
    by_cases ho : OpClass.owner ∈ seen <;> simp [ownerCount, ho, Nat.add_comm]
  have hresult : (acc ++ [(toLowerCase user, seen)] ++ rest.map normalEntry,
      (if .owner ∈ seen then owners + 1 else owners) + ownerCount (rest.map normalEntry)) =
      (acc ++ ((user, Json.arr items) :: rest).map normalEntry,
        owners + ownerCount (((user, Json.arr items) :: rest).map normalEntry)) := by
    rw [List.map_cons, hentry, hcount, List.append_assoc, List.singleton_append]
    congr 1
    split <;> omega
  rw [hresult]
  simp only [List.forall_mem_cons, CaseDistinct, List.map_cons, List.nodup_cons, List.map_append,
    List.map_nil, List.mem_append, List.mem_singleton, not_or]
  constructor
  · rintro ⟨hall, hdistinct, hr⟩
    refine ⟨⟨⟨⟨huuid, items, rfl, hknown⟩, hmem⟩, fun e he => ⟨(hall e he).1, (hall e he).2.1⟩⟩,
      ⟨?_, hdistinct⟩, hr⟩
    intro hin
    obtain ⟨e, he, heq⟩ := List.mem_map.mp hin
    exact (hall e he).2.2 heq
  · rintro ⟨⟨-, hall⟩, ⟨hnot, hdistinct⟩, hr⟩
    refine ⟨fun e he => ⟨(hall e he).1, (hall e he).2, fun heq => hnot ?_⟩, hdistinct, hr⟩
    exact List.mem_map.mpr ⟨e, he, heq⟩

theorem validateEntries_ok_iff {props : Props} {acc : AclMap} {owners : Nat}
    {result : AclMap × Nat} :
    validateEntries props acc owners = .ok result ↔
      (∀ e ∈ props, ValidEntry e ∧ toLowerCase e.1 ∉ acc.map Prod.fst) ∧ CaseDistinct props ∧
        result = (acc ++ props.map normalEntry, owners + ownerCount (props.map normalEntry)) := by
  induction props generalizing acc owners with
  | nil => simp [validateEntries, CaseDistinct, ownerCount, eq_comm]
  | cons e rest ih =>
    obtain ⟨user, ops⟩ := e
    simp only [validateEntries, Bool.not_eq_eq_eq_not, Bool.not_true, lookup_isSome]
    by_cases huuid : isUuid user = true
    · by_cases hmem : toLowerCase user ∈ acc.map Prod.fst
      · simp only [huuid, Bool.true_eq_false, if_false, hmem, if_true, List.forall_mem_cons]
        constructor
        · rintro ⟨⟩
        · rintro ⟨⟨⟨-, hnot⟩, -⟩, -⟩
          exact absurd trivial hnot
      · simp only [huuid, Bool.true_eq_false, if_false, hmem]
        cases ops with
        | arr items =>
          cases hops : validateOps items [] with
          | error message =>
            simp only [hops]
            constructor
            · rintro ⟨⟩
            · rintro ⟨hall, -⟩
              obtain ⟨⟨-, items', heq, hknown⟩, -⟩ := hall _ List.mem_cons_self
              cases heq
              rw [validateOps_ok_iff.mpr ⟨hknown, rfl⟩] at hops
              cases hops
          | ok seen =>
            obtain ⟨hknown, hseen⟩ := validateOps_ok_iff.mp hops
            simp only [hops]
            exact ih.trans (entries_cons_iff huuid hmem hknown hseen)
        | _ =>
          constructor
          · rintro ⟨⟩
          · rintro ⟨hall, -⟩
            obtain ⟨⟨-, items', heq, -⟩, -⟩ := hall _ List.mem_cons_self
            cases heq
    · have hfalse : isUuid user = false := by simpa using huuid
      simp only [hfalse, if_true]
      constructor
      · rintro ⟨⟩
      · rintro ⟨hall, -⟩
        exact absurd (hall _ List.mem_cons_self).1.1 huuid

theorem ownerCount_pos {acl : AclMap} : 0 < ownerCount acl ↔ ∃ e ∈ acl, .owner ∈ e.2 := by
  simp [ownerCount, List.countP_pos_iff]

theorem validateAcl_ok_iff {props : Props} {acl : AclMap} :
    validateAcl (.obj props) = .ok acl ↔
      (∀ e ∈ props, ValidEntry e) ∧ CaseDistinct props ∧ acl = props.map normalEntry ∧
        ∃ e ∈ acl, .owner ∈ e.2 := by
  have hentries : ∀ r, validateEntries props [] 0 = .ok r ↔ (∀ e ∈ props, ValidEntry e) ∧
      CaseDistinct props ∧ r = (props.map normalEntry, ownerCount (props.map normalEntry)) := by
    intro r
    rw [validateEntries_ok_iff]
    simp
  simp only [validateAcl]
  cases hvalidate : validateEntries props [] 0 with
  | error message =>
    constructor
    · rintro ⟨⟩
    · rintro ⟨hall, hdistinct, -, -⟩
      have hok := (hentries _).mpr ⟨hall, hdistinct, rfl⟩
      rw [hvalidate] at hok
      cases hok
  | ok result =>
    obtain ⟨hall, hdistinct, rfl⟩ := (hentries result).mp hvalidate
    by_cases hcount : ownerCount (props.map normalEntry) < 1
    · simp only [hcount, if_true]
      constructor
      · rintro ⟨⟩
      · rintro ⟨-, -, hacl, howner⟩
        rw [hacl, ← ownerCount_pos] at howner
        omega
    · simp only [hcount, if_false, Except.ok.injEq]
      have howner := ownerCount_pos.mp (show 0 < ownerCount (props.map normalEntry) by omega)
      constructor
      · rintro rfl
        exact ⟨hall, hdistinct, rfl, howner⟩
      · rintro ⟨-, -, rfl, -⟩
        rfl

theorem validateAcl_obj {acl : Json} {normalized : AclMap} (h : validateAcl acl = .ok normalized) :
    ∃ props, acl = .obj props := by
  cases acl with
  | obj props => exact ⟨props, rfl⟩
  | _ => cases h

/-- A lower-case user id with known classes, each once. -/
structure NormalEntry (e : String × Json) : Prop where
  uuid : isUuid e.1 = true
  lower : toLowerCase e.1 = e.1
  classes : ∃ classes : List OpClass, classes.Nodup ∧ (∀ c ∈ classes, c ∈ opClasses) ∧
    e.2 = .arr (classes.map (fun c => .str c.name))

def grantsOwner : Json → Bool
  | .arr ops => ops.contains (.str "owner")
  | _ => false

/-- What `validateAcl` returns, as the column stores it. -/
def Normal (acl : Json) : Prop :=
  ∃ props, acl = .obj props ∧ (keys props).Nodup ∧ (∀ e ∈ props, NormalEntry e) ∧
    ∃ e ∈ props, grantsOwner e.2 = true

theorem findClass_mem {classes : List OpClass} {op : Json} {c : OpClass}
    (h : findClass classes op = some c) : c ∈ classes ∧ op = .str c.name := by
  cases op with
  | str s =>
    have hname : (c.name == s) = true := List.find?_some (p := fun c : OpClass => c.name == s) h
    exact ⟨List.mem_of_find?_eq_some h, congrArg Json.str (beq_iff_eq.mp hname).symm⟩
  | _ => cases h

theorem normal_of_validate {acl : Json} {normalized : AclMap}
    (h : validateAcl acl = .ok normalized) : Normal (toJson normalized) := by
  obtain ⟨props, rfl⟩ := validateAcl_obj h
  obtain ⟨hall, hdistinct, rfl, owner, howner, hclass⟩ := validateAcl_ok_iff.mp h
  have hkeys : keys ((props.map normalEntry).map
      (fun e => (e.1, Json.arr (e.2.map (fun c => .str c.name))))) =
      props.map (fun e => toLowerCase e.1) := by
    simp [keys, normalEntry, Function.comp_def]
  refine ⟨_, rfl, by rw [hkeys]; exact hdistinct, ?_, ?_⟩
  · intro e he
    obtain ⟨n, hn, rfl⟩ := List.mem_map.mp he
    obtain ⟨raw, hraw, rfl⟩ := List.mem_map.mp hn
    obtain ⟨huuid, items, hitems, hknown⟩ := hall raw hraw
    refine ⟨isUuid_toLowerCase huuid, toLowerCase_toLowerCase _, collect items [], ?_, ?_, ?_⟩
    · exact collect_nodup List.nodup_nil
    · intro c hc
      rcases mem_collect.mp hc with hc | ⟨op, -, hop⟩
      · cases hc
      · exact (findClass_mem hop).1
    · simp only [normalEntry, hitems]
  · refine ⟨_, List.mem_map_of_mem howner, ?_⟩
    simp only [grantsOwner, List.contains_eq_mem, decide_eq_true_eq]
    exact List.mem_map.mpr ⟨.owner, hclass, rfl⟩

end AclNormal
