import KeyVault.GenerateKeyRuns

/-!
# Explicit ACLs of generate-key

The caller's own entry is taken out of a copy of the submitted object and put back
with `owner`. The copy loses a property `__proto__`, and the caller's lower-case
entry is overwritten if another spelling of the same id comes first; everything else
is honoured exactly or rejected.
-/

namespace ExplicitAcls

open JsValue Acl AclNormal KeyGen Errors Programs Vault KeyStore Handlers KeySpecs GenerateKeyRuns
  Server Tables

variable {props order rest : Props} {self u : String} {w : World} {c : OpClass} {L : Libraries}
  {cfg : Config} {user : VaultUser} {env : Envelope} {i : Interleaving.ThreadId}

/-- The value lists the class. -/
def Names (v : Json) (c : OpClass) : Prop := ∃ items, v = .arr items ∧ .str c.name ∈ items

/-- A valid object: UUIDs that differ ignoring case, with lists of known classes. -/
def Wellformed (props : Props) : Prop := (∀ e ∈ props, ValidEntry e) ∧ CaseDistinct props

/-- A valid object whose users all exist. -/
def Admissible (w : World) (props : Props) : Prop :=
  Wellformed props ∧ ∀ e ∈ props, (w.users.find (toLowerCase e.1)).isSome = true

/-- What an honoured ACL grants: the submitted classes, and `owner` to the caller. -/
def Asked (self : String) (props : Props) (u : String) (c : OpClass) : Prop :=
  (∃ e ∈ props, toLowerCase e.1 = u ∧ Names e.2 c) ∨ (u = self ∧ c = .owner)

/-- What a stored ACL grants. -/
def Grants (acl : Json) (u : String) (c : OpClass) : Prop :=
  ∃ v, acl.get? u = some v ∧ Names v c

theorem Wellformed.perm (h : order.Perm props) : Wellformed order ↔ Wellformed props := by
  have hlower : CaseDistinct order ↔ CaseDistinct props := (h.map _).nodup_iff
  simp only [Wellformed, hlower, h.mem_iff]

theorem Admissible.perm (h : order.Perm props) : Admissible w order ↔ Admissible w props := by
  simp only [Admissible, Wellformed.perm h, h.mem_iff]

theorem Asked.perm (h : order.Perm props) : Asked self order u c ↔ Asked self props u c := by
  simp only [Asked, h.mem_iff]

def withOwner (ops : List Json) : List Json :=
  ops ++ if ops.contains (.str "owner") then [] else [.str "owner"]

/-- The name that the merge takes for the caller's own. -/
def selfKey (self : String) (props : Props) : Option String :=
  (keys (deleteProp props "__proto__")).find? (fun k => toLowerCase k == self)

/-- The properties that the merge takes over. -/
def honoured (self : String) (props : Props) : Props :=
  let copy := deleteProp props "__proto__"
  match selfKey self props with
  | none => copy
  | some k => (k, (copy.lookup k).getD .null) :: deleteProp (deleteProp copy k) self

theorem selfKey_some {k : String} (h : selfKey self props = some k) :
    k ∈ keys (deleteProp props "__proto__") ∧ toLowerCase k = self :=
  ⟨List.mem_of_find?_eq_some h, by simpa using List.find?_some h⟩

theorem selfKey_none (h : selfKey self props = none) :
    ∀ e ∈ deleteProp props "__proto__", toLowerCase e.1 ≠ self := by
  intro e he
  have hnot := List.find?_eq_none.mp h e.1 (List.mem_map_of_mem he)
  simpa using hnot

/-- `merged` is `taken`, with `owner` added to the caller's classes. -/
inductive Merges (self : String) : Props → Props → Prop where
  | absent {taken merged : Props} : (∀ e ∈ taken, toLowerCase e.1 ≠ self) →
    merged.Perm ((self, .arr (withOwner [])) :: taken) → Merges self taken merged
  | present {k : String} {ops : List Json} {rest merged : Props} : toLowerCase k = self →
    merged.Perm ((self, .arr (withOwner ops)) :: rest) → Merges self ((k, .arr ops) :: rest) merged

theorem mergeSelf_merges (h : (keys props).Nodup) (hself : toLowerCase self = self)
    {merged : Props} (hmerge : mergeSelf self props = .ok merged) :
    Merges self (honoured self props) merged := by
  have hcopy := nodup_deleteProp h "__proto__"
  unfold honoured
  cases hkey : selfKey self props with
  | none =>
    have hnone := selfKey_none hkey
    have habsent : self ∉ keys (deleteProp props "__proto__") := by
      intro hmem
      obtain ⟨e, he, rfl⟩ := List.mem_map.mp hmem
      exact hnone e he hself
    unfold selfKey at hkey
    simp only [mergeSelf, objectAssign_nil h, hkey] at hmerge
    cases hmerge
    have hperm : (setProp (deleteProp props "__proto__") self (.arr (withOwner []))).Perm _ :=
      setProp_perm hcopy
    rw [deleteProp_absent habsent] at hperm
    exact Merges.absent hnone hperm
  | some k =>
    have hlower := (selfKey_some hkey).2
    unfold selfKey at hkey
    simp only [mergeSelf, objectAssign_nil h, hkey] at hmerge
    dsimp only
    split at hmerge
    · rename_i ops hops
      cases hmerge
      rw [hops]
      exact Merges.present hlower (setProp_perm (nodup_deleteProp hcopy _))
    · cases hmerge

theorem mergeSelf_ok (h : (keys props).Nodup) (hvalid : Wellformed (honoured self props)) :
    ∃ merged, mergeSelf self props = .ok merged := by
  unfold honoured at hvalid
  cases hkey : selfKey self props with
  | none =>
    unfold selfKey at hkey
    simp only [mergeSelf, objectAssign_nil h, hkey]
    exact ⟨_, rfl⟩
  | some k =>
    simp only [hkey] at hvalid
    obtain ⟨-, items, hitems, -⟩ := hvalid.1 _ List.mem_cons_self
    unfold selfKey at hkey
    simp only [mergeSelf, objectAssign_nil h, hkey]
    dsimp only at hitems
    simp only [hitems]
    exact ⟨_, rfl⟩

theorem mem_withOwner {ops : List Json} {op : Json} :
    op ∈ withOwner ops ↔ op ∈ ops ∨ op = .str "owner" := by
  unfold withOwner
  by_cases hmem : ops.contains (.str "owner") = true
  · have howner : Json.str "owner" ∈ ops := by simpa using hmem
    rw [if_pos hmem, List.append_nil]
    constructor
    · exact Or.inl
    · rintro (h | rfl)
      · exact h
      · exact howner
  · rw [if_neg hmem]
    simp

theorem wellformed_cons {e : String × Json} : Wellformed (e :: rest) ↔
    ValidEntry e ∧ (∀ e' ∈ rest, toLowerCase e'.1 ≠ toLowerCase e.1) ∧ Wellformed rest := by
  simp only [Wellformed, CaseDistinct, List.forall_mem_cons, List.map_cons, List.nodup_cons,
    List.mem_map, not_exists, not_and]
  tauto

theorem validEntry_withOwner {k : String} {ops : List Json} (huuid : isUuid self = true)
    (hk : toLowerCase k = self) :
    ValidEntry (self, .arr (withOwner ops)) ↔ ValidEntry (k, .arr ops) := by
  have howner : known (.str "owner") = true := by decide
  have huuid' : isUuid k = true := by rw [← isUuid_lower, hk]; exact huuid
  constructor
  · rintro ⟨-, items, hitems, hknown⟩
    cases hitems
    exact ⟨huuid', ops, rfl, fun op hop => hknown op (mem_withOwner.mpr (Or.inl hop))⟩
  · rintro ⟨-, items, hitems, hknown⟩
    cases hitems
    refine ⟨huuid, _, rfl, fun op hop => ?_⟩
    rcases mem_withOwner.mp hop with hop | rfl
    · exact hknown op hop
    · exact howner

variable {taken merged : Props}

theorem Merges.wellformed (h : Merges self taken merged) (huuid : isUuid self = true)
    (hself : toLowerCase self = self) :
    Wellformed merged ↔ Wellformed taken := by
  cases h with
  | absent hnone hperm =>
    have howner : ValidEntry (self, .arr (withOwner [])) :=
      (validEntry_withOwner huuid hself).mpr ⟨huuid, [], rfl, fun _ h => absurd h List.not_mem_nil⟩
    rw [Wellformed.perm hperm, wellformed_cons, hself]
    exact ⟨fun hall => hall.2.2, fun hall => ⟨howner, hnone, hall⟩⟩
  | present hk hperm =>
    rw [Wellformed.perm hperm, wellformed_cons, wellformed_cons,
      validEntry_withOwner huuid hk, hself, hk]

/-- The merged object asks for what was taken, and `owner` for the caller. -/
theorem Merges.asked (h : Merges self taken merged) (hself : toLowerCase self = self) :
    (∃ e ∈ merged, toLowerCase e.1 = u ∧ Names e.2 c) ↔ Asked self taken u c := by
  have hnames : ∀ ops, Names (.arr (withOwner ops)) c ↔ Names (.arr ops) c ∨ c = .owner := by
    intro ops
    have hname : Json.str c.name = .str "owner" ↔ c = .owner := by
      constructor
      · intro heq
        exact OpClass.name_injective (Json.str.inj heq)
      · rintro rfl
        rfl
    simp only [Names, Json.arr.injEq, exists_eq_left', mem_withOwner, hname]
  have hempty : ¬ Names (.arr []) c := by
    rintro ⟨items, hitems, hmem⟩
    cases hitems
    cases hmem
  cases h with
  | absent hnone hperm =>
    simp only [hperm.mem_iff, List.exists_mem_cons_iff, Asked, hself, hnames, hempty, false_or]
    rw [or_comm, eq_comm (a := self)]
  | present hk hperm =>
    simp only [hperm.mem_iff, List.exists_mem_cons_iff, Asked, hself, hnames, hk,
      eq_comm (a := self), and_or_left]
    exact or_right_comm

theorem Merges.users (h : Merges self taken merged) (hself : toLowerCase self = self)
    (hexists : (w.users.find self).isSome = true) :
    (∀ e ∈ merged, (w.users.find (toLowerCase e.1)).isSome = true) ↔
      ∀ e ∈ taken, (w.users.find (toLowerCase e.1)).isSome = true := by
  cases h with
  | absent hnone hperm =>
    simp only [hperm.mem_iff, List.forall_mem_cons, hself, hexists, true_and]
  | present hk hperm =>
    simp only [hperm.mem_iff, List.forall_mem_cons, hself, hk]

/-- Somebody owns the key: the caller. -/
theorem Merges.owner (h : Merges self taken merged) :
    ∃ e ∈ merged.map normalEntry, .owner ∈ e.2 := by
  have hentry : ∃ ops, (self, .arr (withOwner ops)) ∈ merged := by
    cases h with
    | absent hnone hperm => exact ⟨[], hperm.mem_iff.mpr List.mem_cons_self⟩
    | present hk hperm => exact ⟨_, hperm.mem_iff.mpr List.mem_cons_self⟩
  obtain ⟨ops, hmem⟩ := hentry
  refine ⟨_, List.mem_map_of_mem hmem, mem_collect.mpr (Or.inr ⟨.str "owner", ?_, by decide⟩)⟩
  exact mem_withOwner.mpr (Or.inr rfl)

theorem keys_toJson (acl : AclMap) :
    ∃ stored, Acl.toJson acl = .obj stored ∧ keys stored = acl.map Prod.fst ∧
      stored = acl.map (fun e => (e.1, .arr (e.2.map (fun c => .str c.name)))) :=
  ⟨_, rfl, by simp [keys, Function.comp_def], rfl⟩

/-- A valid object is stored with exactly the classes that it lists. -/
theorem grants_merged (h : Wellformed merged) :
    Grants (Acl.toJson (merged.map normalEntry)) u c ↔
      ∃ e ∈ merged, toLowerCase e.1 = u ∧ Names e.2 c := by
  obtain ⟨stored, hstored, hkeys, hmap⟩ := keys_toJson (merged.map normalEntry)
  have hnodup : (keys stored).Nodup := by
    have hlower : (merged.map normalEntry).map Prod.fst =
        merged.map (fun e => toLowerCase e.1) := by
      simp [normalEntry, Function.comp_def]
    rw [hkeys, hlower]
    exact h.2
  have hentry : ∀ e ∈ merged, (toLowerCase e.1,
      Json.arr ((normalEntry e).2.map (fun c => .str c.name))) ∈ stored := by
    intro e he
    rw [hmap]
    exact List.mem_map_of_mem (List.mem_map_of_mem he)
  have hlists : ∀ e ∈ merged, Names (.arr ((normalEntry e).2.map (fun c => .str c.name))) c ↔
      Names e.2 c := by
    intro e he
    obtain ⟨-, items, hitems, hknown⟩ := h.1 e he
    simp only [Names, normalEntry, hitems, Json.arr.injEq, exists_eq_left', List.mem_map,
      Json.str.injEq, OpClass.name_injective.eq_iff, exists_eq_right]
    constructor
    · intro hc
      rcases mem_collect.mp hc with hc | ⟨op, hop, hfind⟩
      · cases hc
      · rw [← (findClass_mem hfind).2]
        exact hop
    · intro hc
      refine mem_collect.mpr (Or.inr ⟨_, hc, ?_⟩)
      obtain ⟨d, hd⟩ := Option.isSome_iff_exists.mp (hknown _ hc)
      have hname := Json.str.inj (findClass_mem hd).2
      rw [hd, OpClass.name_injective hname]
  rw [hstored]
  constructor
  · rintro ⟨v, hv, hnames⟩
    have hmem := lookup_mem hv
    rw [hmap] at hmem
    obtain ⟨n, hn, heq⟩ := List.mem_map.mp hmem
    obtain ⟨e, he, rfl⟩ := List.mem_map.mp hn
    cases heq
    exact ⟨e, he, rfl, (hlists e he).mp hnames⟩
  · rintro ⟨e, he, rfl, hnames⟩
    exact ⟨_, lookup_of_mem hnodup (hentry e he), (hlists e he).mpr hnames⟩

theorem explicitAcl_ok_iff (hnodup : (keys props).Nodup) (huuid : isUuid self = true)
    (hself : toLowerCase self = self) (acl : AclMap) :
    explicitAcl self (.obj props) = .ok acl ↔ Wellformed (honoured self props) ∧
      ∃ merged, mergeSelf self props = .ok merged ∧ acl = merged.map normalEntry := by
  constructor
  · intro h
    obtain ⟨merged, hmerge, hvalidate⟩ := ok_of_bind h
    obtain ⟨hall, hdistinct, rfl, -⟩ := validateAcl_ok_iff.mp hvalidate
    have hmerges := mergeSelf_merges hnodup hself hmerge
    exact ⟨(hmerges.wellformed huuid hself).mp ⟨hall, hdistinct⟩, merged, hmerge, rfl⟩
  · rintro ⟨hvalid, merged, hmerge, rfl⟩
    have hmerges := mergeSelf_merges hnodup hself hmerge
    obtain ⟨hall, hdistinct⟩ := (hmerges.wellformed huuid hself).mpr hvalid
    simp only [explicitAcl, hmerge, ok_bind]
    exact validateAcl_ok_iff.mpr ⟨hall, hdistinct, rfl, hmerges.owner⟩

theorem missingIn_eq_nil {userIds : List String} :
    missingIn w userIds = [] ↔ ∀ u ∈ userIds, (w.users.find u).isSome = true := by
  simp [missingIn, List.filter_eq_nil_iff, Option.ne_none_iff_isSome]

/-- The ACL is accepted exactly if what the merge takes over is admissible. -/
theorem aclIn_ok_iff {user : VaultUser} {data : Json} (hacl : data.get? "acl" = some (.obj props))
    (hnodup : (keys props).Nodup) (huuid : isUuid user.userId = true)
    (hexists : (w.users.find (toLowerCase user.userId)).isSome = true) (acl : AclMap) :
    aclIn w user data = .ok acl ↔ Admissible w (honoured (toLowerCase user.userId) props) ∧
      ∃ merged, mergeSelf (toLowerCase user.userId) props = .ok merged ∧
        acl = merged.map normalEntry := by
  have huuid' := isUuid_toLowerCase huuid
  have hself := toLowerCase_toLowerCase user.userId
  have hexplicit := explicitAcl_ok_iff hnodup huuid' hself
  simp only [aclIn, hacl]
  cases hvalidate : explicitAcl (toLowerCase user.userId) (.obj props) with
  | error message =>
    constructor
    · rintro ⟨⟩
    · rintro ⟨⟨hvalid, -⟩, hmerged⟩
      rw [(hexplicit acl).mpr ⟨hvalid, hmerged⟩] at hvalidate
      cases hvalidate
  | ok normalized =>
    obtain ⟨hvalid, merged, hmerge, rfl⟩ := (hexplicit normalized).mp hvalidate
    have hmerges := mergeSelf_merges hnodup hself hmerge
    have husers : missingIn w ((merged.map normalEntry).map Prod.fst) = [] ↔
        ∀ e ∈ honoured (toLowerCase user.userId) props,
          (w.users.find (toLowerCase e.1)).isSome = true := by
      rw [missingIn_eq_nil, ← hmerges.users hself hexists]
      simp only [List.map_map, List.forall_mem_map, Function.comp_apply, normalEntry]
    dsimp only
    by_cases hmissing : missingIn w ((merged.map normalEntry).map Prod.fst) = []
    · simp only [hmissing, List.length_nil, gt_iff_lt, Nat.lt_irrefl, if_false, Except.ok.injEq]
      constructor
      · rintro rfl
        exact ⟨⟨hvalid, husers.mp hmissing⟩, merged, hmerge, rfl⟩
      · rintro ⟨-, merged', hmerge', rfl⟩
        rw [hmerge] at hmerge'
        cases hmerge'
        rfl
    · have hlength : (missingIn w ((merged.map normalEntry).map Prod.fst)).length > 0 :=
        List.length_pos_of_ne_nil hmissing
      simp only [hlength, if_true]
      constructor
      · rintro ⟨⟩
      · rintro ⟨⟨-, hall⟩, -⟩
        exact absurd (husers.mpr hall) hmissing

theorem honoured_behind (hnodup : (keys props).Nodup) {k : String}
    (hkey : selfKey self props = some k) (hne : k ≠ self) :
    (honoured self props).Perm (deleteProp (deleteProp props "__proto__") self) := by
  have hcopy := nodup_deleteProp hnodup "__proto__"
  obtain ⟨e, he, rfl⟩ := List.mem_map.mp (selfKey_some hkey).1
  have hlookup := lookup_of_mem hcopy he
  have hlookup' : (deleteProp (deleteProp props "__proto__") self).lookup e.1 = some e.2 :=
    (lookup_deleteProp_ne hne).trans hlookup
  simp only [honoured, hkey, hlookup, Option.getD_some]
  rw [deleteProp_comm]
  exact (perm_entry (nodup_deleteProp hcopy self) hlookup').symm

/-- What the merge takes over: all of the copy, or all but the caller's lower-case entry
behind another spelling of it. -/
theorem honoured_cases (self : String) (hnodup : (keys props).Nodup) :
    (honoured self props).Perm (deleteProp props "__proto__") ∨
    (self ∈ keys props ∧ (∃ k ∈ keys props, k ≠ self ∧ toLowerCase k = self) ∧
      (honoured self props).Perm (deleteProp (deleteProp props "__proto__") self)) := by
  have hcopy := nodup_deleteProp hnodup "__proto__"
  cases hkey : selfKey self props with
  | none =>
    simp only [honoured, hkey]
    exact Or.inl (List.Perm.refl _)
  | some k =>
    obtain ⟨hmem, hlower⟩ := selfKey_some hkey
    by_cases hk : k = self
    · subst hk
      obtain ⟨e, he, rfl⟩ := List.mem_map.mp hmem
      have hlookup := lookup_of_mem hcopy he
      simp only [honoured, hkey, hlookup, Option.getD_some, deleteProp_self]
      exact Or.inl (perm_entry hcopy hlookup).symm
    · have hperm := honoured_behind hnodup hkey hk
      by_cases hexact : self ∈ keys (deleteProp props "__proto__")
      · exact Or.inr ⟨(mem_keys_deleteProp.mp hexact).1,
          ⟨k, (mem_keys_deleteProp.mp hmem).1, hk, hlower⟩, hperm⟩
      · rw [deleteProp_absent hexact] at hperm
        exact Or.inl hperm

/-- In some order the merge overlooks a property without which the ACL is admissible:
`__proto__`, or the caller's lower-case entry beside another spelling of it. -/
def Overlooks (w : World) (self : String) (props : Props) : Prop :=
  ("__proto__" ∈ keys props ∧ Admissible w (deleteProp props "__proto__")) ∨
  (self ∈ keys props ∧ (∃ k ∈ keys props, k ≠ self ∧ toLowerCase k = self) ∧
    Admissible w (deleteProp (deleteProp props "__proto__") self))

theorem admissible_noProto (h : Admissible w props) : "__proto__" ∉ keys props := by
  intro hmem
  obtain ⟨e, he, hproto⟩ := List.mem_map.mp hmem
  have huuid := (h.1.1 e he).1
  rw [hproto] at huuid
  exact absurd huuid (by decide)

theorem admissible_oneSelf (h : Admissible w props) (hself : toLowerCase self = self)
    (hexact : self ∈ keys props) {k : String} (hmem : k ∈ keys props)
    (hlower : toLowerCase k = self) : k = self := by
  obtain ⟨e, he, rfl⟩ := List.mem_map.mp hmem
  obtain ⟨e', he', rfl⟩ := List.mem_map.mp hexact
  have heq : e = e' := by
    refine List.inj_on_of_nodup_map h.1.2 he he' ?_
    rw [hlower, hself]
  rw [heq]

theorem honoured_of_admissible (hnodup : (keys props).Nodup) (hself : toLowerCase self = self)
    (h : Admissible w props) : (honoured self props).Perm props := by
  have hproto := admissible_noProto h
  rcases honoured_cases self hnodup with hperm | ⟨hexact, ⟨k, hk, hne, hlower⟩, -⟩
  · rwa [deleteProp_absent hproto] at hperm
  · exact absurd (admissible_oneSelf h hself hexact hk hlower) hne

/-- Without such a property the merge takes over an admissible ACL only as it is. -/
theorem admissible_of_honoured (hnodup : (keys props).Nodup) (hnot : ¬ Overlooks w self props)
    (h : Admissible w (honoured self props)) : Admissible w props := by
  rcases honoured_cases self hnodup with hperm | ⟨hexact, hother, hperm⟩
  · have hcopy := (Admissible.perm hperm).mp h
    have hproto : "__proto__" ∉ keys props := fun hmem => hnot (Or.inl ⟨hmem, hcopy⟩)
    rwa [deleteProp_absent hproto] at hcopy
  · exact absurd (Or.inr ⟨hexact, hother, (Admissible.perm hperm).mp h⟩) hnot

theorem keys_perm (h : order.Perm props) : (keys order).Perm (keys props) := h.map _

theorem Overlooks.perm (h : order.Perm props) :
    Overlooks w self order ↔ Overlooks w self props := by
  have hproto : (deleteProp order "__proto__").Perm (deleteProp props "__proto__") := h.filter _
  have hexact : (deleteProp (deleteProp order "__proto__") self).Perm
      (deleteProp (deleteProp props "__proto__") self) := hproto.filter _
  simp only [Overlooks, (keys_perm h).mem_iff, Admissible.perm hproto, Admissible.perm hexact]

/-- Where there is such a property, in some order the merge takes over what is admissible
of an inadmissible ACL. -/
theorem overlooked (hnodup : (keys props).Nodup) (huuid : isUuid self = true)
    (hself : toLowerCase self = self) (h : Overlooks w self props) :
    ∃ order, order.Perm props ∧ Admissible w (honoured self order) ∧ ¬ Admissible w order := by
  have hspelling : ∀ k, toLowerCase k = self → k ≠ "__proto__" := by
    rintro k hk rfl
    rw [← hk] at huuid
    exact absurd huuid (by decide)
  rcases h with ⟨hproto, hrest⟩ | ⟨hexact, ⟨k, hk, hne, hlower⟩, hrest⟩
  · refine ⟨props, List.Perm.refl _, ?_, fun hall => admissible_noProto hall hproto⟩
    rcases honoured_cases self hnodup with hperm | ⟨hexact, ⟨k, hk, hne, hlower⟩, hperm⟩
    · exact (Admissible.perm hperm).mpr hrest
    · have hexact' := mem_keys_deleteProp.mpr ⟨hexact, hspelling self hself⟩
      have hk' := mem_keys_deleteProp.mpr ⟨hk, hspelling k hlower⟩
      exact absurd (admissible_oneSelf hrest hself hexact' hk' hlower) hne
  · -- the caller's lower-case entry comes last
    obtain ⟨e, he, rfl⟩ := List.mem_map.mp hexact
    have hperm : (deleteProp props e.1 ++ [e]).Perm props :=
      (List.perm_append_singleton _ _).trans (perm_entry hnodup (lookup_of_mem hnodup he)).symm
    have hnodup' : (keys (deleteProp props e.1 ++ [e])).Nodup :=
      (keys_perm hperm).nodup_iff.mpr hnodup
    refine ⟨_, hperm, ?_, ?_⟩
    · have hkeys : keys (deleteProp (deleteProp props e.1 ++ [e]) "__proto__") =
          keys (deleteProp (deleteProp props e.1) "__proto__") ++ [e.1] := by
        have hproto : e.1 ≠ "__proto__" := hspelling _ hself
        simp [keys, deleteProp, hproto]
      have hin : k ∈ keys (deleteProp (deleteProp props e.1) "__proto__") :=
        mem_keys_deleteProp.mpr ⟨mem_keys_deleteProp.mpr ⟨hk, hne⟩, hspelling k hlower⟩
      have hfound : ∃ first, (keys (deleteProp (deleteProp props e.1) "__proto__")).find?
          (fun u => toLowerCase u == e.1) = some first := by
        rw [← Option.isSome_iff_exists, List.find?_isSome]
        exact ⟨k, hin, by simpa using hlower⟩
      obtain ⟨first, hfirst⟩ := hfound
      have hkey : selfKey e.1 (deleteProp props e.1 ++ [e]) = some first := by
        rw [selfKey, hkeys, List.find?_append, hfirst]
        rfl
      have hother : first ≠ e.1 :=
        (mem_keys_deleteProp.mp (mem_keys_deleteProp.mp (List.mem_of_find?_eq_some hfirst)).1).2
      have hrest' : (deleteProp (deleteProp (deleteProp props e.1 ++ [e]) "__proto__") e.1).Perm
          (deleteProp (deleteProp props "__proto__") e.1) := (hperm.filter _).filter _
      rw [Admissible.perm ((honoured_behind hnodup' hkey hother).trans hrest')]
      exact hrest
    · intro hall
      have hall' := (Admissible.perm hperm).mp hall
      exact hne (admissible_oneSelf hall' hself (List.mem_map_of_mem he) hk hlower)

/-- The request with this object as its ACL. -/
def submit (env : Envelope) (acl : Props) : Envelope :=
  { env with data := .obj (setProp (ownProps env.data) "acl" (.obj acl)), plain := rfl }

/-- A generate-key request of an existing caller who may generate keys, with valid data
apart from the ACL, and with generator, KEK and database working. -/
structure Valid (L : Libraries) (cfg : Config) (user : VaultUser) (env : Envelope) (w : World) :
    Prop where
  request : env.request = "generate-key"
  spec : ∃ spec row, generateKeySpec user env.data = .ok spec ∧ (spec.alg, row) ∈ keygenAlgs ∧
    Fits row spec ∧ checkReturnPublicKey env.data spec = .ok ()
  times : checkTimes env.data (w.clock / 1000) = .ok ()
  caller : isUuid user.userId = true
  exists_ : (w.users.find (toLowerCase user.userId)).isSome = true
  working : Working L cfg w env.data

/-- Accepted exactly if the ACL is admissible, and then stored with exactly what it asks
for; otherwise answered 1105, and no key is stored. -/
def Honours (L : Libraries) (cfg : Config) (user : VaultUser) (env : Envelope)
    (i : Interleaving.ThreadId) (w : World) (acl : Props) : Prop :=
  ∃ r w', (dispatch L cfg user (submit env acl)).run (serve L i) (quiet w) = (.ok r, quiet w') ∧
    (r.isOk ↔ Admissible w acl) ∧
    (¬ r.isOk → r.errorCode = some (.num 1105) ∧ w'.keys = w.keys) ∧
    (r.isOk → ∃ row, w'.keys.rows = w.keys.rows ++ [row] ∧
      ∀ u c, Grants row.acl u c ↔ Asked (toLowerCase user.userId) acl u c)

theorem submit_get? (env : Envelope) (acl : Props) (name : String) (h : name ≠ "acl") :
    (submit env acl).data.get? name = env.data.get? name := by
  have hplain := env.plain
  have hlookup : (setProp (ownProps env.data) "acl" (.obj acl)).lookup name = _ :=
    lookup_setProp_ne (.obj acl) h
  cases hdata : env.data with
  | obj props =>
    rw [hdata] at hlookup
    simp only [submit, get?_obj, hdata]
    exact hlookup
  | _ => rw [hdata] at hplain; cases hplain

theorem submit_acl (env : Envelope) (acl : Props) :
    (submit env acl).data.get? "acl" = some (.obj acl) := lookup_setProp_self _ _ _

theorem submit_resolve (env : Envelope) (acl : Props) :
    resolveKeyGenParams (submit env acl).data = resolveKeyGenParams env.data := by
  have hplain : (submit env acl).data.isPlainObject = env.data.isPlainObject :=
    (submit env acl).plain.trans env.plain.symm
  simp only [resolveKeyGenParams, hplain, submit_get? env acl "alg" (by decide),
    submit_get? env acl "kty" (by decide), submit_get? env acl "keyLength" (by decide),
    submit_get? env acl "crv" (by decide)]

theorem checkProps_ok_iff {allowed : List String} :
    checkProps (.obj props) allowed = .ok () ↔ ∀ k ∈ keys props, k ∈ allowed := by
  cases hfind : (keys props).find? (fun p => !allowed.contains p) with
  | none =>
    have hall := List.find?_eq_none.mp hfind
    simp only [checkProps, hfind, true_iff]
    simpa using hall
  | some k =>
    have hnot : k ∉ allowed := by simpa using List.find?_some hfind
    simp only [checkProps, hfind, reduceCtorEq, false_iff]
    intro hall
    exact hnot (hall k (List.mem_of_find?_eq_some hfind))

theorem submit_checkProps (env : Envelope) (acl : Props)
    (h : checkProps env.data generateKeyProps = .ok ()) :
    checkProps (submit env acl).data generateKeyProps = .ok () := by
  have hplain := env.plain
  cases hdata : env.data with
  | obj props =>
    rw [hdata, checkProps_ok_iff] at h
    simp only [submit, hdata]
    rw [checkProps_ok_iff]
    intro k hk
    rcases mem_keys_setProp hk with rfl | hk
    · decide
    · exact h k hk
  | _ => rw [hdata] at hplain; cases hplain

/-- Apart from the ACL the checks come to the same. -/
theorem Valid.verdict (h : Valid L cfg user env w) : ∃ spec row, (spec.alg, row) ∈ keygenAlgs ∧
    Fits row spec ∧ ∀ acl, verdict w user (submit env acl).data =
      (aclIn w user (submit env acl).data).map (fun a => (spec, a)) := by
  obtain ⟨spec, row, hspec, hrow, hfits, hreturn⟩ := h.spec
  refine ⟨spec, row, hrow, hfits, fun acl => ?_⟩
  have hspec' : generateKeySpec user (submit env acl).data = .ok spec := by
    obtain ⟨_, hmask, hspec⟩ := ok_of_bind hspec
    obtain ⟨_, hprops, hspec⟩ := ok_of_bind hspec
    simp only [generateKeySpec, hmask, ok_bind, submit_checkProps env acl hprops, submit_resolve]
    exact hspec
  have htimes : checkTimes (submit env acl).data (w.clock / 1000) = .ok () := by
    simpa only [checkTimes, submit_get? env acl "nbf" (by decide),
      submit_get? env acl "exp" (by decide)] using h.times
  have hreturn' : checkReturnPublicKey (submit env acl).data spec = .ok () := by
    simpa only [checkReturnPublicKey,
      submit_get? env acl "returnPublicKey" (by decide)] using hreturn
  simp only [GenerateKeyRuns.verdict, hspec', ok_bind, htimes, hreturn']
  cases aclIn w user (submit env acl).data <;> rfl

theorem Valid.submit_working (h : Valid L cfg user env w) (acl : Props) :
    Working L cfg w (submit env acl).data := by
  have hnbf : notBefore (submit env acl).data = notBefore env.data := by
    simp only [notBefore, submit_get? env acl "nbf" (by decide)]
  have hexp : expiresAt (submit env acl).data = expiresAt env.data := by
    simp only [expiresAt, submit_get? env acl "exp" (by decide)]
  exact ⟨h.working.generators, h.working.seals, h.working.fresh, by
    rw [hnbf, hexp]
    exact h.working.range⟩

/-- The request is accepted exactly if what the merge takes over is admissible. -/
theorem submit_run (h : Valid L cfg user env w) (hnodup : (keys props).Nodup) :
    ∃ r w', (dispatch L cfg user (submit env props)).run (serve L i) (quiet w) = (.ok r, quiet w') ∧
      (r.isOk ↔ Admissible w (honoured (toLowerCase user.userId) props)) ∧
      (¬ r.isOk → r.errorCode = some (.num 1105) ∧ w'.keys = w.keys) ∧
      (r.isOk → ∃ row, w'.keys.rows = w.keys.rows ++ [row] ∧ ∀ u c,
        Grants row.acl u c ↔ Asked (toLowerCase user.userId)
          (honoured (toLowerCase user.userId) props) u c) := by
  have hself := toLowerCase_toLowerCase user.userId
  have huuid := isUuid_toLowerCase h.caller
  obtain ⟨spec, row, hrow, hfits, hverdict⟩ := h.verdict
  obtain ⟨w', hrun, hkeys⟩ :=
    @dispatch_generate L cfg user i (submit env props) h.request h.caller w
  have hacl := aclIn_ok_iff (submit_acl env props) hnodup h.caller h.exists_
  rw [hverdict props] at hrun hkeys
  refine ⟨_, w', hrun, ?_⟩
  cases haclIn : aclIn w user (submit env props).data with
  | error e =>
    obtain ⟨message, rfl⟩ := aclIn_error haclIn
    rw [haclIn] at hkeys
    have hnot : ¬ Admissible w (honoured (toLowerCase user.userId) props) := by
      intro hall
      obtain ⟨merged, hmerge⟩ := mergeSelf_ok hnodup hall.1
      have hok := (hacl _).mpr ⟨hall, merged, hmerge, rfl⟩
      rw [haclIn] at hok
      cases hok
    have hfail : ¬ (answer (submit env props).op
        (.error (caught (.apiError .invalidAcl message)))).isOk := by
      rw [Dispatch.answer_ok_iff]
      rintro ⟨_, ⟨⟩⟩
    refine ⟨⟨fun hok => absurd hok hfail, fun hall => absurd hall hnot⟩, fun _ => ⟨?_, hkeys⟩,
      fun hok => absurd hok hfail⟩
    exact answer_error_errorCode _ _
  | ok acl =>
    obtain ⟨hall, merged, hmerge, rfl⟩ := (hacl acl).mp haclIn
    have hmerges := mergeSelf_merges hnodup hself hmerge
    obtain ⟨g, token, w₁, -, hgenerate, hrows⟩ := generate_quiet (i := i) (h.submit_working props)
      hrow hfits (merged.map normalEntry)
    have hsettle : (settle cfg (submit env props).data
        (.ok (spec, merged.map normalEntry))).run (serve L i) (quiet w) =
          (.ok (generateKeyResult (submit env props).data (merged.map normalEntry)
            ⟨g.kid, g.kty, g.alg, g.publicKey⟩), quiet w₁) := Prog.run_bind_ok hgenerate
    rw [haclIn] at hkeys
    simp only [Except.map] at hkeys ⊢
    rw [hsettle] at hkeys ⊢
    have hok := (Dispatch.answer_ok_iff (submit env props).op
      (.ok (generateKeyResult (submit env props).data (merged.map normalEntry)
        ⟨g.kid, g.kty, g.alg, g.publicKey⟩))).mpr ⟨_, rfl⟩
    refine ⟨⟨fun _ => hall, fun _ => hok⟩, fun hnot => absurd hok hnot, fun _ => ?_⟩
    rw [hkeys]
    refine ⟨_, hrows, fun u c => ?_⟩
    rw [← hmerges.asked hself]
    exact grants_merged ((hmerges.wellformed huuid hself).mpr hall.1)

/-- In every order of its properties the ACL is honoured or rejected, exactly if the merge
overlooks nothing. -/
theorem explicit_acl_iff (L : Libraries) (cfg : Config) (user : VaultUser) (env : Envelope)
    (i : Interleaving.ThreadId) (w : World) (props : Props) (hvalid : Valid L cfg user env w)
    (hnodup : (keys props).Nodup) :
    (∀ order, order.Perm props → Honours L cfg user env i w order) ↔
      ¬ Overlooks w (toLowerCase user.userId) props := by
  have hself := toLowerCase_toLowerCase user.userId
  constructor
  · intro hall hover
    obtain ⟨order, hperm, hadmissible, hnot⟩ :=
      overlooked hnodup (isUuid_toLowerCase hvalid.caller) hself hover
    obtain ⟨r, w', hrun, hok, -⟩ := hall order hperm
    obtain ⟨r', w'', hrun', hok', -⟩ :=
      submit_run (i := i) hvalid ((keys_perm hperm).nodup_iff.mpr hnodup)
    rw [hrun] at hrun'
    cases hrun'
    exact hnot (hok.mp (hok'.mpr hadmissible))
  · intro hnot order hperm
    have hnodup' := (keys_perm hperm).nodup_iff.mpr hnodup
    have hnot' : ¬ Overlooks w (toLowerCase user.userId) order := by rwa [Overlooks.perm hperm]
    obtain ⟨r, w', hrun, hok, hrefused, haccepted⟩ := submit_run (i := i) hvalid hnodup'
    have hiff : Admissible w (honoured (toLowerCase user.userId) order) ↔ Admissible w order := by
      constructor
      · exact admissible_of_honoured hnodup' hnot'
      · intro h
        exact (Admissible.perm (honoured_of_admissible hnodup' hself h)).mpr h
    refine ⟨r, w', hrun, hok.trans hiff, hrefused, fun h => ?_⟩
    obtain ⟨row, hrows, hgrants⟩ := haccepted h
    refine ⟨row, hrows, fun u c => (hgrants u c).trans (Asked.perm ?_)⟩
    exact honoured_of_admissible hnodup' hself (hiff.mp (hok.mp h))

/-- A vault whose only user is Alice. -/
def alicesWorld : World := { fresh 0 with users := Table.empty.insert Fixtures.alice }

def alicesEnvelope : Envelope := Fixtures.generating [("alg", .str "A128KW")]

def protoAcl : Props := [("__proto__", .null)]

/-- Alice's id in upper case, with a right, before her id as it is stored. -/
def spelledTwice : Props :=
  [("A11CE000-0000-4000-8000-000000000001", .arr [.str "sign"]),
    (Fixtures.aliceId, .arr [.str "verify"])]

theorem alicesRequest_valid :
    Valid Fixtures.obliging Fixtures.config Fixtures.alice alicesEnvelope alicesWorld where
  request := rfl
  spec := ⟨_, aes 128 ["wrapKey", "unwrapKey"], rfl, by decide,
    ⟨rfl, rfl, ⟨rfl, rfl⟩⟩, rfl⟩
  times := rfl
  caller := by decide
  exists_ := by decide
  working :=
    { generators := by
        rintro row spec - - message (⟨-, h⟩ | ⟨-, h⟩ | ⟨-, h⟩ | ⟨-, h⟩ | ⟨-, h⟩) <;> cases h
      seals := fun _ => ⟨"sealed", rfl⟩
      fresh := fun _ _ => rfl
      range := ⟨rfl, rfl⟩ }

/-- Both ACLs are accepted: one names a user who is none, the other one user twice. -/
theorem overlooked_accepted :
    ¬ Honours Fixtures.obliging Fixtures.config Fixtures.alice alicesEnvelope 0 alicesWorld
      protoAcl ∧
    ¬ Honours Fixtures.obliging Fixtures.config Fixtures.alice alicesEnvelope 0 alicesWorld
      spelledTwice := by
  constructor
  · rintro ⟨r, w', hrun, hok, -⟩
    cases hrun
    exact admissible_noProto (hok.mp rfl) (by decide)
  · rintro ⟨r, w', hrun, hok, -⟩
    cases hrun
    have hself := @admissible_oneSelf _ Fixtures.aliceId _ (hok.mp rfl) (by decide)
      (by decide) (k := "A11CE000-0000-4000-8000-000000000001") (by decide) (by decide)
    exact absurd hself (by decide)

/-- An ACL for Alice alone. -/
def alone : Props := [(Fixtures.aliceId, .arr [.str "sign"])]

theorem alone_overlooks (w : World) : ¬ Overlooks w (toLowerCase Fixtures.aliceId) alone := by
  rintro (⟨hproto, -⟩ | ⟨-, ⟨k, hk, hne, -⟩, -⟩)
  · exact absurd hproto (by decide)
  · rw [List.mem_singleton.mp hk] at hne
    exact hne (by decide)

/-- An ACL of one entry is honoured. -/
theorem honours_alice :
    Honours Fixtures.obliging Fixtures.config Fixtures.alice alicesEnvelope 0 alicesWorld alone :=
  (explicit_acl_iff Fixtures.obliging Fixtures.config Fixtures.alice alicesEnvelope 0 alicesWorld
    alone alicesRequest_valid (by decide)).mpr (alone_overlooks alicesWorld) alone
    (List.Perm.refl _)

end ExplicitAcls
