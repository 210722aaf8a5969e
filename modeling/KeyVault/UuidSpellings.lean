import KeyVault.AclMeaning
import KeyVault.Processes
import KeyVault.Fixtures

/-!
# Spellings of UUIDs

A request may spell its UUIDs in any letter case: the token, the user, the op, the kid and
the users of an ACL. Each is brought to lower case where it is read, so that two requests
that differ in spelling only are the same program.
-/

namespace UuidSpellings

open JsValue Acl AclNormal AclMeaning KeyGen Errors Programs Interleaving Vault KeyStore Handlers
  ServerAuth Server Processes

/-- The same UUID with its letters in any case. -/
def Respelled (s s' : String) : Prop := isUuid s = true ∧ SameUser s s'

/-- The same names in the same order, with values related by name. -/
def Fields (R : String → Json → Json → Prop) : Props → Props → Prop :=
  List.Forall₂ (fun e e' => e.1 = e'.1 ∧ R e.1 e.2 e'.2)

/-- The same entries in the same order, with users that may be spelled differently. -/
def AclRespelled : Props → Props → Prop :=
  List.Forall₂ (fun e e' => (e.1 = e'.1 ∨ Respelled e.1 e'.1) ∧ e.2 = e'.2)

/-- The value of a property of the operation data. No two users of an ACL coincide
ignoring case. -/
inductive DataRespelled : String → Json → Json → Prop where
  | same (name : String) (v : Json) : DataRespelled name v v
  | kid {s s' : String} : Respelled s s' → DataRespelled "kid" (.str s) (.str s')
  | acl {acl acl' : Props} : CaseDistinct acl → AclRespelled acl acl' →
      DataRespelled "acl" (.obj acl) (.obj acl')

/-- The value of a property of the envelope. -/
inductive EnvelopeRespelled : String → Json → Json → Prop where
  | same (name : String) (v : Json) : EnvelopeRespelled name v v
  | user {s s' : String} : Respelled s s' → EnvelopeRespelled "user" (.str s) (.str s')
  | op {s s' : String} : Respelled s s' → EnvelopeRespelled "op" (.str s) (.str s')
  | data {data data' : Props} : Fields DataRespelled data data' →
      EnvelopeRespelled "data" (.obj data) (.obj data')

inductive BodyRespelled : RequestBody → RequestBody → Prop where
  | same (body : RequestBody) : BodyRespelled body body
  | envelope {props props' : Props} : Fields EnvelopeRespelled props props' →
      BodyRespelled (.text (some (.obj props))) (.text (some (.obj props')))

inductive AuthorizationRespelled : Option String → Option String → Prop where
  | same (header : Option String) : AuthorizationRespelled header header
  | bearer {spaces : List Char} {token token' : String} : spaces ≠ [] →
      (∀ c ∈ spaces, isJsSpace c = true) → Respelled token token' →
        AuthorizationRespelled (some ("Bearer" ++ String.ofList spaces ++ token))
          (some ("Bearer" ++ String.ofList spaces ++ token'))

/-- The requests differ in the spelling of UUIDs only. -/
structure RequestRespelled (req req' : HttpRequest) : Prop where
  method : req'.method = req.method
  pathname : req'.pathname = req.pathname
  contentType : req'.contentType = req.contentType
  authorization : AuthorizationRespelled req.authorization req'.authorization
  xForwardedFor : req'.xForwardedFor = req.xForwardedFor
  remoteAddress : req'.remoteAddress = req.remoteAddress
  body : BodyRespelled req.body req'.body

variable {s s' self : String} {props props' acl acl' : Props} {data data' : Json}
  {R : String → Json → Json → Prop} {L : Libraries} {cfg : Config} {user : VaultUser}
  {env env' : Envelope} {req req' : HttpRequest}

theorem Respelled.uuid (h : Respelled s s') : isUuid s' = true := by
  rw [← sameUser_uuid h.2]
  exact h.1

theorem hexDigit_notSpace {c : Char} (h : isHexDigit c = true) : isJsSpace c = false := by
  simp only [isHexDigit, Bool.or_eq_true, Bool.and_eq_true, decide_eq_true_eq, Char.le_def,
    UInt32.le_iff_toNat_le] at h
  have hval : c.val.toNat = c.toNat := rfl
  have hdigits : '0'.val.toNat = 48 ∧ '9'.val.toNat = 57 := ⟨rfl, rfl⟩
  have hlower : 'a'.val.toNat = 97 ∧ 'f'.val.toNat = 102 := ⟨rfl, rfl⟩
  have hupper : 'A'.val.toNat = 65 ∧ 'F'.val.toNat = 70 := ⟨rfl, rfl⟩
  simp only [isJsSpace, List.mem_cons, List.not_mem_nil, or_false, Bool.or_eq_false_iff,
    decide_eq_false_iff_not, Bool.and_eq_false_iff]
  omega

theorem uuid_notSpace (h : isUuid s = true) : ∀ c ∈ s.toList, isJsSpace c = false := by
  intro c hc
  rcases AclNormal.uuid_char h hc with hhex | rfl
  · exact hexDigit_notSpace hhex
  · decide

theorem uuid_ne_nil (h : isUuid s = true) : s.toList ≠ [] := by
  intro hnil
  rw [isUuid, hnil] at h
  cases h

/-- A UUID after `Bearer` and white space is the token. -/
theorem bearer_uuid {spaces : List Char} (hspaces : spaces ≠ [])
    (hblank : ∀ c ∈ spaces, isJsSpace c = true) (huuid : isUuid s = true) :
    bearer ("Bearer" ++ String.ofList spaces ++ s) = some s := by
  have hchars := uuid_notSpace huuid
  have hlist : ("Bearer" ++ String.ofList spaces ++ s).toList =
      "Bearer".toList ++ (spaces ++ s.toList) := by
    simp
  have hlength : "Bearer".toList.length = 6 := rfl
  have hcredential : (spaces ++ s.toList).dropWhile isJsSpace = s.toList := by
    rw [List.dropWhile_append_of_pos hblank]
    cases hs : s.toList with
    | nil => rfl
    | cons c rest =>
      have hc := hchars c (hs ▸ List.mem_cons_self)
      simp [hc]
  have hnone : s.toList.any isJsSpace = false := by
    rw [List.any_eq_false]
    intro c hc
    simp [hchars c hc]
  have hpos := List.length_pos_iff.mpr hspaces
  have htake : ("Bearer".toList ++ (spaces ++ s.toList)).take 6 = "Bearer".toList := by
    rw [← hlength, List.take_left]
  have hdrop : ("Bearer".toList ++ (spaces ++ s.toList)).drop 6 = spaces ++ s.toList := by
    rw [← hlength, List.drop_left]
  have hne := uuid_ne_nil huuid
  simp only [bearer, hlist, htake, hdrop, hcredential, hnone, List.length_append, Bool.not_false,
    and_true, true_and]
  rw [if_pos ⟨by omega, hne⟩, String.ofList_toList]

theorem authenticate_respelled (h : RequestRespelled req req') (claimedUser : String) :
    authenticate L cfg req' claimedUser = authenticate L cfg req claimedUser := by
  simp only [authenticate, h.xForwardedFor, h.remoteAddress]
  generalize hheader : req.authorization = header
  generalize hheader' : req'.authorization = header'
  have hcase := h.authorization
  rw [hheader, hheader'] at hcase
  cases hcase with
  | same => rfl
  | bearer hspaces hblank htoken =>
    have hhash : tokenHash L _ = tokenHash L _ := congrArg L.sha256 htoken.2.symm
    simp only [Option.getD_some, bearer_uuid hspaces hblank htoken.1,
      bearer_uuid hspaces hblank htoken.uuid, htoken.1, htoken.uuid]
    rw [hhash]

theorem Fields.keys (h : Fields R props props') : keys props' = keys props := by
  induction h with
  | nil => rfl
  | cons hentry _ ih =>
    simp only [JsValue.keys, List.map_cons] at ih ⊢
    rw [hentry.1, ih]

theorem Fields.lookup (h : Fields R props props') (name : String) :
    Option.Rel (R name) (props.lookup name) (props'.lookup name) := by
  induction h with
  | nil => exact Option.Rel.none
  | @cons e e' _ _ hentry _ ih =>
    obtain ⟨m, v⟩ := e
    obtain ⟨m', v'⟩ := e'
    obtain ⟨hname, hvalue⟩ := hentry
    dsimp only at hname hvalue
    subst hname
    by_cases hm : name = m
    · subst hm
      rw [List.lookup_cons_self, List.lookup_cons_self]
      exact Option.Rel.some hvalue
    · have hne : (name == m) = false := by simpa using hm
      rw [List.lookup_cons, List.lookup_cons, hne]
      exact ih

theorem parseUuid_respelled (h : Respelled s s') :
    parseUuid (some (.str s')) = parseUuid (some (.str s)) := by
  have hlower : toLowerCase s = toLowerCase s' := h.2
  simp only [parseUuid, h.1, h.uuid, if_true, hlower]

theorem requireKid_respelled (h : Respelled s s') :
    requireKid (some (.str s')) = requireKid (some (.str s)) := by
  have hlower : toLowerCase s = toLowerCase s' := h.2
  simp only [requireKid, h.1, h.uuid, if_true, hlower]

/-- The validation reads users in lower case. -/
theorem validateEntries_respelled (h : AclRespelled acl acl') (normalized : AclMap) (owners : Nat) :
    validateEntries acl' normalized owners = validateEntries acl normalized owners := by
  induction h generalizing normalized owners with
  | nil => rfl
  | @cons e e' _ _ hentry _ ih =>
    obtain ⟨m, v⟩ := e
    obtain ⟨m', v'⟩ := e'
    obtain ⟨hname, hvalue⟩ := hentry
    dsimp only at hname hvalue
    subst hvalue
    have hread : isUuid m' = isUuid m ∧ toLowerCase m' = toLowerCase m := by
      rcases hname with rfl | hspelled
      · exact ⟨rfl, rfl⟩
      · exact ⟨hspelled.uuid.trans hspelled.1.symm, hspelled.2.symm⟩
    simp only [validateEntries, hread.1, hread.2, ih]

theorem validateAcl_respelled (h : AclRespelled acl acl') :
    validateAcl (.obj acl') = validateAcl (.obj acl) := by
  simp only [validateAcl, validateEntries_respelled h]

theorem AclRespelled.lower (h : AclRespelled acl acl') :
    acl'.map (fun e => toLowerCase e.1) = acl.map (fun e => toLowerCase e.1) := by
  induction h with
  | nil => rfl
  | cons hentry _ ih =>
    rw [List.map_cons, List.map_cons, ih]
    rcases hentry.1 with hname | hspelled
    · rw [hname]
    · have hlower : toLowerCase _ = toLowerCase _ := hspelled.2
      rw [hlower]

theorem AclRespelled.filter {p : String → Bool} (h : AclRespelled acl acl')
    (hp : ∀ s s', Respelled s s' → p s' = p s) :
    AclRespelled (acl.filter (fun e => p e.1)) (acl'.filter (fun e => p e.1)) := by
  induction h with
  | nil => exact List.Forall₂.nil
  | @cons e e' _ _ hentry _ ih =>
    have hsame : p e'.1 = p e.1 := by
      rcases hentry.1 with hname | hspelled
      · rw [hname]
      · exact hp _ _ hspelled
    rw [List.filter_cons, List.filter_cons, hsame]
    by_cases hkept : p e.1 = true
    · rw [if_pos hkept, if_pos hkept]
      exact List.Forall₂.cons hentry ih
    · rw [if_neg hkept, if_neg hkept]
      exact ih

/-- The first entry of the caller, in any spelling. -/
def ownEntry (self : String) (acl : Props) : Option (String × Json) :=
  acl.find? (fun e => toLowerCase e.1 == self)

def otherEntries (self : String) (acl : Props) : Props :=
  acl.filter (fun e => !(toLowerCase e.1 == self))

/-- The caller's classes come last, with `owner` among them. -/
def withSelf (self : String) (others : Props) : Json → Except String Props
  | .arr ops => .ok (others ++
      [(self, .arr (ops ++ if ops.contains (.str "owner") then [] else [.str "owner"]))])
  | _ => .error "ACL ops must be an array"

theorem ownEntry_respelled (h : AclRespelled acl acl') :
    (ownEntry self acl').map Prod.snd = (ownEntry self acl).map Prod.snd := by
  induction h with
  | nil => rfl
  | @cons e e' _ _ hentry _ ih =>
    have hlower : toLowerCase e'.1 = toLowerCase e.1 := by
      rcases hentry.1 with hname | hspelled
      · rw [hname]
      · exact hspelled.2.symm
    simp only [ownEntry, List.find?_cons, hlower] at ih ⊢
    cases toLowerCase e.1 == self with
    | true => simp [hentry.2]
    | false => exact ih

/-- Where no two users coincide, the merge depends on the users in lower case only. -/
theorem mergeSelf_eq (hdistinct : CaseDistinct acl) (hself : toLowerCase self = self) :
    mergeSelf self acl = withSelf self (otherEntries self (deleteProp acl "__proto__"))
      ((ownEntry self (deleteProp acl "__proto__")).elim (.arr []) Prod.snd) := by
  have hnodup : (JsValue.keys acl).Nodup := by
    have hmap : (JsValue.keys acl).map toLowerCase = acl.map (fun e => toLowerCase e.1) := by
      simp [JsValue.keys, Function.comp_def]
    exact List.Nodup.of_map toLowerCase (hmap ▸ hdistinct)
  have hcopy := nodup_deleteProp hnodup "__proto__"
  have hlower : CaseDistinct (deleteProp acl "__proto__") :=
    hdistinct.sublist (List.filter_sublist.map _)
  have hfind : (JsValue.keys (deleteProp acl "__proto__")).find? (fun u => toLowerCase u == self) =
      (ownEntry self (deleteProp acl "__proto__")).map Prod.fst := by
    rw [JsValue.keys, List.find?_map]
    rfl
  simp only [mergeSelf, objectAssign_nil hnodup, hfind]
  generalize deleteProp acl "__proto__" = copy at hcopy hlower ⊢
  have hnew : ∀ v, setProp (otherEntries self copy) self v = otherEntries self copy ++
      [(self, v)] := by
    intro v
    apply setProp_new
    intro hmem
    obtain ⟨e, he, heq⟩ := List.mem_map.mp hmem
    have hother := (List.mem_filter.mp he).2
    rw [heq, hself] at hother
    simp at hother
  cases hown : ownEntry self copy with
  | none =>
    have hall : otherEntries self copy = copy := by
      refine List.filter_eq_self.mpr fun e he => ?_
      have hnot := List.find?_eq_none.mp hown e he
      simpa using hnot
    have hset := hnew
    rw [hall] at hset ⊢
    simp only [Option.map_none, Option.elim_none, hset, withSelf]
  | some e =>
    obtain ⟨k, v⟩ := e
    have hmem : (k, v) ∈ copy := List.mem_of_find?_eq_some hown
    have hk : toLowerCase k = self := by simpa using List.find?_some hown
    have hrest : deleteProp copy k = otherEntries self copy := by
      refine List.filter_congr fun e he => ?_
      have hiff : e.1 = k ↔ toLowerCase e.1 = self := by
        constructor
        · rintro rfl
          exact hk
        · intro heq
          have hentry := List.inj_on_of_nodup_map hlower he hmem (heq.trans hk.symm)
          rw [hentry]
      by_cases hek : e.1 = k
      · simp [hek, hk]
      · have hne := mt hiff.mpr hek
        simp [hek, hne]
    simp only [Option.map_some, Option.elim_some, lookup_of_mem hcopy hmem, Option.getD_some, hrest,
      hnew]
    cases v <;> rfl

theorem explicitAcl_respelled (hdistinct : CaseDistinct acl) (h : AclRespelled acl acl')
    (hself : toLowerCase self = self) :
    explicitAcl self (.obj acl') = explicitAcl self (.obj acl) := by
  have hdistinct' : CaseDistinct acl' := by
    rw [CaseDistinct, h.lower]
    exact hdistinct
  have hproto : ∀ s s', Respelled s s' → (!(s' == "__proto__")) = !(s == "__proto__") := by
    intro s s' hspelled
    have hne : ∀ u, isUuid u = true → (u == "__proto__") = false := by
      intro u hu
      rw [beq_eq_false_iff_ne]
      rintro rfl
      cases hu
    rw [hne s hspelled.1, hne s' hspelled.uuid]
  have hcopy : AclRespelled (deleteProp acl "__proto__") (deleteProp acl' "__proto__") :=
    h.filter hproto
  have hothers : AclRespelled (otherEntries self (deleteProp acl "__proto__"))
      (otherEntries self (deleteProp acl' "__proto__")) :=
    hcopy.filter (p := fun u => !(toLowerCase u == self)) fun s s' hspelled => by
      have hlower : toLowerCase s = toLowerCase s' := hspelled.2
      rw [hlower]
  have hown : (ownEntry self (deleteProp acl' "__proto__")).map Prod.snd =
      (ownEntry self (deleteProp acl "__proto__")).map Prod.snd := ownEntry_respelled hcopy
  have helim : ∀ o : Option (String × Json),
      o.elim (.arr []) Prod.snd = (o.map Prod.snd).getD (.arr []) := by
    intro o
    cases o <;> rfl
  simp only [explicitAcl, mergeSelf_eq hdistinct hself, mergeSelf_eq hdistinct' hself, helim, hown]
  cases ((ownEntry self (deleteProp acl "__proto__")).map Prod.snd).getD (.arr []) with
  | arr ops =>
    have hself : AclRespelled [(self, .arr (ops ++ if ops.contains (.str "owner") then [] else
        [.str "owner"]))] _ := List.Forall₂.cons ⟨Or.inl rfl, rfl⟩ List.Forall₂.nil
    exact validateAcl_respelled (List.rel_append hothers hself)
  | _ => rfl

/-- What the operations read of their data does not depend on the spelling. -/
structure SameReading (data data' : Json) : Prop where
  props : ∀ allowed, checkProps data' allowed = checkProps data allowed
  plain : data'.isPlainObject = data.isPlainObject
  kid : requireKid (data'.get? "kid") = requireKid (data.get? "kid")
  someKid : (data'.get? "kid").isSome = (data.get? "kid").isSome
  auditKid : dataKid data' = dataKid data
  acl : ∀ self, toLowerCase self = self →
    (data'.get? "acl").map (explicitAcl self) = (data.get? "acl").map (explicitAcl self)
  others : ∀ name, name ≠ "kid" → name ≠ "acl" → data'.get? name = data.get? name

theorem DataRespelled.cases {name : String} {v v' : Json} (h : DataRespelled name v v') :
    v' = v ∨ (name = "kid" ∧ ∃ s s', v = .str s ∧ v' = .str s' ∧ Respelled s s') ∨
      (name = "acl" ∧ ∃ acl acl', v = .obj acl ∧ v' = .obj acl' ∧ CaseDistinct acl ∧
        AclRespelled acl acl') := by
  cases h with
  | same => exact Or.inl rfl
  | kid hspelled => exact Or.inr (Or.inl ⟨rfl, _, _, rfl, rfl, hspelled⟩)
  | acl hdistinct hspelled => exact Or.inr (Or.inr ⟨rfl, _, _, rfl, rfl, hdistinct, hspelled⟩)

theorem sameReading (h : Fields DataRespelled props props') :
    SameReading (.obj props) (.obj props') := by
  have hkid : props'.lookup "kid" = props.lookup "kid" ∨
      ∃ s s', props.lookup "kid" = some (.str s) ∧
      props'.lookup "kid" = some (.str s') ∧ Respelled s s' := by
    have hlookup := h.lookup "kid"
    generalize props.lookup "kid" = found, props'.lookup "kid" = found' at hlookup ⊢
    cases hlookup with
    | none => exact Or.inl rfl
    | some hvalue =>
      obtain rfl | ⟨-, s, s', rfl, rfl, hspelled⟩ | ⟨hname, -⟩ := hvalue.cases
      · exact Or.inl rfl
      · exact Or.inr ⟨s, s', rfl, rfl, hspelled⟩
      · exact absurd hname (by decide)
  refine ⟨fun allowed => ?_, rfl, ?_, ?_, ?_, fun self hself => ?_, fun name hne hne' => ?_⟩
  · simp only [checkProps, h.keys]
  · rw [get?_obj, get?_obj]
    rcases hkid with hsame | ⟨s, s', hs, hs', hspelled⟩
    · rw [hsame]
    · rw [hs, hs', requireKid_respelled hspelled]
  · rw [get?_obj, get?_obj]
    rcases hkid with hsame | ⟨s, s', hs, hs', -⟩
    · rw [hsame]
    · rw [hs, hs', Option.isSome_some, Option.isSome_some]
  · rw [dataKid, dataKid, get?_obj, get?_obj]
    rcases hkid with hsame | ⟨s, s', hs, hs', hspelled⟩
    · rw [hsame]
    · rw [hs, hs', parseUuid_respelled hspelled]
  · have hlookup := h.lookup "acl"
    rw [get?_obj, get?_obj]
    generalize props.lookup "acl" = found, props'.lookup "acl" = found' at hlookup ⊢
    cases hlookup with
    | none => rfl
    | some hvalue =>
      obtain rfl | ⟨hname, -⟩ | ⟨-, acl, acl', rfl, rfl, hdistinct, hspelled⟩ := hvalue.cases
      · rfl
      · exact absurd hname (by decide)
      · rw [Option.map_some, Option.map_some, explicitAcl_respelled hdistinct hspelled hself]
  · have hlookup := h.lookup name
    rw [get?_obj, get?_obj]
    generalize props.lookup name = found, props'.lookup name = found' at hlookup ⊢
    cases hlookup with
    | none => rfl
    | some hvalue =>
      obtain rfl | ⟨hname, -⟩ | ⟨hname, -⟩ := hvalue.cases
      · rfl
      · exact absurd hname hne
      · exact absurd hname hne'

namespace SameReading

theorem refl (data : Json) : SameReading data data where
  props _ := rfl
  plain := rfl
  kid := rfl
  someKid := rfl
  auditKid := rfl
  acl _ _ := rfl
  others _ _ _ := rfl

variable (h : SameReading data data')

include h

theorem resolveKid (header : Json) :
    Handlers.resolveKid (data'.get? "kid") header =
      Handlers.resolveKid (data.get? "kid") header := by
  simp only [Handlers.resolveKid, requestKid, h.kid, h.someKid]

theorem resolveAcl : Handlers.resolveAcl user data' = Handlers.resolveAcl user data := by
  have hacl := h.acl (toLowerCase user.userId) (toLowerCase_toLowerCase user.userId)
  simp only [Handlers.resolveAcl]
  cases hget : data.get? "acl" with
  | none =>
    rw [hget, Option.map_none, Option.map_eq_none_iff] at hacl
    rw [hacl]
  | some acl =>
    rw [hget, Option.map_some] at hacl
    obtain ⟨acl', hget', hsame⟩ := Option.map_eq_some_iff.mp hacl
    rw [hget']
    simp only [hsame]

theorem generateKey : Handlers.generateKey cfg user data' = Handlers.generateKey cfg user data := by
  have hread : ∀ name ∈ ["alg", "kty", "crv", "keyLength", "nbf", "exp", "returnPublicKey"],
      data'.get? name = data.get? name := by
    intro name hname
    apply h.others
    · rintro rfl
      exact absurd hname (by decide)
    · rintro rfl
      exact absurd hname (by decide)
  simp only [List.forall_mem_cons] at hread
  obtain ⟨halg, hkty, hcrv, hlength, hnbf, hexp, hpublic, -⟩ := hread
  have hspec : generateKeySpec user data' = generateKeySpec user data := by
    simp only [generateKeySpec, h.props, resolveKeyGenParams, h.plain, halg, hkty, hcrv, hlength]
  have htimes : ∀ now, checkTimes data' now = checkTimes data now := by
    intro now
    simp only [checkTimes, hnbf, hexp]
  have hreturn : ∀ spec, checkReturnPublicKey data' spec = checkReturnPublicKey data spec := by
    intro spec
    simp only [checkReturnPublicKey, hpublic]
  have hresult : ∀ acl generated,
      generateKeyResult data' acl generated = generateKeyResult data acl generated := by
    intro acl generated
    simp only [generateKeyResult, hpublic, hnbf, hexp]
  simp only [Handlers.generateKey, hspec, htimes, hreturn, h.resolveAcl, hresult, hnbf, hexp]

/-- Each operation is the same program. -/
theorem handler (op : Operation) :
    Handlers.handler L cfg user data' op = Handlers.handler L cfg user data op := by
  have htoken : data'.get? "token" = data.get? "token" := h.others _ (by decide) (by decide)
  have hdata : data'.get? "data" = data.get? "data" := h.others _ (by decide) (by decide)
  have hcompress : data'.get? "compress" = data.get? "compress" :=
    h.others _ (by decide) (by decide)
  cases op with
  | healthcheck => simp only [Handlers.handler, healthcheck, h.props]
  | generateKey => exact h.generateKey
  | publicKey => simp only [Handlers.handler, publicKey, h.props, h.kid]
  | createJwt =>
    simp only [Handlers.handler, createJwt, h.props, h.kid]
    rw [hdata]
  | verifyJwt => simp only [Handlers.handler, verifyJwt, h.props, h.resolveKid, htoken]
  | createJwe =>
    simp only [Handlers.handler, createJwe, h.props, h.kid]
    rw [hdata, hcompress]
  | decryptJwe => simp only [Handlers.handler, decryptJwe, h.props, h.resolveKid, htoken]
  | revokeKey => simp only [Handlers.handler, revokeKey, h.props, h.kid]
  | exportKey => simp only [Handlers.handler, exportKey, h.props, h.kid]
  | listKeys => simp only [Handlers.handler, Handlers.listKeys, h.props]

theorem lookupHandler {request : String} {f : VaultUser → Json → Api HandlerResult}
    (hf : Server.lookupHandler L cfg request = some f) : f user data' = f user data := by
  unfold Server.lookupHandler at hf
  cases hop : Operation.ofRequest request with
  | some op =>
    rw [hop] at hf
    cases hf
    exact h.handler op
  | none =>
    rw [hop] at hf
    dsimp only at hf
    split at hf
    · cases hf
      rfl
    · cases hf

end SameReading

/-- The same envelope, up to the spelling inside its data. -/
structure SameEnvelope (env env' : Envelope) : Prop where
  user : env'.user = env.user
  op : env'.op = env.op
  request : env'.request = env.request
  data : SameReading env.data env'.data

theorem SameEnvelope.appendEvents (h : SameEnvelope env env') (outcome : Outcome) :
    Server.appendEvents user env' outcome = Server.appendEvents user env outcome := by
  have hevent : eventFields user env' outcome = eventFields user env outcome := by
    simp only [eventFields, h.op, h.data.auditKid]
  have hdenied : deniedFields user env' = deniedFields user env := by
    simp only [deniedFields, h.op, h.data.auditKid]
  simp only [Server.appendEvents]
  rw [hevent, hdenied, h.request]

theorem SameEnvelope.dispatch (h : SameEnvelope env env') :
    Server.dispatch L cfg user env' = Server.dispatch L cfg user env := by
  unfold Server.dispatch
  rw [h.request]
  cases hlookup : Server.lookupHandler L cfg env.request with
  | none => rw [h.op]
  | some f =>
    have hhandler : f user env'.data = f user env.data := h.data.lookupHandler hlookup
    simp only [hhandler, h.appendEvents, h.op]

theorem EnvelopeRespelled.cases {name : String} {v v' : Json} (h : EnvelopeRespelled name v v') :
    v' = v ∨ ((name = "user" ∨ name = "op") ∧ ∃ s s', v = .str s ∧ v' = .str s' ∧ Respelled s s') ∨
      (name = "data" ∧ ∃ data data', v = .obj data ∧ v' = .obj data' ∧
        Fields DataRespelled data data') := by
  cases h with
  | same => exact Or.inl rfl
  | user hspelled => exact Or.inr (Or.inl ⟨Or.inl rfl, _, _, rfl, rfl, hspelled⟩)
  | op hspelled => exact Or.inr (Or.inl ⟨Or.inr rfl, _, _, rfl, rfl, hspelled⟩)
  | data hfields => exact Or.inr (Or.inr ⟨rfl, _, _, rfl, rfl, hfields⟩)

theorem uuid_read {name : String} (h : Fields EnvelopeRespelled props props')
    (hname : name ≠ "data") :
    parseUuid (props'.lookup name) = parseUuid (props.lookup name) := by
  have hlookup := h.lookup name
  generalize props.lookup name = found, props'.lookup name = found' at hlookup ⊢
  cases hlookup with
  | none => rfl
  | some hvalue =>
    obtain rfl | ⟨-, s, s', rfl, rfl, hspelled⟩ | ⟨hdata, -⟩ := hvalue.cases
    · rfl
    · exact parseUuid_respelled hspelled
    · exact absurd hdata hname

theorem request_read (h : Fields EnvelopeRespelled props props') :
    props'.lookup "request" = props.lookup "request" := by
  have hlookup := h.lookup "request"
  generalize props.lookup "request" = found, props'.lookup "request" = found' at hlookup ⊢
  cases hlookup with
  | none => rfl
  | some hvalue =>
    obtain rfl | ⟨hname | hname, -⟩ | ⟨hname, -⟩ := hvalue.cases
    · rfl
    · exact absurd hname (by decide)
    · exact absurd hname (by decide)
    · exact absurd hname (by decide)

theorem data_read (h : Fields EnvelopeRespelled props props') :
    props'.lookup "data" = props.lookup "data" ∨ ∃ data data',
      props.lookup "data" = some (.obj data) ∧
      props'.lookup "data" = some (.obj data') ∧ Fields DataRespelled data data' := by
  have hlookup := h.lookup "data"
  generalize props.lookup "data" = found, props'.lookup "data" = found' at hlookup ⊢
  cases hlookup with
  | none => exact Or.inl rfl
  | some hvalue =>
    obtain rfl | ⟨hname | hname, -⟩ | ⟨-, data, data', rfl, rfl, hfields⟩ := hvalue.cases
    · exact Or.inl rfl
    · exact absurd hname (by decide)
    · exact absurd hname (by decide)
    · exact Or.inr ⟨data, data', rfl, rfl, hfields⟩

/-- The envelopes are refused alike, or accepted as the same envelope. -/
theorem parseEnvelope_respelled (h : Fields EnvelopeRespelled props props') :
    (∃ response, parseEnvelope (.obj props) = .error response ∧
        parseEnvelope (.obj props') = .error response) ∨
      ∃ env env', parseEnvelope (.obj props) = .ok env ∧ parseEnvelope (.obj props') = .ok env' ∧
        SameEnvelope env env' := by
  simp only [parseEnvelope, uuid_read h (by decide : "op" ≠ "data"),
    uuid_read h (by decide : "user" ≠ "data"), h.keys, request_read h]
  cases parseUuid (props.lookup "op") with
  | none => exact Or.inl ⟨_, rfl, rfl⟩
  | some op =>
    dsimp only
    cases (JsValue.keys props).find? (fun p => !envelopeProps.contains p) with
    | some prop => exact Or.inl ⟨_, rfl, rfl⟩
    | none =>
      dsimp only
      cases parseUuid (props.lookup "user") with
      | none => exact Or.inl ⟨_, rfl, rfl⟩
      | some user =>
        cases props.lookup "request" with
        | none => exact Or.inl ⟨_, rfl, rfl⟩
        | some request =>
          cases request with
          | str request =>
            rcases data_read h with hsame | ⟨data, data', hdata, hdata', hfields⟩
            · rw [hsame]
              cases props.lookup "data" with
              | none => exact Or.inl ⟨_, rfl, rfl⟩
              | some data =>
                cases data with
                | obj data =>
                  by_cases hnamed : request ≠ ""
                  · simp only [dif_pos hnamed]
                    exact Or.inr ⟨_, _, rfl, rfl, rfl, rfl, rfl, SameReading.refl _⟩
                  · simp only [dif_neg hnamed]
                    exact Or.inl ⟨_, rfl, rfl⟩
                | _ => exact Or.inl ⟨_, rfl, rfl⟩
            · rw [hdata, hdata']
              by_cases hnamed : request ≠ ""
              · simp only [dif_pos hnamed]
                exact Or.inr ⟨_, _, rfl, rfl, rfl, rfl, rfl, sameReading hfields⟩
              · simp only [dif_neg hnamed]
                exact Or.inl ⟨_, rfl, rfl⟩
          | _ => exact Or.inl ⟨_, rfl, rfl⟩

theorem handleEnvelope_respelled (h : RequestRespelled req req') (henv : SameEnvelope env env') :
    handleEnvelope L cfg req' env' = handleEnvelope L cfg req env := by
  simp only [handleEnvelope, henv.user, henv.op, authenticate_respelled h, henv.dispatch]

theorem handleApi_respelled (h : RequestRespelled req req') :
    handleApi L cfg req' = handleApi L cfg req := by
  have hsame : ∀ env, handleEnvelope L cfg req' env = handleEnvelope L cfg req env :=
    fun env => handleEnvelope_respelled h ⟨rfl, rfl, rfl, SameReading.refl env.data⟩
  simp only [handleApi, h.contentType, hsame]
  have hbody := h.body
  generalize req.body = body, req'.body = body' at hbody ⊢
  cases hbody with
  | same => rfl
  | envelope hfields =>
    dsimp only
    rcases parseEnvelope_respelled hfields with ⟨response, hp, hp'⟩ | ⟨env, env', hp, hp', henv⟩
    · rw [hp, hp']
    · rw [hp, hp']
      dsimp only
      rw [← hsame env', handleEnvelope_respelled h henv]

/-- The two requests are one program. -/
theorem serveRequest_respelled (h : RequestRespelled req req') :
    serveRequest L cfg req' = serveRequest L cfg req := by
  simp only [serveRequest, handleRequest, h.pathname, h.method, handleApi_respelled h]

/-- Whatever the store and the faults, both requests get the same answer and leave the same
tables, cache and audit events, also when other processes run beside them. -/
theorem spelling_irrelevant (L : Libraries) (cfg : Config) (req req' : HttpRequest)
    (h : RequestRespelled req req') :
    (∀ i s, (serveRequest L cfg req').run (serve L i) s = (serveRequest L cfg req).run
      (serve L i) s) ∧
    ∀ (processes : ThreadId → Process) i, processes i = .request cfg req → ∀ w schedule,
      runs L (Function.update processes i (.request cfg req')) w schedule =
        runs L processes w schedule := by
  constructor
  · intro i s
    rw [serveRequest_respelled h]
  · intro processes i hi w schedule
    have hprograms : (fun j => (Function.update processes i (.request cfg req') j).program L) =
        fun j => (processes j).program L := by
      funext j
      by_cases hj : j = i
      · subst hj
        rw [Function.update_self, hi]
        simp only [Process.program, serveRequest_respelled h]
      · rw [Function.update_of_ne hj]
    rw [runs, runs, hprograms]

section

open Fixtures

def aliceInCapitals : String := "A11CE000-0000-4000-8000-000000000001"
def bobInCapitals : String := "B0B00000-0000-4000-8000-000000000002"
def opInCapitals : String := "D0000000-0000-4000-8000-000000000001"

def posted (token user op request : String) (data : Props) : HttpRequest where
  method := "POST"
  pathname := some "/api/v1"
  contentType := some "application/json"
  authorization := some ("Bearer" ++ String.ofList [' '] ++ token)
  xForwardedFor := none
  remoteAddress := some "127.0.0.1"
  body := .text (some (.obj [("user", .str user), ("op", .str op), ("request", .str request),
    ("data", .obj data)]))

theorem aliceRespelled : Respelled aliceId aliceInCapitals := by
  unfold Respelled SameUser
  decide +kernel

theorem bobRespelled : Respelled bobId bobInCapitals := by
  unfold Respelled SameUser
  decide +kernel

theorem opRespelled : Respelled opId opInCapitals := by
  unfold Respelled SameUser
  decide +kernel

theorem posted_respelled {token token' user user' op op' : String} (request : String)
    (htoken : Respelled token token') (huser : Respelled user user') (hop : Respelled op op')
    (hdata : Fields DataRespelled props props') :
    RequestRespelled (posted token user op request props)
      (posted token' user' op' request props') where
  method := rfl
  pathname := rfl
  contentType := rfl
  authorization := by
    have hspaces : [' '] ≠ [] := List.cons_ne_nil _ _
    have hblank : ∀ c ∈ [' '], isJsSpace c = true := by
      intro c hc
      rw [List.mem_singleton.mp hc]
      decide
    exact .bearer hspaces hblank htoken
  xForwardedFor := rfl
  remoteAddress := rfl
  body := .envelope (.cons ⟨rfl, .user huser⟩ (.cons ⟨rfl, .op hop⟩ (.cons ⟨rfl, .same _ _⟩
    (.cons ⟨rfl, .data hdata⟩ .nil))))

/-- A key shared with Alice, generated by Bob in small letters or in capitals. -/
theorem capitals_irrelevant :
    let req := posted bobId bobId opId "generate-key" [("alg", .str "HS256"),
      ("acl", .obj [(aliceId, .arr [.str "verify"]), (bobId, .arr [.str "sign"])])]
    let req' := posted bobInCapitals bobInCapitals opInCapitals "generate-key"
      [("alg", .str "HS256"),
      ("acl", .obj [(aliceInCapitals, .arr [.str "verify"]), (bobInCapitals, .arr [.str "sign"])])]
    (∀ i s, (serveRequest bare config req').run (serve bare i) s =
        (serveRequest bare config req).run (serve bare i) s) ∧
      ∀ (processes : ThreadId → Process) i, processes i = .request config req → ∀ w schedule,
        runs bare (Function.update processes i (.request config req')) w schedule =
          runs bare processes w schedule := by
  have hdistinct : CaseDistinct [(aliceId, .arr [.str "verify"]), (bobId, .arr [.str "sign"])] := by
    unfold CaseDistinct
    decide +kernel
  intro req req'
  refine spelling_irrelevant bare config req req'
    (posted_respelled "generate-key" bobRespelled bobRespelled opRespelled ?_)
  refine .cons ⟨rfl, .same _ _⟩ (.cons ⟨rfl, .acl hdistinct ?_⟩ .nil)
  exact .cons ⟨Or.inr aliceRespelled, rfl⟩ (.cons ⟨Or.inr bobRespelled, rfl⟩ .nil)

end

end UuidSpellings
