import KeyVault.AclNormal
import KeyVault.AdminOptions
import KeyVault.AllowedAddresses
import KeyVault.CoOwners
import KeyVault.UserUpdates

/-!
# Profiles

A profile is what an administrator says about a user, in terms of addresses, times,
operations and people. The `data` document of the user row represents it, and the checks
on the account decide what the profile says.
-/

namespace Profiles

open JsValue Acl Errors Programs Vault KeyStore Handlers IpMatch ServerAuth KvAdmin AllowedAddresses
  AdminOptions

structure Profile where
  /-- The addresses from which the user may call. -/
  addresses : Set (Family × Nat)
  notBefore : Option Nat
  expiry : Option Nat
  /-- The permitted operations, unless all are. -/
  mask : Option (Set OpClass)
  coOwners : Set String
  dated : ∀ n, notBefore = some n ∨ expiry = some n → timestampMin ≤ n ∧ n ≤ timestampMax
  masked : ∀ m, mask = some m → .owner ∉ m
  named : ∀ u ∈ coOwners, ∃ text, uuidCb text = some u

namespace Profile

/-- A user at this address may use the account at this time. -/
structure Admits (P : Profile) (ip : String) (now : Nat) : Prop where
  started : ∀ n, P.notBefore = some n → n ≤ now
  unexpired : ∀ n, P.expiry = some n → now ≤ n
  located : ∃ f a, Reads ip.toList f a ∧ (f, a) ∈ P.addresses

def Allows (P : Profile) (c : OpClass) : Prop := ∀ m, P.mask = some m → c ∈ m

/-- Nobody may use the account, for anything but nothing is masked. -/
def blank : Profile where
  addresses := ∅
  notBefore := none
  expiry := none
  mask := none
  coOwners := ∅
  dated := by rintro n (h | h) <;> cases h
  masked := by rintro m ⟨⟩
  named := by rintro u ⟨⟩

end Profile

/-- The addresses that the entries of a list stand for. -/
def within (texts : List String) : Set (Family × Nat) :=
  {p | ∃ s S, s ∈ texts ∧ Denotes (trimChars s.toList) p.1 S ∧ p.2 ∈ S}

def everywhere : Set (Family × Nat) := {p | p.2 < 2 ^ width p.1}

theorem within_allowAll : within allowAllList = everywhere := by
  have h4 : parseEntry (.str "0.0.0.0/0") = some (.cidr .v4 0 0) := by decide
  have h6 : parseEntry (.str "0::/0") = some (.cidr .v6 0 0) := by decide
  ext ⟨f, a⟩
  have hlt : ∀ f, a / 2 ^ (width f - 0) = 0 / 2 ^ (width f - 0) ↔ a < 2 ^ width f := by
    intro f
    rw [Nat.sub_zero, Nat.zero_div, Nat.div_eq_zero_iff_lt (Nat.two_pow_pos _)]
  constructor
  · rintro ⟨s, S, hs, hdenotes, ha⟩
    obtain ⟨d, hd, hf, rfl⟩ := (parseEntry_denotes s f S).mpr hdenotes
    rcases List.mem_cons.mp hs with rfl | hs
    · rw [h4] at hd
      cases hd
      cases hf
      exact (hlt .v4).mp ha
    · rw [List.mem_singleton.mp hs, h6] at hd
      cases hd
      cases hf
      exact (hlt .v6).mp ha
  · intro ha
    have hdenotes : ∀ {s d}, parseEntry (.str s) = some d →
        Denotes (trimChars s.toList) (family d) (addresses d) :=
      fun hd => (parseEntry_denotes _ _ _).mp ⟨_, hd, rfl, rfl⟩
    cases f with
    | v4 => exact ⟨_, _, List.mem_cons_self, hdenotes h4, (hlt .v4).mpr ha⟩
    | v6 => exact ⟨_, _, List.mem_cons_of_mem _ List.mem_cons_self, hdenotes h6, (hlt .v6).mpr ha⟩

/-- The options are parsed, and the mask, if there is one, consists of maskable classes. -/
structure Valid (o : Opts) : Prop where
  parsed : Parsed o
  unowned : OpClass.name .owner ∉ o.allowedOps

/-- The profile as the options change it. -/
def Profile.edited (P : Profile) (o : Opts) (h : Valid o) : Profile where
  addresses :=
    if o.allowAll then everywhere else if o.allowedIP = [] then P.addresses else within o.allowedIP
  notBefore := if o.clearNbf then none else o.nbf.or P.notBefore
  expiry := if o.clearExp then none else o.exp.or P.expiry
  mask := if o.clearAllowedOps then none else
    if o.allowedOps = [] then P.mask else some {c | c.name ∈ o.allowedOps}
  coOwners := if o.clearCoOwners then ∅ else
    if o.coOwner = [] then P.coOwners else {u | u ∈ o.coOwner}
  dated := by
    rintro n (hn | hn)
    · split at hn
      · cases hn
      · rcases Option.or_eq_some_iff.mp hn with hn | ⟨-, hn⟩
        · exact h.parsed.nbf n hn
        · exact P.dated n (Or.inl hn)
    · split at hn
      · cases hn
      · rcases Option.or_eq_some_iff.mp hn with hn | ⟨-, hn⟩
        · exact h.parsed.exp n hn
        · exact P.dated n (Or.inr hn)
  masked := by
    intro m hm
    split at hm
    · cases hm
    · split at hm
      · exact P.masked m hm
      · cases hm
        exact h.unowned
  named := by
    intro u hu
    split at hu
    · cases hu
    · split at hu
      · exact P.named u hu
      · exact h.parsed.coOwner u hu

/-- The `allowedIP` property stands for a set of addresses. -/
def IsAddresses (v : Option Json) (A : Set (Family × Nat)) : Prop :=
  ∃ texts, v = some (strings texts) ∧ (∀ s ∈ texts, (parseEntry (.str s)).isSome = true) ∧
    within texts = A

/-- The `allowedOps` property stands for a mask; there is none where all is permitted. -/
def IsMask (v : Option Json) (mask : Option (Set OpClass)) : Prop :=
  (v = none ∧ mask = none) ∨
    ∃ classes : List OpClass, v = some (strings (classes.map OpClass.name)) ∧ classes.Nodup ∧
      mask = some {c | c ∈ classes}

/-- The `coOwners` property stands for a set of users; it is never empty. -/
def IsOwners (v : Option Json) (owners : Set String) : Prop :=
  (v = none ∧ owners = ∅) ∨
    ∃ users, v = some (strings users) ∧ users.Nodup ∧ owners = {u | u ∈ users}

/-- The properties of the document say what the profile does. -/
structure Says (props : Props) (P : Profile) : Prop where
  tidy : UserUpdates.Tidy props
  addresses : IsAddresses (props.lookup "allowedIP") P.addresses
  notBefore : props.lookup "nbf" = secondsClaim P.notBefore
  expiry : props.lookup "exp" = secondsClaim P.expiry
  mask : IsMask (props.lookup "allowedOps") P.mask
  coOwners : IsOwners (props.lookup "coOwners") P.coOwners

def Represents (data : Json) (P : Profile) : Prop := ∃ props, data = .obj props ∧ Says props P

theorem mem_strings {l : List String} {s : String} : Json.str s ∈ l.map Json.str ↔ s ∈ l := by
  simp

theorem isUnixTs_dated {n : Nat} (h : timestampMin ≤ n ∧ n ≤ timestampMax) :
    (Json.num n).isUnixTs = true := by
  simp only [timestampMin, timestampMax] at h
  simp only [Json.isUnixTs, decide_eq_true_eq]
  omega

variable {P : Profile} {user : VaultUser} {data : Json} {props : Props}

theorem ipAllowed_told (h : IsAddresses (props.lookup "allowedIP") P.addresses) (ip : String) :
    ipAllowed ip (props.lookup "allowedIP") = true ↔ ∃ f a, Reads ip.toList f a ∧
      (f, a) ∈ P.addresses := by
  obtain ⟨texts, htexts, -, haddresses⟩ := h
  rw [ipAllowed_iff, htexts, ← haddresses]
  constructor
  · rintro ⟨entries, hentries, f, a, hreads, s, S, hmem, hdenotes, ha⟩
    cases hentries
    exact ⟨f, a, hreads, s, S, mem_strings.mp hmem, hdenotes, ha⟩
  · rintro ⟨f, a, hreads, s, S, hmem, hdenotes, ha⟩
    exact ⟨_, rfl, f, a, hreads, s, S, mem_strings.mpr hmem, hdenotes, ha⟩

/-- The window of the account is that of the profile. -/
theorem notBefore_told {v : Option Json} {n : Option Nat} (hv : v = secondsClaim n)
    (hn : ∀ m, n = some m → timestampMin ≤ m ∧ m ≤ timestampMax) (now : Nat) :
    (!v.any fun nbf => nbf.isUnixTs && now < nbf.toNat) = true ↔ ∀ m, n = some m → m ≤ now := by
  subst hv
  cases n with
  | none => simp [secondsClaim]
  | some m =>
    show (!((Json.num m).isUnixTs && decide (now < m))) = true ↔ ∀ k, some m = some k → k ≤ now
    rw [isUnixTs_dated (hn m rfl)]
    simp

theorem expiry_told {v : Option Json} {n : Option Nat} (hv : v = secondsClaim n)
    (hn : ∀ m, n = some m → timestampMin ≤ m ∧ m ≤ timestampMax) (now : Nat) :
    (!v.any fun exp => exp.isUnixTs && exp.toNat < now) = true ↔ ∀ m, n = some m → now ≤ m := by
  subst hv
  cases n with
  | none => simp [secondsClaim]
  | some m =>
    show (!((Json.num m).isUnixTs && decide (m < now))) = true ↔ ∀ k, some m = some k → now ≤ k
    rw [isUnixTs_dated (hn m rfl)]
    simp

theorem admitted_iff (h : Represents user.data P) (clientIp : Option String) (now : Nat) :
    admitted user clientIp now = true ↔ ∃ ip, clientIp = some ip ∧ P.Admits ip now := by
  obtain ⟨props, hdata, htold⟩ := h
  have hnbf := notBefore_told htold.notBefore (fun m hm => P.dated m (Or.inl hm)) now
  have hexp := expiry_told htold.expiry (fun m hm => P.dated m (Or.inr hm)) now
  simp only [admitted, hdata, Json.isPlainObject, if_true, get?_obj, Bool.and_eq_true, hnbf, hexp]
  constructor
  · rintro ⟨⟨hstarted, hunexpired⟩, hlocated⟩
    cases clientIp with
    | none => cases hlocated
    | some ip =>
      exact ⟨ip, rfl, hstarted, hunexpired, (ipAllowed_told htold.addresses ip).mp hlocated⟩
  · rintro ⟨ip, rfl, hstarted, hunexpired, hlocated⟩
    exact ⟨⟨hstarted, hunexpired⟩, (ipAllowed_told htold.addresses ip).mpr hlocated⟩

theorem allowedOpsAllows_iff (h : Represents data P) (c : OpClass) :
    allowedOpsAllows data c = true ↔ P.Allows c := by
  obtain ⟨props, rfl, htold⟩ := h
  simp only [allowedOpsAllows, userAllowedOps, Json.isPlainObject, if_true,
    get?_obj, Profile.Allows]
  rcases htold.mask with ⟨hnone, hmask⟩ | ⟨classes, hclasses, -, hmask⟩
  · simp [hnone, hmask]
  · rw [hclasses, hmask]
    simp [strings, OpClass.name_injective.eq_iff]

theorem candidates_iff (h : Represents data P) (self u : String) :
    u ∈ coOwnerCandidates self data ↔ u ∈ P.coOwners ∧ u ≠ self := by
  obtain ⟨props, rfl, htold⟩ := h
  rw [CoOwners.listed_candidates]
  refine and_congr_left fun _ => ?_
  rcases htold.coOwners with ⟨hnone, howners⟩ | ⟨users, husers, -, howners⟩
  · rw [howners]
    refine ⟨?_, fun hu => absurd hu (Set.notMem_empty u)⟩
    rintro ⟨items, text, hitems, -⟩
    rw [get?_obj, hnone] at hitems
    cases hitems
  · have hlower : ∀ text ∈ users, isUuid text = true ∧ toLowerCase text = text := by
      intro text htext
      obtain ⟨original, horiginal⟩ := P.named text (by rw [howners]; exact htext)
      obtain ⟨huuid, rfl⟩ := uuidCb_lower horiginal
      exact ⟨AclNormal.isUuid_toLowerCase huuid, toLowerCase_toLowerCase original⟩
    rw [howners]
    constructor
    · rintro ⟨items, text, hitems, hmem, -, rfl⟩
      rw [get?_obj, husers] at hitems
      cases hitems
      have htext := mem_strings.mp hmem
      show toLowerCase text ∈ users
      rwa [(hlower text htext).2]
    · intro hu
      exact ⟨_, u, husers, mem_strings.mpr hu, hlower u hu⟩

variable {o : Opts} {props' : Props}

theorem lookup_deleteProp_self (props : Props) (name : String) :
    (deleteProp props name).lookup name = none := by
  rw [List.lookup_eq_none_iff]
  intro e he
  have hne : e.1 ≠ name := by simpa using (List.mem_filter.mp he).2
  simpa using Ne.symm hne

theorem editProp_ok {name conflict : String} {clear : Bool} {value : Option Json}
    (h : editProp props name clear value conflict = .ok props') :
    props'.lookup name = (if clear then none else value.or (props.lookup name)) ∧
      ∀ other, other ≠ name → props'.lookup other = props.lookup other := by
  unfold editProp at h
  cases clear with
  | true =>
    cases value with
    | some v => cases h
    | none =>
      cases h
      exact ⟨lookup_deleteProp_self props name, fun other hne => lookup_deleteProp_ne hne⟩
  | false =>
    cases h
    cases value with
    | some v => exact ⟨lookup_setProp_self props name v, fun other hne => lookup_setProp_ne v hne⟩
    | none => exact ⟨rfl, fun other _ => rfl⟩

theorem allowedIPFromOpts_ok {texts : List String} (h : allowedIPFromOpts o = .ok texts) :
    IsAddresses (some (strings texts)) (if o.allowAll then everywhere else within o.allowedIP) := by
  unfold allowedIPFromOpts at h
  split at h
  · rename_i hall
    split at h
    · cases h
    · cases h
      refine ⟨allowAllList, rfl, by decide, ?_⟩
      rw [if_pos hall, within_allowAll]
  · rename_i hall
    dsimp only at h
    split at h
    · cases h
    · rename_i hinvalid
      cases h
      refine ⟨_, rfl, fun s hs => ?_, by rw [if_neg hall]⟩
      have hnil : o.allowedIP.filter (fun e => (parseEntry (.str e)).isNone) = [] := by
        simpa using hinvalid
      have hparses := List.filter_eq_nil_iff.mp hnil s hs
      simpa [Option.isSome_iff_ne_none] using hparses

theorem validateAllowedOps_ok {ops : List String} {seen classes : List OpClass}
    (h : validateAllowedOps ops seen = .ok classes) (hseen : seen.Nodup)
    (hunowned : .owner ∉ seen) :
    classes.Nodup ∧ .owner ∉ classes ∧ ∀ c, c ∈ classes ↔ c ∈ seen ∨ c.name ∈ ops := by
  induction ops generalizing seen with
  | nil =>
    cases h
    exact ⟨hseen, hunowned, fun c => by simp⟩
  | cons op rest ih =>
    simp only [validateAllowedOps] at h
    split at h
    · cases h
    · rename_i c hc
      obtain ⟨hclass, hop⟩ := AclNormal.findClass_mem hc
      obtain rfl : op = c.name := Json.str.inj hop
      have hne : c ≠ .owner := by
        rintro rfl
        exact absurd hclass (by decide)
      by_cases hmem : c ∈ seen
      · rw [if_pos hmem] at h
        obtain ⟨hnodup, howner, hiff⟩ := ih h hseen hunowned
        refine ⟨hnodup, howner, fun d => ?_⟩
        rw [hiff, List.mem_cons, OpClass.name_injective.eq_iff]
        constructor
        · rintro (hd | hd)
          · exact Or.inl hd
          · exact Or.inr (Or.inr hd)
        · rintro (hd | rfl | hd)
          · exact Or.inl hd
          · exact Or.inl hmem
          · exact Or.inr hd
      · rw [if_neg hmem] at h
        have hnew : (seen ++ [c]).Nodup := by
          rw [List.nodup_append]
          refine ⟨hseen, List.nodup_singleton c, fun a ha b hb => ?_⟩
          rw [List.mem_singleton.mp hb]
          rintro rfl
          exact hmem ha
        obtain ⟨hnodup, howner, hiff⟩ := ih h hnew (by simpa [hunowned] using Ne.symm hne)
        refine ⟨hnodup, howner, fun d => ?_⟩
        rw [hiff, List.mem_append, List.mem_singleton, List.mem_cons, OpClass.name_injective.eq_iff,
          or_assoc]

theorem validated_ok {ops : List String} {v : Option Json}
    (h : allowedOpsFromOpts.validated ops = .ok v) :
    IsMask v (some {c | c.name ∈ ops}) ∧ OpClass.name .owner ∉ ops := by
  unfold allowedOpsFromOpts.validated at h
  split at h
  · cases h
  · rename_i classes hclasses
    cases h
    obtain ⟨hnodup, howner, hiff⟩ := validateAllowedOps_ok hclasses List.nodup_nil (by simp)
    simp only [List.not_mem_nil, false_or] at hiff
    refine ⟨Or.inr ⟨classes, rfl, hnodup, ?_⟩, fun hmem => howner ((hiff _).mpr hmem)⟩
    congr 1
    ext c
    exact (hiff c).symm

/-- `none` names no class, so it stands for the mask of the classes that it names. -/
theorem none_names {op : String} (h : toLowerCase op = "none") (c : OpClass) : c.name ∉ [op] := by
  intro hmem
  rw [← List.mem_singleton.mp hmem] at h
  cases c <;> exact absurd h (by decide)

theorem allowedOpsFromOpts_ok {v : Option Json} (h : allowedOpsFromOpts o = .ok v) :
    (o.allowedOps = [] ∧ v = none) ∨ (o.allowedOps ≠ [] ∧ v.isSome = true ∧
      IsMask v (some {c | c.name ∈ o.allowedOps}) ∧ OpClass.name .owner ∉ o.allowedOps) := by
  unfold allowedOpsFromOpts at h
  split at h
  · rename_i hnil
    cases h
    exact Or.inl ⟨hnil, rfl⟩
  · rename_i op hone
    rw [hone]
    refine Or.inr ⟨List.cons_ne_nil _ _, ?_⟩
    split at h
    · rename_i hnone
      cases h
      refine ⟨rfl, Or.inr ⟨[], rfl, List.nodup_nil, ?_⟩, none_names hnone _⟩
      congr 1
      ext c
      simpa using none_names hnone c
    · exact ⟨UserUpdates.validated_some h, validated_ok h⟩
  · rename_i hnil _
    exact Or.inr ⟨hnil, UserUpdates.validated_some h, validated_ok h⟩

theorem coOwnersFromOpts_owners (o : Opts) :
    (o.coOwner = [] ∧ coOwnersFromOpts o = none) ∨ (o.coOwner ≠ [] ∧
      (coOwnersFromOpts o).isSome = true ∧ IsOwners (coOwnersFromOpts o) {u | u ∈ o.coOwner}) := by
  unfold coOwnersFromOpts
  cases hlist : o.coOwner with
  | nil => exact Or.inl ⟨rfl, rfl⟩
  | cons u rest =>
    refine Or.inr
      ⟨List.cons_ne_nil _ _, rfl, Or.inr ⟨_, rfl, GenerateKeyRuns.eraseDups_nodup _, ?_⟩⟩
    ext v
    simp only [Set.mem_ofPred_eq, List.mem_eraseDups]

theorem editAllowedIP_ok (h : editAllowedIP o props = .ok props')
    (hold : IsAddresses (props.lookup "allowedIP") P.addresses) :
    IsAddresses (props'.lookup "allowedIP")
        (if o.allowAll then everywhere else
          if o.allowedIP = [] then P.addresses else within o.allowedIP) ∧
      ∀ other, other ≠ "allowedIP" → props'.lookup other = props.lookup other := by
  unfold editAllowedIP at h
  split at h
  · rename_i hgiven
    cases hlist : allowedIPFromOpts o with
    | error e =>
      rw [hlist] at h
      cases h
    | ok texts =>
      rw [hlist] at h
      cases h
      refine ⟨?_, fun other hne => lookup_setProp_ne _ hne⟩
      have hgiven : ¬ (o.allowAll = true) → o.allowedIP ≠ [] := by
        intro hall
        simpa [hall, List.length_pos_iff] using hgiven
      rw [lookup_setProp_self]
      have hset := allowedIPFromOpts_ok hlist
      split
      · rwa [if_pos ‹_›] at hset
      · rename_i hall
        rw [if_neg (hgiven hall)]
        rwa [if_neg hall] at hset
  · rename_i hnot
    cases h
    obtain ⟨hall, hlist⟩ := not_or.mp (fun h => hnot (by simpa using h))
    refine ⟨?_, fun other _ => rfl⟩
    rw [if_neg hall, if_pos (by simpa [List.length_pos_iff] using hlist)]
    exact hold

theorem IsMask.cleared {v : Option Json} {mask : Option (Set OpClass)} (h : IsMask v mask)
    (clear : Bool) :
    IsMask (if clear then none else v) (if clear then none else mask) := by
  cases clear with
  | true => exact Or.inl ⟨rfl, rfl⟩
  | false => exact h

theorem IsMask.edited {v w : Option Json} (hold : IsMask v P.mask)
    (hw : allowedOpsFromOpts o = .ok w) :
    IsMask (w.or v) (if o.allowedOps = [] then P.mask else some {c | c.name ∈ o.allowedOps}) := by
  rcases allowedOpsFromOpts_ok hw with ⟨hnil, rfl⟩ | ⟨hne, hsome, hmask, -⟩
  · rw [if_pos hnil]
    exact hold
  · obtain ⟨x, rfl⟩ := Option.isSome_iff_exists.mp hsome
    rw [if_neg hne]
    exact hmask

theorem IsOwners.cleared {v : Option Json} {owners : Set String} (h : IsOwners v owners)
    (clear : Bool) :
    IsOwners (if clear then none else v) (if clear then ∅ else owners) := by
  cases clear with
  | true => exact Or.inl ⟨rfl, rfl⟩
  | false => exact h

theorem IsOwners.edited {v : Option Json} (hold : IsOwners v P.coOwners) (o : Opts) :
    IsOwners ((coOwnersFromOpts o).or v)
      (if o.coOwner = [] then P.coOwners else {u | u ∈ o.coOwner}) := by
  rcases coOwnersFromOpts_owners o with ⟨hnil, hnone⟩ | ⟨hne, hsome, howners⟩
  · rw [hnone, if_pos hnil]
    exact hold
  · obtain ⟨x, hx⟩ := Option.isSome_iff_exists.mp hsome
    rw [hx] at howners ⊢
    rw [if_neg hne]
    exact howners

theorem secondsClaim_edited (clear : Bool) (given kept : Option Nat) :
    (if clear then none else (secondsClaim given).or (secondsClaim kept)) =
      secondsClaim (if clear then none else given.or kept) := by
  cases clear <;> cases given <;> rfl

theorem Profile.edited_valid {w : Option Json} (ho : Parsed o) (hw : allowedOpsFromOpts o = .ok w) :
    Valid o := by
  refine ⟨ho, ?_⟩
  rcases allowedOpsFromOpts_ok hw with ⟨hnil, -⟩ | ⟨-, -, -, hunowned⟩
  · rw [hnil]
    exact List.not_mem_nil
  · exact hunowned

/-- What the edit of a document says is the edit of what it said. -/
theorem edit_told (ho : Parsed o) (htold : Says props P)
    (h : UserUpdates.edit o props = .ok props') :
    ∃ hvalid : Valid o, Says props' (P.edited o hvalid) := by
  have htidy := (UserUpdates.edit_local o).tidy _ _ htold.tidy h
  unfold UserUpdates.edit at h
  obtain ⟨d₁, h₁, h⟩ := ok_of_bind h
  obtain ⟨d₂, h₂, h⟩ := ok_of_bind h
  obtain ⟨d₃, h₃, h⟩ := ok_of_bind h
  obtain ⟨w, hw, h⟩ := ok_of_bind h
  obtain ⟨d₄, h₄, h₅⟩ := ok_of_bind h
  obtain ⟨hip, hrest₁⟩ := editAllowedIP_ok h₁ htold.addresses
  obtain ⟨hnbf, hrest₂⟩ := editProp_ok h₂
  obtain ⟨hexp, hrest₃⟩ := editProp_ok h₃
  obtain ⟨hops, hrest₄⟩ := editProp_ok h₄
  obtain ⟨howners, hrest₅⟩ := editProp_ok h₅
  refine ⟨Profile.edited_valid ho hw, htidy, ?_, ?_, ?_, ?_, ?_⟩
  · rw [hrest₅ _ (by decide), hrest₄ _ (by decide), hrest₃ _ (by decide), hrest₂ _ (by decide)]
    exact hip
  · rw [hrest₅ _ (by decide), hrest₄ _ (by decide), hrest₃ _ (by decide), hnbf,
      hrest₁ _ (by decide),
      htold.notBefore]
    exact secondsClaim_edited _ _ _
  · rw [hrest₅ _ (by decide), hrest₄ _ (by decide), hexp, hrest₂ _ (by decide),
      hrest₁ _ (by decide),
      htold.expiry]
    exact secondsClaim_edited _ _ _
  · rw [hrest₅ _ (by decide), hops, hrest₃ _ (by decide), hrest₂ _ (by decide),
      hrest₁ _ (by decide)]
    exact (htold.mask.edited hw).cleared _
  · rw [howners, hrest₄ _ (by decide), hrest₃ _ (by decide), hrest₂ _ (by decide),
      hrest₁ _ (by decide)]
    exact (htold.coOwners.edited o).cleared _

/-- add-user knows no `--clear` options. -/
def plainly (o : Opts) : Opts :=
  { o with clearNbf := false, clearExp := false, clearAllowedOps := false, clearCoOwners := false }

theorem plainly_parsed (h : Parsed o) : Parsed (plainly o) :=
  ⟨h.user, h.kid, h.coOwner, h.nbf, h.exp⟩

theorem lookup_literal {members : List (String × Option Json)} (h : (members.map Prod.fst).Nodup)
    (name : String) : (literal members).lookup name = (members.lookup name).join := by
  induction members with
  | nil => rfl
  | cons member rest ih =>
    obtain ⟨key, value⟩ := member
    obtain ⟨habsent, hrest⟩ := List.nodup_cons.mp h
    by_cases hname : name = key
    · subst hname
      cases value with
      | none =>
        have hnone : (literal rest).lookup name = none := by
          rw [List.lookup_eq_none_iff]
          intro e he
          have hne : name ≠ e.1 := by
            rintro rfl
            exact habsent (mem_keys_literal (List.mem_map_of_mem he))
          simpa using hne
        simpa [literal] using hnone
      | some v => simp [literal]
    · have hb : (name == key) = false := by simpa using hname
      rw [List.lookup_cons, hb, ← ih hrest]
      cases value with
      | none => simp [literal]
      | some v => simp [literal, List.lookup_cons, hb]

theorem nodup_literal {members : List (String × Option Json)} (h : (members.map Prod.fst).Nodup) :
    (keys (literal members)).Nodup := by
  induction members with
  | nil => exact List.nodup_nil
  | cons member rest ih =>
    obtain ⟨habsent, hrest⟩ := List.nodup_cons.mp h
    obtain ⟨key, value⟩ := member
    cases value with
    | none => exact ih hrest
    | some v => exact List.nodup_cons.mpr ⟨fun hmem => habsent (mem_keys_literal hmem), ih hrest⟩

/-- The document of a new user says what the options do, and nothing else. -/
theorem newUserData_told (ho : Parsed o) {allowedIP : List String} {allowedOps : Option Json}
    (hip : allowedIPFromOpts o = .ok allowedIP)
    (hops : allowedOpsFromOpts o = .ok allowedOps) (now : Nat) :
    ∃ hvalid : Valid (plainly o),
      Says (newUserData o allowedIP now allowedOps) (Profile.blank.edited (plainly o) hvalid) := by
  have hnames :
      (["allowedIP", "iat", "nbf", "exp", "allowedOps", "coOwners"] : List String).Nodup := by
    decide
  have hplain :
      "__proto__" ∉ ["allowedIP", "iat", "nbf", "exp", "allowedOps", "coOwners"] := by decide
  have hlookup : ∀ name, (newUserData o allowedIP now allowedOps).lookup name =
      (List.lookup name [("allowedIP", some (strings allowedIP)), ("iat", some (.num now)),
        ("nbf", secondsClaim o.nbf), ("exp", secondsClaim o.exp), ("allowedOps", allowedOps),
        ("coOwners", coOwnersFromOpts o)]).join := by
    intro name
    unfold newUserData
    rw [lookup_literal]
    exact hnames
  have hmask : IsMask none Profile.blank.mask := Or.inl ⟨rfl, rfl⟩
  have howners : IsOwners none Profile.blank.coOwners := Or.inl ⟨rfl, rfl⟩
  have hpops : allowedOpsFromOpts (plainly o) = .ok allowedOps := hops
  refine ⟨Profile.edited_valid (plainly_parsed ho) hpops,
    ⟨nodup_literal hnames, fun hmem => hplain (mem_keys_literal hmem)⟩, ?_, ?_, ?_, ?_, ?_⟩
  · rw [hlookup]
    refine (?_ : IsAddresses _ (if o.allowAll then everywhere else
      if o.allowedIP = [] then ∅ else within o.allowedIP))
    have haddresses := allowedIPFromOpts_ok hip
    by_cases hnil : o.allowedIP = []
    · have hempty : within o.allowedIP = ∅ := by
        rw [hnil]
        ext p
        simp [within]
      rw [if_pos hnil]
      rwa [hempty] at haddresses
    · rwa [if_neg hnil]
  · rw [hlookup]
    have h := secondsClaim_edited false o.nbf none
    rwa [show secondsClaim none = none from rfl, Option.or_none] at h
  · rw [hlookup]
    have h := secondsClaim_edited false o.exp none
    rwa [show secondsClaim none = none from rfl, Option.or_none] at h
  · rw [hlookup]
    have h := hmask.edited hpops
    rwa [Option.or_none] at h
  · rw [hlookup]
    have h := howners.edited (plainly o)
    rwa [Option.or_none] at h

end Profiles
