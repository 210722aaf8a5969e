import KeyVault.AllowedAddresses
import KeyVault.ProxyChain

/-!
# Spellings of one address

An IPv6 address has many texts. The client side unwraps one of them, `::ffff:` before a
dotted quad, into an IPv4 address; every other text of the same address, and every entry
of allowedIP, is read by its value in its own family. So the verdict depends on the
spelling exactly where that one text meets another.
-/

namespace AddressSpellings

open JsValue IpMatch AddressGrammar AllowedAddresses ProxyChain Numerals

/-- The text that `normIp` unwraps: `::ffff:`, in any case, and a dotted quad. -/
def isUnwrapped (t : String) : Bool :=
  let cs := trimChars t.toList
  (cs.take mappedPrefix.length).map Char.toLower == mappedPrefix &&
    (dottedQuad (cs.drop mappedPrefix.length)).isSome

theorem dropWhile_head {p : Char → Bool} {cs : List Char} (h : ∀ c ∈ cs.head?, p c = false) :
    cs.dropWhile p = cs := by
  cases cs with
  | nil => rfl
  | cons c rest => simp [h c rfl]

@[simp] theorem trimChars_trimChars (cs : List Char) : trimChars (trimChars cs) = trimChars cs := by
  have hfirst : ∀ l : List Char, ∀ c ∈ (l.dropWhile isJsSpace).head?, isJsSpace c = false := by
    intro l c hc
    have hne : l.dropWhile isJsSpace ≠ [] := by
      rintro heq
      simp [heq] at hc
    have hhead := List.head_dropWhile_not isJsSpace hne
    rw [List.head?_eq_some_head hne] at hc
    cases hc
    simpa using hhead
  generalize hbody : cs.dropWhile isJsSpace = body
  generalize hback : body.reverse.dropWhile isJsSpace = back
  have htrim : trimChars cs = back.reverse := by
    rw [trimChars, hbody, hback]
  have hfront : ∀ c ∈ back.reverse.head?, isJsSpace c = false := by
    intro c hc
    have hstart : back.reverse <+: body := by
      rw [← List.reverse_suffix, List.reverse_reverse, ← hback]
      exact List.dropWhile_suffix isJsSpace
    apply hfirst cs
    rw [hbody]
    obtain ⟨more, rfl⟩ := hstart
    cases hrev : back.reverse with
    | nil => simp [hrev] at hc
    | cons d rest => simpa [hrev] using hc
  have hend : ∀ c ∈ back.head?, isJsSpace c = false := by
    rw [← hback]
    exact hfirst body.reverse
  rw [htrim, trimChars, dropWhile_head hfront, List.reverse_reverse, dropWhile_head hend]

theorem normIp_unwrapped {t : String} (h : isUnwrapped t = true) :
    normIp t = some (String.ofList ((trimChars t.toList).drop mappedPrefix.length)) := by
  have hne : (trimChars t.toList).isEmpty = false := by
    rw [List.isEmpty_eq_false_iff]
    intro hnil
    rw [isUnwrapped, hnil] at h
    cases h
  simp only [isUnwrapped] at h
  simp only [normIp, hne, Bool.false_eq_true, if_false, h, if_true]

theorem normIp_plain {t : String} (h : isUnwrapped t = false) (hne : trimChars t.toList ≠ []) :
    normIp t = some (String.ofList (trimChars t.toList)) := by
  have hnonempty : (trimChars t.toList).isEmpty = false := by simpa using hne
  simp only [isUnwrapped] at h
  simp only [normIp, hnonempty, Bool.false_eq_true, if_false, h]

/-- The first of the IPv4-mapped addresses. -/
def mappedBase : Nat := 0xffff00000000

theorem map_toLower_quad {q : List Char} (h : ∀ c ∈ q, c.isDigit = true ∨ c = '.') :
    q.map Char.toLower = q := by
  calc q.map Char.toLower = q.map id := List.map_congr_left (fun c hc => toLower_quadChar (h c hc))
    _ = q := List.map_id q

theorem dottedQuad_chars {q : List Char} (h : (dottedQuad q).isSome = true) :
    '.' ∈ q ∧ ∀ c ∈ q, c.isDigit = true ∨ c = '.' := by
  obtain ⟨parts, hparts⟩ := Option.isSome_iff_exists.mp h
  obtain ⟨hlength, htexts, rfl⟩ := (dottedQuad_iff q parts).mp hparts
  constructor
  · match parts, hlength with
    | p :: r :: rest, _ => simp [List.intercalate_cons_cons]
  · intro c hc
    rcases mem_of_mem_intercalate hc with hdot | ⟨p, hp, hc⟩
    · exact Or.inr hdot
    · exact Or.inl (((isOctetText_iff p).mp (htexts p hp)).2 c hc)

theorem colon_notMem_quad {q : List Char} (h : ∀ c ∈ q, c.isDigit = true ∨ c = '.') : ':' ∉ q := by
  intro hmem
  rcases h ':' hmem with hdigit | hdot
  · cases hdigit
  · cases hdot

/-- An unwrapped text denotes the IPv4-mapped address of the dotted quad that is left. -/
theorem unwrapped_value {t : String} {v : Nat} (h : isUnwrapped t = true)
    (hv : parseIPv6 t = some v) :
    ∃ q octets, normIp t = some (String.ofList q) ∧ Quad q octets ∧
      v = mappedBase + horner 256 octets := by
  refine ⟨(trimChars t.toList).drop mappedPrefix.length, ?_⟩
  have hnorm := normIp_unwrapped h
  simp only [isUnwrapped, Bool.and_eq_true, beq_iff_eq] at h
  obtain ⟨hstart, hdotted⟩ := h
  generalize htail : (trimChars t.toList).drop mappedPrefix.length = q at *
  obtain ⟨hdot, hchars⟩ := dottedQuad_chars hdotted
  have htext : normalized t = [':', ':', 'f', 'f', 'f', 'f'] ++ [':'] ++ q := by
    have hcut := List.take_append_drop mappedPrefix.length (trimChars t.toList)
    rw [normalized, ← hcut, List.map_append, hstart, htail, map_toLower_quad hchars]
    rfl
  have hparse := hv
  rw [parseIPv6_eq] at hparse
  obtain ⟨cs', hunfold, hjoin⟩ := Option.bind_eq_some_iff.mp hparse
  obtain ⟨values, hspells, -⟩ := (expandGroups_iff cs' v).mp hjoin
  rcases unfoldTail_cases hunfold with rfl | ⟨head, q', a, b, c, d, hsame, hq, -⟩
  · -- the dot is still there, so the groups cannot be read
    exact absurd (by simp [htext, hdot]) hspells.dot_notMem
  · have hlast : q' = q := by
      have hfields := congrArg (List.splitOn ':') (hsame.symm.trans htext)
      rw [List.append_assoc, List.append_assoc, List.singleton_append, List.singleton_append,
        List.splitOn_append_cons_self, List.splitOn_append_cons_self,
        List.splitOn_eq_singleton hq.colon_notMem,
        List.splitOn_eq_singleton (colon_notMem_quad hchars)] at hfields
      simpa using congrArg List.getLast? hfields
    subst hlast
    have hffff : Groups [['f', 'f', 'f', 'f']] [65535] := groups_of_texts (by decide)
    have hwritten : Written ([['f', 'f', 'f', 'f']] ++ [q'])
        ([65535] ++ [a * 256 + b, c * 256 + d]) := .dotted hffff hq
    have hspelled := Spells.compressed .nil hwritten (by simp)
    have hvalue : parseIPv6 t =
        some (horner 65536 [0, 0, 0, 0, 0, 65535, a * 256 + b, c * 256 + d]) := by
      refine (parseIPv6_iff t _).mpr ⟨_, ?_, rfl⟩
      rw [htext]
      simpa [List.intercalate_cons_cons] using hspelled
    rw [hv, Option.some.injEq] at hvalue
    refine ⟨[a, b, c, d], hnorm, hq, ?_⟩
    rw [hvalue]
    simp only [horner, List.foldl_cons, List.foldl_nil, mappedBase]
    omega

/-- Any other text of an IPv6 address is kept, and read as one. -/
theorem plain_value {t : String} {v : Nat} (h : isUnwrapped t = false) (hv : parseIPv6 t = some v) :
    normIp t = some (String.ofList (trimChars t.toList)) ∧
      parseAddr (trimChars t.toList) = some (.v6, v) := by
  obtain ⟨values, hspells, -⟩ := (parseIPv6_iff t v).mp hv
  have hcolon := colon_mem_spelled hspells
  obtain ⟨c, hc, hlower⟩ := List.mem_map.mp hcolon
  have hne : trimChars t.toList ≠ [] := List.ne_nil_of_mem hc
  have hnone : parseIPv4Chars (trimChars t.toList) = none := by
    by_contra hsome
    obtain ⟨a, ha⟩ := Option.ne_none_iff_exists'.mp hsome
    obtain ⟨octets, hq, -⟩ := (parseIPv4_iff _ a).mp ha
    rw [trimChars_trimChars] at hq
    have hkept := toLower_quadChar (hq.chars c hc)
    rw [hlower] at hkept
    exact hq.colon_notMem (hkept ▸ hc)
  refine ⟨normIp_plain h hne, ?_⟩
  have hread : parseIPv6Chars (trimChars t.toList) = some v := by
    rw [← hv, parseIPv6, parseIPv6Chars, parseIPv6Chars, trimChars_trimChars]
  simp [parseAddr, hnone, hread]

/-- Where a client's text stands: it is the socket peer, or one entry of the header. -/
inductive Delivery where
  | peer (xff : Option String)
  | entry (peer before after : Option String)

/-- The client address of a request with this text. -/
def deliver (d : Delivery) (t : String) (hops : Int) : Option String :=
  match d with
  | .peer xff => deriveClientIp (some t) xff hops
  | .entry peer before after =>
    deriveClientIp peer
      (some ((before.map (· ++ ",")).getD "" ++ t ++ (after.map ("," ++ ·)).getD "")) hops

/-- The decision of `authenticate` on a client address. -/
def allows (clientIp : Option String) (allowedList : Option Json) : Bool :=
  clientIp.any (fun ip => ipAllowed ip allowedList)

theorem splitComma_comma (front back : String) :
    splitComma (front ++ "," ++ back) = splitComma front ++ splitComma back := by
  have htext : (front ++ "," ++ back).toList = front.toList ++ ',' :: back.toList := by
    simp [String.toList_append]
  rw [splitComma, htext, List.splitOn_append_cons_self]
  simp [splitComma]

/-- The other entries of the header do not depend on the text. -/
theorem entries_around (before after : Option String) : ∃ front back : List String,
    ∀ t ip, IsAddress t → normIp t = some ip →
      entries (some ((before.map (· ++ ",")).getD "" ++ t ++ (after.map ("," ++ ·)).getD "")) =
        front ++ ip :: back := by
  refine ⟨((before.map splitComma).getD []).filterMap normIp,
    ((after.map splitComma).getD []).filterMap normIp, fun t ip ht hip => ?_⟩
  have hsplit : splitComma
      ((before.map (· ++ ",")).getD "" ++ t ++ (after.map ("," ++ ·)).getD "") =
        (before.map splitComma).getD [] ++ t :: (after.map splitComma).getD [] := by
    have hself := splitComma_commaFree ht.commaFree
    have hback : splitComma (t ++ (after.map ("," ++ ·)).getD "") =
        t :: (after.map splitComma).getD [] := by
      cases after with
      | none => simpa using hself
      | some back => simpa [String.append_assoc, hself] using splitComma_comma t back
    cases before with
    | none => simpa using hback
    | some front =>
      have hall := splitComma_comma front (t ++ (after.map ("," ++ ·)).getD "")
      rw [hback, ← String.append_assoc] at hall
      exact hall
  have hne : (before.map (· ++ ",")).getD "" ++ t ++ (after.map ("," ++ ·)).getD "" ≠ "" := by
    intro heq
    rw [heq] at hsplit
    have hblank : t ∈ splitComma "" := by
      rw [hsplit]
      simp
    have hempty : splitComma "" = [""] := by decide
    rw [hempty, List.mem_singleton] at hblank
    subst hblank
    exact ht.nonblank (by decide)
  simp only [entries, hne, if_false, hsplit, List.filterMap_append, List.filterMap_cons, hip]

theorem getD_insert {α : Type} (front back : List α) (x y d : α) {m : Nat} (h : m ≠ front.length) :
    (front ++ x :: back).getD m d = (front ++ y :: back).getD m d := by
  simp only [List.getD_eq_getElem?_getD]
  by_cases hlt : m < front.length
  · rw [List.getElem?_append_left hlt, List.getElem?_append_left hlt]
  · obtain ⟨k, hk⟩ : ∃ k, m - front.length = k + 1 := ⟨m - front.length - 1, by omega⟩
    rw [List.getElem?_append_right (by omega), List.getElem?_append_right (by omega), hk,
      List.getElem?_cons_succ, List.getElem?_cons_succ]

/-- The depth selects the delivered text, or something that does not depend on it. -/
theorem deliver_cases (d : Delivery) (hops : Int) :
    (∀ t, IsAddress t → deliver d t hops = normIp t) ∨
      ∃ clientIp, ∀ t, IsAddress t → deliver d t hops = clientIp := by
  cases d with
  | peer xff =>
    simp only [deliver, deriveClientIp_eq, Option.bind_some]
    by_cases hpeer : min hops.toNat (entries xff).length = 0
    · left
      intro t ht
      simp [hpeer]
    · right
      obtain ⟨m, hm⟩ := Nat.exists_eq_succ_of_ne_zero hpeer
      have hlt : m < ((entries xff).reverse.map some).length := by
        simp only [List.length_map, List.length_reverse]
        omega
      refine ⟨((entries xff).reverse.map some)[m], fun t ht => ?_⟩
      rw [hm, List.getD_eq_getElem?_getD, Nat.succ_eq_add_one, List.getElem?_cons_succ,
        List.getElem?_eq_getElem hlt]
      simp
  | entry peer before after =>
    obtain ⟨front, back, hentries⟩ := entries_around before after
    let first := peer.bind normIp
    have hlist : ∀ t ip, IsAddress t → normIp t = some ip →
        deliver (.entry peer before after) t hops =
          (((first :: back.reverse.map some) ++ some ip :: front.reverse.map some).getD
            (min hops.toNat (front.length + 1 + back.length)) none).or first := by
      intro t ip ht hip
      have hlength : (front ++ ip :: back).length = front.length + 1 + back.length := by
        simp only [List.length_append, List.length_cons]
        omega
      rw [deliver, deriveClientIp_eq, hentries t ip ht hip, hlength]
      simp [first]
    by_cases hindex : min hops.toNat (front.length + 1 + back.length) =
        (first :: back.reverse.map some).length
    · left
      intro t ht
      obtain ⟨ip, hip⟩ := normIp_isSome ht.nonblank
      rw [hlist t ip ht hip, hindex, hip, List.getD_eq_getElem?_getD,
        List.getElem?_append_right le_rfl]
      simp
    · right
      refine ⟨(((first :: back.reverse.map some) ++ none :: front.reverse.map some).getD
        (min hops.toNat (front.length + 1 + back.length)) none).or first, fun t ht => ?_⟩
      obtain ⟨ip, hip⟩ := normIp_isSome ht.nonblank
      rw [hlist t ip ht hip, getD_insert _ _ (some ip) none none hindex]

/-- A spelling of an IPv6 address can stand in a header. -/
theorem isAddress_of_spelling {t : String} {v : Nat} (h : parseIPv6 t = some v) : IsAddress t := by
  obtain ⟨values, hspells, -⟩ := (parseIPv6_iff t v).mp h
  constructor
  · have hcolon := colon_mem_spelled hspells
    obtain ⟨c, hc, -⟩ := List.mem_map.mp hcolon
    exact List.ne_nil_of_mem hc
  · intro hcomma
    have hmem : ',' ∈ normalized t :=
      List.mem_map.mpr ⟨',', mem_trimChars (by decide) hcomma, by decide⟩
    exact absurd (hspells.addressChars ',' hmem) (by decide)

theorem ipAllowed_congr {ip ip' : String} (h : parseAddr ip.toList = parseAddr ip'.toList)
    (allowedList : Option Json) : ipAllowed ip allowedList = ipAllowed ip' allowedList := by
  simp only [ipAllowed, h]

theorem quad_addr {q : List Char} {octets : List Nat} (h : Quad q octets) :
    parseAddr q = some (.v4, horner 256 octets) := by
  have hread : parseIPv4Chars q = some (horner 256 octets) :=
    (parseIPv4_iff q _).mpr ⟨octets, h.trim.symm ▸ h, rfl⟩
  simp only [parseAddr, hread]

/-- Two texts of one address that are both unwrapped, or both kept, are read alike. -/
theorem same_reading {t₁ t₂ : String} {v : Nat} (h₁ : parseIPv6 t₁ = some v)
    (h₂ : parseIPv6 t₂ = some v) (hsame : isUnwrapped t₁ = isUnwrapped t₂)
    (allowedList : Option Json) :
    allows (normIp t₁) allowedList = allows (normIp t₂) allowedList := by
  cases hwrap : isUnwrapped t₁ with
  | true =>
    obtain ⟨q₁, o₁, hnorm₁, hq₁, hv₁⟩ := unwrapped_value hwrap h₁
    obtain ⟨q₂, o₂, hnorm₂, hq₂, hv₂⟩ := unwrapped_value (hsame ▸ hwrap) h₂
    have hvalue : horner 256 o₁ = horner 256 o₂ := by omega
    have haddr : parseAddr (String.ofList q₁).toList = parseAddr (String.ofList q₂).toList := by
      rw [String.toList_ofList, String.toList_ofList, quad_addr hq₁, quad_addr hq₂, hvalue]
    simp only [hnorm₁, hnorm₂, allows, Option.any_some, ipAllowed_congr haddr]
  | false =>
    obtain ⟨hnorm₁, haddr₁⟩ := plain_value hwrap h₁
    obtain ⟨hnorm₂, haddr₂⟩ := plain_value (hsame ▸ hwrap) h₂
    have haddr : parseAddr (String.ofList (trimChars t₁.toList)).toList =
        parseAddr (String.ofList (trimChars t₂.toList)).toList := by
      rw [String.toList_ofList, String.toList_ofList, haddr₁, haddr₂]
    simp only [hnorm₁, hnorm₂, allows, Option.any_some, ipAllowed_congr haddr]

theorem ipAllowed_single {ip : String} {e : Json} {d : Entry} {f : Family} {a : Nat}
    (haddr : parseAddr ip.toList = some (f, a)) (hd : parseEntry e = some d) :
    ipAllowed ip (some (.arr [e])) = true ↔ f = family d ∧ a ∈ addresses d := by
  simp only [ipAllowed, haddr, List.any_cons, List.any_nil, Bool.or_false, hd]
  exact matchEntry_iff (parseEntry_sound hd).2.1 (parseAddr_lt haddr)

/-- The text of a dotted quad is an entry for its address. -/
theorem quad_entry {q : List Char} {octets : List Nat} (h : Quad q octets) :
    parseEntry (.str (String.ofList q)) = some (.addr .v4 (horner 256 octets)) := by
  have hslash : '/' ∉ q := by
    intro hmem
    rcases h.chars '/' hmem with hdigit | hdot
    · cases hdigit
    · cases hdot
  have hdash : q.contains '-' = false := by
    rw [Bool.eq_false_iff, ne_eq, List.contains_iff_mem]
    intro hmem
    rcases h.chars '-' hmem with hdigit | hdot
    · cases hdigit
    · cases hdot
  rw [parseEntry, String.toList_ofList, h.trim, parseEntryText, List.splitOn_eq_singleton hslash]
  simp only [parseEntryText.rangeOrAddr, hdash, quad_addr h, Bool.false_eq_true, if_false,
    Option.map_some]

/-- An unwrapped text and another one of the same address are told apart by an entry for
the IPv4 address. -/
theorem told_apart {t₁ t₂ : String} {v : Nat} (h₁ : parseIPv6 t₁ = some v)
    (h₂ : parseIPv6 t₂ = some v) (hwrap₁ : isUnwrapped t₁ = true)
    (hwrap₂ : isUnwrapped t₂ = false) : ∃ allowedList,
      allows (normIp t₁) allowedList = true ∧ allows (normIp t₂) allowedList = false := by
  obtain ⟨q, octets, hnorm₁, hq, -⟩ := unwrapped_value hwrap₁ h₁
  obtain ⟨hnorm₂, haddr₂⟩ := plain_value hwrap₂ h₂
  have hentry := quad_entry hq
  refine ⟨some (.arr [.str (String.ofList q)]), ?_, ?_⟩
  · rw [hnorm₁]
    have haddr : parseAddr (String.ofList q).toList = some (.v4, horner 256 octets) := by
      rw [String.toList_ofList]
      exact quad_addr hq
    simp only [allows, Option.any_some]
    exact (ipAllowed_single haddr hentry).mpr ⟨rfl, Set.mem_singleton _⟩
  · rw [hnorm₂]
    have haddr : parseAddr (String.ofList (trimChars t₂.toList)).toList = some (.v6, v) := by
      rw [String.toList_ofList]
      exact haddr₂
    simp only [allows, Option.any_some, Bool.eq_false_iff]
    intro hallowed
    obtain ⟨hfamily, -⟩ := (ipAllowed_single haddr hentry).mp hallowed
    cases hfamily

/-- The verdict on a client is the same for two spellings of its address, wherever they
are delivered, exactly when both are unwrapped or both are kept. -/
theorem client_spelling_iff {t₁ t₂ : String} {v : Nat} (h₁ : parseIPv6 t₁ = some v)
    (h₂ : parseIPv6 t₂ = some v) :
    (∀ d hops allowedList, allows (deliver d t₁ hops) allowedList =
      allows (deliver d t₂ hops) allowedList) ↔ isUnwrapped t₁ = isUnwrapped t₂ := by
  constructor
  · intro hsame
    have hpeer : ∀ t allowedList,
        allows (deliver (.peer none) t 0) allowedList = allows (normIp t) allowedList := by
      intro t allowedList
      simp [deliver, deriveClientIp_eq]
    cases hwrap₁ : isUnwrapped t₁ <;> cases hwrap₂ : isUnwrapped t₂
    · rfl
    · obtain ⟨allowedList, hyes, hno⟩ := told_apart h₂ h₁ hwrap₂ hwrap₁
      have := hsame (.peer none) 0 allowedList
      rw [hpeer, hpeer, hyes, hno] at this
      cases this
    · obtain ⟨allowedList, hyes, hno⟩ := told_apart h₁ h₂ hwrap₁ hwrap₂
      have := hsame (.peer none) 0 allowedList
      rw [hpeer, hpeer, hyes, hno] at this
      cases this
    · rfl
  · intro hsame d hops allowedList
    rcases deliver_cases d hops with htext | ⟨clientIp, hother⟩
    · rw [htext t₁ (isAddress_of_spelling h₁), htext t₂ (isAddress_of_spelling h₂)]
      exact same_reading h₁ h₂ hsame allowedList
    · rw [hother t₁ (isAddress_of_spelling h₁), hother t₂ (isAddress_of_spelling h₂)]

/-- The 128-bit address of an entry for a single address; IPv4 addresses are mapped. -/
def denotes : Entry → Option Nat
  | .addr .v4 addr => some (mappedBase + addr)
  | .addr .v6 addr => some addr
  | _ => none

theorem denotes_inj {d₁ d₂ : Entry} {w : Nat} (h₁ : denotes d₁ = some w) (h₂ : denotes d₂ = some w)
    (hfamily : family d₁ = family d₂) : d₁ = d₂ := by
  match d₁, d₂, h₁, h₂ with
  | .addr .v4 a, .addr .v4 b, h₁, h₂ =>
    simp only [denotes, Option.some.injEq] at h₁ h₂
    have hab : a = b := by omega
    rw [hab]
  | .addr .v6 a, .addr .v6 b, h₁, h₂ =>
    simp only [denotes, Option.some.injEq] at h₁ h₂
    rw [h₁, h₂]
  | .addr .v4 _, .addr .v6 _, _, _ => cases hfamily
  | .addr .v6 _, .addr .v4 _, _, _ => cases hfamily

/-- An IPv4 entry admits its own address, and the mapped IPv6 entry does not. -/
theorem entries_told_apart {e₁ e₂ : Json} {a w : Nat} (p₁ : parseEntry e₁ = some (.addr .v4 a))
    (p₂ : parseEntry e₂ = some (.addr .v6 w)) : ∃ peer,
      allows (deriveClientIp (some peer) none 0) (some (.arr [e₁])) = true ∧
        allows (deriveClientIp (some peer) none 0) (some (.arr [e₂])) = false := by
  obtain ⟨-, -, text, a', hreads, ha⟩ := parseEntry_sound p₁
  obtain ⟨octets, hq, rfl⟩ := hreads.quad
  have hplain : isUnwrapped (String.ofList (trimChars text)) = false := by
    rw [Bool.eq_false_iff]
    intro hwrap
    simp only [isUnwrapped, String.toList_ofList, Bool.and_eq_true, beq_iff_eq,
      trimChars_trimChars] at hwrap
    have hcolon : ':' ∈ ((trimChars text).take mappedPrefix.length).map Char.toLower := by
      rw [hwrap.1]
      decide
    obtain ⟨c, hc, hlower⟩ := List.mem_map.mp hcolon
    have hmem := List.mem_of_mem_take hc
    rw [toLower_quadChar (hq.chars c hmem)] at hlower
    exact hq.colon_notMem (hlower ▸ hmem)
  have hnonempty : trimChars (String.ofList (trimChars text)).toList ≠ [] := by
    rw [String.toList_ofList, trimChars_trimChars]
    intro hnil
    have hdot := (dottedQuad_chars hq.isQuad).1
    rw [hnil] at hdot
    cases hdot
  have hclient : deriveClientIp (some (String.ofList (trimChars text))) none 0 =
      some (String.ofList (trimChars text)) := by
    rw [deriveClientIp_eq, Option.bind_some, normIp_plain hplain hnonempty, String.toList_ofList,
      trimChars_trimChars]
    rfl
  have haddr : parseAddr (String.ofList (trimChars text)).toList =
      some (.v4, horner 256 octets) := by
    rw [String.toList_ofList]
    exact quad_addr hq
  refine ⟨String.ofList (trimChars text), ?_, ?_⟩
  · simp only [hclient, allows, Option.any_some]
    exact (ipAllowed_single haddr p₁).mpr ⟨rfl, ha⟩
  · simp only [hclient, allows, Option.any_some, Bool.eq_false_iff]
    intro hallowed
    obtain ⟨hfamily, -⟩ := (ipAllowed_single haddr p₂).mp hallowed
    cases hfamily

/-- One entry for a single address can stand for another one of the same address exactly
when both are written in the same family. -/
theorem entry_spelling_iff {e₁ e₂ : Json} {d₁ d₂ : Entry} {w : Nat}
    (p₁ : parseEntry e₁ = some d₁) (p₂ : parseEntry e₂ = some d₂) (w₁ : denotes d₁ = some w)
    (w₂ : denotes d₂ = some w) :
    (∀ peer xff hops before after,
      allows (deriveClientIp peer xff hops) (some (.arr (before ++ e₁ :: after))) =
        allows (deriveClientIp peer xff hops) (some (.arr (before ++ e₂ :: after)))) ↔
      family d₁ = family d₂ := by
  constructor
  · intro hsame
    match d₁, d₂, w₁, w₂ with
    | .addr .v4 _, .addr .v4 _, _, _ => rfl
    | .addr .v6 _, .addr .v6 _, _, _ => rfl
    | .addr .v4 _, .addr .v6 _, _, _ =>
      obtain ⟨peer, hyes, hno⟩ := entries_told_apart p₁ p₂
      have := hsame (some peer) none 0 [] []
      rw [List.nil_append, List.nil_append, hyes, hno] at this
      cases this
    | .addr .v6 _, .addr .v4 _, _, _ =>
      obtain ⟨peer, hyes, hno⟩ := entries_told_apart p₂ p₁
      have := hsame (some peer) none 0 [] []
      rw [List.nil_append, List.nil_append, hyes, hno] at this
      cases this
  · intro hfamily peer xff hops before after
    have hentry := denotes_inj w₁ w₂ hfamily
    have hparse : parseEntry e₁ = parseEntry e₂ := by rw [p₁, p₂, hentry]
    have hallowed : ∀ ip, ipAllowed ip (some (.arr (before ++ e₁ :: after))) =
        ipAllowed ip (some (.arr (before ++ e₂ :: after))) := by
      intro ip
      simp only [ipAllowed, List.any_append, List.any_cons, hparse]
    simp only [allows, hallowed]

/-- The decision depends neither on the spelling of the client's address nor on that of a
single-address entry exactly when `normIp` unwraps both spellings of the client or none,
and the entries are written in the same family. -/
theorem spelling_iff {t₁ t₂ : String} {v : Nat} (h₁ : parseIPv6 t₁ = some v)
    (h₂ : parseIPv6 t₂ = some v) {e₁ e₂ : Json} {d₁ d₂ : Entry} {w : Nat}
    (p₁ : parseEntry e₁ = some d₁) (p₂ : parseEntry e₂ = some d₂) (w₁ : denotes d₁ = some w)
    (w₂ : denotes d₂ = some w) :
    ((∀ d hops allowedList, allows (deliver d t₁ hops) allowedList =
        allows (deliver d t₂ hops) allowedList) ∧
      ∀ peer xff hops before after,
        allows (deriveClientIp peer xff hops) (some (.arr (before ++ e₁ :: after))) =
          allows (deriveClientIp peer xff hops) (some (.arr (before ++ e₂ :: after)))) ↔
      isUnwrapped t₁ = isUnwrapped t₂ ∧ family d₁ = family d₂ :=
  and_congr (client_spelling_iff h₁ h₂) (entry_spelling_iff p₁ p₂ w₁ w₂)

theorem spelling_compressed :
    (∀ d hops allowedList, allows (deliver d "2001:db8::1" hops) allowedList =
        allows (deliver d "2001:DB8:0:0:0:0:0:1" hops) allowedList) ∧
      ∀ peer xff hops before after,
        allows (deriveClientIp peer xff hops) (some (.arr (before ++ .str "::1" :: after))) =
          allows (deriveClientIp peer xff hops)
            (some (.arr (before ++ .str "0:0::0.0.0.1" :: after))) := by
  have hclient : parseIPv6 "2001:db8::1" = some 0x20010db8000000000000000000000001 := by
    decide +kernel
  have hclient' : parseIPv6 "2001:DB8:0:0:0:0:0:1" = some 0x20010db8000000000000000000000001 := by
    decide +kernel
  have hentry : parseEntry (.str "::1") = some (.addr .v6 1) := by decide +kernel
  have hentry' : parseEntry (.str "0:0::0.0.0.1") = some (.addr .v6 1) := by decide +kernel
  exact (spelling_iff hclient hclient' hentry hentry' rfl rfl).mpr ⟨by decide +kernel, rfl⟩

/-- A list with the IPv4 address admits one spelling of the client and refuses another;
a list with the mapped entry refuses the very text that it holds. -/
theorem spelling_matters :
    allows (deliver (.peer none) "::ffff:1.2.3.4" 0) (some (.arr [.str "1.2.3.4"])) = true ∧
      allows (deliver (.peer none) "::ffff:102:304" 0) (some (.arr [.str "1.2.3.4"])) = false ∧
      parseIPv6 "::ffff:1.2.3.4" = parseIPv6 "::ffff:102:304" ∧
      allows (deliver (.peer none) "::ffff:1.2.3.4" 0)
        (some (.arr [.str "::ffff:1.2.3.4"])) = false := by
  decide +kernel

end AddressSpellings
