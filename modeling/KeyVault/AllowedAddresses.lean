import KeyVault.AddressGrammar
import KeyVault.PrefixMasks

/-!
# Addresses that a list allows

The grammar of the entries of allowedIP, in which an entry denotes a set of addresses of
one family; that `parseEntry` reads exactly its texts and returns their sets; and that
`ipAllowed` decides whether a client's address lies in the set of some entry. The IPv4
prefixes are compared under a mask through 32-bit integers, the IPv6 prefixes by shifts.
-/

namespace AllowedAddresses

open JsValue IpMatch AddressGrammar Numerals

/-- The bits of an address. -/
def width : Family → Nat
  | .v4 => 32
  | .v6 => 128

def family : Entry → Family
  | .addr family _ => family
  | .range _ _ => .v4
  | .cidr family _ _ => family

/-- The addresses that an entry stands for. -/
def addresses : Entry → Set Nat
  | .addr _ addr => {addr}
  | .range start stop => Set.Icc start stop
  | .cidr family addr len =>
    {x | x / 2 ^ (width family - len) = addr / 2 ^ (width family - len)}

/-- The numbers in an entry are those of its family. -/
inductive WellFormed : Entry → Prop where
  | addr {family : Family} {addr : Nat} (haddr : addr < 2 ^ width family) :
      WellFormed (.addr family addr)
  | range {start stop : Nat} (horder : start ≤ stop) (hstop : stop < 2 ^ 32) :
      WellFormed (.range start stop)
  | cidr {family : Family} {addr len : Nat} (haddr : addr < 2 ^ width family)
      (hlen : len ≤ width family) : WellFormed (.cidr family addr len)

/-- The texts of an address, between blanks: a dotted quad, or the eight groups of an
IPv6 address in either case. -/
inductive Reads : List Char → Family → Nat → Prop where
  | v4 {cs : List Char} {octets : List Nat} (h : Quad (trimChars cs) octets) :
      Reads cs .v4 (horner 256 octets)
  | v6 {cs : List Char} {values : List Nat}
      (h : Spells Written ((trimChars cs).map Char.toLower) values) :
      Reads cs .v6 (horner 65536 values)

/-- The texts of an entry and the set of each: one address, the IPv4 addresses from one to
another, or the addresses that agree with one on a number of leading bits. -/
inductive Denotes : List Char → Family → Set Nat → Prop where
  | addr {cs : List Char} {f : Family} {a : Nat} (h : Reads cs f a) : Denotes cs f {a}
  | range {first last : List Char} {start stop : Nat} (hfirst : Reads first .v4 start)
      (hlast : Reads last .v4 stop) (horder : start ≤ stop) :
      Denotes (first ++ '-' :: last) .v4 (Set.Icc start stop)
  | cidr {addr len : List Char} {f : Family} {a : Nat} (haddr : Reads addr f a)
      (hlength : 1 ≤ len.length ∧ len.length ≤ 3) (hdigits : ∀ c ∈ len, c.isDigit = true)
      (hlen : decimalValue len ≤ width f) :
      Denotes (addr ++ '/' :: len) f
        {x | x / 2 ^ (width f - decimalValue len) = a / 2 ^ (width f - decimalValue len)}

theorem Reads.quad {cs : List Char} {a : Nat} (h : Reads cs .v4 a) :
    ∃ octets, Quad (trimChars cs) octets ∧ horner 256 octets = a := by
  cases h with
  | v4 hquad => exact ⟨_, hquad, rfl⟩

/-- No text is both a dotted quad and an IPv6 address. -/
theorem not_quad_of_spells {cs : List Char} {values octets : List Nat}
    (h : Spells Written ((trimChars cs).map Char.toLower) values) :
    ¬ Quad (trimChars cs) octets := by
  intro hquad
  obtain ⟨c, hc, hlower⟩ := List.mem_map.mp (colon_mem_spelled h)
  rw [toLower_quadChar (hquad.chars c hc)] at hlower
  exact hquad.colon_notMem (hlower ▸ hc)

/-- The punctuation of entries is foreign to addresses. -/
theorem Reads.notMem {cs : List Char} {f : Family} {a : Nat} (h : Reads cs f a) {c : Char}
    (hspace : isJsSpace c = false) (hlower : c.toLower = c) (hc : isAddressChar c = false) :
    c ∉ cs := by
  intro hmem
  have htrimmed := mem_trimChars hspace hmem
  have hchar : isAddressChar c = true := by
    cases h with
    | v4 hquad => exact hquad.addressChars c htrimmed
    | v6 hspells => exact hspells.addressChars c (List.mem_map.mpr ⟨c, htrimmed, hlower⟩)
  rw [hc] at hchar
  cases hchar

theorem Reads.slash_notMem {cs : List Char} {f : Family} {a : Nat} (h : Reads cs f a) :
    '/' ∉ cs :=
  h.notMem (by decide) (by decide) (by decide)

theorem Reads.dash_notMem {cs : List Char} {f : Family} {a : Nat} (h : Reads cs f a) :
    '-' ∉ cs :=
  h.notMem (by decide) (by decide) (by decide)

theorem Reads.ne_nil {cs : List Char} {f : Family} {a : Nat} (h : Reads cs f a) : cs ≠ [] := by
  rintro rfl
  cases h with
  | v4 hquad =>
    have hdotted := hquad.isQuad
    cases hdotted
  | v6 hspells => cases colon_mem_spelled hspells

theorem parseAddr_reads (cs : List Char) (f : Family) (a : Nat) :
    parseAddr cs = some (f, a) ↔ Reads cs f a := by
  unfold parseAddr
  constructor
  · intro h
    split at h
    · rename_i v hv
      cases h
      obtain ⟨octets, hquad, rfl⟩ := (parseIPv4_iff cs a).mp hv
      exact .v4 hquad
    · obtain ⟨w, hw, heq⟩ := Option.map_eq_some_iff.mp h
      cases heq
      obtain ⟨values, hspells, rfl⟩ := (parseIPv6Chars_iff cs a).mp hw
      exact .v6 hspells
  · intro h
    cases h with
    | v4 hquad => simp [(parseIPv4_iff cs _).mpr ⟨_, hquad, rfl⟩]
    | v6 hspells =>
      have hnone : parseIPv4Chars cs = none := by
        by_contra hsome
        obtain ⟨v, hv⟩ := Option.ne_none_iff_exists'.mp hsome
        obtain ⟨octets, hquad, -⟩ := (parseIPv4_iff cs v).mp hv
        exact not_quad_of_spells hspells hquad
      simp [hnone, (parseIPv6Chars_iff cs _).mpr ⟨_, hspells, rfl⟩]

theorem parseIPv4_reads (cs : List Char) (a : Nat) :
    parseIPv4Chars cs = some a ↔ Reads cs .v4 a := by
  rw [parseIPv4_iff]
  constructor
  · rintro ⟨octets, hquad, rfl⟩
    exact .v4 hquad
  · exact Reads.quad

theorem Reads.lt {cs : List Char} {f : Family} {a : Nat} (h : Reads cs f a) : a < 2 ^ width f := by
  cases h with
  | v4 hquad => exact parseIPv4_lt ((parseIPv4_iff cs _).mpr ⟨_, hquad, rfl⟩)
  | v6 hspells => exact value_lt hspells.eight.1 hspells.eight.2

theorem parseAddr_lt {cs : List Char} {f : Family} {a : Nat} (h : parseAddr cs = some (f, a)) :
    a < 2 ^ width f :=
  ((parseAddr_reads cs f a).mp h).lt

theorem splitOn_pair {sep : Char} {cs a b : List Char} (h : cs.splitOn sep = [a, b]) :
    cs = a ++ sep :: b := by
  have hjoined : [sep].intercalate (cs.splitOn sep) = cs := List.intercalate_splitOn sep
  rw [h] at hjoined
  simpa [List.intercalate] using hjoined.symm

theorem splitOn_append {sep : Char} {a b : List Char} (ha : sep ∉ a) (hb : sep ∉ b) :
    (a ++ sep :: b).splitOn sep = [a, b] := by
  rw [List.splitOn_append_cons_self, List.splitOn_eq_singleton ha, List.splitOn_eq_singleton hb]
  rfl

/-- What a parsed entry says of its text. -/
structure ParsedFrom (cs : List Char) (d : Entry) : Prop where
  wellFormed : WellFormed d
  denotes : Denotes cs (family d) (addresses d)

theorem rangeOrAddr_sound {cs : List Char} {d : Entry}
    (h : parseEntryText.rangeOrAddr cs = some d) : ParsedFrom cs d := by
  unfold parseEntryText.rangeOrAddr at h
  split at h
  · split at h
    · rename_i first last hsplit
      split at h
      · rename_i start stop hstart hstop
        split at h
        · cases h
        · rename_i horder
          cases h
          have hle : start ≤ stop := by omega
          have hfirst := (parseIPv4_reads first start).mp hstart
          have hlast := (parseIPv4_reads last stop).mp hstop
          exact ⟨.range hle hlast.lt, splitOn_pair hsplit ▸ .range hfirst hlast hle⟩
      · cases h
    · cases h
  · obtain ⟨⟨f, a⟩, ha, rfl⟩ := Option.map_eq_some_iff.mp h
    have hreads := (parseAddr_reads cs f a).mp ha
    exact ⟨.addr hreads.lt, .addr hreads⟩

theorem cidr_sound {cs addr len : List Char} {f : Family} {a : Nat}
    (hsplit : cs.splitOn '/' = [addr, len]) (htext : isOctetText len = true)
    (ha : parseAddr addr = some (f, a)) (hle : ¬ parseDecimal len > width f) :
    ParsedFrom cs (.cidr f a (parseDecimal len)) := by
  have hreads := (parseAddr_reads addr f a).mp ha
  obtain ⟨hlength, hdigits⟩ := (isOctetText_iff len).mp htext
  rw [parseDecimal_eq] at hle ⊢
  have hlen : decimalValue len ≤ width f := by omega
  exact ⟨.cidr hreads.lt hlen, splitOn_pair hsplit ▸ .cidr hreads hlength hdigits hlen⟩

theorem parseEntryText_sound {cs : List Char} {d : Entry} (h : parseEntryText cs = some d) :
    ParsedFrom cs d := by
  unfold parseEntryText at h
  split at h
  · rename_i addr len hsplit
    split at h
    · rename_i hshape
      have htext : isOctetText len = true := (Bool.and_eq_true_iff.mp hshape).2
      split at h
      · rename_i v hv
        split at h
        · cases h
        · rename_i hlen
          cases h
          exact cidr_sound hsplit htext hv hlen
      · rename_i v hv
        split at h
        · cases h
        · rename_i hlen
          cases h
          exact cidr_sound hsplit htext hv hlen
      · cases h
    · exact rangeOrAddr_sound h
  · exact rangeOrAddr_sound h

/-- A text without a slash is no prefix. -/
theorem parseEntryText_plain {cs : List Char} (h : '/' ∉ cs) :
    parseEntryText cs = parseEntryText.rangeOrAddr cs := by
  rw [parseEntryText, List.splitOn_eq_singleton h]

theorem parseEntryText_complete {cs : List Char} {f : Family} {S : Set Nat} (h : Denotes cs f S) :
    ∃ d, parseEntryText cs = some d ∧ family d = f ∧ addresses d = S := by
  cases h with
  | @addr _ _ a hreads =>
    refine ⟨.addr f a, ?_, rfl, rfl⟩
    have hdash : cs.contains '-' = false := by simpa using hreads.dash_notMem
    rw [parseEntryText_plain hreads.slash_notMem, parseEntryText.rangeOrAddr, hdash,
      (parseAddr_reads cs f a).mpr hreads]
    rfl
  | @range first last start stop hfirst hlast horder =>
    refine ⟨.range start stop, ?_, rfl, rfl⟩
    have hslash : '/' ∉ first ++ '-' :: last := by
      simp [hfirst.slash_notMem, hlast.slash_notMem]
    have hdash : (first ++ '-' :: last).contains '-' = true := by simp
    have hnot : ¬ start > stop := by omega
    rw [parseEntryText_plain hslash, parseEntryText.rangeOrAddr, hdash,
      splitOn_append hfirst.dash_notMem hlast.dash_notMem]
    simp only [if_true, (parseIPv4_reads first start).mpr hfirst,
      (parseIPv4_reads last stop).mpr hlast, hnot, if_false]
  | @cidr addr len _ a haddr hlength hdigits hlen =>
    refine ⟨.cidr f a (decimalValue len), ?_, rfl, rfl⟩
    have htext : isOctetText len = true := (isOctetText_iff len).mpr ⟨hlength, hdigits⟩
    have hne : (!addr.isEmpty) = true := by simpa using haddr.ne_nil
    have hslash : '/' ∉ len := notMem_octet htext (by decide)
    have hnot : ¬ decimalValue len > width f := by omega
    rw [parseEntryText, splitOn_append haddr.slash_notMem hslash]
    simp only [hne, htext, Bool.and_self, if_true, (parseAddr_reads addr f a).mpr haddr,
      parseDecimal_eq]
    cases f with
    | v4 => exact if_neg hnot
    | v6 => exact if_neg hnot

/-- `parseEntry` reads the texts of the grammar, and returns the sets that they denote. -/
theorem parseEntry_denotes (s : String) (f : Family) (S : Set Nat) :
    (∃ d, parseEntry (.str s) = some d ∧ family d = f ∧ addresses d = S) ↔
      Denotes (trimChars s.toList) f S := by
  constructor
  · rintro ⟨d, hd, rfl, rfl⟩
    exact (parseEntryText_sound hd).denotes
  · exact parseEntryText_complete

/-- An address of the set of an entry can be written. -/
theorem Denotes.inhabited {cs : List Char} {f : Family} {S : Set Nat} (h : Denotes cs f S) :
    ∃ text a, Reads text f a ∧ a ∈ S := by
  cases h with
  | addr hreads => exact ⟨_, _, hreads, rfl⟩
  | range hfirst hlast horder => exact ⟨_, _, hfirst, Set.mem_Icc.mpr ⟨le_rfl, horder⟩⟩
  | cidr haddr hlength hdigits hlen => exact ⟨_, _, haddr, rfl⟩

theorem parseEntry_sound {e : Json} {d : Entry} (h : parseEntry e = some d) :
    (∃ s, e = .str s) ∧ WellFormed d ∧ ∃ text a, Reads text (family d) a ∧ a ∈ addresses d := by
  cases e with
  | str s =>
    have hparsed := parseEntryText_sound h
    exact ⟨⟨s, rfl⟩, hparsed.wellFormed, hparsed.denotes.inhabited⟩
  | _ => cases h

theorem and32_eq {a b : Nat} (ha : a < 2 ^ 32) (hb : b < 2 ^ 32) : and32 a b = a &&& b := by
  rw [and32, BitVec.toNat_and, BitVec.toNat_ofNat, BitVec.toNat_ofNat, Nat.mod_eq_of_lt ha,
    Nat.mod_eq_of_lt hb]

/-- Under the mask of a prefix, 32-bit addresses agree when their prefixes do. -/
theorem and32_mask4_iff {a b len : Nat} (ha : a < 2 ^ 32) (hb : b < 2 ^ 32) (hpos : 0 < len)
    (hlen : len ≤ 32) :
    and32 a (mask4 len) = and32 b (mask4 len) ↔ a / 2 ^ (32 - len) = b / 2 ^ (32 - len) := by
  have hpow : 2 ^ (32 - len) < 2 ^ 32 := Nat.pow_lt_pow_right (by omega) (by omega)
  have hone : 0 < 2 ^ (32 - len) := Nat.two_pow_pos _
  have hmask : mask4 len = PrefixMasks.mask 32 (32 - len) := by
    simp only [mask4, PrefixMasks.mask]
    omega
  have hlt : mask4 len < 2 ^ 32 := by
    simp only [mask4]
    omega
  rw [and32_eq ha hlt, and32_eq hb hlt, hmask, PrefixMasks.and_mask_eq_iff (by omega) ha hb]

/-- An address matches an entry exactly when it is of the entry's family and in its set. -/
theorem matchEntry_iff {d : Entry} (hd : WellFormed d) {f : Family} {a : Nat}
    (ha : a < 2 ^ width f) : matchEntry (some d) f a = true ↔ f = family d ∧ a ∈ addresses d := by
  cases hd with
  | addr haddr =>
    simp only [matchEntry, Bool.and_eq_true, beq_iff_eq, family, addresses, Set.mem_singleton_iff]
    constructor
    · rintro ⟨rfl, rfl⟩
      exact ⟨rfl, rfl⟩
    · rintro ⟨rfl, rfl⟩
      exact ⟨rfl, rfl⟩
  | range horder hstop =>
    simp only [matchEntry, Bool.and_eq_true, beq_iff_eq, decide_eq_true_eq, family, addresses,
      Set.mem_Icc]
    constructor
    · rintro ⟨⟨rfl, hstart⟩, hend⟩
      exact ⟨rfl, hstart, hend⟩
    · rintro ⟨rfl, hstart, hend⟩
      exact ⟨⟨rfl, hstart⟩, hend⟩
  | @cidr g addr len haddr hlen =>
    simp only [matchEntry, Bool.and_eq_true, beq_iff_eq, Bool.or_eq_true, family, addresses,
      Set.mem_ofPred_eq]
    by_cases hfamily : g = f
    · subst hfamily
      by_cases hzero : len = 0
      · subst hzero
        have hwhole : a / 2 ^ (width g - 0) = addr / 2 ^ (width g - 0) := by
          rw [Nat.sub_zero, Nat.div_eq_of_lt ha, Nat.div_eq_of_lt haddr]
        exact ⟨fun _ => ⟨rfl, hwhole⟩, fun _ => ⟨rfl, Or.inl rfl⟩⟩
      · have hpos : 0 < len := by omega
        cases g with
        | v4 =>
          simp only [hzero, false_or, true_and, width, beq_iff_eq]
          exact and32_mask4_iff ha haddr hpos hlen
        | v6 => simp only [hzero, false_or, true_and, width, beq_iff_eq, Nat.shiftRight_eq_div_pow]
    · have hne : ¬ f = g := fun h => hfamily h.symm
      simp only [hfamily, hne, false_and]

/-- The client is allowed exactly when its address lies in the set of an entry of its family. -/
theorem ipAllowed_iff (ip : String) (allowedList : Option Json) :
    ipAllowed ip allowedList = true ↔ ∃ entries, allowedList = some (.arr entries) ∧
      ∃ f a, Reads ip.toList f a ∧ ∃ s S, .str s ∈ entries ∧
        Denotes (trimChars s.toList) f S ∧ a ∈ S := by
  constructor
  · intro h
    unfold ipAllowed at h
    split at h
    · rename_i entries
      split at h
      · rename_i f a haddr
        obtain ⟨e, he, hmatch⟩ := List.any_eq_true.mp h
        cases hd : parseEntry e with
        | none =>
          rw [hd] at hmatch
          cases hmatch
        | some d =>
          obtain ⟨⟨s, rfl⟩, hwell, -⟩ := parseEntry_sound hd
          rw [hd, matchEntry_iff hwell (parseAddr_lt haddr)] at hmatch
          obtain ⟨rfl, ha⟩ := hmatch
          have hdenotes := (parseEntry_denotes s _ _).mp ⟨d, hd, rfl, rfl⟩
          exact ⟨entries, rfl, _, a, (parseAddr_reads _ _ a).mp haddr, s, _, he, hdenotes, ha⟩
      · cases h
    · cases h
  · rintro ⟨entries, rfl, f, a, hreads, s, S, hmem, hdenotes, ha⟩
    obtain ⟨d, hd, rfl, rfl⟩ := (parseEntry_denotes s f S).mpr hdenotes
    have haddr := (parseAddr_reads _ _ a).mpr hreads
    have hwell := (parseEntry_sound hd).2.1
    simp only [ipAllowed, haddr]
    apply List.any_eq_true.mpr
    refine ⟨.str s, hmem, ?_⟩
    rw [hd, matchEntry_iff hwell hreads.lt]
    exact ⟨rfl, ha⟩

/-- An entry that allows nothing is one that does not parse. -/
theorem parseEntry_none_iff (e : Json) :
    parseEntry e = none ↔ ∀ ip, ipAllowed ip (some (.arr [e])) = false := by
  constructor
  · intro hnone ip
    rw [Bool.eq_false_iff]
    intro h
    obtain ⟨entries, hentries, f, a, hreads, s, S, hmem, hdenotes, -⟩ := (ipAllowed_iff ip _).mp h
    cases hentries
    obtain ⟨d, hd, -⟩ := (parseEntry_denotes s f S).mpr hdenotes
    rw [List.mem_singleton.mp hmem, hnone] at hd
    cases hd
  · intro h
    by_contra hne
    obtain ⟨d, hd⟩ := Option.ne_none_iff_exists'.mp hne
    obtain ⟨⟨s, rfl⟩, -, text, a, hreads, ha⟩ := parseEntry_sound hd
    have hdenotes := (parseEntry_denotes s _ _).mp ⟨d, hd, rfl, rfl⟩
    have hallowed := (ipAllowed_iff (String.ofList text) (some (.arr [.str s]))).mpr
      ⟨[.str s], rfl, family d, a, by rwa [String.toList_ofList], s, _,
        List.mem_singleton_self _, hdenotes, ha⟩
    rw [h (String.ofList text)] at hallowed
    cases hallowed

/-- `ipAllowed` is membership in the union of the sets that the entries' texts denote; so
neither order nor repetition nor entries outside the grammar matter, more entries allow no
less, and `validateAllowedIP` reports the entries that no client matches. -/
theorem allowed_addresses (ip : String) :
    (∀ allowedList, ipAllowed ip allowedList = true ↔ ∃ entries, allowedList = some (.arr entries) ∧
      ∃ f a, Reads ip.toList f a ∧ ∃ s S, .str s ∈ entries ∧
        Denotes (trimChars s.toList) f S ∧ a ∈ S) ∧
    (∀ entries entries' : List Json,
      (∀ s f S, .str s ∈ entries → Denotes (trimChars s.toList) f S → .str s ∈ entries') →
      ipAllowed ip (some (.arr entries)) = true → ipAllowed ip (some (.arr entries')) = true) ∧
    ∀ entries e, e ∈ validateAllowedIP entries ↔
      e ∈ entries ∧ ∀ client, ipAllowed client (some (.arr [e])) = false := by
  refine ⟨ipAllowed_iff ip, ?_, ?_⟩
  · intro entries entries' hsub h
    obtain ⟨_, hentries, f, a, hreads, s, S, hmem, hdenotes, ha⟩ := (ipAllowed_iff ip _).mp h
    cases hentries
    exact (ipAllowed_iff ip _).mpr
      ⟨entries', rfl, f, a, hreads, s, S, hsub s f S hmem hdenotes, hdenotes, ha⟩
  · intro entries e
    rw [validateAllowedIP, List.mem_filter, Option.isNone_iff_eq_none, parseEntry_none_iff]

end AllowedAddresses
