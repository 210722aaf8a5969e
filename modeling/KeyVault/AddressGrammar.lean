import KeyVault.IpMatch
import KeyVault.Numerals

/-!
# The text of addresses

The grammar of IPv4 and IPv6 addresses, and that `parseIPv4` and `parseIPv6` accept
exactly its texts and compute what they denote. A dotted quad at the end of an IPv6
address stands for two groups; the parser rewrites it into them before it counts.
-/

namespace AddressGrammar

open JsValue IpMatch Numerals

def decimalValue (cs : List Char) : Nat := horner 10 (cs.map (fun c => c.toNat - 48))

def hexValue (cs : List Char) : Nat := horner 16 (cs.map hexDigit)

/-- One to three decimal digits of at most 255. -/
structure IsOctet (cs : List Char) : Prop where
  digits : isOctetText cs = true
  le : decimalValue cs ≤ 255

/-- A dotted quad and its octets. -/
inductive Quad : List Char → List Nat → Prop where
  | dotted {a b c d : List Char} (ha : IsOctet a) (hb : IsOctet b) (hc : IsOctet c)
      (hd : IsOctet d) : Quad (['.'].intercalate [a, b, c, d])
        [decimalValue a, decimalValue b, decimalValue c, decimalValue d]

/-- Hexadecimal groups of one to four digits, and their values. -/
inductive Groups : List (List Char) → List Nat → Prop where
  | nil : Groups [] []
  | cons {g : List Char} {rest : List (List Char)} {values : List Nat}
      (hg : isGroupText g = true) (hrest : Groups rest values) :
      Groups (g :: rest) (hexValue g :: values)

/-- Groups of which the last two may be written as a dotted quad. -/
inductive Written : List (List Char) → List Nat → Prop where
  | groups {parts : List (List Char)} {values : List Nat} (h : Groups parts values) :
      Written parts values
  | dotted {parts : List (List Char)} {values : List Nat} {q : List Char} {a b c d : Nat}
      (h : Groups parts values) (hq : Quad q [a, b, c, d]) :
      Written (parts ++ [q]) (values ++ [a * 256 + b, c * 256 + d])

/-- The texts of eight groups: all of them between colons, or at most seven of them with
one `::` for the zero groups that are left out. -/
inductive Spells (W : List (List Char) → List Nat → Prop) : List Char → List Nat → Prop where
  | full {parts : List (List Char)} {values : List Nat} (h : W parts values)
      (hlength : values.length = 8) : Spells W ([':'].intercalate parts) values
  | compressed {before after : List (List Char)} {heads tails : List Nat}
      (hbefore : Groups before heads) (hafter : W after tails)
      (hlength : heads.length + tails.length ≤ 7) :
      Spells W ([':'].intercalate before ++ ':' :: ':' :: [':'].intercalate after)
        (heads ++ List.replicate (8 - heads.length - tails.length) 0 ++ tails)

/-- The eight 16-bit groups of a value. -/
def groupsOf (v : Nat) : List Nat := digits 65536 8 v

theorem parseDecimal_eq (cs : List Char) : parseDecimal cs = decimalValue cs := by
  simp only [parseDecimal, decimalValue, horner, List.foldl_map]

theorem parseHex_eq (cs : List Char) : parseHex cs = hexValue cs := by
  simp only [parseHex, hexValue, horner, List.foldl_map]

/-- What a hexadecimal digit is as a number. -/
theorem hexDigit_bounds {c : Char}
    (h : (('0' ≤ c && c ≤ '9') || ('a' ≤ c && c ≤ 'f')) = true) :
    (48 ≤ c.toNat ∧ c.toNat ≤ 57) ∨ (97 ≤ c.toNat ∧ c.toNat ≤ 102) := by
  simp only [Bool.or_eq_true, Bool.and_eq_true, decide_eq_true_eq, Char.le_def,
    UInt32.le_iff_toNat_le] at h
  exact h

theorem hexDigit_lt {c : Char}
    (h : (('0' ≤ c && c ≤ '9') || ('a' ≤ c && c ≤ 'f')) = true) : hexDigit c < 16 := by
  have hbounds := hexDigit_bounds h
  unfold hexDigit
  split
  · rename_i hdigit
    simp only [Bool.and_eq_true, decide_eq_true_eq, Char.le_def, UInt32.le_iff_toNat_le] at hdigit
    have h9 : c.toNat ≤ 57 := hdigit.2
    omega
  · omega

theorem isGroupText_iff (cs : List Char) :
    isGroupText cs = true ↔ (1 ≤ cs.length ∧ cs.length ≤ 4) ∧
      ∀ c ∈ cs, (('0' ≤ c && c ≤ '9') || ('a' ≤ c && c ≤ 'f')) = true := by
  simp only [isGroupText, Bool.and_eq_true, decide_eq_true_eq, List.all_eq_true]

theorem hexValue_lt {cs : List Char} (h : isGroupText cs = true) : hexValue cs < 65536 := by
  obtain ⟨hlength, hdigits⟩ := (isGroupText_iff cs).mp h
  have hlt : hexValue cs < 16 ^ (cs.map hexDigit).length := by
    apply horner_lt
    intro d hd
    obtain ⟨c, hc, rfl⟩ := List.mem_map.mp hd
    exact hexDigit_lt (hdigits c hc)
  rw [List.length_map] at hlt
  calc hexValue cs < 16 ^ cs.length := hlt
    _ ≤ 16 ^ 4 := Nat.pow_le_pow_right (by omega) hlength.2

theorem colon_notMem_group {g : List Char} (h : isGroupText g = true) : ':' ∉ g := by
  intro hmem
  have hbounds := hexDigit_bounds (((isGroupText_iff g).mp h).2 ':' hmem)
  have hcolon : ':'.toNat = 58 := rfl
  omega

theorem group_ne_nil {g : List Char} (h : isGroupText g = true) : g ≠ [] := by
  rintro rfl
  exact absurd ((isGroupText_iff []).mp h).1.1 (by simp)

/-- The digits that `toString(16)` writes read back. -/
theorem toDigits_hex (n : Nat) :
    (∀ c ∈ Nat.toDigits 16 n, (('0' ≤ c && c ≤ '9') || ('a' ≤ c && c ≤ 'f')) = true) ∧
      hexValue (Nat.toDigits 16 n) = n := by
  have hdigit : ∀ d : Fin 16, (('0' ≤ Nat.digitChar d && Nat.digitChar d ≤ '9') ||
      ('a' ≤ Nat.digitChar d && Nat.digitChar d ≤ 'f')) = true ∧
        hexDigit (Nat.digitChar d) = d := by
    decide
  induction n using Nat.strongRecOn with
  | _ n ih =>
    by_cases hlt : n < 16
    · rw [Nat.toDigits_of_lt_base hlt]
      obtain ⟨htext, hvalue⟩ := hdigit ⟨n, hlt⟩
      exact ⟨by simpa using htext, by simpa [hexValue, horner] using hvalue⟩
    · obtain ⟨htexts, hvalues⟩ := ih (n / 16) (by omega)
      obtain ⟨htext, hvalue⟩ := hdigit ⟨n % 16, by omega⟩
      rw [Nat.toDigits_of_base_le (by omega) (by omega)]
      constructor
      · intro c hc
        rcases List.mem_append.mp hc with hc | hc
        · exact htexts c hc
        · rw [List.mem_singleton.mp hc]
          exact htext
      · simp only [hexValue] at hvalues
        simp only [hexValue, List.map_append, List.map_cons, List.map_nil, horner_concat, hvalues,
          hvalue]
        omega

theorem toDigits_group {n : Nat} (h : n < 65536) : isGroupText (Nat.toDigits 16 n) = true :=
  (isGroupText_iff _).mpr ⟨⟨Nat.length_toDigits_pos, Nat.toDigits_length 16 n 4 (by omega) h⟩,
    (toDigits_hex n).1⟩

theorem mem_of_mem_intercalate {c x : Char} {parts : List (List Char)}
    (h : x ∈ [c].intercalate parts) : x = c ∨ ∃ p ∈ parts, x ∈ p := by
  induction parts with
  | nil => simp at h
  | cons p rest ih =>
    cases rest with
    | nil =>
      rw [List.intercalate_singleton] at h
      exact Or.inr ⟨p, List.mem_singleton_self p, h⟩
    | cons q rest =>
      rw [List.intercalate_cons_cons, List.mem_append, List.mem_append, List.mem_singleton] at h
      rcases h with (h | h) | h
      · exact Or.inr ⟨p, List.mem_cons_self, h⟩
      · exact Or.inl h
      · rcases ih h with h | ⟨r, hr, hx⟩
        · exact Or.inl h
        · exact Or.inr ⟨r, List.mem_cons_of_mem p hr, hx⟩

theorem isOctetText_iff (cs : List Char) :
    isOctetText cs = true ↔ (1 ≤ cs.length ∧ cs.length ≤ 3) ∧ ∀ c ∈ cs, c.isDigit = true := by
  simp only [isOctetText, Bool.and_eq_true, decide_eq_true_eq, List.all_eq_true]

theorem notMem_octet {cs : List Char} {c : Char} (h : isOctetText cs = true)
    (hc : c.isDigit = false) : c ∉ cs := by
  intro hmem
  rw [((isOctetText_iff cs).mp h).2 c hmem] at hc
  cases hc

theorem dottedQuad_iff (cs : List Char) (parts : List (List Char)) :
    dottedQuad cs = some parts ↔
      parts.length = 4 ∧ (∀ p ∈ parts, isOctetText p = true) ∧ cs = ['.'].intercalate parts := by
  constructor
  · intro h
    simp only [dottedQuad] at h
    split at h
    · rename_i hparts
      simp only [Bool.and_eq_true, beq_iff_eq, List.all_eq_true] at hparts
      cases h
      exact ⟨hparts.1, hparts.2, (List.intercalate_splitOn '.').symm⟩
    · cases h
  · rintro ⟨hlength, htexts, rfl⟩
    have hsplit : (['.'].intercalate parts).splitOn '.' = parts := by
      apply List.splitOn_intercalate
      · exact fun p hp => notMem_octet (htexts p hp) (by decide)
      · rintro rfl
        cases hlength
    have hall : (parts.length == 4 && parts.all isOctetText) = true := by
      simp only [Bool.and_eq_true, beq_iff_eq, List.all_eq_true]
      exact ⟨hlength, htexts⟩
    simp only [dottedQuad, hsplit, hall, if_true]

theorem joinOctets_iff (parts : List (List Char)) (v₀ v : Nat) :
    joinOctets parts v₀ = some v ↔ (∀ p ∈ parts, decimalValue p ≤ 255) ∧
      (parts.map decimalValue).foldl (fun v d => v * 256 + d) v₀ = v := by
  induction parts generalizing v₀ with
  | nil => simp [joinOctets]
  | cons p rest ih =>
    simp only [joinOctets, parseDecimal_eq]
    by_cases hp : decimalValue p > 255
    · have hnot : ¬ decimalValue p ≤ 255 := by omega
      simp [hp, hnot]
    · have hle : decimalValue p ≤ 255 := by omega
      simp [hp, hle, ih]

/-- The octets of a text are joined exactly when it is a dotted quad. -/
theorem quad_iff (cs : List Char) (v : Nat) :
    (dottedQuad cs).bind (fun parts => joinOctets parts 0) = some v ↔
      ∃ octets, Quad cs octets ∧ horner 256 octets = v := by
  simp only [Option.bind_eq_some_iff, dottedQuad_iff, joinOctets_iff]
  constructor
  · rintro ⟨parts, ⟨hlength, htexts, rfl⟩, hles, hv⟩
    match parts, hlength with
    | [a, b, c, d], _ =>
      have hoctet : ∀ p ∈ [a, b, c, d], IsOctet p := fun p hp => ⟨htexts p hp, hles p hp⟩
      exact ⟨_, .dotted (hoctet a (by simp)) (hoctet b (by simp)) (hoctet c (by simp))
        (hoctet d (by simp)), hv⟩
  · rintro ⟨octets, hquad, hv⟩
    cases hquad with
    | @dotted a b c d ha hb hc hd =>
      refine ⟨[a, b, c, d], ⟨rfl, ?_, rfl⟩, ?_, hv⟩
      · simp [ha.digits, hb.digits, hc.digits, hd.digits]
      · simp [ha.le, hb.le, hc.le, hd.le]

theorem Quad.length {cs : List Char} {octets : List Nat} (h : Quad cs octets) :
    octets.length = 4 := by
  cases h
  rfl

theorem Quad.octet_le {cs : List Char} {octets : List Nat} (h : Quad cs octets) :
    ∀ o ∈ octets, o ≤ 255 := by
  cases h with
  | dotted ha hb hc hd => simp [ha.le, hb.le, hc.le, hd.le]

/-- A dotted quad is made of digits and dots. -/
theorem Quad.chars {cs : List Char} {octets : List Nat} (h : Quad cs octets) :
    ∀ c ∈ cs, c.isDigit = true ∨ c = '.' := by
  cases h with
  | dotted ha hb hc hd =>
    intro x hx
    rcases mem_of_mem_intercalate hx with hdot | ⟨p, hp, hx⟩
    · exact Or.inr hdot
    · have hoctet : isOctetText p = true := by
        simp only [List.mem_cons, List.not_mem_nil, or_false] at hp
        rcases hp with rfl | rfl | rfl | rfl
        · exact ha.digits
        · exact hb.digits
        · exact hc.digits
        · exact hd.digits
      exact Or.inl (((isOctetText_iff p).mp hoctet).2 x hx)

theorem digit_bounds {c : Char} (h : c.isDigit = true) : 48 ≤ c.toNat ∧ c.toNat ≤ 57 := by
  simp only [Char.isDigit, Bool.and_eq_true, decide_eq_true_eq, ge_iff_le,
    UInt32.le_iff_toNat_le] at h
  exact h

theorem trimChars_of_none {cs : List Char} (h : ∀ c ∈ cs, isJsSpace c = false) :
    trimChars cs = cs := by
  have hkeep : ∀ l : List Char, (∀ c ∈ l, isJsSpace c = false) → l.dropWhile isJsSpace = l := by
    intro l hl
    cases l with
    | nil => rfl
    | cons c rest => simp [hl c (by simp)]
  rw [trimChars, hkeep cs h, hkeep cs.reverse (fun c hc => h c (List.mem_reverse.mp hc)),
    List.reverse_reverse]

theorem digit_notSpace {c : Char} (h : c.isDigit = true ∨ c = '.') : isJsSpace c = false := by
  rcases h with h | rfl
  · have hbounds := digit_bounds h
    simp only [isJsSpace, List.mem_cons, List.not_mem_nil, or_false, Bool.or_eq_false_iff,
      decide_eq_false_iff_not, Bool.and_eq_false_iff]
    omega
  · decide

theorem mem_trimChars {c : Char} {cs : List Char} (hc : isJsSpace c = false) (h : c ∈ cs) :
    c ∈ trimChars cs := by
  have hdrop : ∀ l : List Char, c ∈ l → c ∈ l.dropWhile isJsSpace := by
    intro l hl
    rw [← List.takeWhile_append_dropWhile (p := isJsSpace) (l := l), List.mem_append] at hl
    rcases hl with hl | hl
    · rw [List.mem_takeWhile_imp hl] at hc
      cases hc
    · exact hl
  rw [trimChars, List.mem_reverse]
  exact hdrop _ (List.mem_reverse.mpr (hdrop cs h))

theorem toLower_quadChar {c : Char} (h : c.isDigit = true ∨ c = '.') : c.toLower = c := by
  rcases h with h | rfl
  · have hbounds := digit_bounds h
    have hupper : c.isUpper = false := by
      simp only [Char.isUpper, decide_eq_false_iff_not, ge_iff_le, UInt32.le_iff_toNat_le]
      change ¬ (65 ≤ c.toNat ∧ c.toNat ≤ 90)
      omega
    exact Char.toLower_eq_of_not_isUpper (by simp [hupper])
  · decide

theorem Quad.trim {cs : List Char} {octets : List Nat} (h : Quad cs octets) : trimChars cs = cs :=
  trimChars_of_none (fun c hc => digit_notSpace (h.chars c hc))

theorem Quad.colon_notMem {cs : List Char} {octets : List Nat} (h : Quad cs octets) : ':' ∉ cs := by
  intro hmem
  rcases h.chars ':' hmem with hdigit | hdot
  · cases hdigit
  · cases hdot

/-- `parseIPv4` reads exactly the dotted quads, between white space. -/
theorem parseIPv4_iff (cs : List Char) (v : Nat) :
    parseIPv4Chars cs = some v ↔ ∃ octets, Quad (trimChars cs) octets ∧ horner 256 octets = v :=
  quad_iff (trimChars cs) v

theorem parseIPv4_lt {cs : List Char} {v : Nat} (h : parseIPv4Chars cs = some v) : v < 2 ^ 32 := by
  obtain ⟨octets, hquad, rfl⟩ := (parseIPv4_iff cs v).mp h
  have hlt : horner 256 octets < 256 ^ octets.length := by
    apply horner_lt
    intro o ho
    have hle := hquad.octet_le o ho
    omega
  rw [hquad.length] at hlt
  exact hlt

theorem Groups.texts {parts : List (List Char)} {values : List Nat} (h : Groups parts values) :
    (∀ g ∈ parts, isGroupText g = true) ∧ parts.map hexValue = values := by
  induction h with
  | nil => simp
  | cons hg hrest ih => exact ⟨by simpa [hg] using ih.1, by simp [ih.2]⟩

theorem groups_of_texts {parts : List (List Char)} (h : ∀ g ∈ parts, isGroupText g = true) :
    Groups parts (parts.map hexValue) := by
  induction parts with
  | nil => exact .nil
  | cons g rest ih =>
    exact .cons (h g (by simp)) (ih (fun p hp => h p (by simp [hp])))

theorem Groups.values_lt {parts : List (List Char)} {values : List Nat} (h : Groups parts values) :
    ∀ v ∈ values, v < 65536 := by
  induction h with
  | nil => simp
  | cons hg hrest ih =>
    intro v hv
    rcases List.mem_cons.mp hv with rfl | hv
    · exact hexValue_lt hg
    · exact ih v hv

theorem Groups.append {parts more : List (List Char)} {values others : List Nat}
    (h : Groups parts values) (h' : Groups more others) :
    Groups (parts ++ more) (values ++ others) := by
  induction h with
  | nil => exact h'
  | cons hg hrest ih => exact .cons hg ih

/-- One group more is shifted in by 16 bits. -/
theorem joinGroups_iff (parts : List (List Char)) (v₀ v : Nat) :
    joinGroups parts v₀ = some v ↔ (∀ g ∈ parts, isGroupText g = true) ∧
      (parts.map hexValue).foldl (fun v d => v * 65536 + d) v₀ = v := by
  induction parts generalizing v₀ with
  | nil => simp [joinGroups]
  | cons g rest ih =>
    by_cases hg : isGroupText g = true
    · have hshift : v₀ <<< 16 ||| hexValue g = v₀ * 65536 + hexValue g := by
        rw [← Nat.shiftLeft_add_eq_or_of_lt (hexValue_lt hg), Nat.shiftLeft_eq]
      simp only [joinGroups, hg, if_true, parseHex_eq, hshift, ih, List.mem_cons, forall_eq_or_imp,
        true_and, List.map_cons, List.foldl_cons]
    · simp [joinGroups, hg]

theorem splitDoubleColon_cons {c : Char} {cs : List Char} (h : c ≠ ':' ∨ cs.head? ≠ some ':') :
    splitDoubleColon (c :: cs) = (splitDoubleColon cs).map (fun p => (c :: p.1, p.2)) := by
  have hsingle : ∀ rest, c = ':' → cs = ':' :: rest → False := by
    rintro rest rfl rfl
    simp at h
  exact splitDoubleColon.eq_2 c cs hsingle

/-- Nothing is split before the first colon. -/
theorem splitDoubleColon_prepend {u : List Char} (h : ':' ∉ u) (w : List Char) :
    splitDoubleColon (u ++ w) = (splitDoubleColon w).map (fun p => (u ++ p.1, p.2)) := by
  induction u with
  | nil => simp
  | cons c rest ih =>
    have hc : c ≠ ':' := fun heq => h (by simp [heq])
    rw [List.cons_append, splitDoubleColon_cons (Or.inl hc),
      ih (fun hmem => h (List.mem_cons_of_mem c hmem)), Option.map_map]
    rfl

/-- The text of groups starts with a digit. -/
theorem head_intercalate {parts : List (List Char)} (h : ∀ g ∈ parts, isGroupText g = true)
    (hne : parts ≠ []) (w : List Char) : ([':'].intercalate parts ++ w).head? ≠ some ':' := by
  cases parts with
  | nil => exact absurd rfl hne
  | cons g rest =>
    have hg := h g (by simp)
    cases g with
    | nil => exact absurd rfl (group_ne_nil hg)
    | cons c cs =>
      have hc : c ≠ ':' := by
        rintro rfl
        exact colon_notMem_group hg List.mem_cons_self
      cases rest <;> simp [hc]

/-- Groups between single colons hold no double one. -/
theorem splitDoubleColon_groups {parts : List (List Char)}
    (h : ∀ g ∈ parts, isGroupText g = true) (w : List Char) :
    splitDoubleColon ([':'].intercalate parts ++ w) =
      (splitDoubleColon w).map (fun p => ([':'].intercalate parts ++ p.1, p.2)) := by
  induction parts with
  | nil => simp
  | cons g rest ih =>
    have hg := h g (by simp)
    have hrest : ∀ p ∈ rest, isGroupText p = true := fun p hp => h p (List.mem_cons_of_mem g hp)
    cases rest with
    | nil => simpa using splitDoubleColon_prepend (colon_notMem_group hg) w
    | cons g' rest =>
      have hhead := head_intercalate hrest (by simp) w
      rw [List.intercalate_cons_cons, List.append_assoc, List.append_assoc,
        splitDoubleColon_prepend (colon_notMem_group hg), List.singleton_append,
        splitDoubleColon_cons (Or.inr hhead), ih hrest, Option.map_map, Option.map_map]
      simp [Function.comp_def]

theorem splitDoubleColon_eq {cs before after : List Char}
    (h : splitDoubleColon cs = some (before, after)) : cs = before ++ ':' :: ':' :: after := by
  induction cs generalizing before with
  | nil => cases h
  | cons c rest ih =>
    by_cases hsplit : c ≠ ':' ∨ rest.head? ≠ some ':'
    · rw [splitDoubleColon_cons hsplit] at h
      obtain ⟨p, hp, heq⟩ := Option.map_eq_some_iff.mp h
      cases heq
      rw [ih hp, List.cons_append]
    · simp only [not_or, not_not] at hsplit
      obtain ⟨rfl, hhead⟩ := hsplit
      cases rest with
      | nil => cases hhead
      | cons d rest =>
        cases hhead
        cases h
        rfl

/-- A text without a double colon, which starts with none, moves none when it is added. -/
theorem splitDoubleColon_append {z : List Char} (hnone : splitDoubleColon z = none)
    (hhead : z.head? ≠ some ':') (u : List Char) :
    splitDoubleColon (u ++ z) = (splitDoubleColon u).map (fun p => (p.1, p.2 ++ z)) := by
  induction u with
  | nil => simpa [splitDoubleColon] using hnone
  | cons c rest ih =>
    by_cases hsplit : c ≠ ':' ∨ rest.head? ≠ some ':'
    · have hfull : c ≠ ':' ∨ (rest ++ z).head? ≠ some ':' := by
        rcases hsplit with hc | hrest
        · exact Or.inl hc
        · cases rest with
          | nil => exact Or.inr hhead
          | cons d rest => exact Or.inr hrest
      rw [List.cons_append, splitDoubleColon_cons hfull, ih, splitDoubleColon_cons hsplit,
        Option.map_map, Option.map_map]
      rfl
    · simp only [not_or, not_not] at hsplit
      obtain ⟨rfl, hrest⟩ := hsplit
      cases rest with
      | nil => cases hrest
      | cons d rest =>
        cases hrest
        rfl

theorem splitGroups_intercalate {parts : List (List Char)}
    (h : ∀ g ∈ parts, isGroupText g = true) : splitGroups ([':'].intercalate parts) = parts := by
  cases parts with
  | nil => rfl
  | cons g rest =>
    have hne : [':'].intercalate (g :: rest) ≠ [] := by
      have hg := group_ne_nil (h g (by simp))
      cases rest <;> simp [hg]
    have hsplit : ([':'].intercalate (g :: rest)).splitOn ':' = g :: rest :=
      List.splitOn_intercalate ':' (fun p hp => colon_notMem_group (h p hp)) (by simp)
    simp only [splitGroups, List.isEmpty_iff, hne, if_false, hsplit]

theorem intercalate_splitGroups (cs : List Char) : [':'].intercalate (splitGroups cs) = cs := by
  unfold splitGroups
  split
  · rename_i hempty
    simp only [List.isEmpty_iff] at hempty
    simp [hempty]
  · exact List.intercalate_splitOn ':'

/-- The eight groups of a text without a dotted tail are found exactly when it spells them. -/
theorem expandGroups_iff (cs : List Char) (v : Nat) :
    (expandGroups cs).bind (fun parts => joinGroups parts 0) = some v ↔
      ∃ values, Spells Groups cs values ∧ horner 65536 values = v := by
  simp only [Option.bind_eq_some_iff, joinGroups_iff]
  constructor
  · rintro ⟨parts, hexpand, htexts, hv⟩
    unfold expandGroups at hexpand
    split at hexpand
    · rename_i before after hsplit
      split at hexpand
      · cases hexpand
      · simp only at hexpand
        split at hexpand
        · cases hexpand
        · rename_i hlength
          cases hexpand
          have hbefore : ∀ g ∈ splitGroups before, isGroupText g = true :=
            fun g hg => htexts g (by simp [hg])
          have hafter : ∀ g ∈ splitGroups after, isGroupText g = true :=
            fun g hg => htexts g (by simp [hg])
          have hspells := Spells.compressed (groups_of_texts hbefore) (groups_of_texts hafter)
            (by simpa using hlength)
          rw [intercalate_splitGroups, intercalate_splitGroups, ← splitDoubleColon_eq hsplit]
            at hspells
          refine ⟨_, hspells, ?_⟩
          have hzero : hexValue ['0'] = 0 := by decide
          simpa [horner, hzero] using hv
    · simp only at hexpand
      split at hexpand
      · rename_i hlength
        cases hexpand
        have hspells := Spells.full (groups_of_texts htexts) (by simpa using hlength)
        rw [List.intercalate_splitOn] at hspells
        exact ⟨_, hspells, hv⟩
      · cases hexpand
  · rintro ⟨values, hspells, hv⟩
    cases hspells with
    | @full parts _ hgroups hlength =>
      obtain ⟨htexts, rfl⟩ := hgroups.texts
      have hnone : splitDoubleColon ([':'].intercalate parts) = none := by
        simpa [splitDoubleColon] using splitDoubleColon_groups htexts []
      have hsplit : ([':'].intercalate parts).splitOn ':' = parts := by
        apply List.splitOn_intercalate
        · exact fun p hp => colon_notMem_group (htexts p hp)
        · rintro rfl
          cases hlength
      rw [List.length_map] at hlength
      refine ⟨parts, ?_, htexts, hv⟩
      simp [expandGroups, hnone, hsplit, hlength]
    | @compressed before after heads tails hbefore hafter hlength =>
      obtain ⟨hbeforeTexts, rfl⟩ := hbefore.texts
      obtain ⟨hafterTexts, rfl⟩ := hafter.texts
      have hsplit : splitDoubleColon
          ([':'].intercalate before ++ ':' :: ':' :: [':'].intercalate after) =
            some ([':'].intercalate before, [':'].intercalate after) := by
        rw [splitDoubleColon_groups hbeforeTexts]
        simp [splitDoubleColon]
      have hsecond : splitDoubleColon (':' :: [':'].intercalate after) = none := by
        cases after with
        | nil => rfl
        | cons g rest =>
          have hhead := head_intercalate hafterTexts (by simp) []
          have hgroups := splitDoubleColon_groups hafterTexts []
          rw [List.append_nil] at hhead hgroups
          rw [splitDoubleColon_cons (Or.inr hhead), hgroups]
          rfl
      have hshort : ¬ before.length + after.length > 7 := by
        simpa using hlength
      refine ⟨before ++ List.replicate (8 - before.length - after.length) ['0'] ++ after,
        ?_, ?_, ?_⟩
      · simp [expandGroups, hsplit, hsecond, splitGroups_intercalate hbeforeTexts,
          splitGroups_intercalate hafterTexts, hshort]
      · intro g hg
        simp only [List.mem_append, List.mem_replicate] at hg
        rcases hg with (hg | ⟨-, rfl⟩) | hg
        · exact hbeforeTexts g hg
        · decide
        · exact hafterTexts g hg
      · have hzero : hexValue ['0'] = 0 := by decide
        simpa [horner, hzero] using hv

theorem splitAfterLast_concat {p : Char → Bool} {head tail : List Char} {c : Char}
    (hc : p c = true) (htail : ∀ d ∈ tail, p d = false) :
    splitAfterLast p (head ++ [c] ++ tail) = some (head ++ [c], tail) := by
  have hkeep : ∀ d ∈ tail.reverse, (!p d) = true := by
    intro d hd
    rw [htail d (List.mem_reverse.mp hd)]
    rfl
  have htext : (head ++ [c] ++ tail).reverse = tail.reverse ++ (c :: head.reverse) := by simp
  simp only [splitAfterLast, htext, List.takeWhile_append_of_pos hkeep,
    List.dropWhile_append_of_pos hkeep]
  simp [hc]

/-- The text after the last colon, when there is one. -/
theorem splitAfterLast_cases (p : Char → Bool) (cs : List Char) :
    splitAfterLast p cs = none ∨
      ∃ head c tail, cs = head ++ [c] ++ tail ∧ p c = true ∧ (∀ d ∈ tail, p d = false) ∧
        splitAfterLast p cs = some (head ++ [c], tail) := by
  by_cases hany : ∃ c ∈ cs, p c = true
  · right
    obtain ⟨head, c, tail, hcs, hc, htail⟩ : ∃ head c tail, cs = head ++ [c] ++ tail ∧
        p c = true ∧ ∀ d ∈ tail, p d = false := by
      induction cs using List.reverseRecOn with
      | nil => simp at hany
      | append_singleton cs d ih =>
        by_cases hd : p d = true
        · exact ⟨cs, d, [], by simp, hd, by simp⟩
        · have hearlier : ∃ c ∈ cs, p c = true := by
            obtain ⟨c, hc, hp⟩ := hany
            rcases List.mem_append.mp hc with hc | hc
            · exact ⟨c, hc, hp⟩
            · rw [List.mem_singleton.mp hc] at hp
              exact absurd hp hd
          obtain ⟨head, c, tail, rfl, hc, htail⟩ := ih hearlier
          refine ⟨head, c, tail ++ [d], by simp, hc, fun e he => ?_⟩
          rcases List.mem_append.mp he with he | he
          · exact htail e he
          · rw [List.mem_singleton.mp he]
            simpa using hd
    subst hcs
    exact ⟨head, c, tail, rfl, hc, htail, splitAfterLast_concat hc htail⟩
  · left
    have hall : ∀ c ∈ cs.reverse, (!p c) = true := by
      intro c hc
      have hnot : ¬ p c = true := fun h => hany ⟨c, List.mem_reverse.mp hc, h⟩
      simpa using hnot
    have hempty : cs.reverse.dropWhile (fun c => !p c) = [] := List.dropWhile_eq_nil_iff.mpr hall
    simp only [splitAfterLast, hempty, List.reverse_nil, List.isEmpty_nil, if_true]

/-- The two hexadecimal groups that a dotted quad is rewritten into. -/
def hexTail (a b c d : Nat) : List (List Char) :=
  [Nat.toDigits 16 (a * 256 + b), Nat.toDigits 16 (c * 256 + d)]

theorem two_octets_lt {a b : Nat} (ha : a ≤ 255) (hb : b ≤ 255) : a * 256 + b < 65536 := by
  omega

theorem Quad.groups {q : List Char} {a b c d : Nat} (h : Quad q [a, b, c, d]) :
    Groups (hexTail a b c d) [a * 256 + b, c * 256 + d] := by
  have hle := h.octet_le
  simp only [List.mem_cons, List.not_mem_nil, or_false, forall_eq_or_imp, forall_eq] at hle
  obtain ⟨ha, hb, hc, hd⟩ := hle
  have hhigh := two_octets_lt ha hb
  have hlow := two_octets_lt hc hd
  have htexts : ∀ g ∈ hexTail a b c d, isGroupText g = true := by
    intro g hg
    simp only [hexTail, List.mem_cons, List.not_mem_nil, or_false] at hg
    rcases hg with rfl | rfl
    · exact toDigits_group hhigh
    · exact toDigits_group hlow
  have hvalues : (hexTail a b c d).map hexValue = [a * 256 + b, c * 256 + d] := by
    rw [hexTail, List.map_cons, List.map_cons, List.map_nil, (toDigits_hex _).2, (toDigits_hex _).2]
  exact hvalues ▸ groups_of_texts htexts

theorem Quad.value {q : List Char} {a b c d : Nat} (h : Quad q [a, b, c, d]) :
    parseIPv4Chars q = some (((a * 256 + b) * 256 + c) * 256 + d) := by
  refine (parseIPv4_iff q _).mpr ⟨[a, b, c, d], ?_, by simp [horner]⟩
  rw [h.trim]
  exact h

theorem Quad.isQuad {q : List Char} {octets : List Nat} (h : Quad q octets) :
    (dottedQuad q).isSome = true := by
  obtain ⟨parts, hparts, -⟩ := Option.bind_eq_some_iff.mp ((quad_iff q _).mpr ⟨octets, h, rfl⟩)
  rw [hparts]
  rfl

/-- A dotted tail becomes two groups. -/
theorem unfoldTail_quad {head q : List Char} {a b c d : Nat} (h : Quad q [a, b, c, d])
    (hhead : ∀ x ∈ head, isLineTerminator x = false) :
    unfoldTail (head ++ [':'] ++ q) =
      some (head ++ [':'] ++ [':'].intercalate (hexTail a b c d)) := by
  have hsplit : splitAfterLast (· == ':') (head ++ [':'] ++ q) = some (head ++ [':'], q) := by
    refine splitAfterLast_concat (p := (· == ':')) (beq_self_eq_true ':') ?_
    intro x hx
    rw [beq_eq_false_iff_ne]
    rintro rfl
    exact h.colon_notMem hx
  have hline : (head ++ [':']).any isLineTerminator = false := by
    rw [List.any_eq_false]
    intro x hx
    rcases List.mem_append.mp hx with hx | hx
    · simp [hhead x hx]
    · rw [List.mem_singleton.mp hx]
      decide
  have hle := h.octet_le
  simp only [List.mem_cons, List.not_mem_nil, or_false, forall_eq_or_imp, forall_eq] at hle
  have hhigh : (((a * 256 + b) * 256 + c) * 256 + d) / 65536 = a * 256 + b := by omega
  have hlow : (((a * 256 + b) * 256 + c) * 256 + d) % 65536 = c * 256 + d := by omega
  simp only [unfoldTail, hsplit, h.isQuad, hline, Bool.not_false, Bool.and_self, if_true, h.value,
    Option.map_some, hhigh, hlow, hexTail, List.intercalate_cons_cons, List.intercalate_singleton]
  simp

/-- A text without a dot stays as it is. -/
theorem unfoldTail_plain {cs : List Char} (h : '.' ∉ cs) : unfoldTail cs = some cs := by
  rcases splitAfterLast_cases (· == ':') cs with hnone | ⟨head, c, tail, rfl, hc, htail, hsplit⟩
  · simp only [unfoldTail, hnone]
  · have hquad : (dottedQuad tail).isSome = false := by
      rw [Option.isSome_eq_false_iff, Option.isNone_iff_eq_none]
      by_contra hne
      obtain ⟨parts, hparts⟩ := Option.ne_none_iff_exists'.mp hne
      obtain ⟨hlength, -, rfl⟩ := (dottedQuad_iff tail parts).mp hparts
      match parts, hlength with
      | p :: q :: rest, _ => simp [List.intercalate_cons_cons] at h
    simp only [unfoldTail, hsplit, hquad, Bool.false_and, Bool.false_eq_true, if_false]

/-- What the tail is rewritten into: nothing changes, or a dotted quad at the end is read. -/
theorem unfoldTail_cases {cs cs' : List Char} (h : unfoldTail cs = some cs') :
    cs' = cs ∨ ∃ head q a b c d, cs = head ++ [':'] ++ q ∧ Quad q [a, b, c, d] ∧
      cs' = head ++ [':'] ++ [':'].intercalate (hexTail a b c d) := by
  rcases splitAfterLast_cases (· == ':') cs with hnone | ⟨head, x, tail, rfl, hx, htail, hsplit⟩
  · simp only [unfoldTail, hnone, Option.some.injEq] at h
    exact Or.inl h.symm
  · have hcolon : x = ':' := beq_iff_eq.mp hx
    subst hcolon
    by_cases hdotted : ((dottedQuad tail).isSome && !(head ++ [':']).any isLineTerminator) = true
    · right
      have hread := h
      simp only [unfoldTail, hsplit, hdotted, if_true] at hread
      obtain ⟨v, hv, -⟩ := Option.map_eq_some_iff.mp hread
      obtain ⟨hsome, hline⟩ := Bool.and_eq_true_iff.mp hdotted
      obtain ⟨parts, hparts⟩ := Option.isSome_iff_exists.mp hsome
      have hchars : trimChars tail = tail := by
        obtain ⟨-, htexts, rfl⟩ := (dottedQuad_iff tail parts).mp hparts
        apply trimChars_of_none
        intro y hy
        apply digit_notSpace
        rcases mem_of_mem_intercalate hy with hdot | ⟨p, hp, hy⟩
        · exact Or.inr hdot
        · exact Or.inl (((isOctetText_iff p).mp (htexts p hp)).2 y hy)
      obtain ⟨octets, hquad, -⟩ := (parseIPv4_iff tail v).mp hv
      rw [hchars] at hquad
      match octets, hquad.length, hquad with
      | [a, b, c, d], _, hquad =>
        have hlines : ∀ y ∈ head, isLineTerminator y = false := by
          intro y hy
          simp only [Bool.not_eq_true', List.any_eq_false] at hline
          simpa using hline y (List.mem_append_left _ hy)
        rw [unfoldTail_quad hquad hlines, Option.some.injEq] at h
        exact ⟨head, tail, a, b, c, d, rfl, hquad, h.symm⟩
    · simp only [unfoldTail, hsplit, hdotted, Bool.false_eq_true, if_false, Option.some.injEq] at h
      exact Or.inl h.symm

theorem intercalate_append {xs ys : List (List Char)} (hx : xs ≠ []) (hy : ys ≠ []) :
    [':'].intercalate (xs ++ ys) = [':'].intercalate xs ++ ':' :: [':'].intercalate ys := by
  induction xs with
  | nil => exact absurd rfl hx
  | cons x rest ih =>
    cases rest with
    | nil =>
      obtain ⟨y, more, rfl⟩ := List.exists_cons_of_ne_nil hy
      simp [List.intercalate_cons_cons]
    | cons x' rest =>
      have hrest := ih (by simp)
      simp only [List.cons_append] at hrest ⊢
      rw [List.intercalate_cons_cons, hrest, List.intercalate_cons_cons]
      simp

/-- The fields in front of a final colon stay, whatever groups follow it. -/
theorem fields_before {front : List Char} (h : front = [] ∨ ∃ rest, front = rest ++ [':']) :
    ∃ init : List (List Char), ∀ ws, ws ≠ [] → (∀ w ∈ ws, ':' ∉ w) →
      (front ++ [':'].intercalate ws).splitOn ':' = init ++ ws := by
  rcases h with rfl | ⟨rest, rfl⟩
  · exact ⟨[], fun ws hne hws => List.splitOn_intercalate ':' hws hne⟩
  · refine ⟨rest.splitOn ':', fun ws hne hws => ?_⟩
    rw [List.append_assoc, List.singleton_append, List.splitOn_append_cons_self,
      List.splitOn_intercalate ':' hws hne]

theorem Groups.colon_notMem {parts : List (List Char)} {values : List Nat}
    (h : Groups parts values) : ∀ g ∈ parts, ':' ∉ g :=
  fun g hg => colon_notMem_group (h.texts.1 g hg)

/-- The text of groups is made of hexadecimal digits and colons. -/
theorem Groups.chars {parts : List (List Char)} {values : List Nat} (h : Groups parts values) :
    ∀ x ∈ [':'].intercalate parts, x ≠ '.' ∧ isLineTerminator x = false := by
  intro x hx
  rcases mem_of_mem_intercalate hx with rfl | ⟨g, hg, hx⟩
  · decide
  · have hbounds := hexDigit_bounds (((isGroupText_iff g).mp (h.texts.1 g hg)).2 x hx)
    constructor
    · rintro rfl
      have hdot : '.'.toNat = 46 := rfl
      omega
    · simp only [isLineTerminator, List.mem_cons, List.not_mem_nil, or_false,
        decide_eq_false_iff_not]
      omega

/-- The last two groups are exchanged for a dotted quad. -/
theorem Groups.dotted {init : List (List Char)} {values : List Nat} {q : List Char}
    {a b c d : Nat} (h : Groups (init ++ hexTail a b c d) values) (hq : Quad q [a, b, c, d]) :
    Written (init ++ [q]) values := by
  have hinit : ∀ g ∈ init, isGroupText g = true :=
    fun g hg => h.texts.1 g (List.mem_append_left _ hg)
  have hvalues : init.map hexValue ++ [a * 256 + b, c * 256 + d] = values := by
    rw [← h.texts.2, List.map_append, hq.groups.texts.2]
  exact hvalues ▸ Written.dotted (groups_of_texts hinit) hq

/-- What a text with two groups at the end spells, it spells with the dotted quad. -/
theorem spells_dotted {head q : List Char} {a b c d : Nat} {values : List Nat}
    (hq : Quad q [a, b, c, d])
    (h : Spells Groups (head ++ [':'] ++ [':'].intercalate (hexTail a b c d)) values) :
    Spells Written (head ++ [':'] ++ q) values := by
  have htail : ∀ w ∈ hexTail a b c d, ':' ∉ w := hq.groups.colon_notMem
  have hquad : ∀ w ∈ [q], ':' ∉ w := by simpa using hq.colon_notMem
  have hne : hexTail a b c d ≠ [] := List.cons_ne_nil _ _
  generalize htext : head ++ [':'] ++ [':'].intercalate (hexTail a b c d) = text at h
  cases h with
  | @full parts _ hgroups hlength =>
    have hfront : head ++ [':'] = [] ∨ ∃ rest, head ++ [':'] = rest ++ [':'] := Or.inr ⟨head, rfl⟩
    obtain ⟨init, hfields⟩ := fields_before hfront
    have hparts : parts = init ++ hexTail a b c d := by
      rw [← hfields _ hne htail, htext]
      refine (List.splitOn_intercalate ':' hgroups.colon_notMem ?_).symm
      rintro rfl
      cases hgroups
      cases hlength
    have hwritten := Groups.dotted (hparts ▸ hgroups) hq
    have hspelled : head ++ [':'] ++ q = [':'].intercalate (init ++ [q]) := by
      rw [← hfields [q] (List.cons_ne_nil _ _) hquad, List.intercalate_splitOn,
        List.intercalate_singleton]
    exact hspelled ▸ .full hwritten hlength
  | @compressed before after heads tails hbefore hafter hlength =>
    have hnone : splitDoubleColon ([':'].intercalate (hexTail a b c d)) = none := by
      simpa [splitDoubleColon] using splitDoubleColon_groups hq.groups.texts.1 []
    have hhead : ([':'].intercalate (hexTail a b c d)).head? ≠ some ':' := by
      simpa using head_intercalate hq.groups.texts.1 hne []
    have hsplit : splitDoubleColon
        ([':'].intercalate before ++ ':' :: ':' :: [':'].intercalate after) =
          some ([':'].intercalate before, [':'].intercalate after) := by
      rw [splitDoubleColon_groups hbefore.texts.1]
      simp [splitDoubleColon]
    rw [← htext, splitDoubleColon_append hnone hhead] at hsplit
    obtain ⟨⟨first, second⟩, hfront, heq⟩ := Option.map_eq_some_iff.mp hsplit
    obtain ⟨rfl, hsecond⟩ := Prod.mk.inj heq
    have hcolon := splitDoubleColon_eq hfront
    -- what follows the double colon is empty or ends in the last colon
    have hterminated : second = [] ∨ ∃ rest, second = rest ++ [':'] := by
      rcases List.eq_nil_or_concat second with rfl | ⟨rest, x, rfl⟩
      · exact Or.inl rfl
      · right
        have hlast : x = ':' := by
          symm
          simpa [List.getLast?_append, List.getLast?_cons] using congrArg List.getLast? hcolon
        exact ⟨rest, by simp [hlast]⟩
    obtain ⟨init, hfields⟩ := fields_before hterminated
    have hparts : after = init ++ hexTail a b c d := by
      rw [← hfields _ hne htail, hsecond]
      refine (List.splitOn_intercalate ':' hafter.colon_notMem ?_).symm
      rintro rfl
      simp [hexTail, List.intercalate_cons_cons] at hsecond
    have hwritten := Groups.dotted (hparts ▸ hafter) hq
    have hspelled : head ++ [':'] ++ q =
        [':'].intercalate before ++ ':' :: ':' :: [':'].intercalate (init ++ [q]) := by
      rw [← hfields [q] (List.cons_ne_nil _ _) hquad, List.intercalate_splitOn,
        List.intercalate_singleton, hcolon]
      simp
    exact hspelled ▸ .compressed hbefore hwritten hlength

theorem Spells.written {cs : List Char} {values : List Nat} (h : Spells Groups cs values) :
    Spells Written cs values := by
  cases h with
  | full h hlength => exact .full (.groups h) hlength
  | compressed hbefore hafter hlength => exact .compressed hbefore (.groups hafter) hlength

theorem Spells.dot_notMem {cs : List Char} {values : List Nat} (h : Spells Groups cs values) :
    '.' ∉ cs := by
  intro hdot
  cases h with
  | full h hlength => exact (h.chars _ hdot).1 rfl
  | compressed hbefore hafter hlength =>
    simp only [List.mem_append, List.mem_cons] at hdot
    rcases hdot with hdot | hdot | hdot | hdot
    · exact (hbefore.chars _ hdot).1 rfl
    · cases hdot
    · cases hdot
    · exact (hafter.chars _ hdot).1 rfl

/-- The characters that addresses are written with. -/
def isAddressChar (c : Char) : Bool := isHexDigit c || c == ':' || c == '.'

theorem Groups.addressChars {parts : List (List Char)} {values : List Nat}
    (h : Groups parts values) : ∀ g ∈ parts, ∀ c ∈ g, isAddressChar c = true := by
  intro g hg c hc
  have hdigit := ((isGroupText_iff g).mp (h.texts.1 g hg)).2 c hc
  simp only [isAddressChar, isHexDigit, hdigit, Bool.true_or]

theorem Quad.addressChars {cs : List Char} {octets : List Nat} (h : Quad cs octets) :
    ∀ c ∈ cs, isAddressChar c = true := by
  intro c hc
  rcases h.chars c hc with hdigit | rfl
  · have hle : ('0' ≤ c && c ≤ '9') = true := by
      simp only [Bool.and_eq_true, decide_eq_true_eq, Char.le_def, UInt32.le_iff_toNat_le]
      exact digit_bounds hdigit
    simp only [isAddressChar, isHexDigit, hle, Bool.true_or]
  · decide

theorem Written.addressChars {parts : List (List Char)} {values : List Nat}
    (h : Written parts values) : ∀ c ∈ [':'].intercalate parts, isAddressChar c = true := by
  intro c hc
  rcases mem_of_mem_intercalate hc with rfl | ⟨p, hp, hmem⟩
  · decide
  · cases h with
    | groups hgroups => exact hgroups.addressChars p hp c hmem
    | dotted hgroups hq =>
      rcases List.mem_append.mp hp with hp | hp
      · exact hgroups.addressChars p hp c hmem
      · rw [List.mem_singleton.mp hp] at hmem
        exact hq.addressChars c hmem

theorem Spells.addressChars {cs : List Char} {values : List Nat} (h : Spells Written cs values) :
    ∀ c ∈ cs, isAddressChar c = true := by
  cases h with
  | full h hlength => exact h.addressChars
  | compressed hbefore hafter hlength =>
    intro c hc
    simp only [List.mem_append, List.mem_cons] at hc
    rcases hc with hc | rfl | rfl | hc
    · exact (Written.groups hbefore).addressChars c hc
    · decide
    · decide
    · exact hafter.addressChars c hc

/-- Every text of the grammar contains a colon. -/
theorem colon_mem_spelled {cs : List Char} {values : List Nat} (h : Spells Written cs values) :
    ':' ∈ cs := by
  cases h with
  | compressed hbefore hafter hlength => simp
  | @full parts _ h hlength =>
    cases h with
    | @groups parts _ h =>
      obtain ⟨-, rfl⟩ := h.texts
      rw [List.length_map] at hlength
      match parts, hlength with
      | p :: r :: rest, _ => simp [List.intercalate_cons_cons]
    | @dotted parts heads q a b c d hgroups hq =>
      cases hgroups with
      | nil => cases hlength
      | @cons g rest heads hg hrest => cases rest <;> simp [List.intercalate_cons_cons]

/-- Every spelling is rewritten into one without a dotted tail. -/
theorem unfoldTail_written {cs : List Char} {values : List Nat} (h : Spells Written cs values) :
    ∃ cs', unfoldTail cs = some cs' ∧ Spells Groups cs' values := by
  cases h with
  | full h hlength =>
    cases h with
    | groups h => exact ⟨_, unfoldTail_plain (Spells.full h hlength).dot_notMem, .full h hlength⟩
    | @dotted parts heads q a b c d hgroups hq =>
      have hne : parts ≠ [] := by
        rintro rfl
        cases hgroups
        cases hlength
      have hline : ∀ x ∈ [':'].intercalate parts, isLineTerminator x = false :=
        fun x hx => (hgroups.chars x hx).2
      have hunfold := unfoldTail_quad hq hline
      refine ⟨_, ?_, .full (hgroups.append hq.groups) hlength⟩
      have hpair : hexTail a b c d ≠ [] := List.cons_ne_nil _ _
      rw [intercalate_append hne (List.cons_ne_nil _ _), List.intercalate_singleton,
        intercalate_append hne hpair]
      simpa using hunfold
  | @compressed before after heads tails hbefore hafter hlength =>
    cases hafter with
    | groups hafter =>
      exact ⟨_, unfoldTail_plain (Spells.compressed hbefore hafter hlength).dot_notMem,
        .compressed hbefore hafter hlength⟩
    | @dotted parts values q a b c d hgroups hq =>
      refine ⟨_, ?_, .compressed hbefore (hgroups.append hq.groups) hlength⟩
      by_cases hne : parts = []
      · subst hne
        have hline : ∀ x ∈ [':'].intercalate before ++ [':'], isLineTerminator x = false := by
          intro x hx
          rcases List.mem_append.mp hx with hx | hx
          · exact (hbefore.chars x hx).2
          · rw [List.mem_singleton.mp hx]
            decide
        simpa using unfoldTail_quad hq hline
      · have hline : ∀ x ∈ [':'].intercalate before ++ ':' :: ':' :: [':'].intercalate parts,
            isLineTerminator x = false := by
          intro x hx
          simp only [List.mem_append, List.mem_cons] at hx
          rcases hx with hx | rfl | rfl | hx
          · exact (hbefore.chars x hx).2
          · decide
          · decide
          · exact (hgroups.chars x hx).2
        have hpair : hexTail a b c d ≠ [] := List.cons_ne_nil _ _
        rw [intercalate_append hne (List.cons_ne_nil _ _), List.intercalate_singleton,
          intercalate_append hne hpair]
        simpa using unfoldTail_quad hq hline

/-- The text that the grammar is about: trimmed and in lower case. No character outside
ASCII has a digit, a letter up to f, a colon or a dot as its lower case. -/
def normalized (s : String) : List Char := (trimChars s.toList).map Char.toLower

theorem parseIPv6_eq (s : String) :
    parseIPv6 s = (unfoldTail (normalized s)).bind (fun cs =>
      (expandGroups cs).bind (fun parts => joinGroups parts 0)) := by
  rw [← Option.bind_assoc]
  unfold parseIPv6 parseIPv6Chars
  change (if (normalized s).isEmpty then none else _) = _
  split
  · rename_i hempty
    rw [List.isEmpty_iff.mp hempty]
    decide
  · rfl

/-- `parseIPv6` returns the value of the eight groups that the text spells. -/
theorem parseIPv6_iff (s : String) (v : Nat) :
    parseIPv6 s = some v ↔
      ∃ values, Spells Written (normalized s) values ∧ horner 65536 values = v := by
  rw [parseIPv6_eq]
  constructor
  · intro h
    obtain ⟨cs', hunfold, hjoin⟩ := Option.bind_eq_some_iff.mp h
    obtain ⟨values, hspells, hv⟩ := (expandGroups_iff cs' v).mp hjoin
    rcases unfoldTail_cases hunfold with rfl | ⟨head, q, a, b, c, d, htext, hq, rfl⟩
    · exact ⟨values, hspells.written, hv⟩
    · exact ⟨values, htext ▸ spells_dotted hq hspells, hv⟩
  · rintro ⟨values, hspells, hv⟩
    obtain ⟨cs', hunfold, hgroups⟩ := unfoldTail_written hspells
    rw [hunfold, Option.bind_some]
    exact (expandGroups_iff cs' v).mpr ⟨values, hgroups, hv⟩

theorem parseIPv6Chars_iff (cs : List Char) (v : Nat) :
    parseIPv6Chars cs = some v ↔
      ∃ values, Spells Written ((trimChars cs).map Char.toLower) values ∧
        horner 65536 values = v := by
  have h := parseIPv6_iff (String.ofList cs) v
  rwa [parseIPv6, normalized, String.toList_ofList] at h

theorem Written.values_lt {parts : List (List Char)} {values : List Nat}
    (h : Written parts values) : ∀ v ∈ values, v < 65536 := by
  cases h with
  | groups h => exact h.values_lt
  | dotted h hq =>
    intro v hv
    rcases List.mem_append.mp hv with hv | hv
    · exact h.values_lt v hv
    · exact hq.groups.values_lt v hv

theorem Spells.eight {cs : List Char} {values : List Nat} (h : Spells Written cs values) :
    values.length = 8 ∧ ∀ v ∈ values, v < 65536 := by
  cases h with
  | full h hlength => exact ⟨hlength, h.values_lt⟩
  | compressed hbefore hafter hlength =>
    constructor
    · simp only [List.length_append, List.length_replicate]
      omega
    · intro v hv
      simp only [List.mem_append, List.mem_replicate] at hv
      rcases hv with (hv | ⟨-, rfl⟩) | hv
      · exact hbefore.values_lt v hv
      · omega
      · exact hafter.values_lt v hv

theorem value_lt {values : List Nat} (hlength : values.length = 8)
    (hlt : ∀ v ∈ values, v < 65536) : horner 65536 values < 2 ^ 128 := by
  have h := horner_lt hlt
  rw [hlength] at h
  exact h

theorem groupsOf_value {values : List Nat} (hlength : values.length = 8)
    (hlt : ∀ v ∈ values, v < 65536) : groupsOf (horner 65536 values) = values := by
  rw [groupsOf, ← hlength]
  exact digits_horner hlt

theorem value_groupsOf {v : Nat} (h : v < 2 ^ 128) : horner 65536 (groupsOf v) = v := by
  rw [groupsOf, horner_digits]
  exact Nat.mod_eq_of_lt h

/-- `parseIPv6` accepts exactly the texts of the grammar, and it returns a 128-bit value
exactly for the texts that spell its groups. -/
theorem parseIPv6_grammar (s : String) :
    ((parseIPv6 s).isSome = true ↔ ∃ values, Spells Written (normalized s) values) ∧
      ∀ v, parseIPv6 s = some v ↔ v < 2 ^ 128 ∧ Spells Written (normalized s) (groupsOf v) := by
  constructor
  · rw [Option.isSome_iff_exists]
    constructor
    · rintro ⟨v, hv⟩
      obtain ⟨values, hspells, -⟩ := (parseIPv6_iff s v).mp hv
      exact ⟨values, hspells⟩
    · rintro ⟨values, hspells⟩
      exact ⟨_, (parseIPv6_iff s _).mpr ⟨values, hspells, rfl⟩⟩
  · intro v
    rw [parseIPv6_iff]
    constructor
    · rintro ⟨values, hspells, rfl⟩
      obtain ⟨hlength, hlt⟩ := hspells.eight
      exact ⟨value_lt hlength hlt, (groupsOf_value hlength hlt).symm ▸ hspells⟩
    · rintro ⟨hlt, hspells⟩
      exact ⟨groupsOf v, hspells, value_groupsOf hlt⟩

end AddressGrammar
