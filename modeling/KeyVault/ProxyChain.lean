import KeyVault.IpMatch

/-!
# The client address behind a proxy chain

A client of any X-Forwarded-For header connects to the first of a chain of trusted
proxies, and the last one connects to the vault. As each proxy appends its peer,
the vault finds the client's address at the depth of the chain, whatever the
client has written in front of it.
-/

namespace ProxyChain

open JsValue IpMatch

/-- What a proxy makes of the header: it appends the address of its peer. -/
def forward (header : Option String) (peer : String) : Option String :=
  match header with
  | none => some peer
  | some h => if h = "" then some peer else some (h ++ ", " ++ peer)

/-- The peer and the header at the end of a chain of proxies. -/
def chain (peer : String) (header : Option String) : List String → String × Option String
  | [] => (peer, header)
  | proxy :: rest => chain proxy (forward header peer) rest

/-- A non-blank address without a comma. -/
structure IsAddress (a : String) : Prop where
  nonblank : trimChars a.toList ≠ []
  commaFree : ',' ∉ a.toList

/-- The entries that a header contributes. -/
def entries (header : Option String) : List String :=
  match header with
  | none => []
  | some h => if h = "" then [] else (splitComma h).filterMap normIp

/-- The address is at the given depth, clamped to the list, of the peer and the entries
from the last. -/
theorem deriveClientIp_eq (peer header : Option String) (hops : Int) :
    deriveClientIp peer header hops =
      ((peer.bind normIp :: (entries header).reverse.map some).getD
        (min hops.toNat (entries header).length) none).or (peer.bind normIp) := by
  have hentries : deriveClientIp peer header hops =
      (let list := peer.bind normIp :: (entries header).reverse.map some
       let idx := if hops < 0 then 0 else hops.toNat
       let idx := if idx > list.length - 1 then list.length - 1 else idx
       (list.getD idx none).or (peer.bind normIp)) := rfl
  have hindex : (if hops < 0 then 0 else hops.toNat) = hops.toNat := by
    split
    · omega
    · rfl
  have hclamp : (if hops.toNat > (entries header).length then (entries header).length
      else hops.toNat) = min hops.toNat (entries header).length := by
    split
    · omega
    · omega
  rw [hentries]
  simp only [List.length_cons, List.length_map, List.length_reverse, Nat.add_sub_cancel, hindex,
    hclamp]

theorem deriveClientIp_entries (peer header : Option String) (n : Nat)
    (h : n ≤ (entries header).length) :
    deriveClientIp peer header n =
      (((peer.bind normIp :: (entries header).reverse.map some).getD n none)).or
        (peer.bind normIp) := by
  rw [deriveClientIp_eq, Int.toNat_natCast, Nat.min_eq_left h]

theorem normIp_isSome {a : String} (h : trimChars a.toList ≠ []) : ∃ ip, normIp a = some ip := by
  unfold normIp
  have hne : (trimChars a.toList).isEmpty = false := by simpa using h
  simp only [hne, Bool.false_eq_true, if_false]
  split <;> exact ⟨_, rfl⟩

theorem splitComma_commaFree {a : String} (h : ',' ∉ a.toList) : splitComma a = [a] := by
  have hsplit : a.toList.splitOn ',' = [a.toList] := by
    rw [List.splitOn_eq_splitOnP]
    refine List.splitOnP_eq_singleton fun c hc => ?_
    have hne : c ≠ ',' := by
      rintro rfl
      exact h hc
    simpa using hne
  rw [splitComma, hsplit, List.map_cons, String.ofList_toList, List.map_nil]

theorem splitComma_append (h a : String) :
    splitComma (h ++ ", " ++ a) = splitComma h ++ splitComma (" " ++ a) := by
  have htext : (h ++ ", " ++ a).toList = h.toList ++ ',' :: (" " ++ a).toList := by
    simp [String.toList_append]
  have hsplit := List.splitOnP_append_cons (p := fun c => c == ',') h.toList (" " ++ a).toList
    (beq_self_eq_true _)
  simp only [splitComma, htext, List.splitOn_eq_splitOnP, hsplit, List.map_append]

/-- `trim` removes the blank that a proxy writes before its entry. -/
theorem normIp_blank (a : String) : normIp (" " ++ a) = normIp a := by
  have htext : (" " ++ a).toList = ' ' :: a.toList := by simp [String.toList_append]
  have htrim : trimChars (" " ++ a).toList = trimChars a.toList := by
    rw [htext, trimChars, trimChars, List.dropWhile_cons_of_pos (by decide)]
  simp only [normIp, htrim]

/-- A proxy adds one entry at the end and leaves the others as they are. -/
theorem entries_forward {a ip : String} (ha : ',' ∉ a.toList) (hip : normIp a = some ip)
    (header : Option String) : entries (forward header a) = entries header ++ [ip] := by
  have hne : a ≠ "" := by
    rintro rfl
    cases hip
  have hself : entries (some a) = [ip] := by
    simp only [entries, hne, if_false, splitComma_commaFree ha, List.filterMap_cons, hip,
      List.filterMap_nil]
  cases header with
  | none => exact hself
  | some h =>
    by_cases hempty : h = ""
    · simp only [forward, hempty, if_true]
      simpa [entries] using hself
    · have hblank : ',' ∉ (" " ++ a).toList := by
        simpa [String.toList_append] using ha
      have hfull : h ++ ", " ++ a ≠ "" := by
        intro heq
        have := congrArg String.toList heq
        simp [String.toList_append] at this
      simp only [forward, hempty, if_false, entries, hfull, splitComma_append,
        splitComma_commaFree hblank, List.filterMap_append, List.filterMap_cons, normIp_blank, hip,
        List.filterMap_nil]

/-- Behind the chain, the addresses from the vault outwards are the peer and the entries
from the last: the proxies, the client, and what the client wrote. -/
theorem chain_entries {proxies : List String} {peer : String}
    (h : ∀ a ∈ peer :: proxies, IsAddress a) (header : Option String) :
    let r := chain peer header proxies
    normIp r.1 :: (entries r.2).reverse.map some =
      ((peer :: proxies).map normIp).reverse ++ (entries header).reverse.map some := by
  induction proxies generalizing peer header with
  | nil => rfl
  | cons proxy rest ih =>
    have hpeer := h peer List.mem_cons_self
    obtain ⟨ip, hip⟩ := normIp_isSome hpeer.nonblank
    have hrest := ih (fun a ha => h a (List.mem_cons_of_mem _ ha)) (forward header peer)
    simp only [chain] at hrest ⊢
    rw [hrest, entries_forward hpeer.commaFree hip]
    simp [hip]

/-- The vault attributes a request to the address from which the client connected to
the first of its proxies, whatever header the client has sent. -/
theorem client_address (client : String) (proxies : List String)
    (h : ∀ a ∈ client :: proxies, IsAddress a) (header header' : Option String) :
    let r := chain client header proxies
    let r' := chain client header' proxies
    deriveClientIp (some r.1) r.2 proxies.length = normIp client ∧
      deriveClientIp (some r.1) r.2 proxies.length =
        deriveClientIp (some r'.1) r'.2 proxies.length := by
  have hclient : ∀ header : Option String,
      deriveClientIp (some (chain client header proxies).1) (chain client header proxies).2
        proxies.length = normIp client := by
    intro header
    have hlist := chain_entries h header
    obtain ⟨ip, hip⟩ := normIp_isSome (h client List.mem_cons_self).nonblank
    have hlength := congrArg List.length hlist
    simp only [List.length_cons, List.length_map, List.length_reverse,
      List.length_append] at hlength
    rw [deriveClientIp_entries _ _ _ (by omega)]
    simp only [Option.bind_some, hlist, List.map_cons, List.reverse_cons, List.append_assoc]
    have hat : (((proxies.map normIp).reverse ++ ([normIp client] ++
        (entries header).reverse.map some)).getD proxies.length none) = normIp client := by
      simp [List.getD_eq_getElem?_getD]
    rw [hat, hip]
    rfl
  exact ⟨hclient header, (hclient header).trans (hclient header').symm⟩

/-- Two proxies; the client has forged an entry and left a blank one. -/
theorem client_address_forged :
    deriveClientIp (some "10.0.0.2") (some "1.2.3.4, , ::ffff:198.51.100.7, 10.0.0.1") 2 =
        some "198.51.100.7" ∧
      deriveClientIp (some "10.0.0.2") (some "1.2.3.4, , ::ffff:198.51.100.7, 10.0.0.1") 2 =
        deriveClientIp (some "10.0.0.2") (some "::ffff:198.51.100.7, 10.0.0.1") 2 := by
  have hall : ∀ a ∈ ["::ffff:198.51.100.7", "10.0.0.1", "10.0.0.2"], IsAddress a := by
    intro a ha
    simp only [List.mem_cons, List.not_mem_nil, or_false] at ha
    rcases ha with rfl | rfl | rfl <;> exact ⟨by decide, by decide⟩
  have h := client_address "::ffff:198.51.100.7" ["10.0.0.1", "10.0.0.2"] hall
    (some "1.2.3.4, ") none
  have hip : normIp "::ffff:198.51.100.7" = some "198.51.100.7" := by decide +kernel
  rw [hip] at h
  exact h

def nonBlank (s : String) : Bool := !(trimChars s.toList).isEmpty

/-- The comma-separated entries of a header that are not blank. -/
def nonBlankEntries (header : Option String) : List String :=
  (splitComma (header.getD "")).filter nonBlank

/-- The address that the depth of the chain calls for: the entry at that depth from the
right, and the socket peer if the header does not reach so far. -/
def intendedIp (peer : String) (header : Option String) (hops : Nat) : Option String :=
  if hops = 0 ∨ (nonBlankEntries header).length < hops then normIp peer
  else ((nonBlankEntries header).reverse[hops - 1]?).bind normIp

theorem normIp_blank_iff (s : String) : normIp s = none ↔ nonBlank s = false := by
  simp only [normIp, nonBlank, Bool.not_eq_false']
  constructor
  · intro h
    by_contra hne
    simp only [hne, if_false] at h
    split at h <;> cases h
  · intro h
    simp only [h, if_true]

/-- The header contributes its entries that are not blank, each normalized. -/
theorem entries_nonBlank (header : Option String) :
    (entries header).map some = (nonBlankEntries header).map normIp := by
  have hlist : ∀ l : List String,
      (l.filterMap normIp).map some = (l.filter nonBlank).map normIp := by
    intro l
    induction l with
    | nil => rfl
    | cons a rest ih =>
      by_cases ha : nonBlank a = true
      · have hsome : normIp a ≠ none := by
          intro h
          rw [(normIp_blank_iff a).mp h] at ha
          cases ha
        obtain ⟨ip, hip⟩ := Option.ne_none_iff_exists'.mp hsome
        simp only [List.filterMap_cons, hip, List.filter_cons, ha, if_true, List.map_cons, ih]
      · have hnone : normIp a = none := (normIp_blank_iff a).mpr (by simpa using ha)
        simp only [List.filterMap_cons, hnone, List.filter_cons, ha,
          Bool.false_eq_true, if_false, ih]
  cases header with
  | none => decide
  | some h =>
    by_cases hempty : h = ""
    · subst hempty
      decide
    · simp only [entries, hempty, if_false, nonBlankEntries, Option.getD_some, hlist]

/-- A depth that the header reaches yields the entry at that depth. -/
theorem deriveClientIp_reached {peer : String} (hpeer : nonBlank peer = true)
    {header : Option String} {hops : Nat} (h : hops ≤ (entries header).length) :
    deriveClientIp (some peer) header hops = intendedIp peer header hops := by
  have hmapped := entries_nonBlank header
  have hlength : (nonBlankEntries header).length = (entries header).length := by
    have := congrArg List.length hmapped
    simpa using this.symm
  obtain ⟨ip, hip⟩ : ∃ ip, normIp peer = some ip := by
    apply Option.ne_none_iff_exists'.mp
    intro hnone
    rw [(normIp_blank_iff peer).mp hnone] at hpeer
    cases hpeer
  rw [deriveClientIp_entries _ _ _ h, Option.bind_some, hip]
  unfold intendedIp
  by_cases hzero : hops = 0
  · subst hzero
    simp [hip]
  · have hreach : ¬ (hops = 0 ∨ (nonBlankEntries header).length < hops) := by omega
    obtain ⟨n, rfl⟩ := Nat.exists_eq_succ_of_ne_zero hzero
    have hn : n < (entries header).reverse.length := by
      rw [List.length_reverse]
      omega
    have hat : ((entries header).reverse.map some)[n]? =
        ((nonBlankEntries header).reverse.map normIp)[n]? := by
      rw [List.map_reverse, List.map_reverse, hmapped]
    have hentry : ((entries header).reverse.map some)[n]? =
        some (some ((entries header).reverse[n])) := by
      rw [List.getElem?_map, List.getElem?_eq_getElem hn]
      rfl
    simp only [hreach, if_false, List.getD_eq_getElem?_getD, Nat.succ_eq_add_one,
      List.getElem?_cons_succ, Nat.add_sub_cancel]
    rw [hentry]
    rw [hentry, List.getElem?_map] at hat
    cases hb : (nonBlankEntries header).reverse[n]? with
    | none =>
      rw [hb] at hat
      cases hat
    | some b =>
      rw [hb] at hat
      simp only [Option.map_some, Option.some.injEq] at hat
      simp only [Option.getD_some, Option.bind_some, ← hat, Option.some_or]

/-- Beyond the last entry the index is clamped: to the leftmost entry if there is one. -/
theorem deriveClientIp_clamped {peer : String} {header : Option String} {hops : Nat}
    (h : (entries header).length < hops) :
    deriveClientIp (some peer) header hops =
      ((entries header).head?).or (normIp peer) := by
  rw [deriveClientIp_eq, Int.toNat_natCast, Nat.min_eq_right (by omega), Option.bind_some]
  cases hlist : entries header with
  | nil => simp
  | cons first rest => simp [List.getD_eq_getElem?_getD]

/-- The address is the intended one unless the header is shorter than the chain and not
empty; then it is the leftmost entry, whatever the peer is. -/
theorem short_header_iff (peer : String) (hpeer : nonBlank peer = true) (header : Option String)
    (hops : Nat) :
    deriveClientIp (some peer) header hops = intendedIp peer header hops ↔
      hops ≤ (nonBlankEntries header).length ∨ nonBlankEntries header = [] ∨
        (nonBlankEntries header).head?.bind normIp = normIp peer := by
  have hmapped := entries_nonBlank header
  have hlength : (nonBlankEntries header).length = (entries header).length := by
    have := congrArg List.length hmapped
    simpa using this.symm
  by_cases hreached : hops ≤ (entries header).length
  · have hvalue := deriveClientIp_reached hpeer hreached
    exact ⟨fun _ => Or.inl (by omega), fun _ => hvalue⟩
  · have hshort : hops = 0 ∨ (nonBlankEntries header).length < hops := by omega
    have hnot : ¬ hops ≤ (nonBlankEntries header).length := by omega
    rw [deriveClientIp_clamped (by omega), intendedIp, if_pos hshort]
    cases hlist : nonBlankEntries header with
    | nil =>
      rw [hlist] at hmapped
      have hnil : entries header = [] := by simpa using hmapped
      simp [hnil]
    | cons first rest =>
      rw [hlist] at hmapped hnot
      cases hentries : entries header with
      | nil =>
        rw [hentries] at hmapped
        cases hmapped
      | cons ip ips =>
        rw [hentries] at hmapped
        have hfirst : some ip = normIp first := (List.cons.inj hmapped).1
        simp only [List.head?_cons, Option.bind_some, Option.some_or, hnot, ← hfirst, false_or]
        simp

theorem short_header_reached :
    deriveClientIp (some "10.0.0.2") (some "6.6.6.6, 7.7.7.7") (2 : Nat) =
      intendedIp "10.0.0.2" (some "6.6.6.6, 7.7.7.7") 2 :=
  (short_header_iff "10.0.0.2" (by decide) (some "6.6.6.6, 7.7.7.7") 2).mpr
    (Or.inl (by decide +kernel))

/-- At a depth of two, a header of one entry is taken for the client's address. -/
theorem short_header_trusted :
    deriveClientIp (some "10.0.0.2") (some "6.6.6.6") (2 : Nat) ≠
      intendedIp "10.0.0.2" (some "6.6.6.6") 2 := by
  decide +kernel

end ProxyChain
