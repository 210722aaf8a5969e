import KeyVault.AclInvariant
import KeyVault.GenerateKeyRuns
import KeyVault.HandlerRuns

/-!
# The validity window

The timestamps that generate-key accepts pass through two narrower ranges: a
timestamptz column, and a JavaScript `Date`. A bound beyond the first is not stored,
and a bound beyond the second restricts nothing. The window of a key is the one that
was asked for exactly if its bounds lie within these ranges.
-/

namespace ValidityWindow

open JsValue Acl AclNormal AclInvariant KeyGen Errors Programs Interleaving Vault KeyStore Handlers
open CallEffects HandlerRuns GenerateKeyRuns Tables

variable {L : Libraries} {i : ThreadId} {cfg : Config} {user : VaultUser} {data : Json}

/-- The condition that the two timestamps stand for, at an instant in milliseconds. -/
def Open (nbf exp : Option Nat) (t : Nat) : Prop :=
  (∀ n, nbf = some n → n * 1000 ≤ t) ∧ ∀ e, exp = some e → t < e * 1000

/-- The timestamp, where there is one, is at most this many seconds. -/
def AtMost (limit : Nat) (seconds : Option Nat) : Prop := ∀ s, seconds = some s → s ≤ limit

/-- The last second of a JavaScript `Date`. -/
def dateMaxSeconds : Nat := 8640000000000

/-- TO_TIMESTAMP stores a second exactly, up to the last one of a timestamptz, and what it
makes of a later one is out of range. -/
structure Precise (L : Libraries) : Prop where
  stores : ∀ s ≤ timestamptzMax, L.toTimestamp s = s * 1000000
  raises : ∀ s, timestamptzMax < s → timestamptzMax < L.toTimestamp s / 1000000

/-- The column of a second that is stored exactly. -/
def whole (seconds : Option Nat) : Option Nat := seconds.map (· * 1000000)

theorem whole_bind (f : Nat → Option Nat) (s : Nat) : (whole (some s)).bind f = f (s * 1000000) :=
  rfl

theorem inRange_some (micros : Nat) :
    inRange (some micros) = true ↔ micros / 1000000 ≤ timestamptzMax := decide_eq_true_iff

theorem inRange_iff (hL : Precise L) {seconds : Option Nat} :
    inRange (seconds.map L.toTimestamp) = true ↔ AtMost timestamptzMax seconds := by
  cases seconds with
  | none => simp [inRange, AtMost]
  | some s =>
    have hcolumn : L.toTimestamp s / 1000000 ≤ timestamptzMax ↔ s ≤ timestamptzMax := by
      by_cases hs : s ≤ timestamptzMax
      · rw [hL.stores s hs, Nat.mul_div_cancel s (by decide)]
      · exact iff_of_false (Nat.not_le.mpr (hL.raises s (by omega))) hs
    rw [Option.map_some, inRange_some, hcolumn]
    simp [AtMost]

theorem column_whole (hL : Precise L) {seconds : Option Nat} (h : AtMost timestamptzMax seconds) :
    seconds.map L.toTimestamp = whole seconds := by
  cases seconds with
  | none => rfl
  | some s => simp [whole, hL.stores s (h s rfl)]

theorem getTime_whole (s : Nat) :
    getTime (s * 1000000) = if s ≤ dateMaxSeconds then some (s * 1000) else none := by
  have hmillis : s * 1000000 / 1000 = s * 1000 := by omega
  have hdate : s * 1000 ≤ dateMax ↔ s ≤ dateMaxSeconds := by
    simp only [dateMax, dateMaxSeconds]
    omega
  simp only [getTime, hmillis, hdate]

/-- A bound counts exactly if a `Date` can hold it. -/
theorem inWindow_iff {row : VaultKey} {nbf exp : Option Nat} (hnbf : row.notBefore = whole nbf)
    (hexp : row.expiresAt = whole exp) (t : Nat) :
    inWindow row t = true ↔
      (∀ n, nbf = some n → n ≤ dateMaxSeconds → n * 1000 ≤ t) ∧
        ∀ e, exp = some e → e ≤ dateMaxSeconds → t < e * 1000 := by
  have hfrom : (!(row.notBefore.bind getTime).any (fun n => t < n)) = true ↔
      ∀ n, nbf = some n → n ≤ dateMaxSeconds → n * 1000 ≤ t := by
    rw [hnbf]
    cases nbf with
    | none => simp [whole]
    | some n =>
      rw [whole_bind, getTime_whole]
      by_cases hn : n ≤ dateMaxSeconds
      · simp [hn]
      · simp [hn]
  have huntil : (!(row.expiresAt.bind getTime).any (fun e => e ≤ t)) = true ↔
      ∀ e, exp = some e → e ≤ dateMaxSeconds → t < e * 1000 := by
    rw [hexp]
    cases exp with
    | none => simp [whole]
    | some e =>
      rw [whole_bind, getTime_whole]
      by_cases he : e ≤ dateMaxSeconds
      · simp [he]
      · simp [he]
  rw [inWindow, Bool.and_eq_true, hfrom, huntil]

/-- An expiry beyond every `Date` cannot be reached by one. -/
theorem inWindow_iff_open {row : VaultKey} {nbf exp : Option Nat}
    (hfrom : row.notBefore = whole nbf) (huntil : row.expiresAt = whole exp) {t : Nat}
    (hnbf : AtMost dateMaxSeconds nbf) (hexp : AtMost dateMaxSeconds exp ∨ t ≤ dateMax) :
    inWindow row t = true ↔ Open nbf exp t := by
  rw [inWindow_iff hfrom huntil]
  constructor
  · rintro ⟨hfrom, huntil⟩
    constructor
    · intro n hn
      exact hfrom n hn (hnbf n hn)
    · intro e he
      by_cases hdate : e ≤ dateMaxSeconds
      · exact huntil e he hdate
      · rcases hexp with hexp | ht
        · exact absurd (hexp e he) hdate
        · simp only [dateMax, dateMaxSeconds] at ht hdate
          omega
  · rintro ⟨hfrom, huntil⟩
    constructor
    · intro n hn _
      exact hfrom n hn
    · intro e he _
      exact huntil e he

/-- At these instants every operation that is authorised otherwise is let through, and
every key that is listed otherwise is listed, exactly if the window is open. The row may
have been changed since in its other columns. -/
structure Enforces (L : Libraries) (key : VaultKey) (nbf exp : Option Nat)
    (instants : Nat → Prop) : Prop where
  operation : ∀ (i : ThreadId) (s : Session) (user : VaultUser) (opClass : OpClass) (row : KeyRow),
    (s.turns.headD {}).fails = none → s.world.keys.find key.keyId = some row →
    row.notBefore = key.notBefore → row.expiresAt = key.expiresAt →
    granted user row.toVaultKey opClass = true → instants s.pass.pass.world.clock →
      (((authorizedKey user key.keyId opClass).run (serve L i) s).1 = .ok row.toVaultKey ↔
        Open nbf exp s.pass.pass.world.clock)
  listing : ∀ (i : ThreadId) (s : Session) (userId : String) (userData : Json) (row : KeyRow),
    (s.turns.headD {}).fails = none → s.world.keys.find key.keyId = some row →
    row.notBefore = key.notBefore → row.expiresAt = key.expiresAt →
    aclMentions row.acl userId = true → effectiveAny userData row.acl userId = true →
    instants s.pass.pass.world.clock →
      ∃ items, ((KeyStore.listKeys userId userData).run (serve L i) s).1 = .ok items ∧
        (listed row.toVaultKey ∈ items ↔ Open nbf exp s.pass.pass.world.clock)

theorem authorizedKey_ok_iff {s : Session} {opClass : OpClass} {row : KeyRow} {kid : String}
    (hs : (s.turns.headD {}).fails = none) (hfind : s.world.keys.find kid = some row)
    (hgranted : granted user row.toVaultKey opClass = true) :
    ((authorizedKey user kid opClass).run (serve L i) s).1 = .ok row.toVaultKey ↔
      inWindow row.toVaultKey s.pass.pass.world.clock = true := by
  rw [authorizedKey_run L i user kid opClass hs, hfind]
  simp only [hgranted, if_true]
  by_cases hwindow : inWindow row.toVaultKey s.pass.pass.world.clock = true
  · simp only [hwindow, if_true]
  · simp only [hwindow]
    simp

/-- Rows with distinct ids are listed as themselves. -/
theorem listed_mem_iff {s : Session} {userId : String} {userData : Json} {row : KeyRow}
    (hfind : s.world.keys.find row.keyId = some row) (hacl : aclMentions row.acl userId = true)
    (hany : effectiveAny userData row.acl userId = true) (t : Nat) :
    listed row.toVaultKey ∈ (keyList userId userData s.world t).map listed ↔
      inWindow row.toVaultKey t = true := by
  constructor
  · intro h
    obtain ⟨key, hkey, hsame⟩ := List.mem_map.mp h
    obtain ⟨hkey, hfilter⟩ := List.mem_filter.mp hkey
    obtain ⟨row', hrow', rfl⟩ := List.mem_map.mp hkey
    have hid : row'.keyId = row.keyId := by
      have hprops := Json.obj.inj hsame
      simpa using congrArg (List.lookup "kid") hprops
    have hfind' := Table.find_of_mem (List.mem_filter.mp hrow').1
    rw [hid] at hfind'
    have heq : row' = row := Option.some.inj (hfind'.symm.trans hfind)
    subst heq
    exact (Bool.and_eq_true_iff.mp hfilter).1
  · intro hwindow
    apply List.mem_map_of_mem
    apply List.mem_filter.mpr
    constructor
    · apply List.mem_map_of_mem
      exact List.mem_filter.mpr ⟨Table.find_mem hfind, hacl⟩
    · simp [hwindow, hany]

/-- Both paths check the window of the row. -/
theorem enforces_of_window {key : VaultKey} {nbf exp : Option Nat} {instants : Nat → Prop}
    (h : ∀ row : VaultKey, row.notBefore = key.notBefore → row.expiresAt = key.expiresAt →
      ∀ t, instants t → (inWindow row t = true ↔ Open nbf exp t)) :
    Enforces L key nbf exp instants := by
  constructor
  · intro i s user opClass row hs hfind hnbf hexp hgranted ht
    rw [authorizedKey_ok_iff hs hfind hgranted]
    exact h row.toVaultKey hnbf hexp _ ht
  · intro i s userId userData row hs hfind hnbf hexp hacl hany ht
    have hid : row.keyId = key.keyId := Table.find_key (t := s.world.keys) hfind
    refine ⟨_, congrArg Prod.fst (listKeys_run L i userId userData hs), ?_⟩
    rw [listed_mem_iff (hid ▸ hfind) hacl hany]
    exact h row.toVaultKey hnbf hexp _ ht

/-- An owner named by the ACL passes every other check. -/
theorem owner_granted {acl : Json} (h : Normal acl) :
    ∃ user : VaultUser, ∀ row : VaultKey, row.acl = acl → granted user row .encrypt = true := by
  obtain ⟨props, rfl, hnodup, hentries, entry, hmem, howner⟩ := h
  obtain ⟨huuid, hlower, classes, -, -, hclasses⟩ := hentries entry hmem
  refine ⟨⟨entry.1, none, .obj []⟩, ?_⟩
  intro row hacl
  have hlookup : props.lookup entry.1 = some entry.2 := lookup_of_mem hnodup hmem
  have hclass : opClasses.contains .encrypt = true := by decide
  have hops : ∃ ops, entry.2 = .arr ops ∧ ops.contains (.str "owner") = true := by
    rw [hclasses] at howner
    exact ⟨_, hclasses, howner⟩
  obtain ⟨ops, hops, hcontains⟩ := hops
  simp only [granted, aclAllows, hacl, huuid, hclass, hlower, get?_obj, hlookup, hops, hcontains]
  simp [Json.isPlainObject, allowedOpsAllows, userAllowedOps, List.lookup]

/-- What is enforced of a stored row with a valid ACL is what its window does. -/
theorem Enforces.window {key : VaultKey} {nbf exp : Option Nat} {instants : Nat → Prop}
    (h : Enforces L key nbf exp instants) {w : World} {row : KeyRow}
    (hfind : w.keys.find key.keyId = some row) (hrow : row.toVaultKey = key)
    (hacl : Normal key.acl) {t : Nat} (ht : instants t) :
    inWindow key t = true ↔ Open nbf exp t := by
  obtain ⟨user, huser⟩ := owner_granted hacl
  have hgranted := huser row.toVaultKey (by rw [hrow])
  have hop := h.operation 0 (quiet { w with clock := t }) user .encrypt row rfl hfind
    (by rw [← hrow]) (by rw [← hrow]) hgranted ht
  rw [authorizedKey_ok_iff rfl hfind hgranted, hrow] at hop
  exact hop

/-- The part of generate-key before the generation. -/
def checkRequest (user : VaultUser) (data : Json) : Api (KeySpec × AclMap) := do
  let spec ← generateKeySpec user data
  let now ← ask .dateNow
  checkTimes data (now / 1000)
  checkReturnPublicKey data spec
  let acl ← resolveAcl user data
  return (spec, acl)

theorem generateKey_eq (cfg : Config) (user : VaultUser) (data : Json) :
    generateKey cfg user data = (do
      let checked ← checkRequest user data
      let generated ← generate cfg checked.1 checked.2 (notBefore data) (expiresAt data)
      return generateKeyResult data checked.2 generated) := by
  simp only [generateKey, checkRequest, bind_assoc, pure_bind]
  rfl

/-- What the accepted timestamps satisfy. -/
structure Accepted (data : Json) : Prop where
  ordered : ∀ n e, notBefore data = some n → expiresAt data = some e → n < e

theorem accepted_of_checkTimes {now : Nat} (h : checkTimes data now = .ok ()) : Accepted data := by
  constructor
  intro n e hn he
  obtain ⟨_, -, h⟩ := ok_of_bind h
  cases hexp : data.get? "exp" with
  | none => simp [expiresAt, hexp] at he
  | some exp =>
    rw [hexp] at h
    obtain ⟨_, -, h⟩ := ok_of_bind h
    have horder := require_ok.mp h
    cases hnbf : data.get? "nbf" with
    | none => simp [notBefore, hnbf] at hn
    | some nbf =>
      have hn' : nbf.toNat = n := by simpa [notBefore, hnbf] using hn
      have he' : exp.toNat = e := by simpa [expiresAt, hexp] using he
      simpa [hnbf, hn', he'] using horder

theorem ends_lift {α β : Type} {r : Except Thrown α} {f : α → Api β} {Q : Except Thrown β → Prop}
    (hok : ∀ a, r = .ok a → (f a).Ends Q) (herror : ∀ e, Q (.error e)) :
    (liftM r >>= f).Ends Q := by
  cases r with
  | ok a => exact hok a rfl
  | error e => exact herror e

theorem ends_ask {β : Type} {c : Call} {f : Ans c → Api β} {Q : Except Thrown β → Prop}
    (h : ∀ a, (f a).Ends Q) : (ask c >>= f).Ends Q := h

/-- What passes the checks has ordered timestamps and a valid ACL. -/
theorem checkRequest_ends (user : VaultUser) (data : Json) :
    (checkRequest user data).Ends (fun r => ∀ checked, r = .ok checked →
      Accepted data ∧ Normal (toJson checked.2)) := by
  have herror : ∀ e : Thrown, ∀ checked : KeySpec × AclMap, Except.error e = .ok checked →
      Accepted data ∧ Normal (toJson checked.2) := by
    intro e checked h
    cases h
  apply ends_lift ?_ herror
  intro spec _
  apply ends_ask
  intro now
  apply ends_lift ?_ herror
  intro _ htimes
  apply ends_lift ?_ herror
  intro _ _
  have hacl : (resolveAcl user data).CallsTo (fun _ => True) Validated :=
    resolveAcl_validated fun _ _ => trivial
  refine Prog.Ends.bind hacl.ends ?_ fun e _ => herror e
  intro acl hvalid checked hchecked
  obtain ⟨submitted, hvalidate⟩ := hvalid acl rfl
  have hsame : (spec, acl) = checked := Except.ok.inj hchecked
  subst hsame
  exact ⟨accepted_of_checkTimes htimes, normal_of_validate hvalidate⟩

/-- The database, the key generator and the active KEK serve the rest of the request. -/
structure Serving (L : Libraries) (cfg : Config) (spec : KeySpec) (s : Session) : Prop where
  undisturbed : ∀ turn ∈ s.turns, turn.fails = none
  generates : ∃ g, generateVaultKey L s.world.seed spec = .ok g ∧ s.world.keys.find g.kid = none
  seals : ∀ payload, ∃ token, L.jweEncrypt (s.world.seed + 1) cfg.kek.active.wrapAlg
    cfg.kek.active.wrapJwk payload none = .ok token

theorem serve_undisturbed {s : Session} (h : ∀ turn ∈ s.turns, turn.fails = none) (c : Call) :
    serve L i c s =
      ((effect L i c s.pass.world).1, ⟨s.turns.tail, (effect L i c s.pass.world).2⟩) := by
  have hhead : (s.turns.headD {}).fails = none := by
    cases hturns : s.turns with
    | nil => rfl
    | cons turn rest => exact h turn (by simp [hturns])
  simp only [serve, perform_succeeds hhead]
  rfl

/-- The insertion of a row whose key id is free. -/
theorem insertKey_run (hL : Precise L) {s : Session} (h : ∀ turn ∈ s.turns, turn.fails = none)
    (key : VaultKey)
    (hfree : s.world.keys.find key.keyId = none) :
    (AtMost timestamptzMax key.notBefore ∧ AtMost timestamptzMax key.expiresAt →
      ∃ s' now, serve L i (.insertKey key) s = (.ok key.keyId, s') ∧
        s'.world.keys.find key.keyId = some ⟨key.toColumns L, now, now⟩) ∧
      (¬ (AtMost timestamptzMax key.notBefore ∧ AtMost timestamptzMax key.expiresAt) →
        ∃ s', serve L i (.insertKey key) s = (.error "timestamp out of range", s')) := by
  have hfree' : s.pass.world.keys.find key.keyId = none := hfree
  rw [serve_undisturbed h]
  constructor
  · rintro ⟨hnbf, hexp⟩
    have hrange : (inRange (key.toColumns L).notBefore &&
        inRange (key.toColumns L).expiresAt) = true := by
      rw [Bool.and_eq_true]
      exact ⟨(inRange_iff hL).mpr hnbf, (inRange_iff hL).mpr hexp⟩
    simp only [effect, hfree', Option.isSome_none, Bool.false_eq_true, if_false, hrange, if_true]
    refine ⟨_, s.pass.world.clock, rfl, ?_⟩
    exact Table.find_insert_self (t := s.pass.world.keys)
      (r := ⟨key.toColumns L, s.pass.world.clock, s.pass.world.clock⟩) hfree'
  · intro hout
    have hrange : (inRange (key.toColumns L).notBefore &&
        inRange (key.toColumns L).expiresAt) = false := by
      rw [Bool.eq_false_iff, Ne, Bool.and_eq_true, VaultKey.toColumns, inRange_iff hL,
        inRange_iff hL]
      exact hout
    simp only [effect, hfree', Option.isSome_none, Bool.false_eq_true, if_false, hrange]
    exact ⟨_, rfl⟩

/-- A generated key is stored exactly if its timestamps fit the columns. -/
theorem generate_run (hL : Precise L) {spec : KeySpec} {s : Session}
    (h : Serving L cfg spec s) (acl : AclMap)
    (nbf exp : Option Nat) :
    (AtMost timestamptzMax nbf ∧ AtMost timestamptzMax exp →
      ∃ g token now s', (generate cfg spec acl nbf exp).run (serve L i) s =
          (.ok ⟨g.kid, g.kty, g.alg, g.publicKey⟩, s') ∧
        s'.world.keys.find g.kid =
          some ⟨(newKey g acl nbf exp cfg.kek.active.kid token).toColumns L, now, now⟩) ∧
      (¬ (AtMost timestamptzMax nbf ∧ AtMost timestamptzMax exp) →
        ∃ e s', (generate cfg spec acl nbf exp).run (serve L i) s = (.error e, s')) := by
  obtain ⟨g, hg, hfree⟩ := h.generates
  have htail : ∀ {turns : List Turn}, (∀ turn ∈ turns, turn.fails = none) →
      ∀ turn ∈ turns.tail, turn.fails = none :=
    fun hturns turn hmem => hturns turn (List.mem_of_mem_tail hmem)
  -- the four calls, each in the session that the one before has left
  obtain ⟨w₁, hcall₁, hkeys₁, hseed₁⟩ : ∃ w₁ : World, serve L i (.generateVaultKey spec) s =
      (.ok g, ⟨s.turns.tail, w₁⟩) ∧ w₁.keys = s.world.keys ∧ w₁.seed = s.world.seed + 1 := by
    have hg' : generateVaultKey L s.pass.world.seed spec = .ok g := hg
    rw [serve_undisturbed h.undisturbed]
    simp only [effect, hg']
    exact ⟨_, rfl, rfl, rfl⟩
  obtain ⟨now, w₂, hcall₂, hkeys₂, hseed₂⟩ : ∃ (now : Nat) (w₂ : World),
      serve L i .dateNow ⟨s.turns.tail, w₁⟩ = (now, ⟨s.turns.tail.tail, w₂⟩) ∧
        w₂.keys = w₁.keys ∧ w₂.seed = w₁.seed := by
    rw [serve_undisturbed (htail h.undisturbed)]
    exact ⟨_, _, rfl, rfl, rfl⟩
  obtain ⟨token, htoken⟩ := h.seals
    (embedClaims g.kid (now / 1000) (secondsClaim nbf) (secondsClaim exp) g.secretKey)
  obtain ⟨w₃, hcall₃, hkeys₃⟩ : ∃ w₃ : World,
      serve L i (.jweEncrypt cfg.kek.active.wrapAlg cfg.kek.active.wrapJwk
        (embedClaims g.kid (now / 1000) (secondsClaim nbf) (secondsClaim exp) g.secretKey) none)
        ⟨s.turns.tail.tail, w₂⟩ = (.ok token, ⟨s.turns.tail.tail.tail, w₃⟩) ∧
        w₃.keys = w₂.keys := by
    have hseed : w₂.seed = s.world.seed + 1 := hseed₂.trans hseed₁
    rw [← hseed] at htoken
    rw [serve_undisturbed (htail (htail h.undisturbed))]
    refine ⟨_, Prod.ext htoken rfl, rfl⟩
  have hfree₃ : w₃.keys.find g.kid = none := by
    rw [hkeys₃, hkeys₂, hkeys₁]
    exact hfree
  have hrun : (generate cfg spec acl nbf exp).run (serve L i) s =
      (Prog.call (.insertKey (newKey g acl nbf exp cfg.kek.active.kid token)) fun r =>
        liftM (orThrow r) >>= fun _ =>
          (pure ⟨g.kid, g.kty, g.alg, g.publicKey⟩ : Api Generated)).run
          (serve L i) ⟨s.turns.tail.tail.tail, w₃⟩ := by
    rw [generate, ask_bind, Prog.run_call, hcall₁]
    simp only [orThrow_ok, Prog.liftM_eq, Prog.done_ok_bind, storeGenerated, embed, ask_bind]
    rw [Prog.run_call, hcall₂]
    simp only [Prog.call_bind]
    rw [Prog.run_call, hcall₃]
    rfl
  have hinsert := insertKey_run hL (i := i) (s := ⟨s.turns.tail.tail.tail, w₃⟩)
    (htail (htail (htail h.undisturbed))) (newKey g acl nbf exp cfg.kek.active.kid token) hfree₃
  rw [hrun, Prog.run_call]
  constructor
  · intro hfits
    obtain ⟨s', created, hcall, hfind⟩ := hinsert.1 hfits
    rw [hcall]
    exact ⟨g, token, created, s', rfl, hfind⟩
  · intro hout
    obtain ⟨s', hcall⟩ := hinsert.2 hout
    rw [hcall]
    exact ⟨_, s', rfl⟩

theorem generateKey_run (hL : Precise L) {spec : KeySpec} {acl : AclMap} {s s₁ : Session}
    (hchecked : (checkRequest user data).run (serve L i) s = (.ok (spec, acl), s₁))
    (hserving : Serving L cfg spec s₁) :
    (AtMost timestamptzMax (notBefore data) ∧ AtMost timestamptzMax (expiresAt data) →
      ∃ g token now s₂, (generateKey cfg user data).run (serve L i) s =
          (.ok (generateKeyResult data acl ⟨g.kid, g.kty, g.alg, g.publicKey⟩), s₂) ∧
        s₂.world.keys.find g.kid = some ⟨(newKey g acl (notBefore data) (expiresAt data)
          cfg.kek.active.kid token).toColumns L, now, now⟩) ∧
      (¬ (AtMost timestamptzMax (notBefore data) ∧ AtMost timestamptzMax (expiresAt data)) →
        ∃ e s₂, (generateKey cfg user data).run (serve L i) s = (.error e, s₂)) := by
  have hgenerate := generate_run hL (i := i) hserving acl (notBefore data) (expiresAt data)
  rw [generateKey_eq, Prog.run_bind_ok hchecked]
  constructor
  · intro hfits
    obtain ⟨g, token, now, s₂, hrun, hfind⟩ := hgenerate.1 hfits
    exact ⟨g, token, now, s₂, Prog.run_bind_ok hrun, hfind⟩
  · intro hout
    obtain ⟨e, s₂, hrun⟩ := hgenerate.2 hout
    exact ⟨e, s₂, Prog.run_bind_error hrun⟩

/-- The request leaves a stored key whose window is enforced at the later of these
instants. -/
def WindowKept (L : Libraries) (i : ThreadId) (cfg : Config) (user : VaultUser) (data : Json)
    (s : Session) (instants : Nat → Prop) : Prop :=
  ∃ result s' row, (generateKey cfg user data).run (serve L i) s = (.ok result, s') ∧
    result.data.bind (fun d => d.get? "kid") = some (.str row.keyId) ∧
    s'.world.keys.find row.keyId = some row ∧
    Enforces L row.toVaultKey (notBefore data) (expiresAt data)
      (fun t => s'.world.clock ≤ t ∧ instants t)

/-- What the two comparisons come to for a row that stores these bounds exactly. -/
def Correct (nbf exp : Option Nat) (since : Nat) (instants : Nat → Prop) : Prop :=
  ∀ key : VaultKey, key.notBefore = whole nbf → key.expiresAt = whole exp →
    ∀ t, since ≤ t → instants t → (inWindow key t = true ↔ Open nbf exp t)

theorem windowKept_iff (hL : Precise L) {spec : KeySpec} {acl : AclMap} {s s₁ : Session}
    (hchecked : (checkRequest user data).run (serve L i) s = (.ok (spec, acl), s₁))
    (hserving : Serving L cfg spec s₁) (instants : Nat → Prop) :
    WindowKept L i cfg user data s instants ↔
      (AtMost timestamptzMax (notBefore data) ∧ AtMost timestamptzMax (expiresAt data)) ∧
        Correct (notBefore data) (expiresAt data)
          ((generateKey cfg user data).run (serve L i) s).2.world.clock instants := by
  have hrun := generateKey_run hL (i := i) hchecked hserving
  have hacl : Normal (toJson acl) := by
    have hends := (checkRequest_ends user data).run (serve L i) s
    rw [hchecked] at hends
    exact (hends _ rfl).2
  constructor
  · rintro ⟨result, s₂, row, hgenerate, hkid, hfind, henforces⟩
    by_cases hfits : AtMost timestamptzMax (notBefore data) ∧ AtMost timestamptzMax (expiresAt data)
    · refine ⟨hfits, ?_⟩
      obtain ⟨g, token, now, s₂', hgenerate', hfind'⟩ := hrun.1 hfits
      obtain ⟨hresult, rfl⟩ := Prod.mk.inj (hgenerate'.symm.trans hgenerate)
      have hresult := Except.ok.inj hresult
      have hid : row.keyId = g.kid := by
        rw [← hresult] at hkid
        simpa [generateKeyResult, literal, List.lookup] using hkid.symm
      rw [hid, hfind'] at hfind
      have hrow := Option.some.inj hfind
      subst hrow
      intro key hnbf hexp t hsince ht
      rw [hgenerate'] at hsince
      have hsame : inWindow key t = inWindow ((newKey g acl (notBefore data) (expiresAt data)
          cfg.kek.active.kid token).toColumns L) t := by
        simp only [inWindow, hnbf, hexp, newKey, VaultKey.toColumns, column_whole hL hfits.1,
          column_whole hL hfits.2]
      rw [hsame]
      exact henforces.window hfind' rfl hacl ⟨hsince, ht⟩
    · obtain ⟨e, s₂', hgenerate'⟩ := hrun.2 hfits
      rw [hgenerate'] at hgenerate
      cases hgenerate
  · rintro ⟨hfits, hcorrect⟩
    obtain ⟨g, token, now, s₂, hgenerate, hfind⟩ := hrun.1 hfits
    rw [hgenerate] at hcorrect
    refine ⟨_, s₂, ⟨(newKey g acl (notBefore data) (expiresAt data) cfg.kek.active.kid
      token).toColumns L, now, now⟩, hgenerate, ?_, hfind, ?_⟩
    · simp [generateKeyResult, literal, List.lookup, newKey]
    · apply enforces_of_window
      intro row hnbf hexp t ht
      exact hcorrect row (hnbf.trans (column_whole hL hfits.1))
        (hexp.trans (column_whole hL hfits.2)) t ht.1 ht.2

/-- A start beyond the dates lets a key through before its time. -/
theorem correct_iff {nbf exp : Option Nat} {since : Nat} (hsince : since ≤ dateMax)
    (hordered : ∀ n e, nbf = some n → exp = some e → n < e) :
    Correct nbf exp since (fun t => t ≤ dateMax) ↔ AtMost dateMaxSeconds nbf := by
  constructor
  · intro h n hn
    by_contra hlate
    let key : VaultKey := ⟨"", "", "", whole nbf, whole exp, none, "", "", .null⟩
    have hwindow : inWindow key since = true := by
      refine (inWindow_iff rfl rfl _).mpr ⟨?_, ?_⟩
      · intro n' hn' hdate
        have hsame : n = n' := Option.some.inj (hn.symm.trans hn')
        omega
      · intro e he hdate
        have horder := hordered n e hn he
        omega
    have hopen := (h key rfl rfl since (le_refl _) hsince).mp hwindow
    have hstart := hopen.1 n hn
    simp only [dateMax, dateMaxSeconds] at hsince hlate
    omega
  · intro hnbf key hfrom huntil t _ ht
    exact inWindow_iff_open hfrom huntil hnbf (Or.inr ht)

/-- At instants that no `Date` reaches, a late expiry matters too. -/
theorem correct_always_iff {nbf exp : Option Nat} {since : Nat} (hsince : since ≤ dateMax)
    (hordered : ∀ n e, nbf = some n → exp = some e → n < e) :
    Correct nbf exp since (fun _ => True) ↔
      AtMost dateMaxSeconds nbf ∧ AtMost dateMaxSeconds exp := by
  constructor
  · intro h
    have hnbf : AtMost dateMaxSeconds nbf :=
      (correct_iff hsince hordered).mp fun key hn he t ht _ => h key hn he t ht trivial
    refine ⟨hnbf, ?_⟩
    intro e he
    by_contra hlate
    let key : VaultKey := ⟨"", "", "", whole nbf, whole exp, none, "", "", .null⟩
    have hwindow : inWindow key (max since (e * 1000)) = true := by
      refine (inWindow_iff rfl rfl _).mpr ⟨?_, ?_⟩
      · intro n hn _
        have horder := hordered n e hn he
        omega
      · intro e' he' hdate
        have hsame : e = e' := Option.some.inj (he.symm.trans he')
        omega
    have hopen := (h key rfl rfl _ (le_max_left _ _) trivial).mp hwindow
    have hend := hopen.2 e he
    omega
  · rintro ⟨hnbf, hexp⟩ key hfrom huntil t - -
    exact inWindow_iff_open hfrom huntil hnbf (Or.inl hexp)

/-- An accepted request leaves a key with the window it asks for, at every instant that the
clock can show, exactly if its `nbf` is a second of a `Date` and its `exp` fits the column;
at every later instant too, exactly if its `exp` is a second of a `Date` as well. -/
theorem window_kept_iff (hL : Precise L) {spec : KeySpec} {acl : AclMap} {s s₁ : Session}
    (hchecked : (checkRequest user data).run (serve L i) s = (.ok (spec, acl), s₁))
    (hserving : Serving L cfg spec s₁)
    (hclock : ((generateKey cfg user data).run (serve L i) s).2.world.clock ≤ dateMax) :
    (WindowKept L i cfg user data s (fun t => t ≤ dateMax) ↔
        AtMost dateMaxSeconds (notBefore data) ∧ AtMost timestamptzMax (expiresAt data)) ∧
      (WindowKept L i cfg user data s (fun _ => True) ↔
        AtMost dateMaxSeconds (notBefore data) ∧ AtMost dateMaxSeconds (expiresAt data)) := by
  have haccepted : Accepted data := by
    have hends := (checkRequest_ends user data).run (serve L i) s
    rw [hchecked] at hends
    exact (hends _ rfl).1
  have hwithin : ∀ seconds, AtMost dateMaxSeconds seconds → AtMost timestamptzMax seconds := by
    intro seconds h n hn
    have hle := h n hn
    simp only [dateMaxSeconds, timestamptzMax] at hle ⊢
    omega
  constructor
  · rw [windowKept_iff hL hchecked hserving, correct_iff hclock haccepted.ordered]
    constructor
    · rintro ⟨⟨-, hexp⟩, hnbf⟩
      exact ⟨hnbf, hexp⟩
    · rintro ⟨hnbf, hexp⟩
      exact ⟨⟨hwithin _ hnbf, hexp⟩, hnbf⟩
  · rw [windowKept_iff hL hchecked hserving, correct_always_iff hclock haccepted.ordered]
    constructor
    · rintro ⟨-, h⟩
      exact h
    · rintro ⟨hnbf, hexp⟩
      exact ⟨⟨hwithin _ hnbf, hwithin _ hexp⟩, hnbf, hexp⟩

/-- Alice asks for a key with one timestamp. -/
def timed (name : String) (seconds : Int) : Json :=
  .obj [("alg", .str "A128KW"), (name, .num seconds)]

def aliceOwns : AclMap := [(Fixtures.aliceId, [.owner])]

/-- The obliging libraries, where TO_TIMESTAMP is exact. -/
def precise : Libraries := { Fixtures.obliging with toTimestamp := fun s => s * 1000000 }

theorem precise_precise : Precise precise where
  stores := fun _ _ => rfl
  raises := by
    intro s hs
    simp only [precise]
    omega

theorem precise_serves : Serving precise Fixtures.config Fixtures.wrapSpec
    (quiet (fresh 0)) where
  undisturbed := fun _ h => by cases h
  generates := ⟨_, rfl, rfl⟩
  seals := fun _ => ⟨_, rfl⟩

theorem window_kept_early :
    WindowKept precise 0 Fixtures.config Fixtures.alice (timed "nbf" 5)
      (quiet (fresh 0)) (fun t => t ≤ dateMax) := by
  have hchecked : (checkRequest Fixtures.alice (timed "nbf" 5)).run (serve precise 0)
      (quiet (fresh 0)) = (.ok (Fixtures.wrapSpec, aliceOwns), quiet (fresh 0)) := rfl
  refine (window_kept_iff precise_precise hchecked precise_serves (Nat.zero_le _)).1.mpr ⟨?_, ?_⟩
  · intro n hn
    have hsame : 5 = n := Option.some.inj hn
    simp only [dateMaxSeconds]
    omega
  · intro e he
    cases he

/-- A key that is to start in the second after the last `Date` can be used at once, and one
that is to end in the second after the last timestamptz is not stored. -/
theorem late_window_lost :
    ¬ WindowKept precise 0 Fixtures.config Fixtures.alice (timed "nbf" 8640000000001)
        (quiet (fresh 0)) (fun t => t ≤ dateMax) ∧
      ¬ WindowKept precise 0 Fixtures.config Fixtures.alice (timed "exp" 9224318016000)
        (quiet (fresh 0)) (fun t => t ≤ dateMax) := by
  constructor
  · have hchecked : (checkRequest Fixtures.alice (timed "nbf" 8640000000001)).run
        (serve precise 0) (quiet (fresh 0)) =
          (.ok (Fixtures.wrapSpec, aliceOwns), quiet (fresh 0)) := rfl
    rw [windowKept_iff precise_precise hchecked precise_serves]
    rintro ⟨-, hcorrect⟩
    have hstart := (correct_iff (Nat.zero_le _) (fun n e _ he => by cases he)).mp hcorrect _ rfl
    revert hstart
    decide
  · have hchecked : (checkRequest Fixtures.alice (timed "exp" 9224318016000)).run
        (serve precise 0) (quiet (fresh 0)) =
          (.ok (Fixtures.wrapSpec, aliceOwns), quiet (fresh 0)) := rfl
    rw [windowKept_iff precise_precise hchecked precise_serves]
    rintro ⟨⟨-, hexp⟩, -⟩
    have hend := hexp _ rfl
    revert hend
    decide

end ValidityWindow
