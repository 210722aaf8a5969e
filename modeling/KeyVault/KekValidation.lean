import KeyVault.Base64url
import KeyVault.JsObjects
import KeyVault.KeyStore
import Mathlib.Data.Set.List

/-!
# KEK validation

kek.js: the checks that a KEK read from a file has to pass before the server starts.
A descriptor is sound except for two kinds of JWK: the length of an RSA modulus is
taken in bytes, and the ML-KEM table is read by property access with any value.
-/

namespace KekValidation

open JsValue Programs Vault KeyStore

def kekOctAlgs : List String :=
  ["A128GCMKW", "A192GCMKW", "A256GCMKW", "A128KW", "A192KW", "A256KW"]

def kekRsaAlgs : List String := ["RSA-OAEP", "RSA-OAEP-256"]

def kekEcCurves : List String := ["P-256", "P-384", "P-521"]

def kekMlKemWrap : List (String × String) :=
  [("ML-KEM-512", "ML-KEM-512@spinium.com"),
    ("ML-KEM-768", "ML-KEM-768@spinium.com"),
    ("ML-KEM-1024", "ML-KEM-1024@spinium.com")]

def kekRsaModulusMin : Nat := 2048

def kekOctBits : List (String × Nat) :=
  [("A128GCMKW", 128), ("A192GCMKW", 192), ("A256GCMKW", 256),
    ("A128KW", 128), ("A192KW", 192), ("A256KW", 256)]

/-- A truthy value read from a table: its own string, or a member of `Object.prototype`. -/
inductive Found where
  | text (s : String)
  | inherited (name : String)
  deriving DecidableEq

/-- What `validateKek` returns. -/
structure Descriptor where
  kid : String
  wrapAlg : Found
  secretJwk : Json
  wrapJwk : Json
  deriving DecidableEq

mutual
/-- The text that a value becomes as a property key. An object with an own `toString`,
which JSON cannot make a function, has no text. The digits of integers are the ones below
1e21; no text of a number is a property of any table here. -/
def keyText : Json → Except String String
  | .null => .ok "null"
  | .bool b => .ok (toString b)
  | .num n => .ok (toString n)
  | .frac text => .ok text
  | .str s => .ok s
  | .arr items => do
    let texts ← itemTexts items
    return ",".intercalate texts
  | .obj props =>
    if hasProp props "toString" then .error "Cannot convert object to primitive value"
    else .ok "[object Object]"

/-- `null` is joined as the empty text. -/
def itemTexts : List Json → Except String (List String)
  | [] => .ok []
  | .null :: rest => do
    let texts ← itemTexts rest
    return "" :: texts
  | item :: rest => do
    let text ← keyText item
    let texts ← itemTexts rest
    return text :: texts
end

/-- The property key of a member that may be absent. -/
def propertyKey : Option Json → Except String String
  | none => .ok "undefined"
  | some v => keyText v

def mlKemWrapAt (key : String) : Option Found :=
  match kekMlKemWrap.lookup key with
  | some alg => some (.text alg)
  | none => if objectPrototype.contains key then some (.inherited key) else none

/-- A member that is a string. -/
def text? (jwk : Json) (name : String) : Option String :=
  match jwk.get? name with
  | some (.str s) => some s
  | _ => none

def fail (source reason : String) : Except String Descriptor :=
  .error ("Invalid embedding key" ++ (if source = "" then "" else " (" ++ source ++ ")") ++ ": " ++
    reason)

def validateOct (jwk : Json) (source kid : String) : Except String Descriptor :=
  match (text? jwk "alg").filter kekOctAlgs.contains with
  | none => fail source "unsupported oct algorithm"
  | some alg =>
    match text? jwk "k" with
    | none => fail source "missing key material"
    | some k =>
      if some (Base64url.bytes k).length = (kekOctBits.lookup alg).map (· / 8) then
        .ok ⟨kid, .text alg, jwk, jwk⟩
      else fail source "key length does not match algorithm"

def validateRsa (jwk : Json) (source kid : String) : Except String Descriptor :=
  match text? jwk "n", text? jwk "e", text? jwk "d" with
  | some n, some e, some _ =>
    match (text? jwk "alg").filter kekRsaAlgs.contains with
    | none => fail source "RSA KEK alg must be RSA-OAEP or RSA-OAEP-256"
    | some alg =>
      if (Base64url.bytes n).length * 8 < kekRsaModulusMin then
        fail source ("RSA modulus must be at least " ++ toString kekRsaModulusMin ++ " bits")
      else
        .ok ⟨kid, .text alg, jwk, .obj [("kty", .str "RSA"), ("n", .str n), ("e", .str e),
          ("alg", .str alg), ("kid", .str kid)]⟩
  | _, _, _ => fail source "RSA KEK must be a private key"

def validateEc (jwk : Json) (source kid : String) : Except String Descriptor :=
  match (text? jwk "crv").filter kekEcCurves.contains with
  | none => fail source "unsupported EC curve"
  | some crv =>
    match text? jwk "x", text? jwk "y", text? jwk "d" with
    | some x, some y, some _ =>
      if (jwk.get? "alg").all (fun alg => alg == .str "ECDH-ES") then
        .ok ⟨kid, .text "ECDH-ES", jwk, .obj [("kty", .str "EC"), ("crv", .str crv),
          ("x", .str x), ("y", .str y), ("kid", .str kid)]⟩
      else fail source "EC KEK alg must be ECDH-ES"
    | _, _, _ => fail source "EC KEK must be a private key"

def validateAkp (jwk : Json) (source kid : String) : Except String Descriptor := do
  let key ← propertyKey (jwk.get? "alg")
  match mlKemWrapAt key with
  | none => fail source "AKP KEK alg must be an ML-KEM variant"
  | some wrapAlg =>
    match text? jwk "priv", text? jwk "pub" with
    | some _, some pub =>
      .ok ⟨kid, wrapAlg, jwk, .obj (literal [("kty", some (.str "AKP")), ("alg", jwk.get? "alg"),
        ("pub", some (.str pub)), ("kid", some (.str kid))])⟩
    | _, _ => fail source "ML-KEM KEK must be a private key"

/-- An empty `source` is the absent one. -/
def validateKek (jwk : Json) (source : String) : Except String Descriptor :=
  if jwk.isPlainObject then
    match (text? jwk "kid").filter (· ≠ "") with
    | none => fail source "kid is required"
    | some kid =>
      match text? jwk "kty" with
      | some "oct" => validateOct jwk source kid
      | some "RSA" => validateRsa jwk source kid
      | some "EC" => validateEc jwk source kid
      | some "AKP" => validateAkp jwk source kid
      | _ => fail source "unsupported key type"
  else fail source "not a JWK object"

/-- What the file system answers: the mode of a file, and its parsed content if there is any. -/
structure Files where
  stat : String → Except String Nat
  readJson : String → Option Json

def loadKekFile (files : Files) (file : String) : Except String Descriptor := do
  let mode ← files.stat file
  if mode &&& 0o077 ≠ 0 then
    throw ("Embedding key file " ++ file ++
      " must not be group or world accessible (chmod 600)")
  else
    match files.readJson file with
    | none => throw ("Embedding key file " ++ file ++ " is not valid JSON")
    | some jwk => validateKek jwk file

/-- The two fields of a `KekManager`; `byId` is in the order of insertion. -/
structure LoadedKeks where
  active : Descriptor
  byId : List Descriptor

/-- The loop of the constructor. -/
def addRetired (byId : List Descriptor) : List Descriptor → Except String (List Descriptor)
  | [] => .ok byId
  | k :: rest =>
    if byId.any (fun d => d.kid == k.kid) then
      .error ("Duplicate embedding key id " ++ k.kid)
    else addRetired (byId ++ [k]) rest

def kekInit (files : Files) (activeFile : String) (retiredFiles : List String) :
    Except String LoadedKeks := do
  let active ← loadKekFile files activeFile
  let retired ← retiredFiles.mapM (loadKekFile files)
  let byId ← addRetired [active] retired
  return ⟨active, byId⟩

/-- What the checks ask of a JWK, and the descriptor that they make of it. -/
inductive Accepted (jwk : Json) : Descriptor → Prop where
  | oct {kid alg k : String} : text? jwk "kid" = some kid → kid ≠ "" →
      text? jwk "kty" = some "oct" → text? jwk "alg" = some alg → alg ∈ kekOctAlgs →
      text? jwk "k" = some k →
      some (Base64url.bytes k).length = (kekOctBits.lookup alg).map (· / 8) →
      Accepted jwk ⟨kid, .text alg, jwk, jwk⟩
  | rsa {kid alg n e d : String} : text? jwk "kid" = some kid → kid ≠ "" →
      text? jwk "kty" = some "RSA" → text? jwk "n" = some n → text? jwk "e" = some e →
      text? jwk "d" = some d → text? jwk "alg" = some alg → alg ∈ kekRsaAlgs →
      kekRsaModulusMin ≤ (Base64url.bytes n).length * 8 →
      Accepted jwk ⟨kid, .text alg, jwk, .obj [("kty", .str "RSA"), ("n", .str n), ("e", .str e),
        ("alg", .str alg), ("kid", .str kid)]⟩
  | ec {kid crv x y d : String} : text? jwk "kid" = some kid → kid ≠ "" →
      text? jwk "kty" = some "EC" → text? jwk "crv" = some crv → crv ∈ kekEcCurves →
      text? jwk "x" = some x → text? jwk "y" = some y → text? jwk "d" = some d →
      (∀ alg, jwk.get? "alg" = some alg → alg = .str "ECDH-ES") →
      Accepted jwk ⟨kid, .text "ECDH-ES", jwk, .obj [("kty", .str "EC"), ("crv", .str crv),
        ("x", .str x), ("y", .str y), ("kid", .str kid)]⟩
  | akp {kid key priv pub : String} {wrapAlg : Found} : text? jwk "kid" = some kid → kid ≠ "" →
      text? jwk "kty" = some "AKP" → propertyKey (jwk.get? "alg") = .ok key →
      mlKemWrapAt key = some wrapAlg → text? jwk "priv" = some priv →
      text? jwk "pub" = some pub →
      Accepted jwk ⟨kid, wrapAlg, jwk, .obj (literal [("kty", some (.str "AKP")),
        ("alg", jwk.get? "alg"), ("pub", some (.str pub)), ("kid", some (.str kid))])⟩

theorem isPlainObject_of_text {jwk : Json} {name s : String} (h : text? jwk name = some s) :
    jwk.isPlainObject = true := by
  cases jwk with
  | obj props => rfl
  | _ => simp [text?, Json.get?] at h

theorem get?_of_text {jwk : Json} {name s : String} (h : text? jwk name = some s) :
    jwk.get? name = some (.str s) := by
  unfold text? at h
  split at h
  · rename_i s' hs
    rw [hs, Option.some.inj h]
  · cases h

theorem fail_ne_ok (source reason : String) (d : Descriptor) : fail source reason ≠ .ok d := by
  simp [fail]

theorem validateOct_ok {jwk : Json} {source kid : String} {d : Descriptor}
    (hkid : text? jwk "kid" = some kid) (hne : kid ≠ "") (hkty : text? jwk "kty" = some "oct")
    (h : validateOct jwk source kid = .ok d) : Accepted jwk d := by
  unfold validateOct at h
  split at h
  · exact absurd h (fail_ne_ok _ _ _)
  rename_i alg halg
  obtain ⟨halg, hmem⟩ := Option.filter_eq_some_iff.mp halg
  split at h
  · exact absurd h (fail_ne_ok _ _ _)
  rename_i k hk
  split at h
  · rename_i hlength
    rw [← Except.ok.inj h]
    exact .oct hkid hne hkty halg (by simpa using hmem) hk hlength
  · exact absurd h (fail_ne_ok _ _ _)

theorem validateRsa_ok {jwk : Json} {source kid : String} {d : Descriptor}
    (hkid : text? jwk "kid" = some kid) (hne : kid ≠ "") (hkty : text? jwk "kty" = some "RSA")
    (h : validateRsa jwk source kid = .ok d) : Accepted jwk d := by
  unfold validateRsa at h
  split at h
  · rename_i n e d' hn he hd
    split at h
    · exact absurd h (fail_ne_ok _ _ _)
    rename_i alg halg
    obtain ⟨halg, hmem⟩ := Option.filter_eq_some_iff.mp halg
    split at h
    · exact absurd h (fail_ne_ok _ _ _)
    rename_i hlength
    rw [← Except.ok.inj h]
    exact .rsa hkid hne hkty hn he hd halg (by simpa using hmem) (by omega)
  · exact absurd h (fail_ne_ok _ _ _)

theorem validateEc_ok {jwk : Json} {source kid : String} {d : Descriptor}
    (hkid : text? jwk "kid" = some kid) (hne : kid ≠ "") (hkty : text? jwk "kty" = some "EC")
    (h : validateEc jwk source kid = .ok d) : Accepted jwk d := by
  unfold validateEc at h
  split at h
  · exact absurd h (fail_ne_ok _ _ _)
  rename_i crv hcrv
  obtain ⟨hcrv, hmem⟩ := Option.filter_eq_some_iff.mp hcrv
  split at h
  · rename_i x y d' hx hy hd
    split at h
    · rename_i halg
      rw [← Except.ok.inj h]
      refine .ec hkid hne hkty hcrv (by simpa using hmem) hx hy hd ?_
      intro alg hget
      simpa [hget] using halg
    · exact absurd h (fail_ne_ok _ _ _)
  · exact absurd h (fail_ne_ok _ _ _)

theorem validateAkp_ok {jwk : Json} {source kid : String} {d : Descriptor}
    (hkid : text? jwk "kid" = some kid) (hne : kid ≠ "") (hkty : text? jwk "kty" = some "AKP")
    (h : validateAkp jwk source kid = .ok d) : Accepted jwk d := by
  unfold validateAkp at h
  cases hkey : propertyKey (jwk.get? "alg") with
  | error e => rw [hkey] at h; cases h
  | ok key =>
    rw [hkey] at h
    change (match mlKemWrapAt key with | none => _ | some wrapAlg => _) = _ at h
    split at h
    · exact absurd h (fail_ne_ok _ _ _)
    rename_i wrapAlg hwrap
    split at h
    · rename_i priv pub hpriv hpub
      rw [← Except.ok.inj h]
      exact .akp hkid hne hkty hkey hwrap hpriv hpub
    · exact absurd h (fail_ne_ok _ _ _)

theorem validateKek_accepts {jwk : Json} {source : String} {d : Descriptor}
    (h : validateKek jwk source = .ok d) : Accepted jwk d := by
  unfold validateKek at h
  split at h
  · split at h
    · exact absurd h (fail_ne_ok _ _ _)
    rename_i kid hkid
    obtain ⟨hkid, hne⟩ := Option.filter_eq_some_iff.mp hkid
    have hne : kid ≠ "" := by simpa using hne
    split at h
    · rename_i hkty
      exact validateOct_ok hkid hne hkty h
    · rename_i hkty
      exact validateRsa_ok hkid hne hkty h
    · rename_i hkty
      exact validateEc_ok hkid hne hkty h
    · rename_i hkty
      exact validateAkp_ok hkid hne hkty h
    · exact absurd h (fail_ne_ok _ _ _)
  · exact absurd h (fail_ne_ok _ _ _)

theorem accepts_validateKek {jwk : Json} {d : Descriptor} (h : Accepted jwk d)
    (source : String) : validateKek jwk source = .ok d := by
  cases h with
  | oct hkid hne hkty halg hmem hk hlength =>
    simp [validateKek, validateOct, isPlainObject_of_text hkid, hkid, hne, hkty, halg,
      Option.filter, hmem, hk, hlength]
  | rsa hkid hne hkty hn he hd halg hmem hlength =>
    have hlong := Nat.not_lt.mpr hlength
    simp [validateKek, validateRsa, isPlainObject_of_text hkid, hkid, hne, hkty, hn, he, hd, halg,
      Option.filter, hmem, hlong]
  | ec hkid hne hkty hcrv hmem hx hy hd halg =>
    have hall : (jwk.get? "alg").all (fun alg => alg == .str "ECDH-ES") = true := by
      simpa [Option.all_eq_true] using halg
    simp [validateKek, validateEc, isPlainObject_of_text hkid, hkid, hne, hkty, hcrv,
      Option.filter, hmem, hx, hy, hd, hall]
  | akp hkid hne hkty hkey hwrap hpriv hpub =>
    simp [validateKek, validateAkp, isPlainObject_of_text hkid, hkid, hne, hkty, hkey,
      Option.filter, hwrap, hpriv, hpub, bind, Except.bind]

/-- The wrap algorithms that a KEK can have. -/
def wrapAlgs : List String :=
  kekOctAlgs ++ kekRsaAlgs ++ ["ECDH-ES"] ++ kekMlKemWrap.map Prod.snd

/-- The wrap algorithm that belongs to the `kty` and `alg` of a JWK. -/
inductive Belongs (jwk : Json) : String → Prop where
  | oct {alg : String} : jwk.get? "kty" = some (.str "oct") → jwk.get? "alg" = some (.str alg) →
      alg ∈ kekOctAlgs → Belongs jwk alg
  | rsa {alg : String} : jwk.get? "kty" = some (.str "RSA") → jwk.get? "alg" = some (.str alg) →
      alg ∈ kekRsaAlgs → Belongs jwk alg
  | ec : jwk.get? "kty" = some (.str "EC") →
      jwk.get? "alg" = none ∨ jwk.get? "alg" = some (.str "ECDH-ES") → Belongs jwk "ECDH-ES"
  | akp {variant alg : String} : jwk.get? "kty" = some (.str "AKP") →
      jwk.get? "alg" = some (.str variant) → (variant, alg) ∈ kekMlKemWrap → Belongs jwk alg

/-- The members of a JWK that hold secret key material. -/
def privateMembers : List String := ["k", "d", "p", "q", "dp", "dq", "qi", "oth", "priv"]

/-- What a KEK descriptor has to be. -/
structure Sound (jwk : Json) (d : Descriptor) : Prop where
  kid : d.kid ≠ "" ∧ jwk.get? "kid" = some (.str d.kid)
  secretJwk : d.secretJwk = jwk
  wrapAlg : ∃ alg, d.wrapAlg = .text alg ∧ alg ∈ wrapAlgs ∧ Belongs jwk alg
  wrapJwk : jwk.get? "kty" ≠ some (.str "oct") →
    ∀ name ∈ privateMembers, d.wrapJwk.get? name = none
  keyLength : jwk.get? "kty" = some (.str "oct") →
    ∃ k alg, jwk.get? "k" = some (.str k) ∧ d.wrapAlg = .text alg ∧
      kekOctBits.lookup alg = some ((Base64url.bytes k).length * 8)
  modulus : jwk.get? "kty" = some (.str "RSA") →
    ∃ n, jwk.get? "n" = some (.str n) ∧ 2048 ≤ Base64url.bitLength n

/-- An RSA key that passes by the bytes of its modulus, leading zeros included. -/
def ShortModulus (jwk : Json) : Prop :=
  text? jwk "kty" = some "RSA" ∧ (text? jwk "e").isSome ∧ (text? jwk "d").isSome ∧
    (∃ alg ∈ kekRsaAlgs, text? jwk "alg" = some alg) ∧
    ∃ n, text? jwk "n" = some n ∧ 2048 ≤ (Base64url.bytes n).length * 8 ∧
      Base64url.bitLength n < 2048

/-- An AKP key whose `alg` is no variant and still finds something: a name inherited from
`Object.prototype`, or an array whose text is a property name. -/
def StrayVariant (jwk : Json) : Prop :=
  text? jwk "kty" = some "AKP" ∧ (text? jwk "priv").isSome ∧ (text? jwk "pub").isSome ∧
    (∀ variant ∈ kekMlKemWrap.map Prod.fst, jwk.get? "alg" ≠ some (.str variant)) ∧
    ∃ key, propertyKey (jwk.get? "alg") = .ok key ∧ (mlKemWrapAt key).isSome

/-- The JWKs that the checks let through by mistake. -/
def Slips (jwk : Json) : Prop :=
  (∃ kid, text? jwk "kid" = some kid ∧ kid ≠ "") ∧ (ShortModulus jwk ∨ StrayVariant jwk)

/-- The length check on `k` is the exact one. -/
theorem kekOctBits_exact {alg : String} (h : alg ∈ kekOctAlgs) {length : Nat}
    (hlength : some length = (kekOctBits.lookup alg).map (· / 8)) :
    kekOctBits.lookup alg = some (length * 8) := by
  simp only [kekOctAlgs, List.mem_cons, List.not_mem_nil, or_false] at h
  rcases h with rfl | rfl | rfl | rfl | rfl | rfl <;>
    · have hbits := Option.some.inj hlength
      subst hbits
      rfl

/-- Only a variant of the table finds a string. -/
theorem mlKemWrapAt_text {key alg : String} (h : mlKemWrapAt key = some (.text alg)) :
    (key, alg) ∈ kekMlKemWrap := by
  unfold mlKemWrapAt at h
  split at h
  · rename_i alg' hlookup
    have heq : alg' = alg := by simpa using h
    exact heq ▸ lookup_mem hlookup
  · split at h <;> simp at h

theorem sound_akp {jwk : Json} {kid key priv pub : String} {wrapAlg : Found}
    (hkid : text? jwk "kid" = some kid) (hne : kid ≠ "") (hkty : text? jwk "kty" = some "AKP")
    (hkey : propertyKey (jwk.get? "alg") = .ok key) (hwrap : mlKemWrapAt key = some wrapAlg)
    (hpriv : text? jwk "priv" = some priv) (hpub : text? jwk "pub" = some pub)
    (hslips : ¬ Slips jwk) :
    Sound jwk ⟨kid, wrapAlg, jwk, .obj (literal [("kty", some (.str "AKP")),
      ("alg", jwk.get? "alg"), ("pub", some (.str pub)), ("kid", some (.str kid))])⟩ := by
  have hkty' := get?_of_text hkty
  -- the alg is a variant of the table, or the key would be a stray one
  have hvariant : ∃ variant ∈ kekMlKemWrap.map Prod.fst,
      jwk.get? "alg" = some (.str variant) := by
    by_contra hno
    apply hslips
    refine ⟨⟨kid, hkid, hne⟩, Or.inr ⟨hkty, by simp [hpriv], by simp [hpub], ?_, key, hkey, ?_⟩⟩
    · intro variant hmem halg
      exact hno ⟨variant, hmem, halg⟩
    · simp [hwrap]
  obtain ⟨variant, hmem, halg⟩ := hvariant
  have hsame : variant = key := by simpa [halg, propertyKey, keyText] using hkey
  subst hsame
  have hnamed : ∃ alg, wrapAlg = .text alg ∧ (variant, alg) ∈ kekMlKemWrap := by
    cases wrapAlg with
    | text alg => exact ⟨alg, rfl, mlKemWrapAt_text hwrap⟩
    | inherited name =>
      simp only [kekMlKemWrap, List.map_cons, List.map_nil, List.mem_cons, List.not_mem_nil,
        or_false] at hmem
      rcases hmem with rfl | rfl | rfl <;> simp [mlKemWrapAt, kekMlKemWrap, List.lookup] at hwrap
  obtain ⟨alg, halg', hpair⟩ := hnamed
  constructor
  · exact ⟨hne, get?_of_text hkid⟩
  · rfl
  · refine ⟨alg, halg', ?_, .akp hkty' halg hpair⟩
    have := List.mem_map_of_mem (f := Prod.snd) hpair
    exact List.mem_append_right _ this
  · intro _ name hname
    rw [halg]
    simp only [privateMembers, List.mem_cons, List.not_mem_nil, or_false] at hname
    rcases hname with rfl | rfl | rfl | rfl | rfl | rfl | rfl | rfl | rfl <;> rfl
  · intro hoct
    simp [hkty'] at hoct
  · intro hrsa
    simp [hkty'] at hrsa

theorem sound_of_accepted {jwk : Json} {d : Descriptor} (h : Accepted jwk d)
    (hslips : ¬ Slips jwk) : Sound jwk d := by
  cases h with
  | @oct kid alg k hkid hne hkty halg hmem hk hlength =>
    have hkty' := get?_of_text hkty
    constructor
    · exact ⟨hne, get?_of_text hkid⟩
    · rfl
    · refine ⟨alg, rfl, ?_, .oct hkty' (get?_of_text halg) hmem⟩
      simp [wrapAlgs, hmem]
    · intro hno
      exact absurd hkty' hno
    · intro _
      exact ⟨k, alg, get?_of_text hk, rfl, kekOctBits_exact hmem hlength⟩
    · intro hrsa
      simp [hkty'] at hrsa
  | @rsa kid alg n e d hkid hne hkty hn he hd halg hmem hlength =>
    have hkty' := get?_of_text hkty
    constructor
    · exact ⟨hne, get?_of_text hkid⟩
    · rfl
    · refine ⟨alg, rfl, ?_, .rsa hkty' (get?_of_text halg) hmem⟩
      simp [wrapAlgs, hmem]
    · intro _ name hname
      simp only [privateMembers, List.mem_cons, List.not_mem_nil, or_false] at hname
      rcases hname with rfl | rfl | rfl | rfl | rfl | rfl | rfl | rfl | rfl <;> rfl
    · intro hoct
      simp [hkty'] at hoct
    · intro _
      refine ⟨n, get?_of_text hn, ?_⟩
      by_contra hshort
      apply hslips
      refine ⟨⟨kid, hkid, hne⟩, Or.inl ⟨hkty, by simp [he], by simp [hd], ⟨alg, hmem, halg⟩, ?_⟩⟩
      exact ⟨n, hn, hlength, by omega⟩
  | @ec kid crv x y d hkid hne hkty hcrv hmem hx hy hd halg =>
    have hkty' := get?_of_text hkty
    constructor
    · exact ⟨hne, get?_of_text hkid⟩
    · rfl
    · refine ⟨"ECDH-ES", rfl, by decide, .ec hkty' ?_⟩
      cases hget : jwk.get? "alg" with
      | none => exact Or.inl rfl
      | some alg => exact Or.inr (by rw [halg alg hget])
    · intro _ name hname
      simp only [privateMembers, List.mem_cons, List.not_mem_nil, or_false] at hname
      rcases hname with rfl | rfl | rfl | rfl | rfl | rfl | rfl | rfl | rfl <;> rfl
    · intro hoct
      simp [hkty'] at hoct
    · intro hrsa
      simp [hkty'] at hrsa
  | akp hkid hne hkty hkey hwrap hpriv hpub =>
    exact sound_akp hkid hne hkty hkey hwrap hpriv hpub hslips

/-- Every such JWK is accepted, with a descriptor that is not sound. -/
theorem unsound_of_slips {jwk : Json} (h : Slips jwk) : ∃ d, Accepted jwk d ∧ ¬ Sound jwk d := by
  obtain ⟨⟨kid, hkid, hne⟩, hshort | hstray⟩ := h
  · obtain ⟨hkty, he, hd, ⟨alg, hmem, halg⟩, n, hn, hlength, hbits⟩ := hshort
    obtain ⟨e, he⟩ := Option.isSome_iff_exists.mp he
    obtain ⟨d, hd⟩ := Option.isSome_iff_exists.mp hd
    refine ⟨_, .rsa hkid hne hkty hn he hd halg hmem hlength, ?_⟩
    intro hsound
    obtain ⟨n', hn', hlong⟩ := hsound.modulus (get?_of_text hkty)
    have hsame : n = n' := by simpa [get?_of_text hn] using hn'
    subst hsame
    omega
  · obtain ⟨hkty, hpriv, hpub, hno, key, hkey, hfound⟩ := hstray
    obtain ⟨priv, hpriv⟩ := Option.isSome_iff_exists.mp hpriv
    obtain ⟨pub, hpub⟩ := Option.isSome_iff_exists.mp hpub
    obtain ⟨wrapAlg, hwrap⟩ := Option.isSome_iff_exists.mp hfound
    refine ⟨_, .akp hkid hne hkty hkey hwrap hpriv hpub, ?_⟩
    intro hsound
    obtain ⟨alg, -, -, hbelongs⟩ := hsound.wrapAlg
    have hkty' := get?_of_text hkty
    cases hbelongs with
    | oct hoct => simp [hkty'] at hoct
    | rsa hrsa => simp [hkty'] at hrsa
    | ec hec => simp [hkty'] at hec
    | akp _ hvariant hpair => exact hno _ (List.mem_map_of_mem hpair) hvariant

/-- The descriptor of a KEK of the key store. -/
def describe (k : Kek) : Descriptor := ⟨k.kid, .text k.wrapAlg, k.secretJwk, k.wrapJwk⟩

theorem Sound.described {jwk : Json} {d : Descriptor} (h : Sound jwk d) :
    ∃ k : Kek, d = describe k := by
  obtain ⟨alg, halg, -, -⟩ := h.wrapAlg
  obtain ⟨kid, wrapAlg, secretJwk, wrapJwk⟩ := d
  exact ⟨⟨kid, alg, secretJwk, wrapJwk⟩, by simpa [describe] using halg⟩

theorem loadKekFile_ok {files : Files} {file : String} {d : Descriptor}
    (h : loadKekFile files file = .ok d) :
    ∃ jwk, files.readJson file = some jwk ∧ Accepted jwk d := by
  unfold loadKekFile at h
  cases hstat : files.stat file with
  | error e => rw [hstat] at h; cases h
  | ok mode =>
    rw [hstat] at h
    change (if mode &&& 0o077 ≠ 0 then _ else _) = _ at h
    split at h
    · cases h
    · split at h
      · cases h
      · rename_i jwk hread
        exact ⟨jwk, hread, validateKek_accepts h⟩

/-- The retired KEKs come after what is there already, and no kid comes twice. -/
theorem addRetired_ok {byId retired all : List Descriptor} (h : addRetired byId retired = .ok all)
    (hdistinct : (byId.map Descriptor.kid).Nodup) :
    all = byId ++ retired ∧ (all.map Descriptor.kid).Nodup := by
  induction retired generalizing byId with
  | nil =>
    have heq : byId = all := Except.ok.inj h
    subst heq
    exact ⟨by simp, hdistinct⟩
  | cons k rest ih =>
    unfold addRetired at h
    split at h
    · cases h
    · rename_i hfresh
      have hmem : k.kid ∉ byId.map Descriptor.kid := by
        intro hk
        obtain ⟨d, hd, heq⟩ := List.mem_map.mp hk
        exact hfresh (List.any_eq_true.mpr ⟨d, hd, by simp [heq]⟩)
      have hnext : ((byId ++ [k]).map Descriptor.kid).Nodup := by
        rw [List.map_append]
        exact List.Nodup.append hdistinct (by simp) (by simpa using hmem)
      obtain ⟨heq, hnodup⟩ := ih h hnext
      exact ⟨by simpa using heq, hnodup⟩

theorem kekInit_ok {files : Files} {activeFile : String} {retiredFiles : List String}
    {m : LoadedKeks} (h : kekInit files activeFile retiredFiles = .ok m) :
    ∃ retired, loadKekFile files activeFile = .ok m.active ∧
      retiredFiles.mapM (loadKekFile files) = .ok retired ∧ m.byId = m.active :: retired ∧
      (m.byId.map Descriptor.kid).Nodup := by
  unfold kekInit at h
  cases hactive : loadKekFile files activeFile with
  | error e => rw [hactive] at h; cases h
  | ok active =>
    rw [hactive] at h
    cases hretired : retiredFiles.mapM (loadKekFile files) with
    | error e => rw [hretired] at h; cases h
    | ok retired =>
      rw [hretired] at h
      cases hall : addRetired [active] retired with
      | error e =>
        change (addRetired [active] retired >>= fun byId => pure (LoadedKeks.mk active byId)) = _
          at h
        rw [hall] at h
        cases h
      | ok all =>
        change (addRetired [active] retired >>= fun byId => pure (LoadedKeks.mk active byId)) = _
          at h
        rw [hall] at h
        have hm : LoadedKeks.mk active all = m := Except.ok.inj h
        subst hm
        obtain ⟨heq, hnodup⟩ := addRetired_ok hall (by simp)
        exact ⟨retired, rfl, rfl, heq, hnodup⟩

/-- `embed` calls the library for nothing but an encryption with a wrap algorithm that
belongs to this JWK, under a key without private members unless the JWK is symmetric. -/
def CanEmbed (jwk : Json) (d : Descriptor) : Prop :=
  ∃ k : Kek, d = describe k ∧ ∀ m : KekManager, m.active = k →
    ∀ secretJwk kid iat nbf exp, (embed m secretJwk kid iat nbf exp).Calls (fun c =>
      ∃ alg key claims, c = .jweEncrypt alg key claims none ∧ alg ∈ wrapAlgs ∧ Belongs jwk alg ∧
        (jwk.get? "kty" ≠ some (.str "oct") → ∀ name ∈ privateMembers, key.get? name = none))

theorem Sound.canEmbed {jwk : Json} {d : Descriptor} (h : Sound jwk d) : CanEmbed jwk d := by
  obtain ⟨k, rfl⟩ := h.described
  obtain ⟨alg, halg, hmem, hbelongs⟩ := h.wrapAlg
  have hsame : k.wrapAlg = alg := by simpa [describe] using halg
  subst hsame
  refine ⟨k, rfl, ?_⟩
  intro m hm secretJwk kid iat nbf exp
  subst hm
  refine ⟨⟨_, _, _, rfl, hmem, hbelongs, h.wrapJwk⟩, ?_⟩
  intro answer
  cases answer with
  | ok token => trivial
  | error e => trivial

/-- A JWK that is validated gives a sound descriptor or an error, and a server that starts
with it as its active KEK can embed, exactly if it is none of the two kinds. -/
theorem validateKek_sound_iff (jwk : Json) (source : String) :
    (((∃ d, validateKek jwk source = .ok d ∧ Sound jwk d) ∨
        ∃ message, validateKek jwk source = .error message) ↔ ¬ Slips jwk) ∧
      ((∀ files activeFile retiredFiles m, files.readJson activeFile = some jwk →
        kekInit files activeFile retiredFiles = .ok m →
          Sound jwk m.active ∧ CanEmbed jwk m.active) ↔ ¬ Slips jwk) := by
  constructor
  · constructor
    · intro h hslips
      obtain ⟨d, haccepted, hunsound⟩ := unsound_of_slips hslips
      have hok := accepts_validateKek haccepted source
      rcases h with ⟨d', hd', hsound⟩ | ⟨message, herror⟩
      · have heq : d = d' := Except.ok.inj (hok.symm.trans hd')
        exact hunsound (heq ▸ hsound)
      · rw [hok] at herror
        cases herror
    · intro hslips
      cases hresult : validateKek jwk source with
      | ok d => exact Or.inl ⟨d, rfl, sound_of_accepted (validateKek_accepts hresult) hslips⟩
      | error message => exact Or.inr ⟨message, rfl⟩
  · constructor
    · intro h hslips
      obtain ⟨d, haccepted, hunsound⟩ := unsound_of_slips hslips
      have hload : kekInit ⟨fun _ => .ok 0, fun _ => some jwk⟩ "" [] = .ok ⟨d, [d]⟩ := by
        have hok := accepts_validateKek haccepted ""
        simp [kekInit, loadKekFile, hok, addRetired, bind, Except.bind, pure, Except.pure]
      exact hunsound (h _ _ _ _ rfl hload).1
    · intro hslips files activeFile retiredFiles m hread hinit
      obtain ⟨retired, hactive, -, -, -⟩ := kekInit_ok hinit
      obtain ⟨jwk', hread', haccepted⟩ := loadKekFile_ok hactive
      have hsame : jwk = jwk' := Option.some.inj (hread.symm.trans hread')
      subst hsame
      have hsound := sound_of_accepted haccepted hslips
      exact ⟨hsound, hsound.canEmbed⟩

/-- A modulus of 2047 bits: 256 bytes with a leading zero bit. -/
def shortModulus : String := "f" ++ String.ofList (List.replicate 340 '_') ++ "w"

theorem digits_shortModulus :
    Base64url.digits shortModulus = 31 :: List.replicate 340 63 ++ [48] := by
  decide +kernel

def shortRsaKek : Json :=
  .obj [("kid", .str "k"), ("kty", .str "RSA"), ("alg", .str "RSA-OAEP"), ("n", .str shortModulus),
    ("e", .str "AQAB"), ("d", .str "AQ")]

theorem shortRsaKek_slips : Slips shortRsaKek := by
  refine ⟨⟨"k", rfl, by decide⟩, Or.inl ⟨rfl, rfl, rfl, ⟨"RSA-OAEP", by decide, rfl⟩, ?_⟩⟩
  refine ⟨shortModulus, rfl, ?_, ?_⟩
  · rw [Base64url.bytes, digits_shortModulus]
    decide +kernel
  · have hvalue : Base64url.integer shortModulus < 2 ^ 2047 := by
      rw [Base64url.integer, Base64url.bytes, digits_shortModulus]
      decide +kernel
    exact Nat.lt_succ_of_le (Base64url.bitLength_le_iff.mpr hvalue)

def strayKek : Json :=
  .obj [("kid", .str "k"), ("kty", .str "AKP"), ("alg", .str "toString"), ("priv", .str "AQ"),
    ("pub", .str "AQ")]

/-- A modulus of 2047 bits is accepted; a KEK is accepted whose wrap algorithm is a function. -/
theorem validateKek_unsound :
    (∃ d, validateKek shortRsaKek "" = .ok d ∧ ¬ Sound shortRsaKek d) ∧
      ∃ d, validateKek strayKek "" = .ok d ∧ d.wrapAlg = .inherited "toString" ∧
        ¬ Sound strayKek d := by
  constructor
  · obtain ⟨d, haccepted, hunsound⟩ := unsound_of_slips shortRsaKek_slips
    exact ⟨d, accepts_validateKek haccepted "", hunsound⟩
  · refine ⟨⟨"k", .inherited "toString", strayKek, _⟩, rfl, rfl, ?_⟩
    intro hsound
    obtain ⟨alg, halg, -, -⟩ := hsound.wrapAlg
    cases halg

end KekValidation
