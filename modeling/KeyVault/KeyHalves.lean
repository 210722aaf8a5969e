import KeyVault.KeyInvariant
import KeyVault.KeyOperations
import KeyVault.KeySpecs

/-!
# Matching halves

What tr-jwe and tr-jwt promise of two matching halves of a key, and that the halves
of every key generated from resolved parameters match for the algorithm of its row.
-/

namespace KeyHalves

open JsValue KeyGen Errors Vault KeyOperations KeyInvariant KeySpecs

/-- The `alg` of a JWK that serves a token algorithm; ML-KEM token names have a suffix. -/
inductive Serves : String → String → Prop where
  | same (alg : String) : Serves alg alg
  | mlKem (variant : String) : Serves variant (variant ++ "@spinium.com")

/-- The JWK is the generated one up to its metadata. -/
def Retains (jwk : Json) (props : Props) : Prop :=
  ∃ props', jwk = .obj props' ∧
    ∀ name, name ≠ "alg" → name ≠ "use" → name ≠ "key_ops" → props'.lookup name = props.lookup name

/-- Both halves come from one generation. -/
inductive SameKey (L : Libraries) : Json → Json → Prop where
  | oct {n : Nat} {generated : OctJwk} {jwk : Json} :
    (∃ alg, L.cipherKeyGen n alg = .ok generated) ∨
      (∃ alg bits, L.macKeyGen n alg bits = .ok generated) →
        jwk.get? "k" = some generated.k → SameKey L jwk jwk
  | pair {n : Nat} {pair : JwkPair} {pub sec : Json} :
    (∃ crv, L.ecKeyGen n crv = .ok pair) ∨ (∃ bits, L.rsaKeyGen n bits = .ok pair) ∨
      (∃ variant, L.mlKemKeyGen n variant = .ok pair) →
        Retains pub pair.publicKey.props → Retains sec pair.secretKey.props → SameKey L pub sec

/-- Matching halves for a token algorithm: `pub` encrypts and verifies, `sec` signs and
decrypts. -/
structure Matching (L : Libraries) (alg : String) (pub sec : Json) : Prop where
  sameKey : SameKey L pub sec
  serves : ∃ jwkAlg, Serves jwkAlg alg ∧ pub.get? "alg" = some (.str jwkAlg) ∧
    sec.get? "alg" = some (.str jwkAlg)
  kid : ∃ kid, pub.get? "kid" = some (.str kid) ∧ sec.get? "kid" = some (.str kid)

/-- The protected header of the token names exactly the algorithm and the key id. -/
def Headed (L : Libraries) (token alg : String) (jwk : Json) : Prop :=
  token ≠ "" ∧ ∃ props, L.parseSegment (Handlers.firstSegment token) = some (.obj props) ∧
    props.lookup "alg" = some (.str alg) ∧ props.lookup "kid" = jwk.get? "kid"

/-- The `exp` and `nbf` claims, where present, are seconds that admit the time. -/
def Admits (payload : Json) (now : Nat) : Prop :=
  (∀ exp, payload.get? "exp" = some exp → ∃ t : Nat, exp = .num t ∧ now < t * 1000) ∧
    ∀ nbf, payload.get? "nbf" = some nbf → ∃ t : Nat, nbf = .num t ∧ t * 1000 ≤ now

/-- Decoding inverts encoding for matching halves. -/
structure Codec (L : Libraries) : Prop where
  jwe : ∀ n alg pub sec payload compress token, Matching L alg pub sec →
    L.jweEncrypt n alg pub payload compress = .ok token → L.jweDecrypt token sec = .ok payload
  jweHeader : ∀ n alg pub sec payload compress token, Matching L alg pub sec →
    L.jweEncrypt n alg pub payload compress = .ok token → Headed L token alg pub
  jwt : ∀ n alg pub sec payload token now, Matching L alg pub sec →
    L.jwtEncode n alg sec payload = .ok token → Admits payload now →
      L.jwtDecode now token pub = .ok payload
  jwtHeader : ∀ n alg pub sec payload token, Matching L alg pub sec →
    L.jwtEncode n alg sec payload = .ok token → Headed L token alg sec

/-- The half that encrypts and verifies. -/
def publicOf (g : GeneratedKey) : Json :=
  if g.kty = "oct" then g.secretKey else g.publicKey.getD .null

/-- The half of a key that an operation takes. -/
def halfOf (g : GeneratedKey) : KeyHalf → Json
  | .stored => g.publicKey.getD .null
  | .publicOrSecret => publicOf g
  | .secret => g.secretKey

theorem stamp_lookup_ne (props : Props) (alg use : Option String) {name : String}
    (halg : name ≠ "alg") (huse : name ≠ "use") (hops : name ≠ "key_ops") :
    (stamp props alg use).lookup name = props.lookup name := by
  have hdel : (deleteProp props "key_ops").lookup name = props.lookup name :=
    lookup_deleteProp_ne hops
  cases alg <;> cases use <;>
    simp only [stamp, Option.elim_none, Option.elim_some, lookup_setProp_ne _ halg,
      lookup_setProp_ne _ huse, hdel]

theorem stamp_lookup_alg (props : Props) (alg : String) (use : Option String) :
    (stamp props (some alg) use).lookup "alg" = some (.str alg) := by
  cases use with
  | none => exact lookup_setProp_self _ _ _
  | some u =>
    exact (lookup_setProp_ne _ (by decide)).trans (lookup_setProp_self _ _ _)

theorem stamp_retains (props : Props) (alg use : Option String) :
    Retains (.obj (stamp props alg use)) props :=
  ⟨_, rfl, fun _ halg huse hops => stamp_lookup_ne props alg use halg huse hops⟩

/-- The suffixed names of the algorithm table are those of its variants. -/
theorem keygenAlgs_variant {alg : String} {row : AlgRow} (h : (alg, row) ∈ keygenAlgs)
    (hkind : row.kind = some .mlKem) :
    ∃ variant, row.variant = some variant ∧ alg = variant ++ "@spinium.com" := by
  have htable : ∀ p ∈ keygenAlgs, p.2.kind = some .mlKem →
      p.2.variant.any (fun v => p.1 == v ++ "@spinium.com") = true := by decide
  obtain ⟨v, hv, heq⟩ := (Option.any_eq_true _ _).mp (htable (alg, row) h hkind)
  exact ⟨v, hv, by simpa using heq⟩

/-- A resolved ML-KEM key has the variant that its algorithm name suffixes. -/
theorem resolved_variant {spec : KeySpec} (h : Resolved spec) (hkind : spec.kind = some .mlKem) :
    ∃ variant, spec.variant = some variant ∧ spec.alg = variant ++ "@spinium.com" := by
  obtain ⟨params, h⟩ := h
  rcases resolve_row h with ⟨row, hmem, -, hfits⟩ | hinherits
  · have hrowKind : row.kind = some .mlKem := hfits.kind.symm.trans hkind
    have hparameter := hfits.parameter
    rw [hrowKind] at hparameter
    obtain ⟨v, hv, heq⟩ := keygenAlgs_variant hmem hrowKind
    exact ⟨v, hparameter.1.trans hv, heq⟩
  · obtain ⟨spec', h', -, hnone⟩ := resolve_inherited hinherits
    rw [h] at h'
    cases h'
    rw [hnone] at hkind
    cases hkind

variable {L : Libraries}

theorem octKey_matching {n : Nat} (spec : KeySpec) {jwk : OctJwk}
    (h : (∃ alg, L.cipherKeyGen n alg = .ok jwk) ∨ ∃ alg bits, L.macKeyGen n alg bits = .ok jwk) :
    Matching L spec.alg (publicOf (octKey spec jwk)) (octKey spec jwk).secretKey := by
  have hpublic : publicOf (octKey spec jwk) = (octKey spec jwk).secretKey := if_pos rfl
  have hk : (octKey spec jwk).secretKey.get? "k" = some jwk.k := by
    cases hu : spec.use <;> simp [octKey, literal, hu, List.lookup]
  have halg : (octKey spec jwk).secretKey.get? "alg" = some (.str spec.alg) := by
    cases hu : spec.use <;> simp [octKey, literal, hu, List.lookup]
  rw [hpublic]
  exact ⟨SameKey.oct h hk, ⟨spec.alg, Serves.same _, halg, halg⟩,
    ⟨jwk.kid, octKey_secret_kid spec jwk, octKey_secret_kid spec jwk⟩⟩

theorem pairKey_matching {n : Nat} (spec : KeySpec) {kty jwkAlg : String} (hkty : kty ≠ "oct")
    {pair : JwkPair} (hserves : Serves jwkAlg spec.alg)
    (h : (∃ crv, L.ecKeyGen n crv = .ok pair) ∨ (∃ bits, L.rsaKeyGen n bits = .ok pair) ∨
      ∃ variant, L.mlKemKeyGen n variant = .ok pair) :
    Matching L spec.alg (publicOf (pairKey spec kty (some jwkAlg) pair))
      (pairKey spec kty (some jwkAlg) pair).secretKey := by
  obtain ⟨pub, hpub, hkid⟩ := pairKey_public_kid spec kty (some jwkAlg) pair
  have hpublic : publicOf (pairKey spec kty (some jwkAlg) pair) = pub := by
    have hne : (pairKey spec kty (some jwkAlg) pair).kty ≠ "oct" := hkty
    rw [publicOf, if_neg hne, hpub]
    rfl
  rw [hpublic]
  cases hpub
  exact ⟨SameKey.pair h (stamp_retains _ _ _) (stamp_retains _ _ _),
    ⟨jwkAlg, hserves, stamp_lookup_alg _ _ _, stamp_lookup_alg _ _ _⟩,
    ⟨_, hkid, pairKey_secret_kid _ _ _ _⟩⟩

/-- The two halves of a generated key match for the algorithm that its row names. -/
theorem generated_matching {n : Nat} {spec : KeySpec} (hspec : Resolved spec) {g : GeneratedKey}
    (h : generateVaultKey L n spec = .ok g) : Matching L g.alg (publicOf g) g.secretKey := by
  unfold generateVaultKey at h
  split at h
  · cases hjwk : L.cipherKeyGen n spec.alg <;> rw [hjwk] at h <;> cases h
    exact octKey_matching spec (Or.inl ⟨_, hjwk⟩)
  · cases hjwk : L.macKeyGen n spec.alg spec.bits <;> rw [hjwk] at h <;> cases h
    exact octKey_matching spec (Or.inr ⟨_, _, hjwk⟩)
  · cases hpair : L.ecKeyGen n spec.crv <;> rw [hpair] at h <;> cases h
    exact pairKey_matching spec (by decide) (Serves.same _) (Or.inl ⟨_, hpair⟩)
  · cases hpair : L.rsaKeyGen n spec.modulusLength <;> rw [hpair] at h <;> cases h
    exact pairKey_matching spec (by decide) (Serves.same _) (Or.inr (Or.inl ⟨_, hpair⟩))
  · rename_i hkind
    obtain ⟨variant, hvariant, halg⟩ := resolved_variant hspec hkind
    cases hpair : L.mlKemKeyGen n spec.variant <;> rw [hpair] at h <;> cases h
    rw [hvariant]
    exact pairKey_matching spec (by decide) (halg ▸ Serves.mlKem variant)
      (Or.inr (Or.inr ⟨_, hpair⟩))
  · cases h

end KeyHalves
