import KeyVault.JsObjects
import KeyVault.Vault

/-!
# Accepted key specifications

What `resolveKeyGenParams` accepts satisfies a row of the algorithm matrix, and the
generator of that row produces it. The matrix is an object literal, so that a name
inherited from `Object.prototype` is accepted too, for which there is no generator.
-/

namespace KeySpecs

open JsValue KeyGen Errors Vault

/-- The specification satisfies the row and the global limits. -/
structure Fits (row : AlgRow) (spec : KeySpec) : Prop where
  kty : spec.kty = row.kty
  kind : spec.kind = row.kind
  parameter : match row.kind with
    | some .aes => spec.bits = row.bits ∧ row.bits.isSome
    | some .hmac => ∃ bits minBits, spec.bits = some bits ∧ row.minBits = some minBits ∧
        minBits ≤ bits ∧ bits ≤ octMaxBits ∧ bits % 8 = 0
    | some .ec => ∃ crv ∈ row.curves, spec.crv = some crv
    | some .rsa => ∃ bits, spec.modulusLength = some bits ∧ rsaModulusMin ≤ bits ∧
        bits ≤ rsaModulusMax
    | some .mlKem => spec.variant = row.variant ∧ row.variant.isSome
    | none => False

/-- What the resolution relies on in a row: its kind has its key type and its defaults. -/
def wellFormed (row : AlgRow) : Bool :=
  match row.kind with
  | some .aes => row.kty == some "oct" && row.bits.isSome
  | some .hmac => row.kty == some "oct" &&
      row.minBits.any (fun bits => bits ≤ octMaxBits && bits % 8 == 0)
  | some .ec => row.kty == some "EC" && row.defaultCurve.any row.curves.contains
  | some .rsa => row.kty == some "RSA" &&
      row.defaultModulus.any (fun bits => rsaModulusMin ≤ bits && bits ≤ rsaModulusMax)
  | some .mlKem => row.kty == some "AKP" && row.variant.isSome
  | none => false

theorem keygenAlgs_wellFormed : ∀ e ∈ keygenAlgs, wellFormed e.2 = true := by decide

theorem keygenAlgs_own : ∀ e ∈ keygenAlgs, e.1 ∉ objectPrototype := by decide

theorem lookupAlg_cases {alg : String} {row : AlgRow} (h : lookupAlg alg = some row) :
    (alg, row) ∈ keygenAlgs ∨ (row = {} ∧ alg ∈ objectPrototype) := by
  unfold lookupAlg at h
  cases hown : keygenAlgs.lookup alg with
  | some own =>
    rw [hown] at h
    cases h
    exact Or.inl (lookup_mem hown)
  | none =>
    simp only [hown] at h
    split at h
    · rename_i hproto
      cases h
      exact Or.inr ⟨rfl, by simpa using hproto⟩
    · cases h

variable {row : AlgRow} {crv keyLength : Option Json} {spec spec' : KeySpec}

theorem check_ok {condition : Bool} {message : String} {u : Unit}
    (h : check condition message = .ok u) : condition = true := by
  unfold check at h
  split at h
  · assumption
  · cases h

theorem resolveMlKem_ok (h : resolveMlKem row keyLength spec = .ok spec') :
    spec' = if row.kind = some .mlKem then { spec with variant := row.variant } else spec := by
  unfold resolveMlKem at h
  split at h
  · rename_i hkind
    obtain ⟨_, -, h⟩ := ok_of_bind h
    cases h
    rw [if_pos hkind]
  · rename_i hkind
    cases h
    rw [if_neg hkind]

theorem resolveCurve_ok
    (hrow : row.kind = some .ec → row.defaultCurve.any row.curves.contains = true)
    (h : resolveCurve row crv keyLength spec = .ok spec') :
    if row.kind = some .ec then ∃ c ∈ row.curves, spec' = { spec with crv := some c }
    else crv = none ∧ spec' = spec := by
  unfold resolveCurve at h
  split at h
  · rename_i hkind
    rw [if_pos hkind]
    obtain ⟨_, -, h⟩ := ok_of_bind h
    obtain ⟨c, hc, hmem⟩ := Option.any_eq_true _ _ |>.mp (hrow hkind)
    cases crv with
    | none =>
      cases h
      exact ⟨c, by simpa using hmem, by rw [hc]⟩
    | some v =>
      cases v with
      | str s =>
        obtain ⟨_, hcheck, h⟩ := ok_of_bind h
        cases h
        exact ⟨s, by simpa using check_ok hcheck, rfl⟩
      | _ => cases h
  · rename_i hkind
    rw [if_neg hkind]
    obtain ⟨_, hcheck, h⟩ := ok_of_bind h
    cases h
    exact ⟨by simpa using check_ok hcheck, rfl⟩

theorem inLimits_some {v : Json} {lo hi n : Nat} (h : inLimits v lo hi = some n) :
    lo ≤ n ∧ n ≤ hi := by
  cases v with
  | num k =>
    simp only [inLimits] at h
    split at h
    · rename_i hlimits
      cases h
      omega
    · cases h
  | _ => cases h

/-- The length that the last step of the resolution has found, for the kinds that have one. -/
theorem resolveLength_ok (hrow : wellFormed row = true)
    (h : resolveLength row keyLength spec = .ok spec') :
    match row.kind with
    | some .aes => spec' = { spec with bits := row.bits } ∧ row.bits.isSome
    | some .hmac => ∃ bits minBits, spec' = { spec with bits := some bits } ∧
        row.minBits = some minBits ∧ minBits ≤ bits ∧ bits ≤ octMaxBits ∧ bits % 8 = 0
    | some .rsa => ∃ bits, spec' = { spec with modulusLength := some bits } ∧
        rsaModulusMin ≤ bits ∧ bits ≤ rsaModulusMax
    | _ => spec' = spec := by
  unfold resolveLength at h
  unfold wellFormed at hrow
  cases hkind : row.kind with
  | none => simp [hkind] at hrow
  | some kind =>
    simp only [hkind] at h hrow ⊢
    cases kind with
    | aes =>
      obtain ⟨_, -, h⟩ := ok_of_bind h
      cases h
      simp only [Bool.and_eq_true] at hrow
      exact ⟨rfl, hrow.2⟩
    | hmac =>
      simp only [Bool.and_eq_true] at hrow
      obtain ⟨minBits, hmin, hlimits⟩ := Option.any_eq_true _ _ |>.mp hrow.2
      simp only [Bool.and_eq_true, decide_eq_true_eq, beq_iff_eq] at hlimits
      cases keyLength with
      | none =>
        cases h
        exact ⟨minBits, minBits, by rw [hmin], hmin, Nat.le_refl _, hlimits.1, hlimits.2⟩
      | some v =>
        dsimp only at h
        rw [hmin, Option.getD_some] at h
        cases hin : inLimits v minBits octMaxBits with
        | none => rw [hin] at h; cases h
        | some bits =>
          obtain ⟨hlo, hhi⟩ := inLimits_some hin
          rw [hin] at h
          dsimp only at h
          split at h
          · rename_i height
            cases h
            exact ⟨bits, minBits, rfl, hmin, hlo, hhi, height⟩
          · cases h
    | ec => cases h; rfl
    | rsa =>
      simp only [Bool.and_eq_true] at hrow
      obtain ⟨bits, hdefault, hlimits⟩ := Option.any_eq_true _ _ |>.mp hrow.2
      simp only [Bool.and_eq_true, decide_eq_true_eq] at hlimits
      cases keyLength with
      | none =>
        cases h
        exact ⟨bits, by rw [hdefault], hlimits.1, hlimits.2⟩
      | some v =>
        dsimp only at h
        cases hin : inLimits v rsaModulusMin rsaModulusMax with
        | none => rw [hin] at h; cases h
        | some bits =>
          obtain ⟨hlo, hhi⟩ := inLimits_some hin
          rw [hin] at h
          cases h
          exact ⟨bits, rfl, hlo, hhi⟩
    | mlKem => cases h; rfl

/-- An algorithm name that only `Object.prototype` knows, with nothing that is checked
against the row. -/
def InheritsAlg (params : Json) : Prop :=
  (∃ alg ∈ objectPrototype, params.get? "alg" = some (.str alg)) ∧
    params.get? "kty" = none ∧ params.get? "crv" = none

/-- How the parameters come to a specification: from a row, step by step. -/
theorem resolve_steps {params : Json} (h : resolveKeyGenParams params = .ok spec) :
    ∃ alg row spec₁ spec₂, params.get? "alg" = some (.str alg) ∧ lookupAlg alg = some row ∧
      (params.get? "kty").all (fun kty => row.kty.any (fun k => kty == .str k)) = true ∧
      resolveMlKem row (params.get? "keyLength")
        { alg := alg, kty := row.kty, kind := row.kind, use := row.use, keyOps := row.keyOps } =
          .ok spec₁ ∧
      resolveCurve row (params.get? "crv") (params.get? "keyLength") spec₁ = .ok spec₂ ∧
      resolveLength row (params.get? "keyLength") spec₂ = .ok spec := by
  obtain ⟨_, -, h⟩ := ok_of_bind h
  cases halg : params.get? "alg" with
  | none => simp only [halg] at h; cases h
  | some v =>
    cases v with
    | str alg =>
      simp only [halg] at h
      cases hrow : lookupAlg alg with
      | none => simp only [hrow] at h; cases h
      | some row =>
        simp only [hrow] at h
        obtain ⟨_, hkty, h⟩ := ok_of_bind h
        obtain ⟨spec₁, h₁, h⟩ := ok_of_bind h
        obtain ⟨spec₂, h₂, h₃⟩ := ok_of_bind h
        exact ⟨alg, row, spec₁, spec₂, rfl, hrow, check_ok hkty, h₁, h₂, h₃⟩
    | _ => simp only [halg] at h; cases h

theorem resolved_fits (hrow : wellFormed row = true) {alg : String} {spec₁ spec₂ : KeySpec}
    (h₁ : resolveMlKem row keyLength
      { alg := alg, kty := row.kty, kind := row.kind, use := row.use, keyOps := row.keyOps } =
        .ok spec₁)
    (h₂ : resolveCurve row crv keyLength spec₁ = .ok spec₂)
    (h₃ : resolveLength row keyLength spec₂ = .ok spec) :
    spec.alg = alg ∧ spec.use = row.use ∧ Fits row spec := by
  have hcurve : row.kind = some .ec → row.defaultCurve.any row.curves.contains = true := by
    intro hkind
    simp only [wellFormed, hkind, Bool.and_eq_true] at hrow
    exact hrow.2
  have h₁ := resolveMlKem_ok h₁
  have h₂ := resolveCurve_ok hcurve h₂
  have h₃ := resolveLength_ok hrow h₃
  cases hkind : row.kind with
  | none => simp [wellFormed, hkind] at hrow
  | some kind =>
    simp only [hkind] at h₁ h₂ h₃
    cases kind with
    | aes =>
      obtain ⟨-, rfl⟩ := h₂
      obtain ⟨rfl, hbits⟩ := h₃
      subst h₁
      exact ⟨rfl, rfl, rfl, hkind.symm, by simp only [hkind]; exact ⟨trivial, hbits⟩⟩
    | hmac =>
      obtain ⟨-, rfl⟩ := h₂
      obtain ⟨bits, minBits, rfl, hlimits⟩ := h₃
      subst h₁
      exact ⟨rfl, rfl, rfl, hkind.symm, by simp only [hkind]; exact ⟨bits, minBits, rfl, hlimits⟩⟩
    | ec =>
      obtain ⟨c, hc, rfl⟩ := h₂
      subst h₃ h₁
      exact ⟨rfl, rfl, rfl, hkind.symm, by simp only [hkind]; exact ⟨c, hc, rfl⟩⟩
    | rsa =>
      obtain ⟨-, rfl⟩ := h₂
      obtain ⟨bits, rfl, hlimits⟩ := h₃
      subst h₁
      exact ⟨rfl, rfl, rfl, hkind.symm, by simp only [hkind]; exact ⟨bits, rfl, hlimits⟩⟩
    | mlKem =>
      obtain ⟨-, rfl⟩ := h₂
      subst h₃ h₁
      simp only [wellFormed, hkind, Bool.and_eq_true] at hrow
      exact ⟨rfl, rfl, rfl, hkind.symm, by simp only [hkind]; exact ⟨rfl, hrow.2⟩⟩

/-- A specification comes from a row that it satisfies, or from an inherited name. -/
theorem resolve_row {params : Json} (h : resolveKeyGenParams params = .ok spec) :
    (∃ row, (spec.alg, row) ∈ keygenAlgs ∧ spec.use = row.use ∧ Fits row spec) ∨
      InheritsAlg params := by
  obtain ⟨alg, row, spec₁, spec₂, halg, hlookup, hkty, h₁, h₂, h₃⟩ := resolve_steps h
  rcases lookupAlg_cases hlookup with hmem | ⟨rfl, hproto⟩
  · obtain ⟨rfl, huse, hfits⟩ := resolved_fits (keygenAlgs_wellFormed _ hmem) h₁ h₂ h₃
    exact Or.inl ⟨row, hmem, huse, hfits⟩
  · have hcrv := resolveCurve_ok (by rintro ⟨⟩) h₂
    simp only [reduceCtorEq, if_false] at hcrv
    refine Or.inr ⟨⟨alg, hproto, halg⟩, ?_, hcrv.1⟩
    simpa using hkty

theorem resolve_cases {params : Json} (h : resolveKeyGenParams params = .ok spec) :
    (∃ row, (spec.alg, row) ∈ keygenAlgs ∧ Fits row spec) ∨ InheritsAlg params :=
  (resolve_row h).imp_left fun ⟨row, hmem, _, hfits⟩ => ⟨row, hmem, hfits⟩

/-- An inherited name is accepted, and there is no generator for it. -/
theorem resolve_inherited {params : Json} (h : InheritsAlg params) :
    ∃ spec, resolveKeyGenParams params = .ok spec ∧ spec.alg ∈ objectPrototype ∧
      spec.kind = none := by
  obtain ⟨⟨alg, hproto, halg⟩, hkty, hcrv⟩ := h
  have hplain : params.isPlainObject = true := by
    cases params with
    | obj props => rfl
    | _ => cases halg
  have hlookup : lookupAlg alg = some {} := by
    unfold lookupAlg
    cases hown : keygenAlgs.lookup alg with
    | some row => exact absurd hproto (keygenAlgs_own _ (lookup_mem hown))
    | none => simp [hproto]
  refine ⟨{ alg := alg, kty := none, kind := none, use := none, keyOps := [] }, ?_, hproto, rfl⟩
  simp only [resolveKeyGenParams, hplain, halg, hlookup, hkty, hcrv]
  rfl

/-- The generator for the kind of the specification fails. -/
inductive GeneratorFails (L : Libraries) (n : Nat) (spec : KeySpec) (message : String) : Prop where
  | cipher : spec.kind = some .aes → L.cipherKeyGen n spec.alg = .error message →
    GeneratorFails L n spec message
  | mac : spec.kind = some .hmac → L.macKeyGen n spec.alg spec.bits = .error message →
    GeneratorFails L n spec message
  | ec : spec.kind = some .ec → L.ecKeyGen n spec.crv = .error message →
    GeneratorFails L n spec message
  | rsa : spec.kind = some .rsa → L.rsaKeyGen n spec.modulusLength = .error message →
    GeneratorFails L n spec message
  | mlKem : spec.kind = some .mlKem → L.mlKemKeyGen n spec.variant = .error message →
    GeneratorFails L n spec message

/-- Generation takes one of its five branches: it fails only where a generator of the
library fails, and what it returns has the algorithm and the key type. -/
structure Generates (L : Libraries) (n : Nat) (spec : KeySpec) : Prop where
  fails : ∀ message, generateVaultKey L n spec = .error message → GeneratorFails L n spec message
  returns : ∀ g, generateVaultKey L n spec = .ok g → g.alg = spec.alg ∧ some g.kty = spec.kty

theorem generates_map {α : Type} {L : Libraries} {n : Nat} {r : Except String α}
    {f : α → GeneratedKey} (h : generateVaultKey L n spec = r.map f)
    (hfails : ∀ message, r = .error message → GeneratorFails L n spec message)
    (hreturns : ∀ a, (f a).alg = spec.alg ∧ some (f a).kty = spec.kty) : Generates L n spec := by
  constructor
  · intro message hmessage
    rw [h] at hmessage
    cases r with
    | ok a => cases hmessage
    | error e => cases hmessage; exact hfails _ rfl
  · intro g hg
    rw [h] at hg
    cases r with
    | ok a => cases hg; exact hreturns a
    | error e => cases hg

theorem generates_of_fits (hrow : wellFormed row = true) (h : Fits row spec) (L : Libraries)
    (n : Nat) : Generates L n spec := by
  obtain ⟨hkty, hkind, -⟩ := h
  cases hk : row.kind with
  | none => simp [wellFormed, hk] at hrow
  | some kind =>
    rw [hk] at hkind
    simp only [wellFormed, hk] at hrow
    have hgenerate := generateVaultKey.eq_def L n spec
    simp only [hkind] at hgenerate
    cases kind with
    | aes =>
      simp only [Bool.and_eq_true, beq_iff_eq] at hrow
      exact generates_map hgenerate (fun _ => .cipher hkind) fun _ =>
        ⟨rfl, (hkty.trans hrow.1).symm⟩
    | hmac =>
      simp only [Bool.and_eq_true, beq_iff_eq] at hrow
      exact generates_map hgenerate (fun _ => .mac hkind) fun _ => ⟨rfl, (hkty.trans hrow.1).symm⟩
    | ec =>
      simp only [Bool.and_eq_true, beq_iff_eq] at hrow
      exact generates_map hgenerate (fun _ => .ec hkind) fun _ => ⟨rfl, (hkty.trans hrow.1).symm⟩
    | rsa =>
      simp only [Bool.and_eq_true, beq_iff_eq] at hrow
      exact generates_map hgenerate (fun _ => .rsa hkind) fun _ => ⟨rfl, (hkty.trans hrow.1).symm⟩
    | mlKem =>
      simp only [Bool.and_eq_true, beq_iff_eq] at hrow
      exact generates_map hgenerate (fun _ => .mlKem hkind) fun _ => ⟨rfl, (hkty.trans hrow.1).symm⟩

end KeySpecs
