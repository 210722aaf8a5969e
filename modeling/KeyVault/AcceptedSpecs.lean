import KeyVault.GenerateKeyRuns

/-!
# Accepted specifications are generated

Key generation parameters are refused with 1100, or they come to a specification of
the matrix that a generator serves, and then nothing is left that could make
generate-key answer 1900. The exception are the names that every object inherits.
-/

namespace AcceptedSpecs

open JsValue Acl KeyGen Errors Programs Vault KeyStore Handlers KeySpecs GenerateKeyRuns Server

/-- What becomes of the parameters before a key is generated. -/
structure Settled (params : Json) : Prop where
  refused : ∀ message, resolveKeyGenParams params = .error message →
    ∀ (L : Libraries) cfg (user : VaultUser) (env : Envelope) i w,
      env.request = "generate-key" → env.data = params →
      allowedOpsAllows user.data .generateKey = true →
      checkProps params generateKeyProps = .ok () →
      ∃ r w', (dispatch L cfg user env).run (serve L i) (quiet w) = (.ok r, quiet w') ∧
        r.errorCode = some (.num 1100)
  listed : ∀ spec, resolveKeyGenParams params = .ok spec →
    ∃ row, (spec.alg, row) ∈ keygenAlgs ∧ Fits row spec
  generated : ∀ spec, resolveKeyGenParams params = .ok spec → ∀ L n, Generates L n spec

/-- No generate-key request with these parameters is answered 1900 while generator,
KEK, database and audit chain work. -/
def NeverInternal (params : Json) : Prop :=
  ∀ L cfg (user : VaultUser) (env : Envelope) i w,
    env.request = "generate-key" → env.data = params → isUuid user.userId = true →
    Working L cfg w params →
    ∃ r w', (dispatch L cfg user env).run (serve L i) (quiet w) = (.ok r, quiet w') ∧
      r.errorCode ≠ some (.num 1900)

variable {params : Json}

theorem generateKeySpec_refused {user : VaultUser} {message : String}
    (hmask : allowedOpsAllows user.data .generateKey = true)
    (hprops : checkProps params generateKeyProps = .ok ())
    (hresolve : resolveKeyGenParams params = .error message) :
    generateKeySpec user params = .error (.apiError .invalidRequestData message) := by
  simp only [generateKeySpec, hmask, require_true, hprops, hresolve, ok_bind]
  rfl

theorem generateKeySpec_ok {user : VaultUser} {spec : KeySpec}
    (h : generateKeySpec user params = .ok spec) : resolveKeyGenParams params = .ok spec := by
  obtain ⟨_, -, h⟩ := ok_of_bind h
  obtain ⟨_, -, h⟩ := ok_of_bind h
  cases hresolve : resolveKeyGenParams params with
  | error message =>
    rw [hresolve] at h
    cases h
  | ok spec' =>
    rw [hresolve] at h
    cases h
    rfl

theorem verdict_spec {w : World} {user : VaultUser} {spec : KeySpec} {acl : AclMap}
    (h : verdict w user params = .ok (spec, acl)) : resolveKeyGenParams params = .ok spec := by
  obtain ⟨spec', hspec, h⟩ := ok_of_bind h
  obtain ⟨_, -, h⟩ := ok_of_bind h
  obtain ⟨_, -, h⟩ := ok_of_bind h
  obtain ⟨acl', -, h⟩ := ok_of_bind h
  cases h
  exact generateKeySpec_ok hspec

theorem settled_of_own (h : ¬ InheritsAlg params) : Settled params := by
  have hlisted : ∀ spec, resolveKeyGenParams params = .ok spec →
      ∃ row, (spec.alg, row) ∈ keygenAlgs ∧ Fits row spec := by
    intro spec hspec
    exact (resolve_cases hspec).resolve_right h
  constructor
  · rintro message hmessage L cfg user env i w hop rfl hmask hprops
    have hrequest : env.request = Operation.generateKey.request := hop
    obtain ⟨w', hrun, -⟩ := Dispatch.dispatch_quiet L cfg user i hrequest w
    refine ⟨_, w', hrun, ?_⟩
    have hhandler : (handler L cfg user env.data .generateKey).run (serve L i) (quiet w) =
        (.error (.apiError .invalidRequestData message), quiet w) := by
      have hspec := generateKeySpec_refused hmask hprops hmessage
      simp only [handler, generateKey, hspec, Prog.liftM_eq, Prog.done_error_bind, Prog.run_done]
    rw [hhandler]
    exact answer_error_errorCode _ _
  · exact hlisted
  · intro spec hspec L n
    obtain ⟨row, hrow, hfits⟩ := hlisted spec hspec
    exact generates_of_fits (keygenAlgs_wellFormed _ hrow) hfits L n

theorem neverInternal_of_own (h : ¬ InheritsAlg params) : NeverInternal params := by
  rintro L cfg user env i w hop rfl huuid hw
  obtain ⟨w', hrun, -⟩ := dispatch_generate (L := L) (i := i) hop huuid w
  refine ⟨_, w', hrun, ?_⟩
  cases hverdict : verdict w user env.data with
  | error e =>
    obtain ⟨errorCode, message, masked, rfl, hne⟩ := verdict_refusal hverdict
    intro hcode
    have hsame : some (Json.num errorCode.code) = some (.num 1900) :=
      (answer_error_errorCode env.op ⟨errorCode, message, masked, 200⟩).symm.trans hcode
    apply hne
    apply Err.code_injective
    exact Int.ofNat_inj.mp (Json.num.inj (Option.some.inj hsame))
  | ok accepted =>
    obtain ⟨spec, acl⟩ := accepted
    obtain ⟨row, hrow, hfits⟩ := (settled_of_own h).listed spec (verdict_spec hverdict)
    obtain ⟨g, token, w₁, -, hgenerate, -⟩ := generate_quiet (i := i) hw hrow hfits acl
    have hsettle : (settle cfg env.data (.ok (spec, acl))).run (serve L i) (quiet w) =
        (.ok (generateKeyResult env.data acl ⟨g.kid, g.kty, g.alg, g.publicKey⟩), quiet w₁) :=
      Prog.run_bind_ok hgenerate
    rw [hsettle]
    intro hcode
    have hnone := answer_ok_errorCode env.op
      (generateKeyResult env.data acl ⟨g.kid, g.kty, g.alg, g.publicKey⟩)
    cases hnone.symm.trans hcode

theorem inherits_unsettled (h : InheritsAlg params) : ¬ Settled params := by
  intro hsettled
  obtain ⟨spec, hspec, hproto, -⟩ := resolve_inherited h
  obtain ⟨row, hrow, -⟩ := hsettled.listed spec hspec
  exact keygenAlgs_own _ hrow hproto

/-- Exactly the inherited names are accepted and not generated. -/
theorem accepted_generated_iff (params : Json) :
    (Settled params ∧ NeverInternal params) ↔ ¬ InheritsAlg params := by
  constructor
  · rintro ⟨hsettled, -⟩ hinherits
    exact inherits_unsettled hinherits hsettled
  · intro h
    exact ⟨settled_of_own h, neverInternal_of_own h⟩

def toStringParams : Props := [("alg", .str "toString")]

theorem obliging_working :
    Working Fixtures.obliging Fixtures.config (fresh 0) (.obj toStringParams) where
  generators := by
    rintro row spec - - message (⟨-, h⟩ | ⟨-, h⟩ | ⟨-, h⟩ | ⟨-, h⟩ | ⟨-, h⟩) <;> cases h
  seals := fun _ => ⟨"sealed", rfl⟩
  fresh := fun _ _ => rfl
  range := ⟨rfl, rfl⟩

/-- Every generator works, and Alice's request for a key of this algorithm is accepted
by the resolution and answered 1900. -/
theorem toString_internal :
    (∃ spec, resolveKeyGenParams (.obj toStringParams) = .ok spec) ∧
    ¬ NeverInternal (.obj toStringParams) ∧ ¬ Settled (.obj toStringParams) := by
  have hinherits : InheritsAlg (.obj toStringParams) := ⟨⟨"toString", by decide, rfl⟩, rfl, rfl⟩
  obtain ⟨spec, hspec, -, -⟩ := resolve_inherited hinherits
  refine ⟨⟨spec, hspec⟩, fun hnever => ?_, inherits_unsettled hinherits⟩
  obtain ⟨r, w', hrun, hcode⟩ := hnever Fixtures.obliging Fixtures.config Fixtures.alice
    (Fixtures.generating toStringParams) 0 (fresh 0) rfl rfl (by decide) obliging_working
  cases hrun
  exact hcode rfl

end AcceptedSpecs
