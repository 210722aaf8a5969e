import KeyVault.AclNormal
import KeyVault.KeyOperations

/-!
# The checks on a request

What the checks before a key is loaded throw, and what they have found out where they
pass. A rejection names a property of the request or is a text of the source.
-/

namespace RequestChecks

open JsValue Acl AclNormal KeyGen Errors Handlers KeyOperations Vault

/-- The texts of refused request data. -/
def texts : List String :=
  ["Invalid kid", "JWT payload must be an object", "JWE payload is required", "Invalid compress",
    "Invalid nbf", "Invalid exp", "Invalid returnPublicKey",
    "returnPublicKey is only applicable to asymmetric keys", "Invalid key generation parameters",
    "Unsupported algorithm", "Key type does not match algorithm",
    "keyLength is not applicable to ML-KEM keys", "keyLength is not applicable to EC keys",
    "Curve does not match algorithm", "crv is only applicable to EC keys",
    "keyLength does not match algorithm", "Invalid keyLength for algorithm"]

/-- An exception of a check, with its error code. -/
inductive Rejection (data : Json) : Err → Thrown → Prop where
  | unknownProperty {props : Props} {prop : String} : data = .obj props → prop ∈ keys props →
      Rejection data .invalidRequestData
        (.apiError .invalidRequestData ("Unknown property: " ++ prop))
  | text {message : String} : message ∈ texts →
      Rejection data .invalidRequestData (.apiError .invalidRequestData message)
  | ofCode (errorCode : Err) : Rejection data errorCode (.ofCode errorCode)

/-- A rejection with one of the codes. -/
def Rejects (data : Json) (errorCodes : List Err) (e : Thrown) : Prop :=
  ∃ errorCode ∈ errorCodes, Rejection data errorCode e

variable {L : Libraries} {data : Json} {errorCodes : List Err} {e : Thrown}

/-- A rejection is an `ApiError` with one of the codes. -/
theorem Rejects.code (h : Rejects data errorCodes e) :
    ∃ errorCode ∈ errorCodes, ∃ message masked, e = .api errorCode message masked := by
  obtain ⟨errorCode, hcode, hrejection⟩ := h
  cases hrejection with
  | unknownProperty _ _ => exact ⟨_, hcode, _, _, rfl⟩
  | text _ => exact ⟨_, hcode, _, _, rfl⟩
  | ofCode _ => exact ⟨_, hcode, _, _, rfl⟩

theorem Rejects.mono {more : List Err} (h : Rejects data errorCodes e)
    (hsub : errorCodes ⊆ more) : Rejects data more e :=
  h.imp fun _ hcode => ⟨hsub hcode.1, hcode.2⟩

theorem rejects_text {message : String} (h : message ∈ texts) :
    Rejects data [.invalidRequestData] (.apiError .invalidRequestData message) :=
  ⟨_, List.mem_singleton_self _, .text h⟩

theorem rejects_ofCode {errorCode : Err} (h : errorCode ∈ errorCodes) :
    Rejects data errorCodes (.ofCode errorCode) := ⟨_, h, .ofCode _⟩

theorem require_error {b : Bool} {e' : Thrown} (h : require b e = .error e') : e' = e := by
  cases b with
  | true => cases h
  | false =>
    cases h
    rfl

theorem rejects_require {b : Bool} {e' : Thrown} (he : Rejects data errorCodes e)
    (h : require b e = .error e') : Rejects data errorCodes e' := by
  rw [require_error h]
  exact he

theorem checkProps_rejects {allowed : List String} (h : checkProps data allowed = .error e) :
    Rejects data [.invalidRequestData] e := by
  unfold checkProps at h
  split at h
  · split at h
    · rename_i props prop hfind
      cases h
      exact ⟨_, List.mem_singleton_self _, .unknownProperty rfl (List.mem_of_find?_eq_some hfind)⟩
    · cases h
  · cases h
    exact rejects_ofCode (by decide)

theorem requireKid_rejects {value : Option Json} (h : requireKid value = .error e) :
    Rejects data [.invalidRequestData] e := by
  unfold requireKid at h
  split at h
  · split at h
    · cases h
    · cases h
      exact rejects_text (by decide)
  · cases h
    exact rejects_text (by decide)

theorem requireKid_ok {value : Option Json} {kid : String} (h : requireKid value = .ok kid) :
    ∃ text, value = some (.str text) ∧ isUuid text = true ∧ toLowerCase text = kid := by
  unfold requireKid at h
  split at h
  · split at h
    · rename_i s hs
      cases h
      exact ⟨s, rfl, hs, rfl⟩
    · cases h
  · cases h

theorem requestKid_rejects {value : Option Json} (h : requestKid value = .error e) :
    Rejects data [.invalidRequestData] e := by
  unfold requestKid at h
  split at h
  · cases hkid : requireKid value with
    | ok kid =>
      rw [hkid] at h
      cases h
    | error e' =>
      rw [hkid] at h
      cases h
      exact requireKid_rejects hkid
  · cases h

theorem requestKid_ok {value : Option Json} {found : Option String}
    (h : requestKid value = .ok found) : (value = none ∧ found = none) ∨
      ∃ text, value = some (.str text) ∧ isUuid text = true ∧ found = some (toLowerCase text) := by
  cases value with
  | none =>
    cases h
    exact Or.inl ⟨rfl, rfl⟩
  | some v =>
    simp only [requestKid, Option.isSome_some, if_true] at h
    cases hkid : requireKid (some v) with
    | error e =>
      rw [hkid] at h
      cases h
    | ok kid =>
      rw [hkid] at h
      cases h
      obtain ⟨text, hv, huuid, rfl⟩ := requireKid_ok hkid
      exact Or.inr ⟨text, hv, huuid, rfl⟩

/-- The header is the JSON object that the first segment of the token decodes to. -/
structure Decodes (L : Libraries) (data : Json) (token : String) (header : Json) : Prop where
  given : data.get? "token" = some (.str token)
  segment : L.parseSegment (firstSegment token) = some header
  plain : header.isPlainObject = true

theorem decodes_header {token : String} {header : Json}
    (h : decodeProtectedHeader L (data.get? "token") = .ok (token, header)) :
    Decodes L data token header := by
  unfold decodeProtectedHeader at h
  split at h
  · rename_i t ht
    split at h
    · cases h
    · split at h
      · rename_i props hparse
        cases h
        exact ⟨ht, hparse, rfl⟩
      · cases h
  · cases h

theorem decodeProtectedHeader_rejects {token : Option Json}
    (h : decodeProtectedHeader L token = .error e) : Rejects data [.invalidInputToken] e := by
  unfold decodeProtectedHeader at h
  split at h
  · split at h
    · cases h
      exact rejects_ofCode (by decide)
    · split at h
      · cases h
      · cases h
        exact rejects_ofCode (by decide)
  · cases h
    exact rejects_ofCode (by decide)

theorem headerKid_rejects {header : Json} (h : headerKid header = .error e) :
    Rejects data [.invalidInputToken] e := by
  unfold headerKid at h
  split at h
  · cases h
  · split at h
    · cases h
    · cases h
      exact rejects_ofCode (by decide)
  · cases h
    exact rejects_ofCode (by decide)

theorem headerKid_ok {header : Json} {found : Option String} (h : headerKid header = .ok found) :
    (header.get? "kid" = none ∧ found = none) ∨ ∃ text, header.get? "kid" = some (.str text) ∧
      isUuid text = true ∧ found = some (toLowerCase text) := by
  unfold headerKid at h
  split at h
  · rename_i hnone
    cases h
    exact Or.inl ⟨hnone, rfl⟩
  · rename_i s hsome
    split at h
    · rename_i hs
      cases h
      exact Or.inr ⟨s, hsome, hs, rfl⟩
    · cases h
  · cases h

theorem resolveKid_rejects {value : Option Json} {header : Json}
    (h : resolveKid value header = .error e) :
    Rejects data [.invalidRequestData, .invalidInputToken] e := by
  rcases error_of_bind h with hreq | ⟨reqKid, -, h⟩
  · exact (requestKid_rejects hreq).mono (by simp)
  · rcases error_of_bind h with hhdr | ⟨hdrKid, -, h⟩
    · exact (headerKid_rejects hhdr).mono (by simp)
    · have hinvalid : Rejects data [.invalidRequestData, .invalidInputToken]
          (.ofCode .invalidInputToken) := rejects_ofCode (by decide)
      split at h
      · split at h
        · cases h
        · cases h
          exact hinvalid
      · cases h
      · cases h
      · cases h
        exact hinvalid

theorem kidOnly_rejects (h : kidOnly data = .error e) : Rejects data [.invalidRequestData] e := by
  rcases error_of_bind h with hprops | ⟨_, -, h⟩
  · exact checkProps_rejects hprops
  · exact requireKid_rejects h

theorem tokenTarget_rejects (h : tokenTarget L data = .error e) :
    Rejects data [.invalidRequestData, .invalidInputToken] e := by
  rcases error_of_bind h with hprops | ⟨_, -, h⟩
  · exact (checkProps_rejects hprops).mono (by simp)
  · rcases error_of_bind h with hdecode | ⟨_, -, h⟩
    · exact (decodeProtectedHeader_rejects hdecode).mono (by simp)
    · exact resolveKid_rejects h

/-- The codes of the checks before a key is loaded. -/
def targetErrors : Operation → List Err
  | .verifyJwt => [.invalidRequestData, .invalidInputToken]
  | .decryptJwe => [.invalidRequestData, .invalidInputToken]
  | .exportKey => [.invalidRequestData, .operationDisabled]
  | _ => [.invalidRequestData]

theorem target_rejects {cfg : KeyStore.Config} {op : Operation} {K : KeyOperation}
    (hK : keyOperation L cfg data op = some K) (h : K.target = .error e) :
    Rejects data (targetErrors op) e := by
  cases op with
  | publicKey => cases hK; exact kidOnly_rejects h
  | createJwt =>
    cases hK
    rcases error_of_bind h with h | ⟨_, -, h⟩
    · exact checkProps_rejects h
    · rcases error_of_bind h with h | ⟨_, -, h⟩
      · exact requireKid_rejects h
      · rcases error_of_bind h with h | ⟨_, -, h⟩
        · exact rejects_require (rejects_text (by decide)) h
        · cases h
  | verifyJwt => cases hK; exact tokenTarget_rejects h
  | createJwe =>
    cases hK
    rcases error_of_bind h with h | ⟨_, -, h⟩
    · exact checkProps_rejects h
    · rcases error_of_bind h with h | ⟨_, -, h⟩
      · exact requireKid_rejects h
      · rcases error_of_bind h with h | ⟨_, -, h⟩
        · exact rejects_require (rejects_text (by decide)) h
        · rcases error_of_bind h with h | ⟨_, -, h⟩
          · exact rejects_require (rejects_text (by decide)) h
          · cases h
  | decryptJwe => cases hK; exact tokenTarget_rejects h
  | revokeKey => cases hK; exact kidOnly_rejects h
  | exportKey =>
    cases hK
    rcases error_of_bind h with h | ⟨_, -, h⟩
    · exact (kidOnly_rejects h).mono (by decide)
    · rcases error_of_bind h with h | ⟨_, -, h⟩
      · exact rejects_require (rejects_ofCode (by decide)) h
      · cases h
  | healthcheck => cases hK
  | generateKey => cases hK
  | listKeys => cases hK

theorem fitsAlgs_rejects {algs : List String} {row : VaultKey} (h : fitsAlgs algs row = .error e) :
    Rejects data [.incompatibleKeyType] e :=
  rejects_require (rejects_ofCode (by decide)) h

theorem fitsToken_rejects {algs : List String} {header : Json} {row : VaultKey}
    (h : fitsToken algs header row = .error e) :
    Rejects data [.incompatibleKeyType, .invalidInputToken] e := by
  rcases error_of_bind h with h | ⟨_, -, h⟩
  · exact (fitsAlgs_rejects h).mono (by decide)
  · exact rejects_require (rejects_ofCode (by decide)) h

/-- The codes of the checks on the loaded row. -/
def fitsErrors : Operation → List Err
  | .publicKey => [.incompatibleKeyType]
  | .createJwt => [.incompatibleKeyType]
  | .createJwe => [.incompatibleKeyType]
  | .verifyJwt => [.incompatibleKeyType, .invalidInputToken]
  | .decryptJwe => [.incompatibleKeyType, .invalidInputToken]
  | _ => []

theorem fits_rejects {cfg : KeyStore.Config} {op : Operation} {K : KeyOperation} {row : VaultKey}
    (hK : keyOperation L cfg data op = some K) (h : K.fits row = .error e) :
    Rejects data (fitsErrors op) e := by
  cases op with
  | publicKey => cases hK; exact rejects_require (rejects_ofCode (by decide)) h
  | createJwt => cases hK; exact fitsAlgs_rejects h
  | verifyJwt => cases hK; exact fitsToken_rejects h
  | createJwe => cases hK; exact fitsAlgs_rejects h
  | decryptJwe => cases hK; exact fitsToken_rejects h
  | revokeKey => cases hK; cases h
  | exportKey => cases hK; cases h
  | healthcheck => cases hK
  | generateKey => cases hK
  | listKeys => cases hK

theorem check_text {b : Bool} {text message : String} (htext : text ∈ texts)
    (h : check b text = .error message) : message ∈ texts := by
  unfold check at h
  split at h
  · cases h
  · cases h
    exact htext

section

variable {a : AlgRow} {crv keyLength : Option Json} {spec : KeySpec} {message : String}

theorem resolveMlKem_text (h : resolveMlKem a keyLength spec = .error message) :
    message ∈ texts := by
  unfold resolveMlKem at h
  split at h
  · rcases error_of_bind h with h | ⟨_, -, h⟩
    · exact check_text (by decide) h
    · cases h
  · cases h

theorem resolveCurve_text (h : resolveCurve a crv keyLength spec = .error message) :
    message ∈ texts := by
  unfold resolveCurve at h
  split at h
  · rcases error_of_bind h with h | ⟨_, -, h⟩
    · exact check_text (by decide) h
    · split at h
      · cases h
      · rcases error_of_bind h with h | ⟨_, -, h⟩
        · exact check_text (by decide) h
        · cases h
      · cases h
        decide
  · rcases error_of_bind h with h | ⟨_, -, h⟩
    · exact check_text (by decide) h
    · cases h

theorem resolveLength_text (h : resolveLength a keyLength spec = .error message) :
    message ∈ texts := by
  have hinvalid : "Invalid keyLength for algorithm" ∈ texts := by decide
  unfold resolveLength at h
  split at h
  · rcases error_of_bind h with h | ⟨_, -, h⟩
    · exact check_text (by decide) h
    · cases h
  · split at h
    · cases h
    · split at h
      · split at h
        · cases h
        · cases h
          exact hinvalid
      · cases h
        exact hinvalid
  · split at h
    · cases h
    · split at h
      · cases h
      · cases h
        exact hinvalid
  · cases h

theorem resolveKeyGenParams_text {params : Json} (h : resolveKeyGenParams params = .error message) :
    message ∈ texts := by
  unfold resolveKeyGenParams at h
  rcases error_of_bind h with h | ⟨_, -, h⟩
  · exact check_text (by decide) h
  · split at h
    · split at h
      · rcases error_of_bind h with h | ⟨_, -, h⟩
        · exact check_text (by decide) h
        · rcases error_of_bind h with h | ⟨_, -, h⟩
          · exact resolveMlKem_text h
          · rcases error_of_bind h with h | ⟨_, -, h⟩
            · exact resolveCurve_text h
            · exact resolveLength_text h
      · cases h
        decide
    · cases h
      decide

end

theorem checkTimes_rejects {now : Nat} (h : checkTimes data now = .error e) :
    Rejects data [.invalidRequestData] e := by
  rcases error_of_bind h with h | ⟨_, -, h⟩
  · exact rejects_require (rejects_text (by decide)) h
  · split at h
    · cases h
    · rcases error_of_bind h with h | ⟨_, -, h⟩
      · exact rejects_require (rejects_text (by decide)) h
      · exact rejects_require (rejects_text (by decide)) h

theorem checkReturnPublicKey_rejects {spec : KeySpec}
    (h : checkReturnPublicKey data spec = .error e) : Rejects data [.invalidRequestData] e := by
  rcases error_of_bind h with h | ⟨_, -, h⟩
  · exact rejects_require (rejects_text (by decide)) h
  · exact rejects_require (rejects_text (by decide)) h

theorem generateKeySpec_rejects {user : VaultUser} (h : generateKeySpec user data = .error e) :
    Rejects data [.operationNotPermitted, .invalidRequestData] e := by
  rcases error_of_bind h with h | ⟨_, -, h⟩
  · exact rejects_require (rejects_ofCode (by decide)) h
  · rcases error_of_bind h with h | ⟨_, -, h⟩
    · exact (checkProps_rejects h).mono (by simp)
    · cases hresolve : resolveKeyGenParams data with
      | ok spec =>
        rw [hresolve] at h
        cases h
      | error message =>
        rw [hresolve] at h
        cases h
        exact (rejects_text (resolveKeyGenParams_text hresolve)).mono (by simp)

/-- The texts of a refused ACL. -/
def aclTexts : List String :=
  ["ACL must be an object", "ACL ops must be an array", "ACL user must be an UUID",
    "Duplicate ACL user", "Unknown ACL operation class", "ACL must include at least one owner"]

section

variable {message : String}

theorem validateOps_text {items : List Json} {seen : List OpClass}
    (h : validateOps items seen = .error message) : message ∈ aclTexts := by
  induction items generalizing seen with
  | nil => cases h
  | cons op rest ih =>
    simp only [validateOps] at h
    split at h
    · cases h
      decide
    · exact ih h

theorem validateEntries_text {props : Props} {normalized : AclMap} {owners : Nat}
    (h : validateEntries props normalized owners = .error message) : message ∈ aclTexts := by
  induction props generalizing normalized owners with
  | nil => cases h
  | cons e rest ih =>
    obtain ⟨user, ops⟩ := e
    simp only [validateEntries] at h
    split at h
    · cases h
      decide
    · split at h
      · cases h
        decide
      · split at h
        · split at h
          · rename_i e hops
            cases h
            exact validateOps_text hops
          · exact ih h
        · cases h
          decide

theorem validateAcl_text {acl : Json} (h : validateAcl acl = .error message) :
    message ∈ aclTexts := by
  unfold validateAcl at h
  split at h
  · split at h
    · rename_i e hentries
      cases h
      exact validateEntries_text hentries
    · split at h
      · cases h
        decide
      · cases h
  · cases h
    decide

theorem explicitAcl_text {self : String} {acl : Json} (h : explicitAcl self acl = .error message) :
    message ∈ aclTexts := by
  unfold explicitAcl at h
  split at h
  · rcases error_of_bind h with h | ⟨merged, -, h⟩
    · unfold mergeSelf at h
      dsimp only at h
      split at h
      · cases h
      · cases h
        decide
    · exact validateAcl_text h
  · cases h
    decide

end

theorem embeddedJwk_error {claims : Json} {kid : String} {e : Thrown}
    (h : KeyStore.embeddedJwk claims kid = .error e) : ∃ message, e = .error message := by
  unfold KeyStore.embeddedJwk at h
  split at h
  · rcases error_of_bind h with h | ⟨_, -, h⟩
    · exact ⟨_, require_error h⟩
    · rcases error_of_bind h with h | ⟨_, -, h⟩
      · exact ⟨_, require_error h⟩
      · cases h
  · cases h
    exact ⟨_, rfl⟩

end RequestChecks
