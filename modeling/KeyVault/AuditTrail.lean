import KeyVault.Fixtures
import KeyVault.JsObjects
import KeyVault.Processes

/-!
# The audit trail of interleaved requests

What a finished request has appended, read off its own calls: one event with its
outcome if an authenticated caller asked for an audited operation, then a denied
event if a row was refused, and nothing otherwise.
-/

namespace AuditTrail

open JsValue Acl Errors Programs Interleaving Vault KeyStore Handlers CallEffects HandlerCalls
  KeyOperations ServerAuth Server Dispatch Processes

variable {L : Libraries} {cfg : Config} {req : HttpRequest} {user : VaultUser} {env : Envelope}
  {data : Json} {i : ThreadId} {es : List (Entry Ans World)}

def Unmasked (e : Thrown) : Prop := (caught e).maskedDenial = false

/-- No error that the program can throw is marked as a denial. -/
def Plain {α : Type} (p : Api α) : Prop := p.Ends (fun r => ∀ e, r = .error e → Unmasked e)

theorem unmasked_apiError (errorCode : Err) (message : String) :
    Unmasked (.apiError errorCode message) := rfl

theorem unmasked_error (message : String) : Unmasked (.error message) := rfl

theorem unmasked_ofCode (errorCode : Err) : Unmasked (.ofCode errorCode) := rfl

theorem Plain.bind {α β : Type} {p : Api α} {f : α → Api β} (hp : Plain p)
    (hf : ∀ a, Plain (f a)) : Plain (p >>= f) := by
  refine Prog.Ends.bind hp (fun a _ => hf a) fun e he e' heq => ?_
  cases heq
  exact he e rfl

theorem plain_pure {α : Type} (a : α) : Plain (pure a : Api α) := by
  rintro e ⟨⟩

theorem plain_error {α : Type} {e : Thrown} (h : Unmasked e) :
    Plain (.done (.error e) : Api α) := by
  rintro e' ⟨⟩
  exact h

theorem plain_ask {α : Type} {c : Call} {f : Ans c → Api α} (hf : ∀ a, Plain (f a)) :
    Plain (ask c >>= f) := hf

theorem plain_lift {α : Type} {r : Except Thrown α} (h : ∀ e, r = .error e → Unmasked e) :
    Plain (liftM r : Api α) := h

theorem plain_orThrow {α : Type} (r : Except String α) : Plain (liftM (orThrow r) : Api α) := by
  cases r with
  | ok a => exact plain_pure a
  | error message => exact plain_error rfl

theorem plain_require (condition : Bool) {e : Thrown} (h : Unmasked e) :
    Plain (liftM (require condition e) : Api Unit) := by
  cases condition with
  | true => exact plain_pure ()
  | false => exact plain_error h

theorem plain_checkProps (data : Json) (allowed : List String) :
    Plain (liftM (checkProps data allowed) : Api Unit) := by
  refine plain_lift fun e he => ?_
  unfold checkProps at he
  split at he
  · split at he <;> cases he
    exact unmasked_apiError _ _
  · cases he
    exact unmasked_ofCode _

theorem plain_requireKid (kid : Option Json) : Plain (liftM (requireKid kid) : Api String) := by
  refine plain_lift fun e he => ?_
  unfold requireKid at he
  split at he
  · split at he <;> cases he
    exact unmasked_apiError _ _
  · cases he
    exact unmasked_apiError _ _

theorem plain_decode (token : Option Json) :
    Plain (liftM (decodeProtectedHeader L token) : Api (String × Json)) := by
  refine plain_lift fun e he => ?_
  unfold decodeProtectedHeader at he
  split at he
  · split at he
    · cases he
      exact unmasked_ofCode _
    · split at he <;> cases he
      exact unmasked_ofCode _
  · cases he
    exact unmasked_ofCode _

theorem plain_resolveKid (kid : Option Json) (header : Json) :
    Plain (liftM (resolveKid kid header) : Api String) := by
  have hrequest : Plain (liftM (requestKid kid) : Api (Option String)) := by
    unfold requestKid
    split
    · have hkid := plain_requireKid kid
      cases hr : requireKid kid with
      | ok k => exact plain_pure _
      | error e =>
        rw [hr] at hkid
        exact plain_error (hkid e rfl)
    · exact plain_pure _
  have hheader : Plain (liftM (headerKid header) : Api (Option String)) := by
    refine plain_lift fun e he => ?_
    unfold headerKid at he
    split at he
    · cases he
    · split at he <;> cases he
      exact unmasked_ofCode _
    · cases he
      exact unmasked_ofCode _
  unfold resolveKid
  rw [Prog.liftM_bind]
  refine hrequest.bind fun r => ?_
  rw [Prog.liftM_bind]
  refine hheader.bind fun h => ?_
  cases r with
  | none =>
    cases h with
    | none => exact plain_error (unmasked_ofCode _)
    | some h => exact plain_pure h
  | some r =>
    cases h with
    | none => exact plain_pure r
    | some h =>
      dsimp only
      split
      · exact plain_pure r
      · exact plain_error (unmasked_ofCode _)

theorem plain_extract (m : KekManager) (embeddingKeyId embeddedKey kid : String) :
    Plain (extract m embeddingKeyId embeddedKey kid) := by
  unfold extract
  split
  · exact plain_error rfl
  · refine plain_ask fun r => (plain_orThrow r).bind fun claims => ?_
    unfold embeddedJwk
    split
    · simp only [Prog.liftM_bind]
      exact (plain_require _ (unmasked_error _)).bind fun _ =>
        (plain_require _ (unmasked_error _)).bind fun _ => plain_pure _
    · exact plain_error rfl

theorem plain_unwrapKey (row : VaultKey) : Plain (unwrapKey L cfg row) := by
  have hunwrap : Plain (unwrap L cfg row) := by
    unfold unwrap
    split
    · exact plain_extract _ _ _ _
    · refine plain_ask fun r => ?_
      obtain ⟨now, cached⟩ := r
      cases cached with
      | some jwk => exact plain_pure jwk
      | none =>
        exact (plain_extract _ _ _ _).bind fun jwk => plain_ask fun _ => plain_pure jwk
  refine Prog.Ends.tryCatch hunwrap ?_ ?_
  · rintro jwk - e ⟨⟩
  · intro e he
    split
    · exact plain_error (unmasked_ofCode _)
    · exact plain_error (he _ rfl)

theorem plain_keyHalf (row : VaultKey) (half : KeyHalf) : Plain (keyHalf L cfg row half) := by
  cases half with
  | stored => exact plain_pure _
  | secret => exact plain_unwrapKey row
  | publicOrSecret =>
    simp only [keyHalf, publicHalf]
    split
    · exact plain_unwrapKey row
    · exact plain_pure _

theorem plain_kidOnly (data : Json) : Plain (liftM (kidOnly data) : Api String) := by
  rw [kidOnly, Prog.liftM_bind]
  exact (plain_checkProps data _).bind fun _ => plain_requireKid _

theorem plain_tokenTarget (data : Json) : Plain (liftM (tokenTarget L data) : Api String) := by
  rw [tokenTarget, Prog.liftM_bind]
  refine (plain_checkProps data _).bind fun _ => ?_
  rw [Prog.liftM_bind]
  exact (plain_decode _).bind fun t => plain_resolveKid _ _

theorem plain_target {op : Operation} {K : KeyOperation} (h : keyOperation L cfg data op = some K) :
    Plain (liftM K.target : Api String) := by
  cases op with
  | publicKey => cases h; exact plain_kidOnly data
  | verifyJwt => cases h; exact plain_tokenTarget data
  | decryptJwe => cases h; exact plain_tokenTarget data
  | revokeKey => cases h; exact plain_kidOnly data
  | exportKey =>
    cases h
    simp only [exportKeyOp, Prog.liftM_bind, Prog.liftM_pure]
    exact (plain_kidOnly data).bind fun kid =>
      (plain_require _ (unmasked_ofCode _)).bind fun _ => plain_pure kid
  | createJwt =>
    cases h
    simp only [createJwtOp, Prog.liftM_bind, Prog.liftM_pure]
    exact (plain_checkProps data _).bind fun _ => (plain_requireKid _).bind fun kid =>
      (plain_require _ (unmasked_apiError _ _)).bind fun _ => plain_pure kid
  | createJwe =>
    cases h
    simp only [createJweOp, Prog.liftM_bind, Prog.liftM_pure]
    exact (plain_checkProps data _).bind fun _ => (plain_requireKid _).bind fun kid =>
      (plain_require _ (unmasked_apiError _ _)).bind fun _ =>
        (plain_require _ (unmasked_apiError _ _)).bind fun _ => plain_pure kid
  | healthcheck => cases h
  | generateKey => cases h
  | listKeys => cases h

theorem plain_fitsAlgs (algs : List String) (row : VaultKey) :
    Plain (liftM (fitsAlgs algs row) : Api Unit) := plain_require _ (unmasked_ofCode _)

theorem plain_fits {op : Operation} {K : KeyOperation} (h : keyOperation L cfg data op = some K)
    (row : VaultKey) : Plain (liftM (K.fits row) : Api Unit) := by
  cases op with
  | publicKey => cases h; exact plain_require _ (unmasked_ofCode _)
  | createJwt => cases h; exact plain_fitsAlgs _ row
  | createJwe => cases h; exact plain_fitsAlgs _ row
  | verifyJwt =>
    cases h
    simp only [verifyJwtOp, fitsToken, Prog.liftM_bind]
    exact (plain_fitsAlgs _ row).bind fun _ => plain_require _ (unmasked_ofCode _)
  | decryptJwe =>
    cases h
    simp only [decryptJweOp, fitsToken, Prog.liftM_bind]
    exact (plain_fitsAlgs _ row).bind fun _ => plain_require _ (unmasked_ofCode _)
  | revokeKey => cases h; exact plain_pure ()
  | exportKey => cases h; exact plain_pure ()
  | healthcheck => cases h
  | generateKey => cases h
  | listKeys => cases h

theorem plain_finish {op : Operation} {K : KeyOperation} (h : keyOperation L cfg data op = some K)
    (kid : String) (row : VaultKey) (jwk : Json) : Plain (K.finish kid row jwk) := by
  cases op with
  | publicKey => cases h; exact plain_pure _
  | exportKey => cases h; exact plain_pure _
  | createJwt =>
    cases h
    refine plain_ask fun r => plain_lift fun e he => ?_
    unfold signed at he
    split at he
    · cases he
    · split at he <;> cases he
      · exact unmasked_apiError _ _
      · rfl
  | verifyJwt =>
    cases h
    refine plain_ask fun r => plain_lift fun e he => ?_
    cases r with
    | ok payload => cases he
    | error message =>
      cases he
      unfold verificationError
      split
      · exact unmasked_apiError _ _
      · exact unmasked_ofCode _
  | createJwe =>
    cases h
    exact plain_ask fun r => (plain_orThrow r).bind fun token => plain_pure _
  | decryptJwe =>
    cases h
    refine plain_ask fun r => plain_lift fun e he => ?_
    cases r with
    | ok payload => cases he
    | error message => cases he; exact unmasked_ofCode _
  | revokeKey =>
    cases h
    refine Plain.bind ?_ fun revoked =>
      (plain_require _ (unmasked_ofCode _)).bind fun _ => plain_pure _
    exact plain_ask fun r => (plain_orThrow r).bind fun deleted => plain_ask fun _ => plain_pure _
  | healthcheck => cases h
  | generateKey => cases h
  | listKeys => cases h

theorem plain_healthcheck : Plain (healthcheck data) :=
  (plain_checkProps data _).bind fun _ => plain_ask fun _ => plain_pure _

theorem plain_listKeys : Plain (Handlers.listKeys user data) := by
  refine (plain_checkProps data _).bind fun _ => ?_
  refine (plain_require _ (unmasked_ofCode _)).bind fun _ => Plain.bind ?_ fun _ => plain_pure _
  exact plain_ask fun r => (plain_orThrow r).bind fun rows => plain_ask fun now => plain_pure _

theorem plain_generateKeySpec :
    Plain (liftM (generateKeySpec user data) : Api KeyGen.KeySpec) := by
  simp only [generateKeySpec, Prog.liftM_bind]
  refine (plain_require _ (unmasked_ofCode _)).bind fun _ => ?_
  refine (plain_checkProps data _).bind fun _ => plain_lift fun e he => ?_
  cases hresolve : KeyGen.resolveKeyGenParams data with
  | ok spec => rw [hresolve] at he; cases he
  | error message =>
    rw [hresolve] at he
    cases he
    exact unmasked_apiError _ _

theorem plain_checkTimes (now : Nat) : Plain (liftM (checkTimes data now) : Api Unit) := by
  simp only [checkTimes, Prog.liftM_bind]
  refine (plain_require _ (unmasked_apiError _ _)).bind fun _ => ?_
  split
  · exact plain_pure ()
  · rw [Prog.liftM_bind]
    exact (plain_require _ (unmasked_apiError _ _)).bind fun _ =>
      plain_require _ (unmasked_apiError _ _)

theorem plain_resolveAcl : Plain (resolveAcl user data) := by
  unfold resolveAcl
  dsimp only
  split
  · split
    · exact plain_error (unmasked_apiError _ _)
    · refine plain_ask fun r => (plain_orThrow r).bind fun missing => ?_
      split
      · exact plain_error (unmasked_apiError _ _)
      · exact plain_pure _
  · refine Plain.bind ?_ fun coOwners => ?_
    · unfold existingCoOwners
      split
      · exact plain_ask fun r => (plain_orThrow r).bind fun missing => plain_pure _
      · exact plain_pure _
    · split
      · exact plain_error rfl
      · exact plain_pure _

theorem plain_generateKey : Plain (generateKey cfg user data) := by
  refine plain_generateKeySpec.bind fun spec => plain_ask fun now => ?_
  refine (plain_checkTimes _).bind fun _ => Plain.bind ?_ fun _ =>
    plain_resolveAcl.bind fun acl => ?_
  · simp only [checkReturnPublicKey, Prog.liftM_bind]
    exact (plain_require _ (unmasked_apiError _ _)).bind fun _ =>
      plain_require _ (unmasked_apiError _ _)
  · refine Plain.bind (plain_ask fun r => (plain_orThrow r).bind fun generated => ?_) fun _ =>
      plain_pure _
    refine plain_ask fun now' => Plain.bind ?_ fun embedded => ?_
    · exact plain_ask fun r => (plain_orThrow r).bind fun token => plain_pure _
    · exact plain_ask fun r => (plain_orThrow r).bind fun _ => plain_pure _

/-- The fields do not replace those of the dispatcher. -/
def Modest (result : HandlerResult) : Prop :=
  ∀ audit, result.audit = some audit → "userId" ∉ keys audit ∧ "op" ∉ keys audit

def Reports (p : Api HandlerResult) : Prop :=
  p.Ends (fun r => ∀ result, r = .ok result → Modest result)

theorem Reports.bind {α : Type} {p : Api α} {f : α → Api HandlerResult}
    (hf : ∀ a, Reports (f a)) : Reports (p >>= f) := by
  have htrue : ∀ q : Api α, q.Ends (fun _ => True) := by
    intro q
    induction q with
    | done r => trivial
    | call c next ih => exact ih
  refine Prog.Ends.bind (htrue p) (fun a _ => hf a) ?_
  rintro e - result ⟨⟩

theorem reports_ask {c : Call} {f : Ans c → Api HandlerResult} (hf : ∀ a, Reports (f a)) :
    Reports (ask c >>= f) := hf

theorem reports_lift {r : Except Thrown HandlerResult}
    (h : ∀ result, r = .ok result → Modest result) :
    Reports (liftM r) := h

theorem reports_pure {result : HandlerResult} (h : Modest result) : Reports (pure result) := by
  rintro _ ⟨⟩
  exact h

theorem modest_auditKid (data : Option Json) (kid : String) : Modest ⟨data, auditKid kid⟩ := by
  rintro _ ⟨⟩
  exact ⟨by simp [keys], by simp [keys]⟩

theorem reports_finish {op : Operation} {K : KeyOperation} (h : keyOperation L cfg data op = some K)
    (kid : String) (row : VaultKey) (jwk : Json) : Reports (K.finish kid row jwk) := by
  have hopened : ∀ header refusal r, Reports (liftM (opened kid header refusal r)) := by
    intro header refusal r
    refine reports_lift fun result hresult => ?_
    cases r with
    | ok payload => cases hresult; exact modest_auditKid _ kid
    | error message => cases hresult
  cases op with
  | publicKey => cases h; exact reports_pure (modest_auditKid _ kid)
  | exportKey => cases h; exact reports_pure (modest_auditKid _ kid)
  | createJwt =>
    cases h
    refine reports_ask fun r => reports_lift fun result hresult => ?_
    unfold signed at hresult
    split at hresult
    · cases hresult
      exact modest_auditKid _ kid
    · split at hresult <;> cases hresult
  | verifyJwt => cases h; exact reports_ask fun r => hopened _ _ r
  | decryptJwe => cases h; exact reports_ask fun r => hopened _ _ r
  | createJwe =>
    cases h
    exact reports_ask fun r => Reports.bind fun token => reports_pure (modest_auditKid _ kid)
  | revokeKey =>
    cases h
    exact Reports.bind fun revoked => Reports.bind fun _ => reports_pure (modest_auditKid _ kid)
  | healthcheck => cases h
  | generateKey => cases h
  | listKeys => cases h

theorem handler_reports (op : Operation) : Reports (handler L cfg user data op) := by
  cases hK : keyOperation L cfg data op with
  | some K =>
    rw [handler_access hK]
    exact Reports.bind fun kid => Reports.bind fun row => Reports.bind fun _ =>
      Reports.bind fun jwk => reports_finish hK kid row jwk
  | none =>
    cases op with
    | healthcheck =>
      refine Reports.bind fun _ => reports_ask fun _ => reports_pure ?_
      rintro _ ⟨⟩
    | listKeys =>
      refine Reports.bind fun _ => Reports.bind fun _ => Reports.bind fun rows => reports_pure ?_
      rintro _ ⟨⟩
      exact ⟨by simp [keys], by simp [keys]⟩
    | generateKey =>
      refine Reports.bind fun spec => reports_ask fun now => Reports.bind fun _ =>
        Reports.bind fun _ => Reports.bind fun acl => Reports.bind fun generated => reports_pure ?_
      rintro _ ⟨⟩
      exact ⟨fun hmem => by simpa using mem_keys_literal hmem,
        fun hmem => by simpa using mem_keys_literal hmem⟩
    | _ => cases hK

/-- A row that the request has loaded is not granted to the caller. -/
def Denied (user : VaultUser) (op : Operation) (i : ThreadId)
    (es : List (Entry Ans World)) : Prop :=
  ∃ opClass kid row before after, requiredClass op = some opClass ∧
    ⟨i, .keyById kid, .ok (some row), before, after⟩ ∈ es ∧ granted user row opClass = false

def noLoad (c : Call) : Prop := ∀ kid, c ≠ .keyById kid

theorem noLoad_of_aside (c : Call) (h : aside c) : noLoad c := by
  rintro kid rfl
  cases h.1

theorem onRow_calls {op : Operation} {K : KeyOperation} (h : keyOperation L cfg data op = some K)
    (kid : String) (row : VaultKey) : (onRow L cfg K kid row).Calls noLoad := by
  refine calls_lift fun _ => ((keyHalf_calls row K.half).mono noLoad_of_aside).bind fun jwk => ?_
  by_cases hop : op = .revokeKey
  · subst hop
    cases h
    refine Prog.Calls.bind ?_ fun revoked => calls_lift fun _ => trivial
    refine calls_ask (by rintro kid ⟨⟩) fun r => calls_lift fun deleted => ?_
    exact calls_ask (by rintro kid ⟨⟩) fun _ => trivial
  · exact (finish_aside h hop kid row jwk).mono noLoad_of_aside

theorem onRow_plain {op : Operation} {K : KeyOperation} (h : keyOperation L cfg data op = some K)
    (kid : String) (row : VaultKey) : Plain (onRow L cfg K kid row) :=
  (plain_fits h row).bind fun _ => (plain_keyHalf row K.half).bind fun jwk =>
    plain_finish h kid row jwk

theorem authorizedKey_makes {kid : String} {opClass : OpClass} {q : Except Thrown VaultKey}
    (h : Makes i (authorizedKey user kid opClass) es (.done q)) :
    (q = .error maskedDenial ∧ ∃ row before after,
      es = [⟨i, .keyById kid, .ok (some row), before, after⟩] ∧ granted user row opClass = false) ∨
    ((∀ e, q = .error e → Unmasked e) ∧ ∀ kid' row before after,
      ⟨i, .keyById kid', .ok (some row), before, after⟩ ∈ es →
        granted user row opClass = true) := by
  obtain ⟨answer, before, after, rest, rfl, hrest⟩ := makes_call h
  cases answer with
  | error message =>
    obtain ⟨rfl, hq⟩ := makes_done hrest
    cases hq
    refine Or.inr ⟨?_, ?_⟩
    · rintro e ⟨⟩
      exact unmasked_error message
    · intro kid' row before' after' hmem
      cases List.mem_singleton.mp hmem
  | ok found =>
    cases found with
    | none =>
      obtain ⟨rfl, hq⟩ := makes_done hrest
      cases hq
      refine Or.inr ⟨?_, ?_⟩
      · rintro e ⟨⟩
        exact unmasked_ofCode _
      · intro kid' row before' after' hmem
        cases List.mem_singleton.mp hmem
    | some row =>
      replace hrest : Makes i (if granted user row opClass then do
          let now ← ask .dateNow
          if inWindow row now then return row else throw (.ofCode .keyNotFound)
        else throw maskedDenial) rest (.done q) := hrest
      by_cases hgranted : granted user row opClass = true
      · rw [if_pos hgranted] at hrest
        obtain ⟨now, before', after', last, rfl, hwindow⟩ := makes_call hrest
        replace hwindow : Makes i (if inWindow row now then return row
          else throw (.ofCode .keyNotFound)) last (.done q) := hwindow
        have hlast : last = [] ∧ ∀ e, q = .error e → Unmasked e := by
          split at hwindow
          · obtain ⟨hempty, hq⟩ := makes_done hwindow
            cases hq
            refine ⟨hempty, ?_⟩
            rintro e ⟨⟩
          · obtain ⟨hempty, hq⟩ := makes_done hwindow
            cases hq
            refine ⟨hempty, ?_⟩
            rintro e ⟨⟩
            exact unmasked_ofCode _
        obtain ⟨rfl, hq⟩ := hlast
        refine Or.inr ⟨hq, ?_⟩
        intro kid' row' before'' after'' hmem
        rcases List.mem_cons.mp hmem with heq | hmem
        · cases heq
          exact hgranted
        · cases List.mem_singleton.mp hmem
      · rw [if_neg hgranted] at hrest
        obtain ⟨rfl, hq⟩ := makes_done hrest
        cases hq
        exact Or.inl ⟨rfl, row, before, after, rfl, by simpa using hgranted⟩

/-- A handler ends in a denial exactly if it has loaded a row that is not granted. -/
theorem handler_masked {op : Operation} {q : Except Thrown HandlerResult}
    (h : Makes i (handler L cfg user data op) es (.done q)) :
    isMaskedDenial (q.mapError caught) = true ↔ Denied user op i es := by
  have hplain : (∀ e, q = .error e → Unmasked e) → isMaskedDenial (q.mapError caught) = false := by
    intro hq
    cases q with
    | ok result => rfl
    | error e => exact hq e rfl
  cases hK : keyOperation L cfg data op with
  | none =>
    have hclass : requiredClass op = none := by
      cases op <;> first | rfl | cases hK
    have hq : Plain (handler L cfg user data op) := by
      cases op with
      | healthcheck => exact plain_healthcheck
      | listKeys => exact plain_listKeys
      | generateKey => exact plain_generateKey
      | _ => cases hK
    rw [hplain (h.ends hq)]
    constructor
    · rintro ⟨⟩
    · rintro ⟨opClass, _, _, _, _, hclass', -⟩
      rw [hclass] at hclass'
      cases hclass'
  | some K =>
    have hclass := keyOperation_class hK
    rw [handler_access hK] at h
    obtain ⟨first, rest, rfl, ⟨kid, hfirst, hrest⟩ | ⟨e, hfirst, rfl, rfl⟩⟩ := h.bind
    · obtain ⟨rfl, -⟩ := makes_done hfirst
      rw [List.nil_append]
      obtain ⟨load, rest, rfl, ⟨row, hload, hrest⟩ | ⟨e, hload, rfl, rfl⟩⟩ := hrest.bind
      · rcases authorizedKey_makes hload with ⟨hq, -⟩ | ⟨-, hgranted⟩
        · cases hq
        · rw [hplain (hrest.ends (onRow_plain hK kid row))]
          constructor
          · rintro ⟨⟩
          · rintro ⟨opClass, kid', row', before, after, hclass', hmem, hnot⟩
            rw [hclass] at hclass'
            cases hclass'
            rcases List.mem_append.mp hmem with hmem | hmem
            · rw [hgranted _ _ _ _ hmem] at hnot
              cases hnot
            · exact absurd rfl (hrest.calls (onRow_calls hK kid row) _ hmem kid' : _ ≠ _)
      · rw [List.append_nil]
        rcases authorizedKey_makes hload with ⟨hq, row, before, after, rfl, hnot⟩ | ⟨hq, hgranted⟩
        · cases hq
          exact ⟨fun _ => ⟨_, kid, row, before, after, hclass, List.mem_singleton_self _, hnot⟩,
            fun _ => rfl⟩
        · rw [hplain (by rintro e' ⟨⟩; exact hq e rfl)]
          constructor
          · rintro ⟨⟩
          · rintro ⟨opClass, kid', row', before, after, hclass', hmem, hnot⟩
            rw [hclass] at hclass'
            cases hclass'
            rw [hgranted _ _ _ _ hmem] at hnot
            cases hnot
    · obtain ⟨rfl, -⟩ := makes_done hfirst
      have hunmasked := hfirst.ends (plain_target hK)
      rw [hplain (by rintro e' ⟨⟩; exact hunmasked e rfl)]
      constructor
      · rintro ⟨⟩
      · rintro ⟨_, _, _, _, _, -, hmem, -⟩
        cases hmem

/-- The event that an entry has appended, apart from its time. -/
def eventOf (e : Entry Ans World) : Option (String × Props) :=
  match e.call with
  | .recordEvent type fields => some (type, fields)
  | _ => none

def appended (es : List (Entry Ans World)) : List (String × Props) := es.filterMap eventOf

/-- No audit append has failed. -/
def AppendsSucceed (es : List (Entry Ans World)) : Prop :=
  ∀ i type fields message before after,
    ⟨i, .recordEvent type fields, .error message, before, after⟩ ∉ es

theorem appended_append (first rest : List (Entry Ans World)) :
    appended (first ++ rest) = appended first ++ appended rest := List.filterMap_append

theorem appended_none (h : ∀ e ∈ es, appends e.call = false) : appended es = [] := by
  refine List.filterMap_eq_nil_iff.mpr fun e he => ?_
  have hcall := h e he
  obtain ⟨thread, call, answer, before, after⟩ := e
  cases call <;> first | rfl | cases hcall

theorem AppendsSucceed.subset {es' : List (Entry Ans World)} (h : AppendsSucceed es)
    (hsub : es' ⊆ es) : AppendsSucceed es' :=
  fun i type fields message before after hmem => h i type fields message before after (hsub hmem)

theorem perform_event {type : String} {fields : Props} {t : Turn} {before after : World}
    (h : perform L i t (.recordEvent type fields) before = (.ok (), after)) :
    unstamped after.events =
      unstamped before.events ++ [("tr-key-vault:" ++ type, fields)] := by
  have hperform := perform_answered (congrArg Prod.fst h) (by rintro message ⟨⟩)
  have hafter : (effect L i (.recordEvent type fields) (before.tick t.elapsed)).2 = after :=
    congrArg Prod.snd (hperform.symm.trans h)
  rw [← hafter]
  simp [effect, unstamped, World.tick]

theorem entry_events {e : Entry Ans World} {t : Turn}
    (h : perform L e.thread t e.call e.before = (e.answer, e.after))
    (hno : AppendsSucceed [e]) : unstamped e.after.events =
      unstamped e.before.events ++
        ((eventOf e).map (fun e => ("tr-key-vault:" ++ e.1, e.2))).toList := by
  obtain ⟨i, c, answer, before, after⟩ := e
  dsimp only at h ⊢
  by_cases hc : appends c = true
  · cases c with
    | recordEvent type fields =>
      cases answer with
      | ok u => exact perform_event h
      | error message =>
        exact absurd (List.mem_singleton_self _) (hno i type fields message before after)
    | _ => cases hc
  · have hfalse : appends c = false := by simpa using hc
    have hevents := perform_events (L := L) (i := i) hfalse t before
    have hnone : eventOf ⟨i, c, answer, before, after⟩ = none := by
      cases c <;> first | rfl | cases hfalse
    rw [h] at hevents
    dsimp only at hevents
    rw [hnone, hevents]
    simp

/-- While appends succeed, the log grows by exactly the recorded events. -/
theorem linked_events {w w' : World} {trace : List (Entry Ans World)}
    (h : Linked (perform L) w trace w') (hno : AppendsSucceed trace) :
    unstamped w'.events = unstamped w.events ++
      (appended trace).map (fun e => ("tr-key-vault:" ++ e.1, e.2)) := by
  induction trace generalizing w with
  | nil =>
    cases h
    simp [appended]
  | cons e rest ih =>
    obtain ⟨rfl, ⟨t, hstep⟩, hrest⟩ := h
    have hentry := entry_events hstep (hno.subset (by simp))
    rw [ih hrest (hno.subset (List.subset_cons_self _ _)), hentry]
    cases hevent : eventOf e <;> simp [appended, hevent]

theorem appendEvents_makes {outcome : Outcome} {r : Except Thrown Unit}
    (hno : AppendsSucceed es) (h : Makes i (appendEvents user env outcome) es (.done r)) :
    r = .ok () ∧ appended es = outcomeEvents user env outcome ∧ ∀ e ∈ es, noLoad e.call := by
  have hok : ∀ {type : String} {fields : Props} {answer : Except String Unit}
      {before after : World},
      (⟨i, .recordEvent type fields, answer, before, after⟩ : Entry Ans World) ∈ es →
        answer = .ok () := by
    intro type fields answer before after hmem
    cases answer with
    | ok u => rfl
    | error message => exact absurd hmem (hno i type fields message before after)
  obtain ⟨answer, before, after, rest, rfl, hrest⟩ := makes_call h
  cases hok List.mem_cons_self
  replace hrest : Makes i (if isMaskedDenial outcome then do
      orThrow (← ask (.recordEvent "denied" (deniedFields user env)))
    else return ()) rest (.done r) := hrest
  by_cases hmasked : isMaskedDenial outcome = true
  · rw [if_pos hmasked] at hrest
    obtain ⟨answer', before', after', last, rfl, hlast⟩ := makes_call hrest
    cases hok (List.mem_cons_of_mem _ List.mem_cons_self)
    obtain ⟨rfl, hr⟩ := makes_done hlast
    cases hr
    refine ⟨rfl, by simp [appended, eventOf, outcomeEvents, hmasked], ?_⟩
    simp only [List.forall_mem_cons]
    exact ⟨by rintro kid ⟨⟩, by rintro kid ⟨⟩, by rintro e ⟨⟩⟩
  · rw [if_neg hmasked] at hrest
    obtain ⟨rfl, hr⟩ := makes_done hrest
    cases hr
    refine ⟨rfl, by simp [appended, eventOf, outcomeEvents, hmasked], ?_⟩
    simp only [List.forall_mem_cons]
    exact ⟨by rintro kid ⟨⟩, by rintro e ⟨⟩⟩

/-- The envelope of a request that passes validation. -/
def envelopeOf (req : HttpRequest) : Option Envelope :=
  if req.pathname = some "/api/v1" ∧ req.method = "POST" ∧
      isJsonContentType (req.contentType.getD "") then
    match req.body with
    | .text (some envelope) => (parseEnvelope envelope).toOption
    | _ => none
  else none

theorem handleRequest_envelope (h : envelopeOf req = some env) :
    handleRequest L cfg req = handleEnvelope L cfg req env := by
  unfold envelopeOf at h
  split at h
  · rename_i hroute
    obtain ⟨hpath, hmethod, htype⟩ := hroute
    split at h
    · rename_i envelope hbody
      cases hparse : parseEnvelope envelope with
      | error response => rw [hparse] at h; cases h
      | ok env' =>
        rw [hparse] at h
        cases h
        simp only [handleRequest, hpath, hmethod, if_true, handleApi, htype, hbody, hparse]
    · cases h
  · cases h

theorem handleRequest_other {G : Call → Prop} (h : envelopeOf req = none) (hG : G .ping) :
    (handleRequest L cfg req).Calls G := by
  have hping : ∀ f : Ans .ping → Api Response, (∀ r, (f r).Calls G) →
      (ask .ping >>= f).Calls G := fun f hf => calls_ask hG hf
  unfold handleRequest
  split
  · trivial
  · rename_i pathname hpath
    split
    · rename_i hapi
      split
      · rename_i hmethod
        unfold handleApi
        split
        · rename_i htype
          split
          · trivial
          · trivial
          · trivial
          · rename_i envelope hbody
            split
            · trivial
            · rename_i env hparse
              simp [envelopeOf, hpath, hapi, hmethod, htype, hbody, hparse, Except.toOption] at h
        · trivial
      · trivial
    · split
      · split <;> trivial
      · split
        · split
          · refine hping _ fun r => ?_
            split <;> trivial
          · trivial
        · trivial

/-- What the client was told, as the outcome field of an event. -/
def reported (r : Response) : Json := r.errorCode.getD (.str "ok")

theorem reported_answer (op : String) (outcome : Outcome) :
    reported (answer op outcome) = outcomeJson outcome := by
  cases outcome with
  | ok result =>
    cases h : result.data <;>
      simp [reported, answer, Response.errorCode, okBody, literal, h, List.lookup, outcomeJson]
  | error f =>
    simp [reported, answer, Response.errorCode, errorBody, literal, List.lookup, outcomeJson]

theorem lookup_objectAssign {target source : Props} {name : String} (h : name ∉ keys source) :
    (objectAssign target source).lookup name = target.lookup name := by
  induction source generalizing target with
  | nil => rfl
  | cons e rest ih =>
    have hne : name ≠ e.1 := fun heq => h (heq ▸ List.mem_cons_self)
    have hrest : name ∉ keys rest := fun hmem => h (List.mem_cons_of_mem _ hmem)
    have hstep : objectAssign target (e :: rest) =
        objectAssign (if e.1 == "__proto__" then target else setProp target e.1 e.2) rest := rfl
    rw [hstep, ih hrest]
    split
    · rfl
    · exact lookup_setProp_ne _ hne

theorem eventFields_lookup {outcome : Outcome}
    (h : ∀ result, outcome = .ok result → Modest result) :
    (eventFields user env outcome).lookup "userId" = some (.str user.userId) ∧
    (eventFields user env outcome).lookup "op" = some (.str env.op) := by
  have hkid : ∀ name, name ≠ "kid" → ((dataKid env.data).elim
      [("userId", Json.str user.userId), ("op", .str env.op)]
      (fun kid => setProp [("userId", .str user.userId), ("op", .str env.op)] "kid"
        (.str kid))).lookup
        name = List.lookup name [("userId", Json.str user.userId), ("op", .str env.op)] := by
    intro name hne
    cases dataKid env.data with
    | none => rfl
    | some kid =>
      simp only [Option.elim_some]
      rw [lookup_setProp_ne _ hne]
  unfold eventFields
  dsimp only
  rw [lookup_setProp_ne _ (by decide), lookup_setProp_ne _ (by decide)]
  cases outcome with
  | error f => exact ⟨hkid _ (by decide), hkid _ (by decide)⟩
  | ok result =>
    obtain ⟨data, audit⟩ := result
    cases audit with
    | none => exact ⟨hkid _ (by decide), hkid _ (by decide)⟩
    | some audit =>
      obtain ⟨huser, hop⟩ := h _ rfl audit rfl
      dsimp only
      rw [lookup_objectAssign huser, lookup_objectAssign hop]
      exact ⟨rfl, rfl⟩

/-- One event of this type with the user, the op and what the client was told, and after
it a denied event exactly if a row was refused. -/
def Audited (user : VaultUser) (env : Envelope) (op : Operation) (i : ThreadId)
    (es : List (Entry Ans World)) (r : Response) : Prop :=
  ∃ fields rest, appended es = (env.request, fields) :: rest ∧
    fields.lookup "userId" = some (.str user.userId) ∧ fields.lookup "op" = some (.str env.op) ∧
    fields.lookup "outcome" = some (reported r) ∧
    (Denied user op i es → rest = [("denied", deniedFields user env)]) ∧
    (¬ Denied user op i es → rest = [])

/-- Where the appends succeed, an audited request answers what its handler has come to. -/
theorem dispatch_makes {op : Operation} (hop : env.request = op.request) (hne : op ≠ .healthcheck)
    {r : Except Thrown Response} (hno : AppendsSucceed es)
    (h : Makes i (dispatch L cfg user env) es (.done r)) :
    ∃ called logged q, es = called ++ logged ∧
      Makes i (handler L cfg user env.data op) called (.done q) ∧
      Makes i (appendEvents user env (q.mapError caught)) logged (.done (.ok ())) ∧
      r = .ok (answer env.op (q.mapError caught)) := by
  have haudited : auditedOps.contains env.request = true := by
    rw [hop, auditedOps_request]
    exact hne
  have hfound : lookupHandler L cfg env.request =
      some (fun user data => handler L cfg user data op) := by
    rw [hop, lookupHandler_request]
  simp only [dispatch, hfound] at h
  obtain ⟨called, rest, rfl, ⟨q, hcalled, hrest⟩ | ⟨e, hcalled, -⟩⟩ := h.bind
  · obtain ⟨q', hq, hhandler⟩ := hcalled.attempt
    cases hq
    simp only [haudited, if_true] at hrest
    obtain ⟨logged, last, rfl, ⟨q', hlogged, hlast⟩ | ⟨e, hlogged, -⟩⟩ := hrest.bind
    · obtain ⟨q'', hq', hevents⟩ := hlogged.attempt
      cases hq'
      have hno' : AppendsSucceed logged := hno.subset (by
        intro e he
        exact List.mem_append_right _ (List.mem_append_left _ he))
      obtain ⟨rfl, -⟩ := appendEvents_makes hno' hevents
      obtain ⟨rfl, hr⟩ := makes_done hlast
      cases hr
      exact ⟨called, logged, q, by simp, hhandler, hevents, rfl⟩
    · obtain ⟨_, ⟨⟩, -⟩ := hlogged.attempt
  · obtain ⟨_, ⟨⟩, -⟩ := hcalled.attempt

theorem dispatch_audited {op : Operation} (hop : env.request = op.request)
    (hne : op ≠ .healthcheck) {r : Except Thrown Response} (hno : AppendsSucceed es)
    (h : Makes i (dispatch L cfg user env) es (.done r)) :
    ∃ response, r = .ok response ∧ Audited user env op i es response := by
  obtain ⟨called, logged, q, rfl, hhandler, hevents, rfl⟩ := dispatch_makes hop hne hno h
  have hno' : AppendsSucceed logged := hno.subset (List.subset_append_right _ _)
  obtain ⟨-, hlog, hloads⟩ := appendEvents_makes hno' hevents
  have hquiet : appended called = [] := appended_none fun e he =>
    permitted_events (hhandler.calls (handler_calls op) e he)
  have hmodest : ∀ result, q.mapError caught = .ok result → Modest result := by
    intro result hresult
    cases q with
    | ok result' =>
      cases hresult
      exact hhandler.ends (handler_reports op) _ rfl
    | error e => cases hresult
  have hdenied : Denied user op i called ↔ Denied user op i (called ++ logged) := by
    constructor
    · rintro ⟨opClass, kid, row, before, after, hclass, hmem, hnot⟩
      exact ⟨opClass, kid, row, before, after, hclass, List.mem_append_left _ hmem, hnot⟩
    · rintro ⟨opClass, kid, row, before, after, hclass, hmem, hnot⟩
      rcases List.mem_append.mp hmem with hmem | hmem
      · exact ⟨opClass, kid, row, before, after, hclass, hmem, hnot⟩
      · exact absurd rfl (hloads _ hmem kid : _ ≠ _)
  have hmasked := (handler_masked hhandler).trans hdenied
  obtain ⟨huser, hopField⟩ := eventFields_lookup hmodest
  refine ⟨_, rfl, eventFields user env (q.mapError caught),
    if isMaskedDenial (q.mapError caught) then [("denied", deniedFields user env)] else [],
    ?_, huser, hopField, ?_, ?_, ?_⟩
  · rw [appended_append, hquiet, hlog]
    rfl
  · rw [eventFields_outcome, reported_answer]
  · intro hden
    rw [if_pos (hmasked.mpr hden)]
  · intro hden
    rw [if_neg fun hmask => hden (hmasked.mp hmask)]

theorem dispatch_unaudited
    (hother : ∀ op : Operation, env.request = op.request → op = .healthcheck) :
    (dispatch L cfg user env).Calls aside := by
  have hunaudited : auditedOps.contains env.request = false := by
    cases hop : Operation.ofRequest env.request with
    | some op =>
      have hrequest := Operation.ofRequest_eq_some hop
      cases hother op hrequest.symm
      rw [← hrequest]
      decide
    | none =>
      refine auditedOps_foreign fun op heq => ?_
      rw [heq, Operation.ofRequest_request] at hop
      cases hop
  unfold dispatch lookupHandler
  simp only [hunaudited, Bool.false_eq_true, if_false]
  cases hop : Operation.ofRequest env.request with
  | some op =>
    cases hother op (Operation.ofRequest_eq_some hop).symm
    exact healthcheck_calls.attempt.bind fun r => trivial
  | none =>
    dsimp only
    by_cases hproto : objectPrototype.contains env.request = true
    · simp only [hproto, if_true]
      exact (Prog.Calls.attempt (Prog.calls_done _)).bind fun r => trivial
    · simp only [hproto]
      trivial

/-- The request passes validation and authentication, and names an audited operation. -/
structure Admitted (L : Libraries) (cfg : Config) (req : HttpRequest) (i : ThreadId)
    (es : List (Entry Ans World)) (user : VaultUser) (env : Envelope) (op : Operation) : Prop where
  envelope : envelopeOf req = some env
  request : env.request = op.request
  audited : op ≠ .healthcheck
  authenticated : ∃ first rest, es = first ++ rest ∧
    Makes i (authenticate L cfg req env.user) first (.done (.ok (some user)))

theorem Audited.after {op : Operation} {first rest : List (Entry Ans World)} {response : Response}
    (h : Audited user env op i rest response)
    (hfirst : ∀ e ∈ first, appends e.call = false ∧ noLoad e.call) :
    Audited user env op i (first ++ rest) response := by
  obtain ⟨fields, more, hevents, huser, hop, houtcome, hden, hnot⟩ := h
  have hdenied : Denied user op i (first ++ rest) ↔ Denied user op i rest := by
    constructor
    · rintro ⟨opClass, kid, row, before, after, hclass, hmem, hrow⟩
      rcases List.mem_append.mp hmem with hmem | hmem
      · exact absurd rfl ((hfirst _ hmem).2 kid : _ ≠ _)
      · exact ⟨opClass, kid, row, before, after, hclass, hmem, hrow⟩
    · rintro ⟨opClass, kid, row, before, after, hclass, hmem, hrow⟩
      exact ⟨opClass, kid, row, before, after, hclass, List.mem_append_right _ hmem, hrow⟩
  refine ⟨fields, more, ?_, huser, hop, houtcome, ?_, ?_⟩
  · rw [appended_append, appended_none fun e he => (hfirst e he).1, hevents]
    rfl
  · rw [hdenied]
    exact hden
  · rw [hdenied]
    exact hnot

/-- What holds of a finished request, by its own calls. -/
def Accounted (L : Libraries) (cfg : Config) (req : HttpRequest) (i : ThreadId)
    (es : List (Entry Ans World)) (response : Response) : Prop :=
  (∀ user env op, Admitted L cfg req i es user env op → Audited user env op i es response) ∧
    ((¬ ∃ user env op, Admitted L cfg req i es user env op) → ∀ e ∈ es, reads e.call)

theorem accounted_unadmitted {response : Response} (hreads : ∀ e ∈ es, reads e.call)
    (hnot : ∀ user env op, ¬ Admitted L cfg req i es user env op) :
    Accounted L cfg req i es response :=
  ⟨fun user env op h => absurd h (hnot user env op), fun _ => hreads⟩

theorem handleEnvelope_accounted {env : Envelope} (henv : envelopeOf req = some env)
    {q : Except Thrown Response} (hno : AppendsSucceed es)
    (h : Makes i (handleEnvelope L cfg req env) es (.done q)) :
    (∃ response, q = .ok response ∧ Accounted L cfg req i es response) ∨
    ((∃ e, q = .error e) ∧ ∀ response, Accounted L cfg req i es response) := by
  obtain ⟨auth, rest, rfl, ⟨found, hauth, hrest⟩ | ⟨e, hauth, rfl, rfl⟩⟩ := h.bind
  · have hreads : ∀ e ∈ auth, reads e.call :=
      hauth.calls (authenticate_calls (fun _ => ⟨rfl, rfl, rfl⟩) ⟨rfl, rfl, rfl⟩ req env.user)
    have hloads : ∀ e ∈ auth, noLoad e.call :=
      hauth.calls (authenticate_calls (by rintro hash kid ⟨⟩) (by rintro kid ⟨⟩) req env.user)
    -- the calls of the authentication come to the one user
    have hcaller : ∀ {user env' op}, Admitted L cfg req i (auth ++ rest) user env' op →
        env' = env ∧ found = some user := by
      intro user env' op hadmitted
      have heq := Option.some.inj (hadmitted.envelope.symm.trans henv)
      subst heq
      obtain ⟨first, more, hsplit, hfirst⟩ := hadmitted.authenticated
      obtain ⟨-, hsame⟩ := hauth.unique hfirst hsplit
      exact ⟨rfl, Except.ok.inj hsame⟩
    cases found with
    | none =>
      obtain ⟨rfl, hq⟩ := makes_done hrest
      cases hq
      refine Or.inl ⟨_, rfl, accounted_unadmitted (by simpa using hreads) ?_⟩
      intro user env' op hadmitted
      cases (hcaller hadmitted).2
    | some user =>
      have hrest : Makes i (dispatch L cfg user env) rest (.done q) := hrest
      have hno' : AppendsSucceed rest := hno.subset (List.subset_append_right _ _)
      by_cases hop : ∃ op : Operation, env.request = op.request ∧ op ≠ .healthcheck
      · obtain ⟨op, hop, hne⟩ := hop
        obtain ⟨response, rfl, haudited⟩ := dispatch_audited hop hne hno' hrest
        refine Or.inl
          ⟨response, rfl, ?_, fun hnot =>
            absurd ⟨user, env, op, henv, hop, hne, auth, rest, rfl, hauth⟩ hnot⟩
        intro user' env' op' hadmitted
        obtain ⟨rfl, huser⟩ := hcaller hadmitted
        cases huser
        have heq := Operation.request_injective (hadmitted.request.symm.trans hop)
        subst heq
        exact haudited.after fun e he => ⟨(hreads e he).2.2, hloads e he⟩
      · have hother : ∀ op : Operation, env.request = op.request → op = .healthcheck := by
          intro op heq
          by_contra hne
          exact hop ⟨op, heq, hne⟩
        have hcalls := hrest.calls ((dispatch_unaudited hother).mono reads_of_aside)
        have hunadmitted : ∀ user' env' op',
            ¬ Admitted L cfg req i (auth ++ rest) user' env' op' := by
          intro user' env' op' hadmitted
          obtain ⟨rfl, -⟩ := hcaller hadmitted
          exact hadmitted.audited (hother op' hadmitted.request)
        have hall : ∀ e ∈ auth ++ rest, reads e.call := by
          intro e he
          rcases List.mem_append.mp he with he | he
          · exact hreads e he
          · exact hcalls e he
        cases q with
        | ok response => exact Or.inl ⟨response, rfl, accounted_unadmitted hall hunadmitted⟩
        | error e => exact Or.inr ⟨⟨e, rfl⟩, fun response => accounted_unadmitted hall hunadmitted⟩
  · have hreads : ∀ e ∈ auth, reads e.call :=
      hauth.calls (authenticate_calls (fun _ => ⟨rfl, rfl, rfl⟩) ⟨rfl, rfl, rfl⟩ req env.user)
    refine Or.inr ⟨⟨e, rfl⟩, fun response => accounted_unadmitted (by simpa using hreads) ?_⟩
    intro user env' op hadmitted
    have heq := Option.some.inj (hadmitted.envelope.symm.trans henv)
    subst heq
    obtain ⟨first, more, hsplit, hfirst⟩ := hadmitted.authenticated
    obtain ⟨-, hsame⟩ := hauth.unique hfirst hsplit
    cases hsame

/-- A finished request is answered, and its own calls account for its events. -/
theorem serve_accounted {r : Except Thrown Response} (hno : AppendsSucceed es)
    (h : Makes i (serveRequest L cfg req) es (.done r)) :
    ∃ response, r = .ok response ∧ Accounted L cfg req i es response := by
  have hsplit : ∃ q, Makes i (handleRequest L cfg req) es (.done q) ∧
      ((∃ response, q = .ok response ∧ r = .ok response) ∨
        ((∃ e, q = .error e) ∧ r = .ok (internalError none))) := by
    obtain ⟨first, rest, rfl, ⟨a, hfirst, rfl, rfl⟩ | ⟨e, hfirst, hrest⟩⟩ := h.tryCatch
    · exact ⟨_, by simpa using hfirst, Or.inl ⟨a, rfl, rfl⟩⟩
    · obtain ⟨rfl, hr⟩ := makes_done hrest
      cases hr
      exact ⟨_, by simpa using hfirst, Or.inr ⟨⟨e, rfl⟩, rfl⟩⟩
  obtain ⟨q, hhandle, hr⟩ := hsplit
  have hresponse : ∃ response, r = .ok response := by
    rcases hr with ⟨response, -, rfl⟩ | ⟨-, rfl⟩
    · exact ⟨_, rfl⟩
    · exact ⟨_, rfl⟩
  cases henv : envelopeOf req with
  | none =>
    obtain ⟨response, rfl⟩ := hresponse
    refine ⟨response, rfl, accounted_unadmitted (hhandle.calls
      (handleRequest_other henv ⟨rfl, rfl, rfl⟩)) ?_⟩
    intro user env op hadmitted
    rw [hadmitted.envelope] at henv
    cases henv
  | some env =>
    rw [handleRequest_envelope henv] at hhandle
    rcases handleEnvelope_accounted henv hno hhandle with ⟨response, rfl, haccounted⟩ |
      ⟨⟨e, rfl⟩, hall⟩
    · rcases hr with ⟨response', heq, rfl⟩ | ⟨⟨e, heq⟩, -⟩
      · cases heq
        exact ⟨response, rfl, haccounted⟩
      · cases heq
    · obtain ⟨response, rfl⟩ := hresponse
      exact ⟨response, rfl, hall response⟩

/-- The log is what the requests have appended, in order, and every finished request has
appended exactly what it accounts for; a request that is not admitted has appended
nothing and left every row as it found it. -/
theorem audit_trail (L : Libraries) (processes : ThreadId → Process) (w : World)
    (schedule : Schedule Turn)
    (hno : AppendsSucceed (runs L processes w schedule).state.trace) :
    unstamped (runs L processes w schedule).state.now.events = unstamped w.events ++
      (appended (runs L processes w schedule).state.trace).map
        (fun e => ("tr-key-vault:" ++ e.1, e.2)) ∧
    ∀ i cfg req r, processes i = .request cfg req →
      (runs L processes w schedule).threads i = .done r →
      ∃ response, r = .ok (some response) ∧
        (∀ user env op,
          Admitted L cfg req i (own i (runs L processes w schedule).state.trace) user env op →
          Audited user env op i (own i (runs L processes w schedule).state.trace) response) ∧
        ((¬ ∃ user env op,
            Admitted L cfg req i (own i (runs L processes w schedule).state.trace) user env op) →
          appended (own i (runs L processes w schedule).state.trace) = [] ∧
          ∀ e ∈ own i (runs L processes w schedule).state.trace,
            e.after.keys = e.before.keys ∧ e.after.users = e.before.users) := by
  obtain ⟨hlinked, hmakes⟩ := runs_makes L processes w schedule
  refine ⟨linked_events hlinked hno, ?_⟩
  intro i cfg req r hi hdone
  have hmade := hmakes i
  rw [hi, hdone] at hmade
  have hno' : AppendsSucceed (own i (runs L processes w schedule).state.trace) :=
    hno.subset List.filter_sublist.subset
  have hrows : ∀ e ∈ own i (runs L processes w schedule).state.trace, reads e.call →
      e.after.keys = e.before.keys ∧ e.after.users = e.before.users := by
    intro e he hreads
    obtain ⟨t, ht⟩ := hlinked.mem (List.mem_filter.mp he).1
    have hkeys := perform_keys (L := L) (i := e.thread) hreads.1 t e.before
    have husers := perform_users (L := L) (i := e.thread) hreads.2.1 t e.before
    rw [ht] at hkeys husers
    exact ⟨hkeys, husers⟩
  generalize own i (runs L processes w schedule).state.trace = es at hmade hno' hrows ⊢
  obtain ⟨first, rest, rfl, ⟨response, hfirst, hrest⟩ | ⟨e, hfirst, -⟩⟩ := hmade.bind
  · obtain ⟨rfl, hr⟩ := makes_done hrest
    cases hr
    rw [List.append_nil] at hno' hrows ⊢
    obtain ⟨_, ⟨⟩, haudited, hreads⟩ := serve_accounted hno' hfirst
    refine ⟨response, rfl, haudited, fun hnot => ⟨?_, fun e he => ?_⟩⟩
    · exact appended_none fun e he => (hreads hnot e he).2.2
    · exact hrows e he (hreads hnot e he)
  · have hno'' : AppendsSucceed first := hno'.subset (List.subset_append_left _ _)
    obtain ⟨_, ⟨⟩, -⟩ := serve_accounted hno'' hfirst

/-- Where no call fails, no append does. -/
theorem appendsSucceed_smooth {schedule : Schedule Turn} (h : ∀ x ∈ schedule, x.2.fails = none)
    {α : Type} {W : Pool Ans Thrown α (Recorded Ans World)} (hW : AppendsSucceed W.state.trace) :
    AppendsSucceed (Pool.exec (record (perform L)) schedule W).state.trace := by
  induction schedule generalizing W with
  | nil => exact hW
  | cons x rest ih =>
    obtain ⟨j, t⟩ := x
    obtain ⟨ht, hrest⟩ := List.forall_mem_cons.mp h
    rw [Pool.exec_cons]
    apply ih hrest
    cases hj : W.threads j with
    | done r =>
      rw [Pool.step_done hj]
      exact hW
    | call c next =>
      rw [Pool.step_call hj]
      intro i type fields message before after hmem
      rcases List.mem_append.mp hmem with hmem | hmem
      · exact hW i type fields message before after hmem
      · have heq := List.mem_singleton.mp hmem
        rw [perform_succeeds ht] at heq
        cases c <;> cases heq

/-- Alice lists her keys; the digest of the fixture is the identity. -/
def listing : HttpRequest where
  method := "POST"
  pathname := some "/api/v1"
  contentType := some "application/json"
  authorization := some ("Bearer " ++ Fixtures.keyId1)
  xForwardedFor := none
  remoteAddress := some "127.0.0.1"
  body := .text (some (.obj [("user", .str Fixtures.aliceId), ("op", .str Fixtures.opId),
    ("request", .str "list-keys"), ("data", .obj [])]))

def listingWorld : World :=
  { fresh 0 with
    users := Tables.Table.empty.insert ⟨Fixtures.aliceId, some Fixtures.keyId1,
      .obj [("allowedIP", .arr [.str "127.0.0.1"])]⟩ }

def lister : VaultUser :=
  ⟨Fixtures.aliceId, some Fixtures.keyId1, .obj [("allowedIP", .arr [.str "127.0.0.1"])]⟩

def listingEnvelope : Envelope where
  user := Fixtures.aliceId
  op := Fixtures.opId
  request := "list-keys"
  data := .obj []
  named := by decide
  plain := Eq.refl true

/-- The run of the listing alone. -/
def listed : Pool Ans Thrown (Option Response) (Recorded Ans World) :=
  runs Fixtures.bare (fun _ => .request Fixtures.config listing) listingWorld
    (List.replicate 5 (0, {}))

theorem listing_admitted : Admitted Fixtures.bare Fixtures.config listing 0
    (own 0 listed.state.trace) lister listingEnvelope .listKeys where
  envelope := rfl
  request := rfl
  audited := by decide
  authenticated := ⟨(own 0 listed.state.trace).take 2, (own 0 listed.state.trace).drop 2,
    (List.take_append_drop 2 _).symm, rfl, _, rfl, rfl, _, rfl, rfl⟩

/-- The log gains what the run appends, and the listing is accounted for. -/
theorem audit_trail_listing :
    unstamped listed.state.now.events = unstamped listingWorld.events ++
      (appended listed.state.trace).map (fun e => ("tr-key-vault:" ++ e.1, e.2)) ∧
    ∃ response, listed.threads 0 = .done (.ok (some response)) ∧
      Audited lister listingEnvelope .listKeys 0 (own 0 listed.state.trace) response := by
  obtain ⟨hlog, hrequests⟩ := audit_trail Fixtures.bare
    (fun _ => .request Fixtures.config listing) listingWorld (List.replicate 5 (0, {}))
    (appendsSucceed_smooth (by simp) (by rintro i type fields message before after ⟨⟩))
  have hdone : ∃ r, listed.threads 0 = .done r := ⟨_, rfl⟩
  obtain ⟨r, hr⟩ := hdone
  obtain ⟨response, rfl, haudited, -⟩ := hrequests 0 Fixtures.config listing r rfl hr
  exact ⟨hlog, response, hr, haudited lister listingEnvelope .listKeys listing_admitted⟩

end AuditTrail
