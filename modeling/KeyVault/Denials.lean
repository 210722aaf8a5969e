import KeyVault.Dispatch
import KeyVault.Fixtures
import KeyVault.HandlerRuns
import KeyVault.RequestChecks

/-!
# Denied access in the audit chain

A caller without the right to an existing key leaves two events. The handler
resolves the key from the request or from the token header; the dispatcher
rebuilds the audit fields from the request alone, and the two agree exactly when
the request names the key.
-/

namespace Denials

open JsValue Acl Errors Programs Vault KeyStore Handlers KeyOperations HandlerRuns RequestChecks
  Server Dispatch

variable {L : Libraries} {cfg : Config} {user : VaultUser} {env : Envelope}
  {i : Interleaving.ThreadId}

/-- A key operation whose target exists and is not granted to the caller, while
neither the load nor an append fails. -/
structure Refused (L : Libraries) (cfg : Config) (user : VaultUser) (env : Envelope) (s : Session)
    (op : Operation) (K : KeyOperation) (row : KeyRow) : Prop where
  request : env.request = op.request
  operation : keyOperation L cfg env.data op = some K
  target : K.target = .ok row.keyId
  stored : s.world.keys.find row.keyId = some row
  denied : granted user row.toVaultKey K.opClass = false
  appends : ∀ t ∈ s.turns.take 3, t.fails = none

/-- The two events of a refused access to a row. -/
def Attributed (user : VaultUser) (env : Envelope) (row : KeyRow) (before after : World) : Prop :=
  ∃ event denied, after.events = before.events ++ [event, denied] ∧
    event.type = "tr-key-vault:" ++ env.request ∧
    event.fields.lookup "outcome" = some (.num Err.keyNotFound.code) ∧
    denied.type = "tr-key-vault:denied" ∧
    denied.fields.lookup "userId" = some (.str user.userId) ∧
    denied.fields.lookup "op" = some (.str env.op) ∧
    denied.fields.lookup "kid" = some (.str row.keyId)

def denial : Outcome := (.error maskedDenial : Except Thrown HandlerResult).mapError caught

theorem requireKid_eq {v : Option Json} {kid : String} (h : requireKid v = .ok kid) :
    parseUuid v = some kid := by
  obtain ⟨s, rfl, hs, rfl⟩ := requireKid_ok h
  simp only [parseUuid, hs, if_true]

theorem resolveKid_eq {v : Json} {header : Json} {kid : String}
    (h : resolveKid (some v) header = .ok kid) : parseUuid (some v) = some kid := by
  obtain ⟨reqKid, hreq, h⟩ := ok_of_bind h
  obtain ⟨hdrKid, -, h⟩ := ok_of_bind h
  rcases requestKid_ok hreq with ⟨hnone, -⟩ | ⟨s, hs, huuid, rfl⟩
  · cases hnone
  · rw [hs]
    simp only [parseUuid, huuid, if_true]
    cases hdrKid with
    | none => cases h; rfl
    | some hk =>
      dsimp only at h
      split at h
      · cases h; rfl
      · cases h

theorem tokenTarget_eq {data : Json} {kid : String} {v : Json}
    (h : tokenTarget L data = .ok kid) (hv : data.get? "kid" = some v) :
    dataKid data = some kid := by
  obtain ⟨-, -, h⟩ := ok_of_bind h
  obtain ⟨⟨token, header⟩, -, h⟩ := ok_of_bind h
  rw [hv] at h
  rw [dataKid, hv]
  exact resolveKid_eq h

theorem kidOnly_eq {data : Json} {kid : String} (h : kidOnly data = .ok kid) :
    dataKid data = some kid := by
  obtain ⟨-, -, h⟩ := ok_of_bind h
  exact requireKid_eq h

/-- Whatever way the kid is resolved, a kid in the request is the one resolved. -/
theorem target_dataKid {data : Json} {op : Operation} {K : KeyOperation} {kid : String} {v : Json}
    (hK : keyOperation L cfg data op = some K) (ht : K.target = .ok kid)
    (hv : data.get? "kid" = some v) : dataKid data = some kid := by
  cases op with
  | publicKey => cases hK; exact kidOnly_eq ht
  | createJwt =>
    cases hK
    obtain ⟨-, -, ht⟩ := ok_of_bind ht
    obtain ⟨kid', hkid, ht⟩ := ok_of_bind ht
    obtain ⟨-, -, ht⟩ := ok_of_bind ht
    cases ht
    exact requireKid_eq hkid
  | verifyJwt => cases hK; exact tokenTarget_eq ht hv
  | createJwe =>
    cases hK
    obtain ⟨-, -, ht⟩ := ok_of_bind ht
    obtain ⟨kid', hkid, ht⟩ := ok_of_bind ht
    obtain ⟨-, -, ht⟩ := ok_of_bind ht
    obtain ⟨-, -, ht⟩ := ok_of_bind ht
    cases ht
    exact requireKid_eq hkid
  | decryptJwe => cases hK; exact tokenTarget_eq ht hv
  | revokeKey => cases hK; exact kidOnly_eq ht
  | exportKey =>
    cases hK
    obtain ⟨kid', hkid, ht⟩ := ok_of_bind ht
    obtain ⟨-, -, ht⟩ := ok_of_bind ht
    cases ht
    exact kidOnly_eq hkid
  | healthcheck => cases hK
  | generateKey => cases hK
  | listKeys => cases hK

section

variable {s : Session} {op : Operation} {K : KeyOperation} {row : KeyRow}

theorem Refused.handler_run (h : Refused L cfg user env s op K row) :
    (handler L cfg user env.data op).run (serve L i) s = (.error maskedDenial, s.pass) := by
  have hturn : (s.turns.headD {}).fails = none := by
    cases hs : s.turns with
    | nil => rfl
    | cons t rest => exact h.appends t (by simp [hs])
  rw [handler_access h.operation, access, h.target, Prog.liftM_eq, Prog.done_ok_bind]
  refine Prog.run_bind_error ?_
  rw [authorizedKey_run L i user row.keyId K.opClass hturn, h.stored]
  simp only [h.denied, Bool.false_eq_true, if_false]

theorem Refused.response (h : Refused L cfg user env s op K row) :
    ∃ s', (dispatch L cfg user env).run (serve L i) s = (.ok (answer env.op denial), s') ∧
      ∃ new, s'.world.events = s.world.events ++ new ∧
        unstamped new =
          (outcomeEvents user env denial).map (fun e => ("tr-key-vault:" ++ e.1, e.2)) := by
  have hfound : lookupHandler L cfg env.request =
      some (fun user data => handler L cfg user data op) := by
    rw [h.request, lookupHandler_request]
  have hop : op ≠ .healthcheck := by
    rintro rfl
    cases h.operation
  have haudited : auditedOps.contains env.request = true := by
    rw [h.request, auditedOps_request]
    exact hop
  have hturns : ∀ t ∈ s.pass.turns.take 2, t.fails = none := by
    intro t ht
    refine h.appends t ?_
    cases hs : s.turns with
    | nil => simp [Session.pass, hs] at ht
    | cons t' rest =>
      simp only [Session.pass, hs, List.tail_cons] at ht
      simp only [List.take_succ_cons, List.mem_cons]
      exact Or.inr ht
  obtain ⟨s', hs'⟩ := appendEvents_succeeds L i user env denial hturns
  refine ⟨s', ?_, appendEvents_ok (s := s.pass) hs'⟩
  rw [dispatch_run hfound s]
  simp only [h.handler_run, afterwards, haudited, if_true]
  rw [show Except.mapError caught (.error maskedDenial) = denial from rfl, hs']

theorem eventFields_denial : (eventFields user env denial).lookup "outcome" =
    some (.num Err.keyNotFound.code) := lookup_setProp_self _ _ _

theorem deniedFields_lookup (user : VaultUser) (env : Envelope) :
    (deniedFields user env).lookup "userId" = some (.str user.userId) ∧
    (deniedFields user env).lookup "op" = some (.str env.op) ∧
    (deniedFields user env).lookup "kid" = (dataKid env.data).map .str := by
  cases h : dataKid env.data <;> simp [deniedFields, literal, h, List.lookup]

theorem Refused.run (h : Refused L cfg user env s op K row) :
    ∃ s' event denied, (dispatch L cfg user env).run (serve L i) s =
        (.ok (answer env.op denial), s') ∧
      s'.world.events = s.world.events ++ [event, denied] ∧
      event.type = "tr-key-vault:" ++ env.request ∧ event.fields = eventFields user env denial ∧
      denied.type = "tr-key-vault:denied" ∧ denied.fields = deniedFields user env := by
  obtain ⟨s', hrun, new, hnew, hmap⟩ := h.response (i := i)
  obtain ⟨event, rest, rfl, hevent, hrest⟩ := List.map_eq_cons_iff.mp hmap
  obtain ⟨denied, rest, rfl, hdenied, hrest⟩ := List.map_eq_cons_iff.mp hrest
  cases List.map_eq_nil_iff.mp hrest
  obtain ⟨htype, hfields⟩ := Prod.mk.inj hevent
  obtain ⟨htype', hfields'⟩ := Prod.mk.inj hdenied
  exact ⟨s', event, denied, hrun, hnew, htype, hfields, htype', hfields'⟩

/-- A kid that came from the token header alone is missing in the denied event. -/
theorem Refused.unattributed (h : Refused L cfg user env s op K row)
    (hdata : env.data.get? "kid" = none) :
    ¬ ∃ r s', (dispatch L cfg user env).run (serve L i) s = (.ok r, s') ∧
      Attributed user env row s.world s'.world := by
  rintro ⟨r, s'', hrun', event', denied', hnew', -, -, -, -, -, hkid'⟩
  obtain ⟨s', event, denied, hrun, hnew, -, -, -, hfields⟩ := h.run (i := i)
  rw [hrun] at hrun'
  cases hrun'
  rw [hnew] at hnew'
  obtain ⟨-, hsecond⟩ := List.cons_eq_cons.mp (List.append_cancel_left hnew')
  obtain ⟨rfl, -⟩ := List.cons_eq_cons.mp hsecond
  rw [hfields, (deniedFields_lookup _ _).2.2] at hkid'
  simp [dataKid, hdata, parseUuid] at hkid'

theorem Refused.attributed (h : Refused L cfg user env s op K row) {v : Json}
    (hdata : env.data.get? "kid" = some v) :
    ∃ r s', (dispatch L cfg user env).run (serve L i) s = (.ok r, s') ∧
      Attributed user env row s.world s'.world := by
  obtain ⟨s', event, denied, hrun, hnew, htype, hfields, htype', hfields'⟩ := h.run (i := i)
  obtain ⟨huser, hop, hkid⟩ := deniedFields_lookup user env
  refine ⟨_, s', hrun, event, denied, hnew, htype, ?_, htype', ?_, ?_, ?_⟩
  · rw [hfields]; exact eventFields_denial
  · rw [hfields']; exact huser
  · rw [hfields']; exact hop
  · rw [hfields', hkid, target_dataKid h.operation h.target hdata]
    rfl

/-- The denied event names the row exactly when the request itself carries a kid. -/
theorem attributed_iff (L : Libraries) (cfg : Config) (user : VaultUser) (env : Envelope)
    (i : Interleaving.ThreadId) (s : Session) (op : Operation) (K : KeyOperation) (row : KeyRow)
    (h : Refused L cfg user env s op K row) :
    (∃ r s', (dispatch L cfg user env).run (serve L i) s = (.ok r, s') ∧
      Attributed user env row s.world s'.world) ↔ (env.data.get? "kid").isSome := by
  cases hdata : env.data.get? "kid" with
  | none => exact ⟨fun hattr => absurd hattr (h.unattributed hdata), fun hkid => by cases hkid⟩
  | some v => exact ⟨fun _ => rfl, fun _ => h.attributed hdata⟩

end

/-- The base64url of a header with `alg` HS256 and the id of Bob's key as `kid`. -/
def bobsHeader : String :=
  "eyJhbGciOiJIUzI1NiIsImtpZCI6ImMwMDAwMDAwLTAwMDAtNDAwMC04MDAwLTAwMDAwMDAwMDAwMSJ9"

def bobsToken : String :=
  bobsHeader ++ ".eyJzdWIiOiJhbGljZSJ9.dBjftJeZ4CVP-mB92K27uhbUJU1p1r_wW1gFWFOEjXk"

theorem bobsToken_header : firstSegment bobsToken = bobsHeader := by decide +kernel

/-- Libraries that read the header of this token. -/
def naming : Libraries :=
  { Fixtures.bare with
    parseSegment := fun segment =>
      if segment = bobsHeader then
        some (.obj [("alg", .str "HS256"), ("kid", .str Fixtures.keyId1)])
      else none }

theorem bobsToken_decoded : decodeProtectedHeader naming (some (.str bobsToken)) =
    .ok (bobsToken, .obj [("alg", .str "HS256"), ("kid", .str Fixtures.keyId1)]) := by
  have hne : bobsToken ≠ "" := by decide +kernel
  simp only [decodeProtectedHeader, hne, if_false, bobsToken_header, naming, if_true]

def verifyEnvelope (data : Props) : Envelope where
  user := Fixtures.aliceId
  op := Fixtures.opId
  request := "verify-jwt"
  data := .obj data
  named := by decide
  plain := Eq.refl true

def byHeader : Envelope := verifyEnvelope [("token", .str bobsToken)]

def byKid : Envelope := verifyEnvelope [("token", .str bobsToken), ("kid", .str Fixtures.keyId1)]

theorem byHeader_target : tokenTarget naming byHeader.data = .ok Fixtures.keyId1 := by
  have htoken : byHeader.data.get? "token" = some (.str bobsToken) := rfl
  simp only [tokenTarget, htoken, bobsToken_decoded]
  rfl

theorem byKid_target : tokenTarget naming byKid.data = .ok Fixtures.keyId1 := by
  have htoken : byKid.data.get? "token" = some (.str bobsToken) := rfl
  simp only [tokenTarget, htoken, bobsToken_decoded]
  rfl

theorem byHeader_refused : Refused naming Fixtures.config Fixtures.alice byHeader
    (quiet (Fixtures.holding Fixtures.bobsKey)) .verifyJwt (verifyJwtOp naming byHeader.data)
    Fixtures.bobsKey where
  request := rfl
  operation := rfl
  target := byHeader_target
  stored := Fixtures.holding_find _
  denied := by decide
  appends := fun _ h => by simp [quiet] at h

/-- Alice is refused Bob's key, and the denied event does not say which key it was. -/
theorem header_kid_unattributed :
    Refused naming Fixtures.config Fixtures.alice byHeader
      (quiet (Fixtures.holding Fixtures.bobsKey)) .verifyJwt (verifyJwtOp naming byHeader.data)
      Fixtures.bobsKey ∧
    ¬ ∃ r s', (dispatch naming Fixtures.config Fixtures.alice byHeader).run (serve naming 0)
        (quiet (Fixtures.holding Fixtures.bobsKey)) = (.ok r, s') ∧
      Attributed Fixtures.alice byHeader Fixtures.bobsKey (Fixtures.holding Fixtures.bobsKey)
        s'.world :=
  ⟨byHeader_refused, byHeader_refused.unattributed rfl⟩

theorem attributed_byKid :
    (∃ r s', (dispatch naming Fixtures.config Fixtures.alice byKid).run (serve naming 0)
        (quiet (Fixtures.holding Fixtures.bobsKey)) = (.ok r, s') ∧
      Attributed Fixtures.alice byKid Fixtures.bobsKey (Fixtures.holding Fixtures.bobsKey)
        s'.world) ↔ (byKid.data.get? "kid").isSome :=
  attributed_iff naming Fixtures.config Fixtures.alice byKid 0
    (quiet (Fixtures.holding Fixtures.bobsKey)) .verifyJwt (verifyJwtOp naming byKid.data)
    Fixtures.bobsKey
    { request := rfl
      operation := rfl
      target := byKid_target
      stored := Fixtures.holding_find _
      denied := by decide
      appends := fun _ h => by simp [quiet] at h }

end Denials
