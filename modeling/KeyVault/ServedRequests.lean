import KeyVault.AuditTrail
import KeyVault.Freshness
import KeyVault.Processes

/-!
# What a finished request has gone through

A valid envelope that is answered with HTTP status 200 was authenticated: its token was
looked up, and the user that was found is the claimed one and may use the account now.
-/

namespace ServedRequests

open JsValue Errors Programs Interleaving Vault KeyStore Handlers ServerAuth Server IpMatch
  AuditTrail Freshness Processes

variable {L : Libraries} {cfg : Config} {req : HttpRequest} {env : Envelope} {user : VaultUser}
  {trace : List (Entry Ans World)} {i : ThreadId}

/-- The request was authenticated as the user and then dispatched. -/
structure Serves (L : Libraries) (cfg : Config) (req : HttpRequest) (env : Envelope)
    (user : VaultUser) (trace : List (Entry Ans World)) (i : ThreadId) (r : Response) : Prop where
  authenticated : Plays trace i (authenticate L cfg req env.user) (.ok (some user))
  dispatched : Plays trace i (dispatch L cfg user env) (.ok r)

/-- The checks on a bearer token have passed. -/
structure Authenticated (L : Libraries) (cfg : Config) (req : HttpRequest) (env : Envelope)
    (user : VaultUser) (trace : List (Entry Ans World)) (i : ThreadId) (token : String) : Prop where
  bearer : bearer (req.authorization.getD "") = some token
  uuid : isUuid token = true
  found : Made trace i (.userByTokenHash (tokenHash L token)) (.ok (some user))
  stored : user.authToken = some (tokenHash L token)
  claimed : env.user = toLowerCase user.userId
  admitted : ∃ now, Made trace i .dateNow now ∧
    admitted user (deriveClientIp req.remoteAddress req.xForwardedFor cfg.trustedProxyHops)
      (now / 1000) = true

theorem authenticate_plays (h : Plays trace i (authenticate L cfg req env.user) (.ok (some user))) :
    ∃ token, Authenticated L cfg req env user trace i token := by
  simp only [authenticate] at h
  cases hbearer : bearer (req.authorization.getD "") with
  | none =>
    rw [hbearer] at h
    cases h
  | some token =>
    rw [hbearer] at h
    dsimp only at h
    split at h
    · cases h
    · rename_i huuid
      obtain ⟨answer, hmade, h⟩ := plays_ask h
      obtain ⟨found, hfound, h⟩ := plays_lift h
      cases found with
      | none => cases h
      | some user' =>
        dsimp only at h
        split at h
        · rename_i hstored
          obtain ⟨now, hnow, h⟩ := plays_ask h
          have hresult := Except.ok.inj h
          split at hresult
          · rename_i hadmitted
            cases hresult
            refine ⟨token, hbearer, by simpa using huuid, ?_, hstored.1, hstored.2, now,
              hnow, hadmitted⟩
            rwa [orThrow_eq_ok.mp hfound] at hmade
          · cases hresult
        · cases h

/-- The answer to every caller who is not authenticated. -/
def unauthorized (env : Envelope) : Response :=
  ⟨403, errorBody .unauthorized none (some env.op), false⟩

theorem handleEnvelope_plays {r : Response}
    (h : Plays trace i (handleEnvelope L cfg req env) (.ok r)) :
    (∃ user, Serves L cfg req env user trace i r) ∨ r = unauthorized env := by
  obtain ⟨caller, hcaller, h⟩ := h.bind_ok
  cases caller with
  | none => exact Or.inr (Except.ok.inj h).symm
  | some user => exact Or.inl ⟨user, hcaller, h⟩

/-- A valid envelope is served, or refused, or its user could not be looked up. -/
theorem serveRequest_plays {r : Response} (h : Plays trace i (serveRequest L cfg req) (.ok r))
    (henv : envelopeOf req = some env) :
    (∃ user, Serves L cfg req env user trace i r) ∨ r = unauthorized env ∨
      r = internalError none := by
  rcases h.tryCatch_ok with h | ⟨e, h⟩
  · rw [handleRequest_envelope henv] at h
    exact (handleEnvelope_plays h).imp_right Or.inl
  · exact Or.inr (Or.inr (Except.ok.inj h).symm)

variable {processes : ThreadId → Process} {w : World} {schedule : Schedule Turn}

theorem request_plays (hprocess : processes i = .request cfg req) {r : Response}
    (hdone : (runs L processes w schedule).threads i = .done (.ok (some r))) :
    Plays (runs L processes w schedule).state.trace i (serveRequest L cfg req) (.ok r) := by
  have hplays := exec_plays (perform L) schedule ⟨fun j => (processes j).program L, ⟨w, []⟩⟩ hdone
  simp only [hprocess, Process.program] at hplays
  obtain ⟨r', hserve, hresponse⟩ := hplays.bind_ok
  cases hresponse
  exact hserve

theorem runs_served (hprocess : processes i = .request cfg req) {r : Response}
    (hdone : (runs L processes w schedule).threads i = .done (.ok (some r)))
    (henv : envelopeOf req = some env) :
    (∃ user, Serves L cfg req env user (runs L processes w schedule).state.trace i r) ∨
      r = unauthorized env ∨ r = internalError none :=
  serveRequest_plays (request_plays hprocess hdone) henv

/-- The answers that only an authenticated caller gets. -/
def Answered (r : Response) : Prop := r.httpStatus = 200 ∨ r.isOk

theorem not_answered (env : Envelope) {r : Response}
    (h : r = unauthorized env ∨ r = internalError none) : ¬ Answered r := by
  rintro (hstatus | hok)
  · rcases h with rfl | rfl <;> cases hstatus
  · rcases h with rfl | rfl <;>
      simp [unauthorized, internalError, Response.isOk, errorBody, literal] at hok

theorem runs_serves (hprocess : processes i = .request cfg req) {r : Response}
    (hdone : (runs L processes w schedule).threads i = .done (.ok (some r)))
    (henv : envelopeOf req = some env) (hr : Answered r) :
    ∃ user, Serves L cfg req env user (runs L processes w schedule).state.trace i r := by
  rcases runs_served hprocess hdone henv with hserves | hrefused
  · exact hserves
  · exact absurd hr (not_answered env hrefused)

end ServedRequests
