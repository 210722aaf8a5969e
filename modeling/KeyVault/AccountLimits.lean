import KeyVault.Credentials
import KeyVault.Ownership

/-!
# Limits of an account

The user data hold the validity window of the account, the addresses it may be used from
and the mask that caps what any ACL grants. A request obeys the data that its lookup has
found, and a limit that was written binds every request that starts later.
-/

namespace AccountLimits

open JsValue Acl Errors Programs Interleaving Vault KeyStore Handlers KeyOperations
  ServerAuth Server
  IpMatch AuditTrail Freshness Processes ServedRequests LastWrites UserWrites Credentials Tables

variable {L : Libraries} {cfg : Config} {req : HttpRequest} {env : Envelope} {user : VaultUser}
  {i : ThreadId} {r : Response} {w : World} {processes : ThreadId → Process}
  {schedule : Schedule Turn} {trace pre post : List (Entry Ans World)} {e : Entry Ans World}

/-- The class that an operation asks of the caller's mask, whatever the ACL says. -/
def maskClass : Operation → Option OpClass
  | .generateKey => some .generateKey
  | .listKeys => some .listKeys
  | op => requiredClass op

theorem generateKey_masked {data : Json} {result : HandlerResult}
    (h : Plays trace i (generateKey cfg user data) (.ok result)) :
    allowedOpsAllows user.data .generateKey = true := by
  obtain ⟨spec, hspec, -⟩ := plays_lift h
  obtain ⟨_, hmask, -⟩ := ok_of_bind hspec
  exact require_ok.mp hmask

theorem listKeys_masked {data : Json} {result : HandlerResult}
    (h : Plays trace i (Handlers.listKeys user data) (.ok result)) :
    allowedOpsAllows user.data .listKeys = true := by
  obtain ⟨_, -, h⟩ := plays_lift h
  obtain ⟨_, hmask, -⟩ := plays_lift h
  exact require_ok.mp hmask

theorem access_masked {K : KeyOperation} {result : HandlerResult}
    (h : Plays trace i (access L cfg user K) (.ok result)) :
    allowedOpsAllows user.data K.opClass = true := by
  obtain ⟨kid, row, jwk, -, -, hgranted, -⟩ := access_plays h
  exact (Bool.and_eq_true_iff.mp hgranted).2

/-- What succeeds is allowed by the caller's mask. -/
theorem dispatch_masked (h : Plays trace i (dispatch L cfg user env) (.ok r)) (hok : r.isOk)
    {op : Operation} (hop : env.request = op.request) {opClass : OpClass}
    (hclass : maskClass op = some opClass) : allowedOpsAllows user.data opClass = true := by
  obtain ⟨result, hresult, -⟩ := dispatch_plays h hok hop
  have hkey : ∀ K, keyOperation L cfg env.data op = some K → requiredClass op = some opClass →
      allowedOpsAllows user.data opClass = true := by
    intro K hK hrequired
    rw [handler_access hK] at hresult
    rw [keyOperation_class hK] at hrequired
    cases hrequired
    exact access_masked hresult
  cases op with
  | healthcheck => cases hclass
  | generateKey =>
    cases hclass
    exact generateKey_masked hresult
  | listKeys =>
    cases hclass
    exact listKeys_masked hresult
  | publicKey => exact hkey _ rfl hclass
  | createJwt => exact hkey _ rfl hclass
  | verifyJwt => exact hkey _ rfl hclass
  | createJwe => exact hkey _ rfl hclass
  | decryptJwe => exact hkey _ rfl hclass
  | revokeKey => exact hkey _ rfl hclass
  | exportKey => exact hkey _ rfl hclass

/-- The request was answered within the limits of these user data: its address and the
time are admitted, and a success is one that the mask allows. -/
structure WithinLimits (cfg : Config) (req : HttpRequest) (env : Envelope) (data : Json)
    (trace : List (Entry Ans World)) (i : ThreadId) (r : Response) : Prop where
  admitted : ∃ user now, user.data = data ∧ Made trace i .dateNow now ∧
    admitted user (deriveClientIp req.remoteAddress req.xForwardedFor cfg.trustedProxyHops)
      (now / 1000) = true
  masked : r.isOk → ∀ op opClass, env.request = op.request → maskClass op = some opClass →
    allowedOpsAllows data opClass = true

theorem serves_within (h : Serves L cfg req env user trace i r) :
    WithinLimits cfg req env user.data trace i r := by
  obtain ⟨token, hauth⟩ := authenticate_plays h.authenticated
  obtain ⟨now, hnow, hadmitted⟩ := hauth.admitted
  exact ⟨⟨user, now, rfl, hnow, hadmitted⟩,
    fun hok op opClass hop hclass => dispatch_masked h.dispatched hok hop hclass⟩

/-- The lookup of a served request has found the row of the claimed user. -/
theorem served_row (hlower : ∀ n, toLowerCase (L.genRandomUuid n) = L.genRandomUuid n)
    (hw : Ownership.LowerUsers w) (hserves : Serves L cfg req env user
      (runs L processes w schedule).state.trace i r) :
    ∃ e ∈ (runs L processes w schedule).state.trace, e.thread = i ∧ user ∈ e.before.users.rows ∧
      user.userId = env.user := by
  obtain ⟨token, hauth⟩ := authenticate_plays hserves.authenticated
  obtain ⟨before, after, hfound⟩ := hauth.found
  have hlinked := (runs_makes L processes w schedule).1
  obtain ⟨t, ht⟩ := hlinked.mem hfound
  obtain ⟨hrow, -⟩ := found_stored (congrArg Prod.fst ht)
  have hids := (hlinked.keeps (I := Ownership.LowerUsers)
    (fun i t c w h => Ownership.perform_lowerUsers hlower i t c w h) hw _ hfound).1
  exact ⟨_, hfound, rfl, hrow, by rw [hauth.claimed, hids user hrow]⟩

/-- What the account may do, from every lookup that has found its row, in a run where a
call has written data of a kind and every later write has been of that kind. -/
theorem later_data {P : Json → Prop} {userId : String} {w' : World}
    (h : Linked (perform L) w (pre ++ e :: post) w')
    (hwrites : ∀ x ∈ e :: post, ∀ data, dataWrite x = some (userId, data) → P data)
    (hwritten : ∃ data, dataWrite e = some (userId, data)) (hstart : StartsAfter pre e i)
    {x : Entry Ans World} (hx : x ∈ pre ++ e :: post) (hthread : x.thread = i)
    (hrow : user ∈ x.before.users.rows) (hid : user.userId = userId) : P user.data := by
  obtain ⟨⟨t, ht⟩, hrest⟩ := h.cut
  rw [List.append_cons] at hx
  rcases List.mem_append.mp hx with hearly | hlate
  · exact absurd hthread (hstart x hearly)
  · refine linked_column (data_tells L) (P := fun u data => u = userId → P data) hrest ?_ ?_ x hlate
      user hrow hid
    · intro row hrow' hrow'id
      rcases data_tells L e t ht row hrow' with hlast | ⟨hspared, -⟩
      · exact hwrites e List.mem_cons_self _ (by rw [hlast, hrow'id])
      · obtain ⟨data, hdata⟩ := hwritten
        exact absurd (by rw [hdata, hrow'id]) (hspared data)
    · rintro y hy u data hwrite rfl
      exact hwrites y (List.mem_cons_of_mem _ hy) data hwrite

/-- Over every run: a request that is answered with status 200 or with success has kept
within the user data last written for the claimed user before its lookup; and if some
call has written data with a property `P` for the user, and every later write of its data
has `P` too, then every request of the user that starts later and is answered so has kept
within data with `P`. -/
theorem limits_bind (L : Libraries)
    (hlower : ∀ n, toLowerCase (L.genRandomUuid n) = L.genRandomUuid n)
    (processes : ThreadId → Process) (w : World) (hw : Ownership.LowerUsers w)
    (schedule : Schedule Turn) (hprocess : processes i = .request cfg req)
    (hdone : (runs L processes w schedule).threads i = .done (.ok (some r)))
    (henv : envelopeOf req = some env) (hr : Answered r) :
    (∃ data, WithinLimits cfg req env data (runs L processes w schedule).state.trace i r ∧
      ∃ pre e post, (runs L processes w schedule).state.trace = pre ++ e :: post ∧ e.thread = i ∧
        (LastWrite dataWrite pre env.user data ∨ (Untouched dataWrite pre env.user ∧
          ∃ row ∈ w.users.rows, row.userId = env.user ∧ row.data = data))) ∧
    ∀ (P : Json → Prop) pre e post, (runs L processes w schedule).state.trace = pre ++ e :: post →
      StartsAfter pre e i → (∃ data, dataWrite e = some (env.user, data)) →
        (∀ x ∈ e :: post, ∀ data, dataWrite x = some (env.user, data) → P data) →
          ∃ data, P data ∧
            WithinLimits cfg req env data (runs L processes w schedule).state.trace i r := by
  have hlinked := (runs_makes L processes w schedule).1
  obtain ⟨user, hserves⟩ := runs_serves hprocess hdone henv hr
  have hwithin := serves_within hserves
  obtain ⟨lookup, hlookup, hthread, hrow, hid⟩ := served_row hlower hw hserves
  constructor
  · obtain ⟨pre, post, htrace⟩ := List.append_of_mem hlookup
    rw [htrace] at hlinked
    have haccounted := linked_accounted (data_tells L) hlinked.before user hrow
    rw [hid] at haccounted
    exact ⟨user.data, hwithin, pre, lookup, post, htrace, hthread, haccounted⟩
  · intro P pre e post htrace hstart hwritten hwrites
    rw [htrace] at hlinked hlookup
    exact ⟨user.data, later_data hlinked hwrites hwritten hstart hlookup hthread hrow hid, hwithin⟩

/-- Bob gets a token and a mask, and asks for his keys. -/
def masked : ThreadId → Process
  | 0 => .admin { actor := "root", user := some Fixtures.bobId } .setToken
  | 1 =>
    .admin { actor := "root", user := some Fixtures.bobId, allowedOps := ["sign"] } .setUserData
  | 2 => .request Fixtures.config bobLists
  | _ => .restart

def inOrder : Schedule Turn :=
  ([0, 1, 2] : List ThreadId).flatMap fun i => List.replicate 6 (i, ({} : Turn))

theorem listing_masked : ((runs minting masked tokenlessVault inOrder).threads 2).result? =
    some (.ok (some ⟨200, errorBody .operationNotPermitted none (some Fixtures.opId), false⟩)) := by
  decide +kernel

theorem limits_bind_bob :
    (∃ data, WithinLimits Fixtures.config bobLists listEnvelope data
        (runs minting masked tokenlessVault inOrder).state.trace 2
        ⟨200, errorBody .operationNotPermitted none (some Fixtures.opId), false⟩ ∧
      ∃ pre e post, (runs minting masked tokenlessVault inOrder).state.trace = pre ++ e :: post ∧
        e.thread = 2 ∧ (LastWrite dataWrite pre listEnvelope.user data ∨
          (Untouched dataWrite pre listEnvelope.user ∧
            ∃ row ∈ tokenlessVault.users.rows, row.userId = listEnvelope.user ∧ row.data = data))) ∧
    ∀ (P : Json → Prop) pre e post,
      (runs minting masked tokenlessVault inOrder).state.trace = pre ++ e :: post →
      StartsAfter pre e 2 → (∃ data, dataWrite e = some (listEnvelope.user, data)) →
        (∀ x ∈ e :: post, ∀ data, dataWrite x = some (listEnvelope.user, data) → P data) →
          ∃ data, P data ∧ WithinLimits Fixtures.config bobLists listEnvelope data
            (runs minting masked tokenlessVault inOrder).state.trace 2
            ⟨200, errorBody .operationNotPermitted none (some Fixtures.opId), false⟩ := by
  refine limits_bind minting
    (fun _ => show toLowerCase Fixtures.aliceId = Fixtures.aliceId by decide)
    masked tokenlessVault ?_ inOrder (i := 2) rfl (Prog.result?_eq_some listing_masked)
      rfl (Or.inl rfl)
  intro row hrow
  obtain rfl := List.mem_singleton.mp hrow
  decide

end AccountLimits
