import KeyVault.Durability
import KeyVault.KeyHalves

/-!
# Freshness of key operations

What a successful key operation has used, however it was interleaved: a row that
was stored while it ran, with the grant of that row and the key embedded in it.
What is deleted or withdrawn stays so for every operation that starts later.
-/

namespace Freshness

open JsValue Acl KeyGen Errors Programs Interleaving Vault KeyStore Handlers KeyOperations
  CallEffects Server KeyInvariant KeyLifecycle Durability KeyHalves
  Tables

section

variable {L : Libraries} {kekOf : String → Kek} {trace : List (Entry Ans World)} {i : ThreadId}
  {cfg : Config} {user : VaultUser} {env : Envelope} {w w' : World}

/-- A successful response means that the handler came to a result. -/
theorem dispatch_plays {r : Response} (h : Plays trace i (dispatch L cfg user env) (.ok r))
    (hok : r.isOk) {op : Operation} (hop : env.request = op.request) :
    ∃ result, Plays trace i (handler L cfg user env.data op) (.ok result) ∧
      r = answer env.op (.ok result) := by
  simp only [dispatch, hop, Dispatch.lookupHandler_request] at h
  obtain ⟨x, hx, h⟩ := h.bind_ok
  have hhandler := hx.attempt
  have hanswer : r = answer env.op (x.mapError caught) := by
    split at h
    · obtain ⟨appended, -, h⟩ := h.bind_ok
      cases appended with
      | ok u => exact (Except.ok.inj h).symm
      | error e =>
        cases Except.ok.inj h
        exact absurd hok (Dispatch.internalError_not_ok _)
    · exact (Except.ok.inj h).symm
  subst hanswer
  obtain ⟨result, hresult⟩ := (Dispatch.answer_ok_iff _ _).mp hok
  cases x with
  | ok result' =>
    cases hresult
    exact ⟨_, hhandler, rfl⟩
  | error e => cases hresult

theorem authorizedKey_plays {kid : String} {opClass : OpClass} {row : VaultKey}
    (h : Plays trace i (authorizedKey user kid opClass) (.ok row)) :
    Made trace i (.keyById kid) (.ok (some row)) ∧ granted user row opClass = true ∧
      ∃ now, Made trace i .dateNow now ∧ inWindow row now = true := by
  simp only [authorizedKey, loadKey, bind_assoc] at h
  obtain ⟨answer, hmade, hload⟩ := plays_ask h
  obtain ⟨found, hfound, hcheck⟩ := plays_lift hload
  rw [orThrow_eq_ok.mp hfound] at hmade
  cases found with
  | none => cases hcheck
  | some row' =>
    dsimp only at hcheck
    split at hcheck
    · rename_i hgranted
      obtain ⟨now, hnow, hcheck⟩ := plays_ask hcheck
      split at hcheck
      · rename_i hwindow
        cases hcheck
        exact ⟨hmade, hgranted, now, hnow, hwindow⟩
      · cases hcheck
    · cases hcheck

theorem access_plays {K : KeyOperation} {result : HandlerResult}
    (h : Plays trace i (access L cfg user K) (.ok result)) :
    ∃ kid row jwk, K.target = .ok kid ∧ Made trace i (.keyById kid) (.ok (some row)) ∧
      granted user row K.opClass = true ∧
      (∃ now, Made trace i .dateNow now ∧ inWindow row now = true) ∧ K.fits row = .ok () ∧
      Plays trace i (keyHalf L cfg row K.half) (.ok jwk) ∧
      Plays trace i (K.finish kid row jwk) (.ok result) := by
  obtain ⟨kid, hkid, h⟩ := plays_lift h
  obtain ⟨row, hrow, h⟩ := h.bind_ok
  obtain ⟨_, hfits, h⟩ := plays_lift h
  obtain ⟨jwk, hjwk, h⟩ := h.bind_ok
  obtain ⟨hmade, hgranted, hwindow⟩ := authorizedKey_plays hrow
  exact ⟨kid, row, jwk, hkid, hmade, hgranted, hwindow, hfits, hjwk, h⟩

/-- Past states know no more than the present one. -/
theorem linked_grows (h : Linked (perform L) w trace w') (hkept : Kept (protocol L kekOf) trace) :
    Grows w w' := by
  induction trace generalizing w with
  | nil =>
    cases h
    exact Grows.refl _
  | cons e rest ih =>
    obtain ⟨rfl, -, hrest⟩ := h
    obtain ⟨-, -, hguar⟩ := hkept e (List.mem_cons_self ..)
    exact hguar.1.trans (ih hrest fun x hx => hkept x (List.mem_cons_of_mem _ hx))

theorem entry_grows (h : Linked (perform L) w trace w') (hkept : Kept (protocol L kekOf) trace)
    {e : Entry Ans World} (he : e ∈ trace) : Grows e.before w' := by
  obtain ⟨pre, post, rfl⟩ := List.append_of_mem he
  obtain ⟨-, -, hguar⟩ := hkept e he
  exact hguar.1.trans (linked_grows h.cut.2 fun x hx =>
    hkept x (List.mem_append_right _ (List.mem_cons_of_mem _ hx)))

/-- A recorded call was performed in a sound state of the past. -/
theorem made_performed (h : Linked (perform L) w trace w') (hkept : Kept (protocol L kekOf) trace)
    {c : Call} {answer : Ans c} (hmade : Made trace i c answer) :
    ∃ before t, (perform L i t c before).1 = answer ∧ Sound L kekOf before ∧ Grows before w' := by
  obtain ⟨before, after, he⟩ := hmade
  obtain ⟨t, ht⟩ := h.mem he
  exact ⟨before, t, congrArg Prod.fst ht, (hkept _ he).1, entry_grows h hkept he⟩

theorem loaded_stored (h : Linked (perform L) w trace w') (hkept : Kept (protocol L kekOf) trace)
    {kid : String} {row : VaultKey} (hmade : Made trace i (.keyById kid) (.ok (some row))) :
    Stored L kekOf w' row ∧ row.keyId = kid := by
  obtain ⟨before, t, hanswer, hsound, hgrow⟩ := made_performed h hkept hmade
  obtain ⟨row', hfind, rfl, hkid⟩ := loaded hanswer
  exact ⟨(hsound.rows row' (Table.find_mem hfind)).mono hgrow, hkid⟩

/-- What the KEK of a row has opened yields the key of the row. -/
theorem decrypted_key (h : Linked (perform L) w trace w') (hkept : Kept (protocol L kekOf) trace)
    (hm : Agrees kekOf cfg.kek) {row : VaultKey} {g : GeneratedKey} (hholds : Holds L kekOf row g)
    (hkid : g.secretKey.get? "kid" = some (.str g.kid)) {kek : Kek}
    (hkek : cfg.kek.byId row.embeddingKeyId = some kek) {claims jwk : Json}
    (hmade : Made trace i (.jweDecrypt row.embeddedKey kek.secretJwk) (.ok claims))
    (hjwk : embeddedJwk claims row.keyId = .ok jwk) : jwk = g.secretKey := by
  obtain ⟨before, t, hanswer, -, -⟩ := made_performed h hkept hmade
  have hdecrypted := decrypted hanswer
  have hextracted := hholds.extracted hkid hm (by rw [hkek]; rfl)
  simp only [extracted, hkek, hdecrypted, orThrow_ok] at hextracted
  exact Except.ok.inj (hjwk.symm.trans hextracted)

/-- What the cache has had for a row is the key of the row. -/
theorem cached_key (h : Linked (perform L) w trace w') (hkept : Kept (protocol L kekOf) trace)
    (hw' : Sound L kekOf w') {row : VaultKey} {g : GeneratedKey} (hg : Minted w' g)
    (hholds : Holds L kekOf row g) {embHash : String} {now : Nat} {jwk : Json}
    (hmade : Made trace i (.cacheLookup row.keyId embHash) (now, some jwk)) :
    jwk = g.secretKey := by
  obtain ⟨before, t, hanswer, hsound, hgrow⟩ := made_performed h hkept hmade
  rw [perform_answered hanswer (fun _ => nofun)] at hanswer
  obtain ⟨entry, hentry, -, -, rfl⟩ := lookupCache_hit (Prod.mk.inj hanswer).2
  obtain ⟨g', hg', hkid', hjwk⟩ := hsound.cached _ hentry
  rw [hjwk, hw'.minted_unique (hg'.mono hgrow) hg (hkid'.trans hholds.keyId)]

theorem extract_plays (h : Linked (perform L) w trace w') (hkept : Kept (protocol L kekOf) trace)
    (hm : Agrees kekOf cfg.kek) {row : VaultKey} {g : GeneratedKey} (hholds : Holds L kekOf row g)
    (hkid : g.secretKey.get? "kid" = some (.str g.kid)) {jwk : Json}
    (hplays : Plays trace i (extract cfg.kek row.embeddingKeyId row.embeddedKey row.keyId)
      (.ok jwk)) : jwk = g.secretKey := by
  unfold extract at hplays
  cases hk : cfg.kek.byId row.embeddingKeyId with
  | none => simp only [hk] at hplays; cases hplays
  | some k =>
    simp only [hk] at hplays
    obtain ⟨answer, hmade, hplays⟩ := plays_ask hplays
    obtain ⟨claims, hclaims, hplays⟩ := plays_lift hplays
    obtain rfl := orThrow_eq_ok.mp hclaims
    exact decrypted_key h hkept hm hholds hkid hk hmade hplays

/-- Whatever the cache still holds, an unwrap yields the key of the row it was given. -/
theorem unwrap_plays (h : Linked (perform L) w trace w') (hkept : Kept (protocol L kekOf) trace)
    (hw' : Sound L kekOf w') (hm : Agrees kekOf cfg.kek) {row : VaultKey} {g : GeneratedKey}
    (hg : Minted w' g) (hholds : Holds L kekOf row g) {jwk : Json}
    (hplays : Plays trace i (unwrap L cfg row) (.ok jwk)) : jwk = g.secretKey := by
  have hkid := hw'.minted_kid hg
  unfold unwrap at hplays
  split at hplays
  · exact extract_plays h hkept hm hholds hkid hplays
  · obtain ⟨⟨now, cached⟩, hmade, hplays⟩ := plays_ask hplays
    cases cached with
    | some jwk' =>
      cases hplays
      exact cached_key h hkept hw' hg hholds hmade
    | none =>
      obtain ⟨jwk', hextract, hplays⟩ := hplays.bind_ok
      obtain ⟨_, -, hplays⟩ := plays_ask hplays
      cases hplays
      exact extract_plays h hkept hm hholds hkid hextract

theorem keyHalf_plays (h : Linked (perform L) w trace w') (hkept : Kept (protocol L kekOf) trace)
    (hw' : Sound L kekOf w') (hm : Agrees kekOf cfg.kek) {row : VaultKey} {g : GeneratedKey}
    (hg : Minted w' g) (hholds : Holds L kekOf row g) {half : KeyHalf} {jwk : Json}
    (hplays : Plays trace i (keyHalf L cfg row half) (.ok jwk)) : jwk = halfOf g half := by
  have hunwrap : Plays trace i (unwrapKey L cfg row) (.ok jwk) → jwk = g.secretKey := by
    intro hplays
    rcases hplays.tryCatch_ok with hplays | ⟨e, hplays⟩
    · exact unwrap_plays h hkept hw' hm hg hholds hplays
    · cases e <;> cases hplays
  have hstored : Plays trace i (pure (row.publicKey.getD .null) : Api Json) (.ok jwk) →
      jwk = g.publicKey.getD .null := by
    intro hplays
    rw [← hholds.publicKey]
    exact (Except.ok.inj hplays).symm
  cases half with
  | stored => exact hstored hplays
  | secret => exact hunwrap hplays
  | publicOrSecret =>
    simp only [keyHalf, publicHalf, hholds.kty] at hplays
    simp only [halfOf, publicOf]
    split at hplays
    · rename_i hoct
      rw [if_pos hoct]
      exact hunwrap hplays
    · rename_i hoct
      rw [if_neg hoct]
      exact hstored hplays

/-- The half of the key that `row` stands for. -/
def Uses (L : Libraries) (kekOf : String → Kek) (row : VaultKey) (jwk : Json) : KeyHalf → Prop
  | .stored => jwk = row.publicKey.getD .null
  | .secret => ∃ claims, Embeds L kekOf row claims jwk
  | .publicOrSecret =>
    if row.kty = "oct" then ∃ claims, Embeds L kekOf row claims jwk
    else jwk = row.publicKey.getD .null

theorem halfOf_uses {row : VaultKey} {g : GeneratedKey} (h : Holds L kekOf row g)
    (hkid : g.secretKey.get? "kid" = some (.str g.kid)) (half : KeyHalf) :
    Uses L kekOf row (halfOf g half) half := by
  obtain ⟨claims, hembeds, -⟩ := embeds_of_holds h hkid
  cases half with
  | stored => simp only [Uses, halfOf, h.publicKey]
  | secret => exact ⟨claims, hembeds⟩
  | publicOrSecret =>
    simp only [Uses, halfOf, publicOf, h.kty, h.publicKey]
    split
    · exact ⟨claims, hembeds⟩
    · rfl

/-- How a row can come to be stored after a call: it was there with this ACL, or with
another that the call has replaced, or the call has just inserted it. -/
theorem perform_row {j : ThreadId} {t : Turn} {c : Call} {kid : String} {row' : KeyRow}
    (h : (perform L j t c w).2.keys.find kid = some row') :
    (∃ row, w.keys.find kid = some row ∧ (row'.acl = row.acl ∨ c = .updateKeyAcl kid row'.acl)) ∨
      ∃ key, key.keyId = kid ∧ (perform L j t c w).2.born = w.born ++ [key] := by
  rcases perform_cases L j t c w with ⟨_, _, -, -, hp⟩ | hp
  · rw [hp] at h
    exact Or.inl ⟨row', h, Or.inl rfl⟩
  · rw [hp] at h ⊢
    cases hc : writesKeys c with
    | false =>
      rw [effect_keys hc] at h
      exact Or.inl ⟨row', h, Or.inl rfl⟩
    | true =>
      cases c with
      | insertKey key =>
        simp only [effect] at h ⊢
        split at h
        · exact Or.inl ⟨row', h, Or.inl rfl⟩
        · rename_i hnew
          split at h
          · rename_i hrange
            simp only [hnew, hrange, if_true]
            by_cases hkid : key.keyId = kid
            · exact Or.inr ⟨key.toColumns L, hkid, rfl⟩
            · refine Or.inl ⟨row', ?_, Or.inl rfl⟩
              rwa [Table.find_insert_ne (r := KeyRow.mk (key.toColumns L) _ _) (Ne.symm hkid)] at h
          · exact Or.inl ⟨row', h, Or.inl rfl⟩
      | deleteKey keyId =>
        simp only [effect] at h
        by_cases hkid : kid = keyId
        · subst hkid
          rw [Table.find_erase_self] at h
          cases h
        · rw [Table.find_erase_ne _ hkid] at h
          exact Or.inl ⟨row', h, Or.inl rfl⟩
      | updateKeyAcl keyId acl =>
        simp only [effect] at h
        by_cases hkid : kid = keyId
        · subst hkid
          rw [Table.find_update_self] at h
          obtain ⟨row, hrow, rfl⟩ := Option.map_eq_some_iff.mp h
          exact Or.inl ⟨row, hrow, Or.inr rfl⟩
        · rw [Table.find_update_ne _ _ _ hkid] at h
          exact Or.inl ⟨row', h, Or.inl rfl⟩
      | updateKeyEmbedding keyId embeddingKeyId embeddedKey =>
        simp only [effect] at h
        by_cases hkid : kid = keyId
        · subst hkid
          rw [Table.find_update_self] at h
          obtain ⟨row, hrow, rfl⟩ := Option.map_eq_some_iff.mp h
          exact Or.inl ⟨row, hrow, Or.inl rfl⟩
        · rw [Table.find_update_ne _ _ _ hkid] at h
          exact Or.inl ⟨row', h, Or.inl rfl⟩
      | sweepExpiredKeys graceSeconds =>
        simp only [effect, Table.find_filter] at h
        exact Or.inl ⟨row', (Option.filter_eq_some_iff.mp h).1, Or.inl rfl⟩
      | _ => cases hc

/-- A condition on the ACL of a key that was inserted once holds as long as every
update of that ACL keeps it: the key is never inserted again. -/
theorem acl_stays {P : Json → Prop} {kid : String} (h : Linked (perform L) w trace w')
    (hkept : Kept (protocol L kekOf) trace) (hborn : ∃ key ∈ w.born, key.keyId = kid)
    (hw : ∀ row, w.keys.find kid = some row → P row.acl)
    (hupdates : ∀ e ∈ trace, ∀ acl acl', e.call = .updateKeyAcl kid acl' → P acl → P acl') :
    ∀ e ∈ trace, ∀ row, e.before.keys.find kid = some row → P row.acl := by
  induction trace generalizing w with
  | nil => exact fun _ he => by cases he
  | cons e rest ih =>
    obtain ⟨rfl, ⟨t, hstep⟩, hrest⟩ := h
    obtain ⟨-, hafter, hguar⟩ := hkept e (List.mem_cons_self ..)
    obtain ⟨key, hkey, hkid⟩ := hborn
    have hw' : ∀ row, e.after.keys.find kid = some row → P row.acl := by
      intro row' hrow'
      have hperform := @perform_row L e.before e.thread t e.call kid row'
      rw [hstep] at hperform
      rcases hperform hrow' with ⟨row, hrow, hacl | hupdate⟩ | ⟨key', hkid', hborn'⟩
      · rw [hacl]
        exact hw row hrow
      · exact hupdates e (List.mem_cons_self ..) row.acl row'.acl hupdate (hw row hrow)
      · -- a second insertion would give two keys one id
        have hnodup := hafter.bornKids
        rw [show e.after.born = e.before.born ++ [key'] from hborn', List.map_append,
          List.nodup_append] at hnodup
        refine absurd rfl (hnodup.2.2 kid (hkid ▸ List.mem_map_of_mem hkey) kid ?_)
        simp [hkid']
    intro x hx
    rcases List.mem_cons.mp hx with rfl | hx
    · exact hw
    · exact ih hrest (fun y hy => hkept y (List.mem_cons_of_mem _ hy))
        ⟨key, hguar.1.2.subset hkey, hkid⟩ hw'
        (fun y hy => hupdates y (List.mem_cons_of_mem _ hy)) x hx

/-- Thread `i` is a request of this user for the key operation, answered with success. -/
def Succeeded (L : Libraries) (activities : ThreadId → Activity)
    (W : Pool Ans Thrown (Option Response) (Recorded Ans World)) (i : ThreadId) (user : VaultUser)
    (K : KeyOperation) : Prop :=
  ∃ cfg env op r, activities i = .operation cfg user env ∧ env.request = op.request ∧
    keyOperation L cfg env.data op = some K ∧ W.threads i = .done (.ok (some r)) ∧ r.isOk

/-- Thread `i` loaded a row that was stored at that moment, with a grant for the class
and inside its window, and finished with the key embedded in it. -/
structure FreshAccess (L : Libraries) (kekOf : String → Kek) (trace : List (Entry Ans World))
    (i : ThreadId) (user : VaultUser) (K : KeyOperation) (kid : String) (row : VaultKey)
    (jwk : Json) : Prop where
  stored : ∃ e ∈ trace, e.thread = i ∧ e.call = .keyById kid ∧
    ∃ row', e.before.keys.find kid = some row' ∧ row'.toVaultKey = row
  granted : granted user row K.opClass = true
  inWindow : ∃ now, Made trace i .dateNow now ∧ inWindow row now = true
  uses : Uses L kekOf row jwk K.half
  finished : ∃ result, Plays trace i (K.finish kid row jwk) (.ok result)

/-- Thread `i` has not made a call before `e` has happened. -/
def StartsAfter (pre : List (Entry Ans World)) (e : Entry Ans World) (i : ThreadId) : Prop :=
  ∀ x ∈ pre ++ [e], x.thread ≠ i

/-- The call took the key out of the table: a revocation or a sweep. -/
def Removes (e : Entry Ans World) (kid : String) : Prop :=
  (e.before.keys.find kid).isSome ∧ e.after.keys.find kid = none

instance (e : Entry Ans World) (kid : String) : Decidable (Removes e kid) :=
  inferInstanceAs (Decidable (_ ∧ _))

/-- The call gave the key an ACL that does not let the user do this. -/
def Withdraws (e : Entry Ans World) (kid userId : String) (opClass : OpClass) : Prop :=
  ∃ j acl before after, e = ⟨j, .updateKeyAcl kid acl, .ok true, before, after⟩ ∧
    aclAllows acl userId opClass = false

variable {activities : ThreadId → Activity} {clock : Nat} {users : UserTable}
  {schedule : Schedule Turn} {K : KeyOperation} {kid : String}

theorem succeeded_plays {W : Pool Ans Thrown (Option Response) (Recorded Ans World)}
    (hW : W = runs L activities (start clock users) schedule)
    (h : Succeeded L activities W i user K) :
    ∃ cfg, (activities i).manager = some cfg.kek ∧
      ∃ result, Plays W.state.trace i (access L cfg user K) (.ok result) := by
  obtain ⟨cfg, env, op, r, hact, hop, hK, hdone, hok⟩ := h
  subst hW
  refine ⟨cfg, by rw [hact]; rfl, ?_⟩
  have hplays := exec_plays (perform L) schedule
    ⟨fun i => (activities i).program L, ⟨start clock users, []⟩⟩ hdone
  simp only [hact, Activity.program] at hplays
  obtain ⟨r', hr', heq⟩ := hplays.bind_ok
  cases heq
  obtain ⟨result, hresult, -⟩ := dispatch_plays hr' hok hop
  rw [handler_access hK] at hresult
  exact ⟨result, hresult⟩

/-- A key that a past state has stored was inserted, and is never inserted again. -/
theorem stored_born {before : World} (h : Sound L kekOf before)
    (hfind : (before.keys.find kid).isSome) : ∃ key ∈ before.born, key.keyId = kid := by
  obtain ⟨row, hrow⟩ := Option.isSome_iff_exists.mp hfind
  obtain ⟨key, hkey, hid, -, -⟩ := (h.rows row (Table.find_mem hrow)).origin
  exact ⟨key, hkey, hid.trans (Table.find_key (r := row) hrow)⟩

/-- After a call that has made it hold, a condition on the ACL that every later update
keeps holds of the row that any later operation has loaded. -/
theorem later_load {P : Json → Prop} {w₀ : World} {pre post : List (Entry Ans World)}
    {e : Entry Ans World} (h : Linked (perform L) w₀ (pre ++ e :: post) w')
    (hkept : Kept (protocol L kekOf) (pre ++ e :: post))
    (hbefore : (e.before.keys.find kid).isSome)
    (hafter : ∀ row, e.after.keys.find kid = some row → P row.acl)
    (hupdates : ∀ x ∈ post, ∀ acl acl', x.call = .updateKeyAcl kid acl' → P acl → P acl')
    (hstart : StartsAfter pre e i) {row : VaultKey}
    (hmade : Made (pre ++ e :: post) i (.keyById kid) (.ok (some row))) : P row.acl := by
  obtain ⟨before, after, hx⟩ := hmade
  have hpost : (⟨i, .keyById kid, .ok (some row), before, after⟩ : Entry Ans World) ∈ post := by
    rw [List.append_cons] at hx
    rcases List.mem_append.mp hx with hx | hx
    · exact absurd rfl (hstart _ hx)
    · exact hx
  obtain ⟨-, hlinked⟩ := h.cut
  obtain ⟨hinv, -, hguar⟩ := hkept e (List.mem_append_right _ (List.mem_cons_self ..))
  obtain ⟨key, hkey, hid⟩ := stored_born hinv hbefore
  obtain ⟨t, ht⟩ := hlinked.mem hpost
  obtain ⟨row', hfind, rfl, -⟩ := loaded (congrArg Prod.fst ht)
  exact acl_stays hlinked
    (fun x hx => hkept x (List.mem_append_right _ (List.mem_cons_of_mem _ hx)))
    ⟨key, hguar.1.2.subset hkey, hid⟩ hafter hupdates _ hpost row' hfind

theorem revoke_plays {data : Json} {row : VaultKey} {jwk : Json} {result : HandlerResult}
    (h : Plays trace i ((revokeKeyOp data).finish kid row jwk) (.ok result)) :
    Made trace i (.deleteKey kid) (.ok true) := by
  obtain ⟨revoked, hrevoke, h⟩ := h.bind_ok
  obtain ⟨_, hrevoked, -⟩ := plays_lift h
  obtain ⟨answer, hmade, h⟩ := plays_ask hrevoke
  obtain ⟨deleted, hdeleted, h⟩ := plays_lift h
  obtain ⟨_, -, h⟩ := plays_ask h
  cases h
  rw [orThrow_eq_ok.mp hdeleted, require_ok.mp hrevoked] at hmade
  exact hmade

/-- What a success has loaded, and how it has ended. -/
theorem succeeded_loads {W : Pool Ans Thrown (Option Response) (Recorded Ans World)}
    (hW : W = runs L activities (start clock users) schedule)
    (h : Succeeded L activities W i user K) (htarget : K.target = .ok kid) :
    ∃ row jwk result, Made W.state.trace i (.keyById kid) (.ok (some row)) ∧
      granted user row K.opClass = true ∧
      Plays W.state.trace i (K.finish kid row jwk) (.ok result) := by
  obtain ⟨cfg, -, result, hresult⟩ := succeeded_plays hW h
  obtain ⟨kid', row, jwk, htarget', hmade, hgranted, -, -, -, hfinish⟩ := access_plays hresult
  cases htarget.symm.trans htarget'
  exact ⟨row, jwk, result, hmade, hgranted, hfinish⟩

theorem succeeded_deletes {W : Pool Ans Thrown (Option Response) (Recorded Ans World)} {data : Json}
    (hW : W = runs L activities (start clock users) schedule)
    (h : Succeeded L activities W i user (revokeKeyOp data))
    (htarget : (revokeKeyOp data).target = .ok kid) :
    Made W.state.trace i (.deleteKey kid) (.ok true) := by
  obtain ⟨row, jwk, result, -, -, hfinish⟩ := succeeded_loads hW h htarget
  exact revoke_plays hfinish

/-- A deletion that is answered with success has removed the row. -/
theorem deleted_removes {t : Turn} {before after : World}
    (h : perform L i t (.deleteKey kid) before = (.ok true, after)) :
    (before.keys.find kid).isSome ∧ after.keys.find kid = none := by
  rw [perform_answered (congrArg Prod.fst h) (fun _ => nofun)] at h
  obtain ⟨hanswer, hafter⟩ := Prod.mk.inj h
  refine ⟨Except.ok.inj hanswer, ?_⟩
  rw [← hafter]
  exact Table.find_erase_self _ _

theorem updated_acl {j : ThreadId} {t : Turn} {acl : Json} {before after : World}
    (h : perform L j t (.updateKeyAcl kid acl) before = (.ok true, after)) :
    (before.keys.find kid).isSome ∧ ∀ row, after.keys.find kid = some row → row.acl = acl := by
  rw [perform_answered (congrArg Prod.fst h) (fun _ => nofun)] at h
  obtain ⟨hanswer, hafter⟩ := Prod.mk.inj h
  refine ⟨Except.ok.inj hanswer, fun row hrow => ?_⟩
  simp only [← hafter, Table.find_update_self] at hrow
  obtain ⟨row₀, -, rfl⟩ := Option.map_eq_some_iff.mp hrow
  rfl

/-- Once a key has been deleted with success, no other deletion of it succeeds later. -/
theorem deleted_once {w₀ : World} {pre post : List (Entry Ans World)} {before after : World}
    (h : Linked (perform L) w₀
      (pre ++ ⟨i, .deleteKey kid, .ok true, before, after⟩ :: post) w')
    (hkept : Kept (protocol L kekOf) (pre ++ ⟨i, .deleteKey kid, .ok true, before, after⟩ :: post))
    {j : ThreadId} {before' after' : World} :
    (⟨j, .deleteKey kid, .ok true, before', after'⟩ : Entry Ans World) ∉ post := by
  intro hmem
  obtain ⟨⟨t, ht⟩, hlinked⟩ := h.cut
  obtain ⟨hbefore, hafter⟩ := deleted_removes ht
  obtain ⟨hinv, -, hguar⟩ := hkept _ (List.mem_append_right _ (List.mem_cons_self ..))
  obtain ⟨key, hkey, hid⟩ := stored_born hinv hbefore
  obtain ⟨t', ht'⟩ := hlinked.mem hmem
  obtain ⟨row, hrow⟩ := Option.isSome_iff_exists.mp (deleted_removes ht').1
  exact acl_stays (P := fun _ => False) hlinked
    (fun x hx => hkept x (List.mem_append_right _ (List.mem_cons_of_mem _ hx)))
    ⟨key, hguar.1.2.subset hkey, hid⟩ (fun _ h => by rw [hafter] at h; cases h)
    (fun _ _ _ _ _ h => h) _ hmem row hrow

/-- So all deletions of a key that succeed are one thread's. -/
theorem deleted_by_one {w₀ : World} (h : Linked (perform L) w₀ trace w')
    (hkept : Kept (protocol L kekOf) trace) {j : ThreadId}
    (hi : Made trace i (.deleteKey kid) (.ok true))
    (hj : Made trace j (.deleteKey kid) (.ok true)) : i = j := by
  obtain ⟨before, after, hmem⟩ := hi
  obtain ⟨before', after', hmem'⟩ := hj
  obtain ⟨pre, post, rfl⟩ := List.append_of_mem hmem
  rcases List.mem_append.mp hmem' with hpre | hpost
  · obtain ⟨pre', mid, rfl⟩ := List.append_of_mem hpre
    rw [List.append_assoc, List.cons_append] at h hkept
    exact absurd (List.mem_append_right _ (List.mem_cons_self ..)) (deleted_once h hkept)
  · rcases List.mem_cons.mp hpost with heq | hpost
    · exact (congrArg Entry.thread heq).symm
    · exact absurd hpost (deleted_once h hkept)

/-- Freshness, over every run: a key operation that succeeds has used a row that was
stored while it ran; none that starts after the key was removed or the class was
withdrawn succeeds; and no two revocations of one key succeed. -/
theorem operations_fresh (L : Libraries) (kekOf : String → Kek) (activities : ThreadId → Activity)
    (hL : Reliable L kekOf) (hc : Configured kekOf activities) (clock : Nat) (users : UserTable)
    (schedule : Schedule Turn) :
    let W := runs L activities (start clock users) schedule
    (∀ i user K, Succeeded L activities W i user K →
      ∃ kid row jwk, K.target = .ok kid ∧ FreshAccess L kekOf W.state.trace i user K kid row jwk) ∧
    (∀ i user K kid pre e post, W.state.trace = pre ++ e :: post → K.target = .ok kid →
      Removes e kid → StartsAfter pre e i → ¬ Succeeded L activities W i user K) ∧
    (∀ i user K kid pre e post, W.state.trace = pre ++ e :: post → K.target = .ok kid →
      Withdraws e kid user.userId K.opClass → StartsAfter pre e i →
      (∀ x ∈ post, ∀ acl, x.call = .updateKeyAcl kid acl →
        aclAllows acl user.userId K.opClass = false) →
          ¬ Succeeded L activities W i user K) ∧
    (∀ i j user user' data data' kid, (revokeKeyOp data).target = .ok kid →
      (revokeKeyOp data').target = .ok kid →
        Succeeded L activities W i user (revokeKeyOp data) →
          Succeeded L activities W j user' (revokeKeyOp data') → i = j) := by
  intro W
  obtain ⟨hsound, hkept⟩ := runs_sound hL hc clock users schedule
  have hlinked := runs_linked L activities (start clock users) schedule
  refine ⟨?_, ?_, ?_, ?_⟩
  · intro i user K hsucceeded
    obtain ⟨cfg, hcfg, result, hresult⟩ := succeeded_plays rfl hsucceeded
    obtain ⟨kid, row, jwk, htarget, hmade, hgranted, hwindow, -, hhalf, hfinish⟩ :=
      access_plays hresult
    obtain ⟨hstored, -⟩ := loaded_stored hlinked hkept hmade
    obtain ⟨g, hg, hholds⟩ := hstored.holds
    have hjwk := keyHalf_plays hlinked hkept hsound (hc i _ hcfg) hg hholds hhalf
    refine ⟨kid, row, jwk, htarget, ?_, hgranted, hwindow,
      hjwk ▸ halfOf_uses hholds (hsound.minted_kid hg) K.half, result, hfinish⟩
    obtain ⟨before, after, hmem⟩ := hmade
    obtain ⟨t, ht⟩ := hlinked.mem hmem
    obtain ⟨row', hfind, hrow', -⟩ := loaded (congrArg Prod.fst ht)
    exact ⟨_, hmem, rfl, rfl, row', hfind, hrow'⟩
  · intro i user K kid pre e post htrace htarget hremoves hstart hsucceeded
    obtain ⟨row, jwk, result, hmade, -⟩ := succeeded_loads rfl hsucceeded htarget
    rw [htrace] at hmade
    rw [show (runs L activities (start clock users) schedule).state.trace = _ from htrace]
      at hlinked hkept
    exact later_load (P := fun _ => False) hlinked hkept hremoves.1
      (fun row hrow => by rw [hremoves.2] at hrow; cases hrow) (fun _ _ _ _ _ h => h) hstart hmade
  · intro i user K kid pre e post htrace htarget hwithdraws hstart hlater hsucceeded
    obtain ⟨row, jwk, result, hmade, hgranted, -⟩ := succeeded_loads rfl hsucceeded htarget
    rw [htrace] at hmade
    rw [show (runs L activities (start clock users) schedule).state.trace = _ from htrace]
      at hlinked hkept
    obtain ⟨j, acl, before, after, rfl, hacl⟩ := hwithdraws
    obtain ⟨⟨t, ht⟩, -⟩ := hlinked.cut
    obtain ⟨hbefore, hafter⟩ := updated_acl ht
    have hdenied := later_load (P := fun acl => aclAllows acl user.userId K.opClass = false)
      hlinked hkept hbefore (fun row hrow => by rw [hafter row hrow]; exact hacl)
      (fun x hx _ acl' hcall _ => hlater x hx acl' hcall) hstart hmade
    simp [granted, hdenied] at hgranted
  · intro i j user user' data data' kid htarget htarget' hi hj
    exact deleted_by_one hlinked hkept (succeeded_deletes rfl hi htarget)
      (succeeded_deletes rfl hj htarget')

end

open Fixtures

/-- Alice generates a key, and two requests race to revoke it. -/
def retirement (i : ThreadId) : Activity :=
  if i = 0 then .operation config alice generateEnvelope
  else .operation config alice (revokeEnvelope aliceId)

theorem retirement_configured : Configured denoted retirement := by
  intro i m hm
  unfold retirement at hm
  split at hm <;> cases hm <;> exact agrees_manager

/-- Both load the row before either deletes it. -/
def retirementSchedule : Schedule Turn :=
  ([0, 0, 0, 0, 0, 0, 1, 2, 1, 2, 1, 2, 1, 1, 2, 2] : List ThreadId).map
    (fun i => (i, { elapsed := 1 }))

theorem retirement_fresh :
    let W := runs working retirement (start 0 Tables.Table.empty) retirementSchedule
    (W.state.trace.filter (fun e => decide (Removes e keyId1))).map Entry.thread = [1] ∧
    (∀ i user K, Succeeded working retirement W i user K → ∃ kid row jwk, K.target = .ok kid ∧
      FreshAccess working denoted W.state.trace i user K kid row jwk) ∧
    (∀ i user K kid pre e post, W.state.trace = pre ++ e :: post → K.target = .ok kid →
      Removes e kid → StartsAfter pre e i → ¬ Succeeded working retirement W i user K) ∧
    (∀ i user K kid pre e post, W.state.trace = pre ++ e :: post → K.target = .ok kid →
      Withdraws e kid user.userId K.opClass → StartsAfter pre e i →
      (∀ x ∈ post, ∀ acl, x.call = .updateKeyAcl kid acl →
        aclAllows acl user.userId K.opClass = false) →
          ¬ Succeeded working retirement W i user K) ∧
    (∀ i j user user' data data' kid, (revokeKeyOp data).target = .ok kid →
      (revokeKeyOp data').target = .ok kid →
        Succeeded working retirement W i user (revokeKeyOp data) →
          Succeeded working retirement W j user' (revokeKeyOp data') → i = j) :=
  ⟨by decide +kernel, operations_fresh working denoted retirement working_reliable
    retirement_configured 0 Tables.Table.empty retirementSchedule⟩

end Freshness
