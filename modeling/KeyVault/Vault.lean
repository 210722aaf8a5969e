import KeyVault.Acl
import KeyVault.InsertionMap
import KeyVault.Interleaving
import KeyVault.KeyGen
import KeyVault.Tables

/-!
# The vault state and the calls on it

The two tables, the audit chain, the unwrap cache, the clock, and every call a
program of the vault can wait for: the statements of serverdb.js, an audit append,
the JOSE libraries, and the synchronous segments on the cache. A call that fails
has no effect. The libraries are parameters; `minted` and `born` only remember
what was generated and inserted.
-/

namespace Vault

open JsValue Acl KeyGen Errors Programs InsertionMap Tables

structure VaultUser where
  userId : String
  authToken : Option String
  data : Json
  deriving DecidableEq

/-- The columns of vault_key that `#keyRow` reads, with the timestamps in microseconds. The
parameters of an INSERT have the same names, and whole seconds in place of the timestamps. -/
structure VaultKey where
  keyId : String
  kty : String
  alg : String
  notBefore : Option Nat
  expiresAt : Option Nat
  publicKey : Option Json
  embeddingKeyId : String
  embeddedKey : String
  acl : Json
  deriving DecidableEq

structure KeyRow extends VaultKey where
  createdAt : Nat
  updatedAt : Nat
  deriving DecidableEq

structure AuditEvent where
  type : String
  ts : Nat
  fields : Props
  deriving DecidableEq

structure CacheEntry where
  embHash : String
  jwk : Json
  expires : Nat
  deriving DecidableEq

/-- The last second of a timestamptz. -/
def timestamptzMax : Nat := 9224318015999

/-- The largest time value of a JavaScript `Date`, in milliseconds. -/
def dateMax : Nat := 8640000000000000

/-- `getTime()` of the `Date` the driver builds from a column, which drops what is less than
a millisecond; `none` is `NaN`. -/
def getTime (micros : Nat) : Option Nat :=
  if micros / 1000 ≤ dateMax then some (micros / 1000) else none

/-- Code outside the repository: digests, random ids, tr-jwk, tr-jwe, tr-jwt, and the
database's TO_TIMESTAMP. A number selects the randomness of one use. -/
structure Libraries where
  sha256 : String → String
  randomUUID : Interleaving.ThreadId → Nat → String
  genRandomUuid : Nat → String
  cipherKeyGen : Nat → String → Except String OctJwk
  macKeyGen : Nat → String → Option Nat → Except String OctJwk
  ecKeyGen : Nat → Option String → Except String JwkPair
  rsaKeyGen : Nat → Option Nat → Except String JwkPair
  mlKemKeyGen : Nat → Option String → Except String JwkPair
  jweEncrypt : Nat → String → Json → Json → Option Json → Except String String
  jweDecrypt : String → Json → Except String Json
  jwtEncode : Nat → String → Json → Json → Except String String
  jwtDecode : Nat → String → Json → Except String Json
  /-- `JSON.parse(Buffer.from(part, 'base64url').toString('utf8'))`. -/
  parseSegment : String → Option Json
  /-- The microseconds that TO_TIMESTAMP makes of seconds, both since 1970. -/
  toTimestamp : Nat → Nat

/-- `generateVaultKey`. -/
def generateVaultKey (L : Libraries) (n : Nat) (spec : KeySpec) : Except String GeneratedKey :=
  match spec.kind with
  | some .aes => (L.cipherKeyGen n spec.alg).map (octKey spec)
  | some .hmac => (L.macKeyGen n spec.alg spec.bits).map (octKey spec)
  | some .ec => (L.ecKeyGen n spec.crv).map (pairKey spec "EC" (some spec.alg))
  | some .rsa => (L.rsaKeyGen n spec.modulusLength).map (pairKey spec "RSA" (some spec.alg))
  | some .mlKem => (L.mlKemKeyGen n spec.variant).map (pairKey spec "AKP" spec.variant)
  | none => .error "Internal error"

/-- The row that an INSERT with these parameters stores. -/
def VaultKey.toColumns (L : Libraries) (key : VaultKey) : VaultKey :=
  { key with
    notBefore := key.notBefore.map L.toTimestamp
    expiresAt := key.expiresAt.map L.toTimestamp }

section

variable (L : Libraries) (key : VaultKey)

@[simp] theorem VaultKey.toColumns_keyId : (key.toColumns L).keyId = key.keyId := rfl

@[simp] theorem VaultKey.toColumns_embeddingKeyId :
    (key.toColumns L).embeddingKeyId = key.embeddingKeyId := rfl

@[simp] theorem VaultKey.toColumns_acl : (key.toColumns L).acl = key.acl := rfl

end

inductive Call where
  | userByTokenHash (hash : String)
  | userById (userId : String)
  | insertUser (data : Json)
  | setUserToken (userId : String) (hash : Option String)
  | setUserData (userId : String) (data : Json)
  | removeUser (userId : String)
  | listUsers
  | missingUsers (userIds : List String)
  | insertKey (key : VaultKey)
  | keyById (keyId : String)
  | keysByAclUser (userId : String)
  | deleteKey (keyId : String)
  | updateKeyAcl (keyId : String) (acl : Json)
  | updateKeyEmbedding (keyId embeddingKeyId embeddedKey : String)
  | sweepExpiredKeys (graceSeconds : Nat)
  | keysNotEmbeddedWith (activeKekId : String)
  | ping
  | recordEvent (type : String) (fields : Props)
  | generateVaultKey (spec : KeySpec)
  | jweEncrypt (alg : String) (jwk payload : Json) (compress : Option Json)
  | jweDecrypt (token : String) (jwk : Json)
  | jwtEncode (alg : String) (jwk payload : Json)
  | jwtDecode (token : String) (jwk : Json)
  | dateNow
  | uptime
  | randomUUID
  | cacheLookup (kid embHash : String)
  | cacheFill (kid : String) (entry : CacheEntry) (max : Nat)
  | cacheDelete (kid : String)
  | cacheClear

@[reducible] def Ans : Call → Type
  | .userByTokenHash _ => Except String (Option VaultUser)
  | .userById _ => Except String (Option VaultUser)
  | .insertUser _ => Except String String
  | .setUserToken _ _ => Except String Bool
  | .setUserData _ _ => Except String Bool
  | .removeUser _ => Except String Bool
  | .listUsers => Except String (List VaultUser)
  | .missingUsers _ => Except String (List String)
  | .insertKey _ => Except String String
  | .keyById _ => Except String (Option VaultKey)
  | .keysByAclUser _ => Except String (List VaultKey)
  | .deleteKey _ => Except String Bool
  | .updateKeyAcl _ _ => Except String Bool
  | .updateKeyEmbedding _ _ _ => Except String Bool
  | .sweepExpiredKeys _ => Except String Nat
  | .keysNotEmbeddedWith _ => Except String (List VaultKey)
  | .ping => Except String Unit
  | .recordEvent _ _ => Except String Unit
  | .generateVaultKey _ => Except String GeneratedKey
  | .jweEncrypt _ _ _ _ => Except String String
  | .jweDecrypt _ _ => Except String Json
  | .jwtEncode _ _ _ => Except String String
  | .jwtDecode _ _ => Except String Json
  | .dateNow => Nat
  | .uptime => Nat
  | .randomUUID => String
  | .cacheLookup _ _ => Nat × Option Json
  | .cacheFill _ _ _ => Unit
  | .cacheDelete _ => Unit
  | .cacheClear => Unit

/-- Programs of the vault: they call, and they throw `Thrown`. -/
abbrev Api (α : Type) := Prog Ans Thrown α

def ask (c : Call) : Api (Ans c) := Prog.invoke c

@[simp] theorem ask_bind {α : Type} (c : Call) (f : Ans c → Api α) :
    @bind Api _ (no_index (Ans c)) α (ask c) f = Prog.call c f := rfl

theorem calls_ask {α : Type} {G : Call → Prop} {c : Call} {f : Ans c → Api α} (hc : G c)
    (hf : ∀ a, (f a).Calls G) : (ask c >>= f).Calls G := ⟨hc, hf⟩

theorem calls_lift {α β : Type} {G : Call → Prop} {r : Except Thrown α} {f : α → Api β}
    (hf : ∀ a, (f a).Calls G) : (liftM r >>= f).Calls G := (Prog.calls_done r).bind hf

section

variable {α β κ : Type} {learn : κ → (c : Call) → Ans c → κ} {G : κ → Call → Prop}
  {Q : κ → β → Prop} {k : κ}

theorem tracks_ask {c : Call} {f : Ans c → Api β} (hc : G k c)
    (hf : ∀ a, Prog.Tracks learn G Q (learn k c a) (f a)) :
    Prog.Tracks learn G Q k (ask c >>= f) := ⟨hc, hf⟩

theorem tracks_lift {r : Except Thrown α} {f : α → Api β}
    (hf : ∀ a, r = .ok a → Prog.Tracks learn G Q k (f a)) :
    Prog.Tracks learn G Q k (liftM r >>= f) := by
  cases r with
  | ok a => exact hf a rfl
  | error e => trivial

end

section

open Interleaving

variable {S T α β : Type} {P : Protocol S} {perform : Perform Ans S T} {i : ThreadId}
  {Q : Except Thrown β → S → Prop} {s : S}

theorem safe_ask {c : Call} {f : Ans c → Api β}
    (h : ∀ s', P.rely i s s' → P.inv s' → ∀ t,
      P.inv (perform i t c s').2 ∧ P.guar i s' (perform i t c s').2 ∧
        Safe P perform i Q (f (perform i t c s').1) (perform i t c s').2) :
    Safe P perform i Q (ask c >>= f) s := Safe.invoke h

theorem plays_ask {trace : List (Entry Ans S)} {c : Call} {f : Ans c → Api β}
    {r : Except Thrown β} (h : Plays trace i (ask c >>= f) r) :
    ∃ a, Made trace i c a ∧ Plays trace i (f a) r := h

theorem plays_lift {trace : List (Entry Ans S)} {r : Except Thrown α} {f : α → Api β} {b : β}
    (h : Plays trace i (liftM r >>= f) (.ok b)) : ∃ a, r = .ok a ∧ Plays trace i (f a) (.ok b) := by
  cases r with
  | ok a => exact ⟨a, rfl, h⟩
  | error e => cases h

theorem safe_lift {r : Except Thrown α} {f : α → Api β}
    (hok : ∀ a, r = .ok a → Safe P perform i Q (f a) s)
    (herror : ∀ e, r = .error e → Safe P perform i Q (.done (.error e)) s) :
    Safe P perform i Q (liftM r >>= f) s := Safe.lift hok herror

end

/-- A library or database call whose failure is an exception with its message. -/
def orThrow {α : Type} : Except String α → Except Thrown α
  | .ok a => .ok a
  | .error message => .error (.error message)

@[simp] theorem orThrow_ok {α : Type} (a : α) : orThrow (.ok a) = .ok a := rfl

@[simp] theorem orThrow_error {α : Type} (message : String) :
    (orThrow (.error message) : Except Thrown α) = .error (.error message) := rfl

theorem orThrow_eq_ok {α : Type} {r : Except String α} {a : α} : orThrow r = .ok a ↔ r = .ok a := by
  cases r <;> simp

abbrev Cache := OrderedMap String CacheEntry

/-- Both tables have a primary key. -/
abbrev UserTable := Table VaultUser VaultUser.userId

abbrev KeyTable := Table KeyRow (fun row => row.keyId)

structure World where
  users : UserTable
  keys : KeyTable
  events : List AuditEvent
  cache : Cache
  /-- `Date.now()` and `NOW()`, in milliseconds. -/
  clock : Nat
  /-- When the process started, for `process.uptime()`. -/
  started : Nat
  seed : Nat
  drawn : Interleaving.ThreadId → Nat
  minted : List (Interleaving.ThreadId × GeneratedKey)
  born : List VaultKey

/-- The circumstances of one call: whether it fails, and the time since the last one. -/
structure Turn where
  fails : Option String := none
  elapsed : Nat := 0
  deriving DecidableEq

def fresh (clock : Nat) : World where
  users := Table.empty
  keys := Table.empty
  events := []
  cache := OrderedMap.empty
  clock := clock
  started := clock
  seed := 0
  drawn := fun _ => 0
  minted := []
  born := []

/-- The synchronous start of `unwrap`: a hit moves to the end, a stale entry goes. -/
def lookupCache (cache : Cache) (kid embHash : String) (now : Nat) : Option Json × Cache :=
  match cache.get? kid with
  | none => (none, cache)
  | some cached =>
    if cached.embHash = embHash ∧ now < cached.expires then
      (some cached.jwk, (cache.delete kid).set kid cached)
    else (none, cache.delete kid)

/-- The synchronous end of `unwrap`. -/
def fillCache (cache : Cache) (kid : String) (entry : CacheEntry) (max : Nat) : Cache :=
  (cache.set kid entry).evict max

theorem lookupCache_entries {cache : Cache} {kid embHash : String} {now : Nat}
    {e : String × CacheEntry} (h : e ∈ (lookupCache cache kid embHash now).2.entries) :
    e ∈ cache.entries := by
  unfold lookupCache at h
  cases hget : cache.get? kid with
  | none => simpa only [hget] using h
  | some cached =>
    have hcached := (OrderedMap.get?_eq_some_iff cache kid cached).mp hget
    simp only [hget] at h
    split at h
    · rcases OrderedMap.mem_set h with rfl | h
      · exact hcached
      · exact (OrderedMap.mem_delete.mp h).1
    · exact (OrderedMap.mem_delete.mp h).1

/-- A hit is an entry of the cache, under the digest asked for and not yet expired. -/
theorem lookupCache_hit {cache : Cache} {kid embHash : String} {now : Nat} {jwk : Json}
    (h : (lookupCache cache kid embHash now).1 = some jwk) :
    ∃ entry, (kid, entry) ∈ cache.entries ∧ entry.embHash = embHash ∧ now < entry.expires ∧
      entry.jwk = jwk := by
  unfold lookupCache at h
  cases hget : cache.get? kid with
  | none => simp [hget] at h
  | some cached =>
    have hcached := (OrderedMap.get?_eq_some_iff cache kid cached).mp hget
    simp only [hget] at h
    split at h
    · rename_i hfresh
      exact ⟨cached, hcached, hfresh.1, hfresh.2, Option.some.inj h⟩
    · cases h

theorem fillCache_entries {cache : Cache} {kid : String} {entry : CacheEntry} {max : Nat}
    {e : String × CacheEntry} (h : e ∈ (fillCache cache kid entry max).entries) :
    e = (kid, entry) ∨ e ∈ cache.entries := OrderedMap.mem_set (OrderedMap.mem_evict h)

/-- `acl ? $1`: the text is a top-level key or array element. -/
def aclMentions (acl : Json) (userId : String) : Bool :=
  match acl with
  | .obj props => hasProp props userId
  | .arr items => items.contains (.str userId)
  | .str s => s == userId
  | _ => false

/-- `expires_at < NOW() - grace * INTERVAL '1 second'`. -/
def expired (clock graceSeconds : Nat) (row : KeyRow) : Bool :=
  match row.expiresAt with
  | none => false
  | some e => e + graceSeconds * 1000000 < clock * 1000

/-- A timestamp that the column can hold. -/
def inRange (micros : Option Nat) : Bool := micros.all (fun m => m / 1000000 ≤ timestamptzMax)

/-- What a call does when it does not fail. `i` is the calling process or request. -/
def effect (L : Libraries) (i : Interleaving.ThreadId) : (c : Call) → World → Ans c × World
  | .userByTokenHash hash, w => (.ok (w.users.rows.find? (fun u => u.authToken == some hash)), w)
  | .userById userId, w => (.ok (w.users.find userId), w)
  | .insertUser data, w =>
    if (w.users.find (L.genRandomUuid w.seed)).isSome then
      (.error "duplicate key value violates unique constraint", { w with seed := w.seed + 1 })
    else (.ok (L.genRandomUuid w.seed), { w with
      users := w.users.insert ⟨L.genRandomUuid w.seed, none, data⟩, seed := w.seed + 1 })
  | .setUserToken userId hash, w =>
    if hash.isSome && w.users.rows.any (fun u => u.authToken == hash && !(u.userId == userId)) then
      (.error "duplicate key value violates unique constraint", w)
    else (.ok (w.users.find userId).isSome, { w with
      users := w.users.update userId (fun u => { u with authToken := hash }) (fun _ => rfl) })
  | .setUserData userId data, w =>
    (.ok (w.users.find userId).isSome, { w with
      users := w.users.update userId (fun u => { u with data := data }) (fun _ => rfl) })
  | .removeUser userId, w =>
    (.ok (w.users.find userId).isSome, { w with users := w.users.erase userId })
  | .listUsers, w => (.ok w.users.rows, w)
  | .missingUsers userIds, w => (.ok (userIds.filter (fun u => (w.users.find u).isNone)), w)
  | .insertKey key, w =>
    if (w.keys.find key.keyId).isSome then
      (.error "duplicate key value violates unique constraint", w)
    else if inRange (key.toColumns L).notBefore && inRange (key.toColumns L).expiresAt then
      (.ok key.keyId, { w with
        keys := w.keys.insert
          { toVaultKey := key.toColumns L, createdAt := w.clock, updatedAt := w.clock },
        born := w.born ++ [key.toColumns L] })
    else (.error "timestamp out of range", w)
  | .keyById keyId, w => (.ok ((w.keys.find keyId).map KeyRow.toVaultKey), w)
  | .keysByAclUser userId, w =>
    (.ok ((w.keys.rows.filter (fun k => aclMentions k.acl userId)).map KeyRow.toVaultKey), w)
  | .deleteKey keyId, w =>
    (.ok (w.keys.find keyId).isSome, { w with keys := w.keys.erase keyId })
  | .updateKeyAcl keyId acl, w =>
    (.ok (w.keys.find keyId).isSome, { w with
      keys := w.keys.update keyId (fun k => { k with acl := acl, updatedAt := w.clock })
        (fun _ => rfl) })
  | .updateKeyEmbedding keyId embeddingKeyId embeddedKey, w =>
    (.ok (w.keys.find keyId).isSome, { w with
      keys := w.keys.update keyId (fun k => { k with
        embeddingKeyId := embeddingKeyId, embeddedKey := embeddedKey, updatedAt := w.clock })
        (fun _ => rfl) })
  | .sweepExpiredKeys graceSeconds, w =>
    (.ok (w.keys.rows.filter (expired w.clock graceSeconds)).length,
      { w with keys := w.keys.filter (fun k => !expired w.clock graceSeconds k) })
  | .keysNotEmbeddedWith activeKekId, w =>
    (.ok ((w.keys.rows.filter (fun k => !(k.embeddingKeyId == activeKekId))).map
      KeyRow.toVaultKey), w)
  | .ping, w => (.ok (), w)
  | .recordEvent type fields, w =>
    (.ok (), { w with events := w.events ++ [⟨"tr-key-vault:" ++ type, w.clock, fields⟩] })
  | .generateVaultKey spec, w =>
    (generateVaultKey L w.seed spec, { w with
      seed := w.seed + 1,
      minted := w.minted ++ (match generateVaultKey L w.seed spec with
        | .ok g => [(i, g)]
        | .error _ => []) })
  | .jweEncrypt alg jwk payload compress, w =>
    (L.jweEncrypt w.seed alg jwk payload compress, { w with seed := w.seed + 1 })
  | .jweDecrypt token jwk, w => (L.jweDecrypt token jwk, w)
  | .jwtEncode alg jwk payload, w =>
    (L.jwtEncode w.seed alg jwk payload, { w with seed := w.seed + 1 })
  | .jwtDecode token jwk, w => (L.jwtDecode w.clock token jwk, w)
  | .dateNow, w => (w.clock, w)
  | .uptime, w => ((w.clock - w.started) / 1000, w)
  | .randomUUID, w =>
    (L.randomUUID i (w.drawn i), { w with drawn := Function.update w.drawn i (w.drawn i + 1) })
  | .cacheLookup kid embHash, w =>
    ((w.clock, (lookupCache w.cache kid embHash w.clock).1),
      { w with cache := (lookupCache w.cache kid embHash w.clock).2 })
  | .cacheFill kid entry max, w => ((), { w with cache := fillCache w.cache kid entry max })
  | .cacheDelete kid, w => ((), { w with cache := w.cache.delete kid })
  | .cacheClear, w => ((), { w with cache := OrderedMap.empty })

/-- The answer of a call that fails, for the calls that can. -/
def failure (message : String) : (c : Call) → Option (Ans c)
  | .userByTokenHash _ => some (.error message)
  | .userById _ => some (.error message)
  | .insertUser _ => some (.error message)
  | .setUserToken _ _ => some (.error message)
  | .setUserData _ _ => some (.error message)
  | .removeUser _ => some (.error message)
  | .listUsers => some (.error message)
  | .missingUsers _ => some (.error message)
  | .insertKey _ => some (.error message)
  | .keyById _ => some (.error message)
  | .keysByAclUser _ => some (.error message)
  | .deleteKey _ => some (.error message)
  | .updateKeyAcl _ _ => some (.error message)
  | .updateKeyEmbedding _ _ _ => some (.error message)
  | .sweepExpiredKeys _ => some (.error message)
  | .keysNotEmbeddedWith _ => some (.error message)
  | .ping => some (.error message)
  | .recordEvent _ _ => some (.error message)
  | .generateVaultKey _ => some (.error message)
  | .jweEncrypt _ _ _ _ => some (.error message)
  | .jweDecrypt _ _ => some (.error message)
  | .jwtEncode _ _ _ => some (.error message)
  | .jwtDecode _ _ => some (.error message)
  | .dateNow => none
  | .uptime => none
  | .randomUUID => none
  | .cacheLookup _ _ => none
  | .cacheFill _ _ _ => none
  | .cacheDelete _ => none
  | .cacheClear => none

/-- Time passes. -/
def World.tick (w : World) (ms : Nat) : World := { w with clock := w.clock + ms }

def perform (L : Libraries) : Interleaving.Perform Ans World Turn := fun i t c w =>
  match t.fails.bind (fun message => failure message c) with
  | some answer => (answer, w.tick t.elapsed)
  | none => effect L i c (w.tick t.elapsed)

/-- What is left of the circumstances, and the state; after the listed turns nothing
fails and no time passes. -/
structure Session where
  turns : List Turn
  world : World

def serve (L : Libraries) (i : Interleaving.ThreadId) : Handler Ans Session := fun c s =>
  let r := perform L i (s.turns.headD {}) c s.world
  (r.1, ⟨s.turns.tail, r.2⟩)

/-- The session after one call that changes nothing. -/
def Session.pass (s : Session) : Session :=
  ⟨s.turns.tail, s.world.tick (s.turns.headD {}).elapsed⟩

/-- A run that nothing disturbs. -/
def quiet (w : World) : Session := ⟨[], w⟩

@[simp] theorem quiet_pass (w : World) : (quiet w).pass = quiet w := rfl

end Vault
