import KeyVault.Errors

/-!
# Access control lists

The ACL of a key maps user ids to operation classes; the `allowedOps` mask of a
user caps what any ACL grants. This is acl.js: the structural validation and the
lookups, on stored values of any shape.
-/

namespace Acl

open JsValue

/-- The operation classes of a key ACL, and the two pseudo-classes that only the
`allowedOps` mask knows. -/
inductive OpClass where
  | owner
  | encrypt
  | decrypt
  | sign
  | verify
  | exportPublicKey
  | exportSecretKey
  | revokeKey
  | generateKey
  | listKeys
  deriving DecidableEq, Repr

def OpClass.name : OpClass → String
  | owner => "owner"
  | encrypt => "encrypt"
  | decrypt => "decrypt"
  | sign => "sign"
  | verify => "verify"
  | exportPublicKey => "export-public-key"
  | exportSecretKey => "export-secret-key"
  | revokeKey => "revoke-key"
  | generateKey => "generate-key"
  | listKeys => "list-keys"

def opClasses : List OpClass :=
  [.owner, .encrypt, .decrypt, .sign, .verify, .exportPublicKey, .exportSecretKey, .revokeKey]

def keyOpClasses : List OpClass := opClasses.filter (fun c => !(c == .owner))

def allowedOpsClasses : List OpClass := keyOpClasses ++ [.generateKey, .listKeys]

theorem OpClass.name_injective : Function.Injective OpClass.name := by
  intro a b h
  cases a <;> cases b <;> first | rfl | exact absurd h (by decide)

/-- The class of `classes` that a value names, if it names one. -/
def findClass (classes : List OpClass) : Json → Option OpClass
  | .str s => classes.find? (fun c => c.name == s)
  | _ => none

/-- A validated ACL: lower-case user ids with their classes, in submission order. -/
abbrev AclMap := List (String × List OpClass)

def toJson (acl : AclMap) : Json :=
  .obj (acl.map (fun e => (e.1, .arr (e.2.map (fun c => .str c.name)))))

/-- The loop over the classes of one user; `seen` collects them without duplicates. -/
def validateOps : List Json → List OpClass → Except String (List OpClass)
  | [], seen => .ok seen
  | op :: rest, seen =>
    match findClass opClasses op with
    | none => .error "Unknown ACL operation class"
    | some c => validateOps rest (if c ∈ seen then seen else seen ++ [c])

/-- The loop over the users of an ACL, with the number of owners found so far. -/
def validateEntries : Props → AclMap → Nat → Except String (AclMap × Nat)
  | [], normalized, owners => .ok (normalized, owners)
  | (user, ops) :: rest, normalized, owners =>
    if !isUuid user then .error "ACL user must be an UUID"
    else if (normalized.lookup (toLowerCase user)).isSome then .error "Duplicate ACL user"
    else match ops with
      | .arr items =>
        match validateOps items [] with
        | .error e => .error e
        | .ok seen =>
          validateEntries rest (normalized ++ [(toLowerCase user, seen)])
            (if .owner ∈ seen then owners + 1 else owners)
      | _ => .error "ACL ops must be an array"

def validateAcl : Json → Except String AclMap
  | .obj props =>
    match validateEntries props [] 0 with
    | .error e => .error e
    | .ok (normalized, owners) =>
      if owners < 1 then .error "ACL must include at least one owner" else .ok normalized
  | _ => .error "ACL must be an object"

def aclAllows (acl : Json) (userId : String) (opClass : OpClass) : Bool :=
  acl.isPlainObject && isUuid userId && opClasses.contains opClass &&
    match acl.get? (toLowerCase userId) with
    | some (.arr ops) => ops.contains (.str opClass.name) || ops.contains (.str "owner")
    | _ => false

def aclAny (acl : Json) (userId : String) : Bool :=
  acl.isPlainObject && isUuid userId &&
    match acl.get? (toLowerCase userId) with
    | some (.arr ops) => decide (0 < ops.length)
    | _ => false

/-- `validateAllowedOps`, on the option strings of kv-admin. -/
def validateAllowedOps : List String → List OpClass → Except String (List OpClass)
  | [], seen => .ok seen
  | op :: rest, seen =>
    match findClass allowedOpsClasses (.str op) with
    | none => .error "Unknown allowedOps class"
    | some c => validateAllowedOps rest (if c ∈ seen then seen else seen ++ [c])

/-- The effective mask of a user, `none` for an unrestricted one. A malformed mask
denies everything. -/
def userAllowedOps (userData : Json) : Option (List Json) :=
  if userData.isPlainObject then
    match userData.get? "allowedOps" with
    | none => none
    | some (.arr ao) => some ao
    | some _ => some []
  else none

def allowedOpsAllows (userData : Json) (opClass : OpClass) : Bool :=
  match userAllowedOps userData with
  | none => true
  | some ao => ao.contains (.str opClass.name)

def effectiveAny (userData acl : Json) (userId : String) : Bool :=
  keyOpClasses.any (fun cls => aclAllows acl userId cls && allowedOpsAllows userData cls)

end Acl
