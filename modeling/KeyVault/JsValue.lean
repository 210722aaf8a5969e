import Mathlib

/-!
# JavaScript values

Values that `JSON.parse` returns, and what the vault does with them: property
access, `Object.assign`, the syntax checks of basicutils.js. A number is an
integral value or, for every other double, its decimal text. An object lists
its own properties in enumeration order; `undefined` is an absent value.
-/

namespace JsValue

inductive Json where
  | null
  | bool (b : Bool)
  | num (n : Int)
  | frac (text : String)
  | str (s : String)
  | arr (items : List Json)
  | obj (props : List (String × Json))
  deriving Repr

abbrev Props := List (String × Json)

namespace Json

mutual
def same : Json → Json → Bool
  | null, null => true
  | bool a, bool b => a == b
  | num a, num b => a == b
  | frac a, frac b => a == b
  | str a, str b => a == b
  | arr a, arr b => sameItems a b
  | obj a, obj b => sameProps a b
  | _, _ => false

def sameItems : List Json → List Json → Bool
  | [], [] => true
  | a :: as, b :: bs => same a b && sameItems as bs
  | _, _ => false

def sameProps : List (String × Json) → List (String × Json) → Bool
  | [], [] => true
  | (m, a) :: as, (n, b) :: bs => m == n && same a b && sameProps as bs
  | _, _ => false
end

mutual
theorem same_iff : ∀ a b : Json, same a b = true ↔ a = b
  | null, b => by cases b <;> simp [same]
  | bool _, b => by cases b <;> simp [same]
  | num _, b => by cases b <;> simp [same]
  | frac _, b => by cases b <;> simp [same]
  | str _, b => by cases b <;> simp [same]
  | arr l, b => by cases b <;> simp [same, sameItems_iff l]
  | obj l, b => by cases b <;> simp [same, sameProps_iff l]

theorem sameItems_iff : ∀ a b : List Json, sameItems a b = true ↔ a = b
  | [], b => by cases b <;> simp [sameItems]
  | a :: as, b => by cases b <;> simp [sameItems, same_iff a, sameItems_iff as]

theorem sameProps_iff : ∀ a b : List (String × Json), sameProps a b = true ↔ a = b
  | [], b => by cases b <;> simp [sameProps]
  | (m, a) :: as, b => by
    cases b with
    | nil => simp [sameProps]
    | cons p bs => obtain ⟨n, b⟩ := p; simp [sameProps, same_iff a, sameProps_iff as, and_assoc]
end

instance : DecidableEq Json := fun a b => decidable_of_iff _ (same_iff a b)

instance : Inhabited Json := ⟨null⟩

/-- `isPlainObject` of basicutils.js. -/
def isPlainObject : Json → Bool
  | obj _ => true
  | _ => false

/-- `isUnixTs` of basicutils.js: a positive safe integer. -/
def isUnixTs : Json → Bool
  | num n => decide (0 < n ∧ n ≤ 9007199254740991)
  | _ => false

/-- The number of an integral value, for values that passed `isUnixTs`. -/
def toNat : Json → Nat
  | num n => n.toNat
  | _ => 0

/-- Own property access `x.name`; nothing the vault reads by name is inherited. -/
def get? : Json → String → Option Json
  | obj props, name => props.lookup name
  | _, _ => none

end Json

def toLowerCase (s : String) : String := String.ofList (s.toList.map Char.toLower)

def isHexDigit (c : Char) : Bool :=
  ('0' ≤ c && c ≤ '9') || ('a' ≤ c && c ≤ 'f') || ('A' ≤ c && c ≤ 'F')

/-- One predicate for each character: a regular expression without repetition. -/
def fits : List (Char → Bool) → List Char → Bool
  | [], [] => true
  | p :: ps, c :: cs => p c && fits ps cs
  | _, _ => false

def uuidShape : List (Char → Bool) :=
  let hex := isHexDigit
  let dash := (· == '-')
  List.replicate 8 hex ++ dash :: List.replicate 4 hex ++ dash :: List.replicate 4 hex ++
    dash :: List.replicate 4 hex ++ dash :: List.replicate 12 hex

def isUuid (s : String) : Bool := fits uuidShape s.toList

/-- `isUuid` of basicutils.js on an arbitrary value. -/
def Json.isUuid : Json → Bool
  | .str s => JsValue.isUuid s
  | _ => false

/-- White space of `\s` and of `trim`. -/
def isJsSpace (c : Char) : Bool :=
  c.toNat ∈ [9, 10, 11, 12, 13, 32, 0xa0, 0x1680, 0x2028, 0x2029, 0x202f, 0x205f, 0x3000, 0xfeff] ||
    (0x2000 ≤ c.toNat && c.toNat ≤ 0x200a)

def isLineTerminator (c : Char) : Bool :=
  c.toNat ∈ [10, 13, 0x2028, 0x2029]

def trimChars (cs : List Char) : List Char :=
  ((cs.dropWhile isJsSpace).reverse.dropWhile isJsSpace).reverse

@[simp] theorem toLowerCase_toLowerCase (s : String) :
    toLowerCase (toLowerCase s) = toLowerCase s := by
  simp only [toLowerCase, String.toList_ofList, List.map_map]
  congr 1
  exact List.map_congr_left (fun c _ => Char.toLower_toLower_eq_toLower c)

def hasProp (props : Props) (name : String) : Bool := (props.lookup name).isSome

/-- `x[name] = v`: an existing property keeps its place, a new one comes last. -/
def setProp (props : Props) (name : String) (v : Json) : Props :=
  if hasProp props name then props.map (fun p => if p.1 == name then (name, v) else p)
  else props ++ [(name, v)]

def deleteProp (props : Props) (name : String) : Props := props.filter (fun p => !(p.1 == name))

/-- `Object.assign(target, source)`. Assigning `__proto__` runs the inherited setter:
it replaces the prototype and leaves the own properties alone. -/
def objectAssign (target source : Props) : Props :=
  source.foldl (fun t p => if p.1 == "__proto__" then t else setProp t p.1 p.2) target

/-- The own enumerable properties that `Object.assign({}, x)` reads. -/
def ownProps : Json → Props
  | .obj props => props
  | .arr items => items.zipIdx.map (fun p => (toString p.2, p.1))
  | .str s => s.toList.zipIdx.map (fun p => (toString p.2, .str (String.ofList [p.1])))
  | _ => []

def keys (props : Props) : List String := props.map Prod.fst

/-- An object literal: properties whose value is `undefined` are not serialized. -/
def literal (props : List (String × Option Json)) : Props :=
  props.filterMap (fun p => p.2.map (fun v => (p.1, v)))

/-- The property names that every object inherits from `Object.prototype`. -/
def objectPrototype : List String :=
  ["constructor", "__defineGetter__", "__defineSetter__", "hasOwnProperty",
    "__lookupGetter__", "__lookupSetter__", "isPrototypeOf", "propertyIsEnumerable",
    "toString", "valueOf", "__proto__", "toLocaleString"]

@[simp] theorem get?_obj (props : Props) (name : String) :
    (Json.obj props).get? name = props.lookup name := rfl

theorem lookup_setProp_self (props : Props) (name : String) (v : Json) :
    (setProp props name v).lookup name = some v := by
  unfold setProp hasProp
  induction props with
  | nil => simp [List.lookup]
  | cons p rest ih =>
    obtain ⟨m, w⟩ := p
    by_cases h : name = m
    · subst h
      simp [List.lookup]
    · have hne : (name == m) = false := by simpa using h
      have hne' : (m == name) = false := by simpa using Ne.symm h
      simp only [List.lookup, hne] at ih ⊢
      split at ih
      · rename_i hs
        simp only [hs, if_true, List.map_cons, hne', Bool.false_eq_true, if_false, List.lookup, hne]
        exact ih
      · rename_i hs
        simp only [hs, Bool.false_eq_true, if_false, List.cons_append, List.lookup, hne]
        exact ih

theorem lookup_setProp_ne {props : Props} {name other : String} (v : Json) (h : other ≠ name) :
    (setProp props name v).lookup other = props.lookup other := by
  have hb : (other == name) = false := by simpa using h
  have hmap : ∀ l : Props,
      (l.map (fun p => if p.1 == name then (name, v) else p)).lookup other = l.lookup other := by
    intro l
    induction l with
    | nil => rfl
    | cons p rest ih =>
      obtain ⟨m, w⟩ := p
      by_cases hm : m = name
      · subst hm
        simpa [List.lookup, hb] using ih
      · have : (m == name) = false := by simpa using hm
        simp only [List.map_cons, this, Bool.false_eq_true, if_false, List.lookup, ih]
  unfold setProp
  split
  · exact hmap props
  · rw [List.lookup_append]
    simp [List.lookup, hb]

theorem lookup_deleteProp_ne {props : Props} {name other : String} (h : other ≠ name) :
    (deleteProp props name).lookup other = props.lookup other := by
  induction props with
  | nil => rfl
  | cons p rest ih =>
    obtain ⟨m, w⟩ := p
    by_cases hm : m = name
    · subst hm
      have : (other == m) = false := by simpa using h
      simpa [deleteProp, List.lookup, this] using ih
    · have : (m == name) = false := by simpa using hm
      simp only [deleteProp, List.filter_cons, this, Bool.not_false, if_true, List.lookup]
      simp only [deleteProp] at ih
      rw [ih]

end JsValue
