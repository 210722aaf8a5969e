import KeyVault.AclNormal
import KeyVault.JsObjects

/-!
# Values that give a secret away

A text is read as a term: an encryption or a signature of a payload, or plain text. A
value gives a secret away where the secret stands in it in the clear, or under anything
but the encryption with a key encryption key. Signed payloads are public, and so is what
is encrypted with a key that somebody else may have.
-/

namespace SecretTerms

open JsValue AclNormal

def isBase64url (c : Char) : Bool :=
  ('A' ≤ c && c ≤ 'Z') || ('a' ≤ c && c ≤ 'z') || ('0' ≤ c && c ≤ '9') || c == '-' || c == '_'

/-- The text of a private member of a JWK: at least 128 bits in base64url that nobody takes
for a part of a UUID. -/
structure Secret where
  text : String
  base64url : ∀ c ∈ text.toList, isBase64url c = true
  long : 22 ≤ text.toList.length
  unlikeUuid : ∃ c ∈ text.toList, isHexDigit c = false ∧ c ≠ '-'

/-- Three or five segments: the compact serialization of a JWS or a JWE. -/
def isCompact (s : String) : Bool :=
  s.toList.all (fun c => isBase64url c || c == '.') &&
    (s.toList.count '.' == 2 || s.toList.count '.' == 4)

inductive Term where
  | encrypted (key payload : Json)
  | signed (key payload : Json)

/-- How texts are read. Key encryption keys are those that no user has. -/
structure Reading where
  term : String → Option Term
  header : String → Option Json
  kek : Json → Prop
  compact : ∀ s t, term s = some t → isCompact s = true

inductive Shows (R : Reading) (m : Secret) : Json → Prop where
  | clear {s : String} : m.text.toList <:+: s.toList → Shows R m (.str s)
  | header {s : String} {t : Term} {header : Json} :
      R.term s = some t → R.header s = some header → Shows R m header → Shows R m (.str s)
  | signed {s : String} {key payload : Json} :
      R.term s = some (.signed key payload) → Shows R m payload → Shows R m (.str s)
  | encrypted {s : String} {key payload : Json} :
      R.term s = some (.encrypted key payload) → ¬ R.kek key → Shows R m payload →
        Shows R m (.str s)
  | item {items : List Json} {v : Json} : v ∈ items → Shows R m v → Shows R m (.arr items)
  | name {props : Props} {p : String × Json} :
      p ∈ props → Shows R m (.str p.1) → Shows R m (.obj props)
  | value {props : Props} {p : String × Json} :
      p ∈ props → Shows R m p.2 → Shows R m (.obj props)

abbrev Hides (R : Reading) (m : Secret) (v : Json) : Prop := ¬ Shows R m v

variable {R : Reading} {m : Secret}

end SecretTerms
