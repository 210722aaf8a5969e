import KeyVault.KvAdmin

/-!
# The options of kv-admin

What the option callbacks let through: ids are UUIDs in lower case, and account
timestamps are limited.
-/

namespace AdminOptions

open JsValue KvAdmin

/-- The callback of `--user`, `--kid` and `--co-owner`. -/
def uuidCb (s : String) : Option String := if isUuid s then some (toLowerCase s) else none

/-- The limits of `--nbf` and `--exp`. -/
def timestampMin : Nat := 1

def timestampMax : Nat := 253402300799

/-- The options are what the parser can have made of a command line. -/
structure Parsed (o : Opts) : Prop where
  user : ∀ s, o.user = some s → ∃ text, uuidCb text = some s
  kid : ∀ s, o.kid = some s → ∃ text, uuidCb text = some s
  coOwner : ∀ s ∈ o.coOwner, ∃ text, uuidCb text = some s
  nbf : ∀ n, o.nbf = some n → timestampMin ≤ n ∧ n ≤ timestampMax
  exp : ∀ n, o.exp = some n → timestampMin ≤ n ∧ n ≤ timestampMax

theorem uuidCb_lower {text s : String} (h : uuidCb text = some s) :
    isUuid text = true ∧ toLowerCase text = s := by
  unfold uuidCb at h
  split at h
  · rename_i huuid
    cases h
    exact ⟨huuid, rfl⟩
  · cases h

end AdminOptions
