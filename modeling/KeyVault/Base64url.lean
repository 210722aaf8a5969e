import KeyVault.Numerals
import KeyVault.Utf16
import Mathlib.Data.Nat.Size

/-!
# Base64url

`Buffer.from(text, 'base64url')`: of every UTF-16 code unit only the low byte is read, and
what comes from the first `=` on is not. Digits of both base64 alphabets count, other bytes
are skipped, and a last group that is not full gives the bytes it fills. An integer is
encoded by its bytes, the most significant one first.
-/

namespace Base64url

open Numerals Utf16

def sextet (byte : Nat) : Option Nat :=
  if 65 ≤ byte ∧ byte ≤ 90 then some (byte - 65)
  else if 97 ≤ byte ∧ byte ≤ 122 then some (byte - 71)
  else if 48 ≤ byte ∧ byte ≤ 57 then some (byte + 4)
  else if byte = 45 ∨ byte = 43 then some 62
  else if byte = 95 ∨ byte = 47 then some 63
  else none

/-- The digits before the first `=`. -/
def digits (text : String) : List Nat :=
  (((utf16 text).map (· % 256)).takeWhile (· != 61)).filterMap sextet

/-- Four digits of six bits make three bytes. -/
def group : List Nat → List Nat
  | a :: b :: c :: d :: rest =>
    (a * 4 + b / 16) :: (b % 16 * 16 + c / 4) :: (c % 4 * 64 + d) :: group rest
  | [a, b, c] => [a * 4 + b / 16, b % 16 * 16 + c / 4]
  | [a, b] => [a * 4 + b / 16]
  | _ => []

def bytes (text : String) : List Nat := group (digits text)

/-- The integer that the bytes encode. -/
def integer (text : String) : Nat := horner 256 (bytes text)

/-- The number of its significant bits. -/
def bitLength (text : String) : Nat := (integer text).size

theorem bitLength_le_iff {text : String} {n : Nat} : bitLength text ≤ n ↔ integer text < 2 ^ n :=
  Nat.size_le

/-- A code unit of two bytes is read by its low byte, and nothing is read after `=`. -/
example : bytes "ŁŁŁŁ" = [0, 0, 0] ∧ bytes "QUJD=QUJD" = [65, 66, 67] := by decide

end Base64url
