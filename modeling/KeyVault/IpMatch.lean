import KeyVault.JsValue

/-!
# Client addresses and allowedIP entries

ipmatch.js and clientip.js: the address parsers, the entry syntax, the match, and
the choice of the client address from the socket peer and X-Forwarded-For.
-/

namespace IpMatch

open JsValue

def isOctetText (cs : List Char) : Bool :=
  1 ≤ cs.length && cs.length ≤ 3 && cs.all Char.isDigit

/-- The four parts of `\d{1,3}\.\d{1,3}\.\d{1,3}\.\d{1,3}`. -/
def dottedQuad (cs : List Char) : Option (List (List Char)) :=
  let parts := cs.splitOn '.'
  if parts.length == 4 && parts.all isOctetText then some parts else none

def parseDecimal (cs : List Char) : Nat :=
  cs.foldl (fun v c => v * 10 + (c.toNat - 48)) 0

def joinOctets : List (List Char) → Nat → Option Nat
  | [], v => some v
  | part :: rest, v =>
    if parseDecimal part > 255 then none else joinOctets rest (v * 256 + parseDecimal part)

def parseIPv4Chars (cs : List Char) : Option Nat :=
  (dottedQuad (trimChars cs)).bind (fun parts => joinOctets parts 0)

/-- Split before the last character that satisfies `p` and after it: `^(.*p)(.*)$`. -/
def splitAfterLast (p : Char → Bool) (cs : List Char) : Option (List Char × List Char) :=
  let tail := (cs.reverse.takeWhile (fun c => !p c)).reverse
  let head := (cs.reverse.dropWhile (fun c => !p c)).reverse
  if head.isEmpty then none else some (head, tail)

/-- The text before and after the first `::`. -/
def splitDoubleColon : List Char → Option (List Char × List Char)
  | ':' :: ':' :: rest => some ([], rest)
  | c :: rest => (splitDoubleColon rest).map (fun p => (c :: p.1, p.2))
  | [] => none

def hexDigit (c : Char) : Nat :=
  if '0' ≤ c && c ≤ '9' then c.toNat - 48 else c.toNat - 87

def isGroupText (cs : List Char) : Bool :=
  1 ≤ cs.length && cs.length ≤ 4 &&
    cs.all (fun c => ('0' ≤ c && c ≤ '9') || ('a' ≤ c && c ≤ 'f'))

def parseHex (cs : List Char) : Nat := cs.foldl (fun v c => v * 16 + hexDigit c) 0

def joinGroups : List (List Char) → Nat → Option Nat
  | [], v => some v
  | g :: rest, v => if isGroupText g then joinGroups rest ((v <<< 16) ||| parseHex g) else none

def splitGroups (cs : List Char) : List (List Char) :=
  if cs.isEmpty then [] else cs.splitOn ':'

/-- An embedded IPv4 tail becomes two hex groups; `none` when its octets are too large. -/
def unfoldTail (cs : List Char) : Option (List Char) :=
  match splitAfterLast (· == ':') cs with
  | none => some cs
  | some (head, tail) =>
    if (dottedQuad tail).isSome && !head.any isLineTerminator then
      (parseIPv4Chars tail).map (fun v4 =>
        head ++ Nat.toDigits 16 (v4 / 65536) ++ ':' :: Nat.toDigits 16 (v4 % 65536))
    else some cs

/-- The eight groups of an address whose IPv4 tail is already unfolded. -/
def expandGroups (cs : List Char) : Option (List (List Char)) :=
  match splitDoubleColon cs with
  | some (before, after) =>
    if (splitDoubleColon (':' :: after)).isSome then none
    else
      let head := splitGroups before
      let tail := splitGroups after
      if head.length + tail.length > 7 then none
      else some (head ++ List.replicate (8 - head.length - tail.length) ['0'] ++ tail)
  | none =>
    let head := cs.splitOn ':'
    if head.length == 8 then some head else none

def parseIPv6Chars (cs : List Char) : Option Nat :=
  let cs := (trimChars cs).map Char.toLower
  if cs.isEmpty then none
  else ((unfoldTail cs).bind expandGroups).bind (fun groups => joinGroups groups 0)

def parseIPv6 (s : String) : Option Nat := parseIPv6Chars s.toList

inductive Family where
  | v4
  | v6
  deriving DecidableEq, Repr

inductive Entry where
  | addr (family : Family) (addr : Nat)
  | range (start stop : Nat)
  | cidr (family : Family) (addr len : Nat)
  deriving DecidableEq, Repr

def parseAddr (cs : List Char) : Option (Family × Nat) :=
  match parseIPv4Chars cs with
  | some v4 => some (.v4, v4)
  | none => (parseIPv6Chars cs).map (fun v6 => (.v6, v6))

def parseEntryText (cs : List Char) : Option Entry :=
  match cs.splitOn '/' with
  | [addr, len] =>
    if !addr.isEmpty && isOctetText len then
      match parseAddr addr with
      | some (.v4, v) =>
        if parseDecimal len > 32 then none else some (.cidr .v4 v (parseDecimal len))
      | some (.v6, v) =>
        if parseDecimal len > 128 then none else some (.cidr .v6 v (parseDecimal len))
      | none => none
    else rangeOrAddr cs
  | _ => rangeOrAddr cs
where
  rangeOrAddr (cs : List Char) : Option Entry :=
    if cs.contains '-' then
      match cs.splitOn '-' with
      | [a, b] =>
        match parseIPv4Chars a, parseIPv4Chars b with
        | some start, some stop => if start > stop then none else some (.range start stop)
        | _, _ => none
      | _ => none
    else (parseAddr cs).map (fun p => .addr p.1 p.2)

def parseEntry : Json → Option Entry
  | .str s => parseEntryText (trimChars s.toList)
  | _ => none

/-- `0xffffffff - (2 ** (32 - len) - 1)`. -/
def mask4 (len : Nat) : Nat := 0xffffffff - (2 ^ (32 - len) - 1)

/-- `(addr & mask) >>> 0`: both operands go through 32-bit integers. -/
def and32 (a b : Nat) : Nat := (BitVec.ofNat 32 a &&& BitVec.ofNat 32 b).toNat

def matchEntry (desc : Option Entry) (family : Family) (addr : Nat) : Bool :=
  match desc with
  | none => false
  | some (.addr f a) => f == family && a == addr
  | some (.range start stop) => .v4 == family && start ≤ addr && addr ≤ stop
  | some (.cidr f a len) =>
    f == family &&
      (len == 0 ||
        match f with
        | .v4 => and32 addr (mask4 len) == and32 a (mask4 len)
        | .v6 => addr >>> (128 - len) == a >>> (128 - len))

def ipAllowed (ip : String) (allowedList : Option Json) : Bool :=
  match allowedList with
  | some (.arr entries) =>
    match parseAddr ip.toList with
    | some (family, addr) => entries.any (fun e => matchEntry (parseEntry e) family addr)
    | none => false
  | _ => false

/-- `validateAllowedIP` on an array: the entries that are syntactically invalid. -/
def validateAllowedIP (allowedList : List Json) : List Json :=
  allowedList.filter (fun e => (parseEntry e).isNone)

def mappedPrefix : List Char := "::ffff:".toList

/-- `normIp`: blank tokens are dropped, `::ffff:1.2.3.4` is unwrapped. -/
def normIp (s : String) : Option String :=
  let cs := trimChars s.toList
  if cs.isEmpty then none
  else
    let tail := cs.drop mappedPrefix.length
    if (cs.take mappedPrefix.length).map Char.toLower == mappedPrefix && (dottedQuad tail).isSome
    then some (String.ofList tail) else some (String.ofList cs)

def splitComma (s : String) : List String := (s.toList.splitOn ',').map String.ofList

/-- `deriveClientIp`; an absent or empty header contributes no entries. -/
def deriveClientIp (socketPeer xffHeader : Option String) (hops : Int) : Option String :=
  let peer := socketPeer.bind normIp
  let parts := match xffHeader with
    | none => []
    | some h => if h = "" then [] else (splitComma h).filterMap normIp
  let list := peer :: parts.reverse.map some
  let idx := if hops < 0 then 0 else hops.toNat
  let idx := if idx > list.length - 1 then list.length - 1 else idx
  (list.getD idx none).or peer

end IpMatch
