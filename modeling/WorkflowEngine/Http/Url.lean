import WorkflowEngine.Json.Reader
import WorkflowEngine.Text.Hex
import WorkflowEngine.Text.Utf8

/-!
# Addresses of requests

An absolute `http` or `https` address is taken apart into host, port and request target. Reading is as
forgiving as browsers are: blanks around the address and line breaks in it are dropped, backslashes
count as slashes, and what may not stand in a path or a query is escaped. The fragment is dropped.
Names are checked for characters a host cannot have; they are not looked up.
-/
namespace WorkflowEngine

structure Url where
  secure : Bool
  host : String
  /-- Nothing for the scheme's own port. -/
  port : Option Nat
  /-- Path and query. -/
  target : String
  deriving DecidableEq, Inhabited

namespace Url

/-- One byte as an escape. -/
def escapeByte (b : UInt8) : List Char :=
  '%' :: [(Hex.digit (b.toNat / 16)).toUpper, (Hex.digit b.toNat).toUpper]

/-- Escape control characters, everything outside of ASCII, and the given characters. -/
def escape (special : List Char) (cs : List Char) : List Char :=
  cs.flatMap fun c =>
    if c.toNat < 0x20 || 0x7F ≤ c.toNat || special.contains c then
      (Bytes.ofText c.toString).flatMap escapeByte
    else [c]

def pathSpecials : List Char := [' ', '"', '<', '>', '\x60', '#', '?', '\x7b', '\x7d']

def querySpecials : List Char := [' ', '"', '#', '<', '>', '\x27']

/-- Characters a host name cannot have. -/
def hostSpecials : List Char :=
  [' ', '#', '/', ':', '<', '>', '?', '@', '[', '\\', ']', '^', '|', '%']

def isControl (c : Char) : Bool := c.toNat < 0x20 || c.toNat == 0x7F

/-- Split at every character that is a separator. -/
def splitAt (isSeparator : Char → Bool) : List Char → List (List Char)
  | [] => [[]]
  | c :: rest =>
    match splitAt isSeparator rest with
    | [] => [[c]]
    | first :: others => if isSeparator c then [] :: first :: others else (c :: first) :: others

def isSlash (c : Char) : Bool := c == '/' || c == '\\'

/-- A segment that stands for its own place: a dot, plain or escaped. -/
def isSingleDot (segment : List Char) : Bool :=
  [".", "%2e"].contains (String.ofList (segment.map Char.toLower))

/-- A segment that stands for the place above. -/
def isDoubleDot (segment : List Char) : Bool :=
  ["..", ".%2e", "%2e.", "%2e%2e"].contains (String.ofList (segment.map Char.toLower))

/-- Resolve dot segments; `kept` are the segments so far, last first. -/
def resolve : (kept : List (List Char)) → List (List Char) → List (List Char)
  | kept, [] => kept.reverse
  | kept, [last] =>
    if isDoubleDot last then ([] :: kept.drop 1).reverse
    else if isSingleDot last then ([] :: kept).reverse
    else (last :: kept).reverse
  | kept, segment :: rest =>
    if isDoubleDot segment then resolve (kept.drop 1) rest
    else if isSingleDot segment then resolve kept rest
    else resolve (segment :: kept) rest

def pathChars (cs : List Char) : List Char :=
  let segments := (splitAt isSlash (if cs.head?.any isSlash then cs.drop 1 else cs)).map
    (escape pathSpecials)
  (resolve [] segments).flatMap fun segment => '/' :: segment

/-- The value of one part of a number address: decimal, octal or hexadecimal. -/
def addressPart? (part : List Char) : Option Nat :=
  match part with
  | [] => none
  | '0' :: 'x' :: rest => Hex.read? rest
  | '0' :: 'X' :: rest => Hex.read? rest
  | ['0'] => some 0
  | '0' :: rest =>
    if rest.all fun c => '0' ≤ c && c ≤ '7' then
      some (rest.foldl (fun n c => n * 8 + Decimal.digitValue c) 0)
    else none
  | part => if part.all Char.isDigit then some (Json.naturalOf part) else none

/-- Do the parts of a number address fit four bytes? -/
def addressFits : List Nat → Bool
  | [] => false
  | [last] => last < UInt32.size
  | parts =>
    parts.length ≤ 4 && parts.dropLast.all (· < 256) &&
      parts.getLast?.any fun last => last < Nat.pow 256 (5 - parts.length)

/-- A host whose last part is a number must be a number address. -/
def isHostValid (host : List Char) : Bool :=
  let parts := splitAt (· == '.') host
  let parts := if 1 < parts.length && parts.getLast?.any List.isEmpty then parts.dropLast else parts
  let last := parts.getLast?.getD []
  let numeric := (!last.isEmpty && last.all Char.isDigit) ||
    (last.take 2 == ['0', 'x'] && (addressPart? last).isSome)
  if numeric then
    match parts.mapM addressPart? with
    | some values => addressFits values
    | none => false
  else host.all fun c => !isControl c && !hostSpecials.contains c

/-- Undo escapes of single bytes below 128; others make a host invalid. -/
def unescapeHost : List Char → Option (List Char)
  | [] => some []
  | '%' :: a :: b :: rest => do
    let n ← Hex.read? [a, b]
    let rest ← unescapeHost rest
    if n < 0x80 then some (Char.ofNat n :: rest) else none
  | '%' :: _ => none
  | c :: rest => (unescapeHost rest).map (c :: ·)

/-- A host and a port. -/
def readAuthority (secure : Bool) (cs : List Char) : Option (String × Option Nat) := do
  -- what stands before the last at sign names a user
  let hostPort := (splitAt (· == '@') cs).getLast?.getD []
  let (host, portChars) ←
    match hostPort with
    | '[' :: rest =>
      match splitAt (· == ']') rest with
      | [inside, after] =>
        if inside.isEmpty || !inside.all (fun c => (Hex.value? c).isSome || c == ':' || c == '.')
            || !inside.contains ':' then none
        else
          match after with
          | [] => some ('[' :: (inside ++ [']']), [])
          | ':' :: port => some ('[' :: (inside ++ [']']), port)
          | _ => none
      | _ => none
    | _ =>
      let name := hostPort.takeWhile (· ≠ ':')
      match unescapeHost name with
      | none => none
      | some host =>
        if host.isEmpty || !isHostValid host then none
        else some (host.map Char.toLower, (hostPort.dropWhile (· ≠ ':')).drop 1)
  if portChars.isEmpty then return (String.ofList host, none)
  if !portChars.all Char.isDigit then none
  let port := Json.naturalOf portChars
  if 65535 < port then none
  return (String.ofList host, if port = (if secure then 443 else 80) then none else some port)

/-- The scheme and what follows its colon. -/
def readScheme (cs : List Char) : Option (Bool × List Char) :=
  let scheme := String.ofList ((cs.takeWhile (· ≠ ':')).map Char.toLower)
  let rest := (cs.dropWhile (· ≠ ':')).drop 1
  if scheme == "http" then some (false, rest)
  else if scheme == "https" then some (true, rest)
  else none

/-- Blanks and control characters around an address do not count. -/
def isOuter (c : Char) : Bool := c.toNat ≤ 0x20

def isLineBreak (c : Char) : Bool := c == '\t' || c == '\n' || c == '\r'

def parse? (text : String) : Option Url := do
  let inner := ((text.toList.dropWhile isOuter).reverse.dropWhile isOuter).reverse
  let (secure, rest) ← readScheme (inner.filter fun c => !isLineBreak c)
  let rest := rest.dropWhile isSlash
  let isEnd (c : Char) : Bool := isSlash c || c == '?' || c == '#'
  let (host, port) ← readAuthority secure (rest.takeWhile fun c => !isEnd c)
  let rest := (rest.dropWhile fun c => !isEnd c).takeWhile (· ≠ '#')
  let path := pathChars (rest.takeWhile (· ≠ '?'))
  let query :=
    match rest.dropWhile (· ≠ '?') with
    | [] => []
    | _ :: query => '?' :: escape querySpecials query
  return { secure, host, port, target := String.ofList (path ++ query) }

end Url

end WorkflowEngine
