/-!
# Socket addresses

Which hosts a server can be bound to: four numbers below 256 between dots, or an IPv6 address in brackets, perhaps with
the number of a scope. Names of hosts are not looked up.
-/

namespace Dimensional
namespace CommandLine

/-- The value of a run of decimal digits. -/
def decimalValue (cs : List Char) : Nat :=
  cs.foldl (fun n c => 10 * n + (c.toNat - '0'.toNat)) 0

/-- A number below 256 without leading zeros. -/
def isOctet (cs : List Char) : Bool :=
  !cs.isEmpty && cs.all Char.isDigit && cs.length ≤ 3 && (cs.length == 1 || cs.head? != some '0') &&
    decimalValue cs < 256

/-- Four octets between dots. -/
def isIPv4 (cs : List Char) : Bool :=
  let parts := cs.splitOn '.'
  parts.length == 4 && parts.all isOctet

def isHexDigit (c : Char) : Bool :=
  c.isDigit || ('a' ≤ c && c ≤ 'f') || ('A' ≤ c && c ≤ 'F')

/-- A group of an IPv6 address. -/
def isHexGroup (cs : List Char) : Bool :=
  !cs.isEmpty && cs.length ≤ 4 && cs.all isHexDigit

/-- How many groups of 16 bits a part of an IPv6 address stands for. The last group may be the last 32 bits as an IPv4
address, if `mayEndInIPv4`. -/
def groupCount? (mayEndInIPv4 : Bool) : List (List Char) → Option Nat
  | [] => some 0
  | [last] =>
    if isHexGroup last then some 1 else if mayEndInIPv4 && isIPv4 last then some 2 else none
  | group :: rest => if isHexGroup group then (groupCount? mayEndInIPv4 rest).map (· + 1) else none

/-- The parts of an address in front of its first double colon and behind it. -/
def splitDoubleColon : List Char → List Char × Option (List Char)
  | ':' :: ':' :: rest => ([], some rest)
  | c :: rest =>
    let split := splitDoubleColon rest
    (c :: split.1, split.2)
  | [] => ([], none)

/-- The groups of a part of an address; none for an empty part. -/
def groups (cs : List Char) : List (List Char) :=
  if cs.isEmpty then [] else cs.splitOn ':'

/-- Eight groups, or fewer with a double colon in place of at least one. -/
def isIPv6 (cs : List Char) : Bool :=
  match splitDoubleColon cs with
  | (whole, none) => groupCount? true (groups whole) == some 8
  | (front, some back) =>
    match groupCount? false (groups front), groupCount? true (groups back) with
    | some m, some n => m + n ≤ 7
    | _, _ => false

/-- The number of a scope behind a percent sign, if there is one. -/
def isScope (cs : List Char) : Bool :=
  match cs with
  | [] => true
  | '%' :: digits => !digits.isEmpty && digits.all Char.isDigit && decimalValue digits < 4294967296
  | _ => false

/-- Whether a host is an address. -/
def isAddress (host : String) : Bool :=
  match host.toList with
  | '[' :: rest =>
    let inside := rest.dropLast
    rest.getLast? == some ']' && isIPv6 (inside.takeWhile (· != '%')) && isScope (inside.dropWhile (· != '%'))
  | cs => isIPv4 cs

end CommandLine
end Dimensional
