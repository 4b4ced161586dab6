import BoardGamesEmpire.JsText

set_option autoImplicit false

/-!
# IP literals of the secure HTTP client

`parseIp` and the byte and text conversions behind it. `isIPv4` and `isIPv6`
are the grammar of `node:net`: dotted quads without leading zeros, the textual
forms of RFC 4291, and a `%zone` suffix whose letters may include `.` and `:`.
-/
namespace BoardGamesEmpire.SecureHttpIp
open JsText

inductive IpFamily where
  | v4 | v6
deriving DecidableEq, Repr

structure ParsedIp where
  family : IpFamily
  canonical : Text
  bytes : List UInt8
  wasIpv4Mapped : Bool
deriving DecidableEq, Repr

/-- What `Array(n)` throws on a negative length. -/
inductive RangeError where
  | invalidArrayLength
deriving DecidableEq, Repr

def isOctet (s : Text) : Bool :=
  s.all (isDigit 10) && (s.length == 1 || (s.head? != some '0' && !s.isEmpty)) &&
    ofDigits 10 (digitsPrefix 10 s) ≤ 255

def isIPv4 (s : Text) : Bool :=
  let parts := s.splitOn '.'
  parts.length == 4 && parts.all isOctet

def isHexGroup (s : Text) : Bool :=
  1 ≤ s.length && s.length ≤ 4 && s.all (isDigit 16)

/-- The sixteen-bit groups a colon-separated tail stands for; only its last
    part may be a dotted quad, which counts as two. -/
def tailWidth : List Text → Option ℕ
  | [] => some 0
  | [last] => if isHexGroup last then some 1 else if isIPv4 last then some 2 else none
  | group :: rest => if isHexGroup group then (tailWidth rest).map (· + 1) else none

/-- `text ? text.split(':') : []`. -/
def groupsOf (text : Text) : List Text := if text = [] then [] else text.splitOn ':'

def isZone (s : Text) : Bool :=
  !s.isEmpty && s.all fun c => isDigit 36 c || c == '-' || c == '.' || c == ':'

def isIPv6Address (s : Text) : Bool :=
  match cutFirst [':', ':'] s with
  | none => tailWidth (s.splitOn ':') == some 8
  | some (left, right) =>
    (groupsOf left).all isHexGroup &&
      match tailWidth (groupsOf right) with
      | some width => (groupsOf left).length + width ≤ 7
      | none => false

def isIPv6 (s : Text) : Bool :=
  match cutFirst ['%'] s with
  | none => isIPv6Address s
  | some (address, zone) => isIPv6Address address && isZone zone

/-- A missing part reads as `undefined`, which parses to `NaN`. -/
def ipv4ToBytes (input : Text) : List UInt8 :=
  let parts := input.splitOn '.'
  (List.range 4).map fun i => toUint8 (parts[i]?.bind fun part => parseInt part 10)

/-- Replace an embedded dotted-quad tail by its two hexadecimal groups. -/
def normalizeTail (input : Text) : Text :=
  let tail := afterLast ':' input
  if '.' ∈ tail then
    let v4 := ipv4ToBytes tail
    let word (i : ℕ) := toText 16 ((v4.getD i 0).toNat * 256 + (v4.getD (i + 1) 0).toNat)
    throughLast ':' input ++ word 0 ++ [':'] ++ word 2
  else input

/-- Expand `::` to zero groups. `Array(zerosNeeded)` throws when the text left
    and right of it already has more than eight groups. -/
def expandGroups (normalized : Text) : Except RangeError (List Text) :=
  match cutFirst [':', ':'] normalized with
  | none => .ok (normalized.splitOn ':')
  | some (left, right) =>
    let zerosNeeded : ℤ := 8 - (groupsOf left).length - (groupsOf right).length
    if zerosNeeded < 0 then .error .invalidArrayLength
    else .ok (groupsOf left ++ List.replicate zerosNeeded.toNat ['0'] ++ groupsOf right)

/-- `Number.parseInt(groups[i] || '0', 16)`. -/
def groupValue : Option Text → Option ℤ
  | none | some [] => parseInt ['0'] 16
  | some group => parseInt group 16

def groupsToBytes (groups : List Text) : List UInt8 :=
  (List.range 8).flatMap fun i =>
    [byteAt 8 (groupValue groups[i]?), byteAt 0 (groupValue groups[i]?)]

def ipv6ToBytes (input : Text) : Except RangeError (List UInt8) :=
  (expandGroups (normalizeTail input)).map groupsToBytes

structure ZeroRun where
  bestStart : Option ℕ
  bestLen : ℕ
  curStart : Option ℕ
  curLen : ℕ
deriving DecidableEq, Repr

def scanGroup (groups : List Text) (run : ZeroRun) (i : ℕ) : ZeroRun :=
  if groups[i]? = some ['0'] then
    let start := run.curStart.getD i
    if run.curLen + 1 > run.bestLen then ⟨some start, run.curLen + 1, some start, run.curLen + 1⟩
    else ⟨run.bestStart, run.bestLen, some start, run.curLen + 1⟩
  else ⟨run.bestStart, run.bestLen, none, 0⟩

def longestZeroRun (groups : List Text) : ZeroRun :=
  (List.range 8).foldl (scanGroup groups) ⟨none, 0, none, 0⟩

def joinGroups (groups : List Text) : Text := [':'].intercalate groups

def hexGroups (bytes : List UInt8) : List Text :=
  (List.range 8).map fun i =>
    toText 16 ((bytes.getD (2 * i) 0).toNat * 256 + (bytes.getD (2 * i + 1) 0).toNat)

/-- RFC 5952 text: the leftmost longest run of two or more zero groups becomes `::`. -/
def bytesToCanonicalIpv6 (bytes : List UInt8) : Text :=
  let groups := hexGroups bytes
  let run := longestZeroRun groups
  let start := run.bestStart.getD 0
  if 2 ≤ run.bestLen then
    joinGroups (groups.take start) ++ [':', ':'] ++ joinGroups (groups.drop (start + run.bestLen))
  else joinGroups groups

def isIpv4Mapped (bytes : List UInt8) : Bool :=
  bytes.length == 16 && (bytes.take 10).all (· == 0) && bytes.getD 10 0 == 0xff &&
    bytes.getD 11 0 == 0xff

def dottedQuad (bytes : List UInt8) : Text :=
  ['.'].intercalate ((List.range 4).map fun i => toText 10 (bytes.getD i 0).toNat)

def parseIp (casing : LowerCasing) (input : Text) : Except RangeError (Option ParsedIp) :=
  let lower := casing.toLowerCase input
  if isIPv4 lower then .ok (some ⟨.v4, lower, ipv4ToBytes lower, false⟩)
  else if isIPv6 lower then
    (ipv6ToBytes lower).map fun v6Bytes =>
      if isIpv4Mapped v6Bytes then
        some ⟨.v4, dottedQuad (v6Bytes.drop 12), v6Bytes.drop 12, true⟩
      else some ⟨.v6, bytesToCanonicalIpv6 v6Bytes, v6Bytes, false⟩
  else .ok none

example : parseIp asciiLowerCasing "2001:DB8:0:0:1:0:0:1".toList = .ok (some ⟨.v6,
  "2001:db8::1:0:0:1".toList, [0x20, 1, 0xd, 0xb8, 0, 0, 0, 0, 0, 1, 0, 0, 0, 0, 0, 1], false⟩) := by
 decide +kernel

example : parseIp asciiLowerCasing "::ffff:10.0.0.1".toList =
  .ok (some ⟨.v4, "10.0.0.1".toList, [10, 0, 0, 1], true⟩) := by
 decide

end BoardGamesEmpire.SecureHttpIp
