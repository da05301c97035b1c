import RedisCluster.Library.Text

/-!
# Addresses

`Util.cpp`: texts `ip:port`, and the 64-bit number that stands for an address,
with `inet_addr` of the ip in its upper half. `atoi`, `inet_addr` and `inet_ntop`
follow the C library of a little-endian machine.
-/

set_option autoImplicit false

namespace RedisCluster.Source
open Library

/-! ## The C library -/

def isSpace (c : Char) : Bool :=
  c = ' ' || c = '\t' || c = '\n' || c = '\r' || c.toNat = 11 || c.toNat = 12

/-- Conversion to a 32-bit `int`. -/
def toInt32 (n : Int) : Int := n.bmod (2 ^ 32)

/-- `atoi`: `strtol` stays within `long`, its result is cut to `int`. -/
def atoi (s : Str) : Int :=
  let s := s.dropWhile isSpace
  let (negative, s) := match s with
    | '-' :: s => (true, s)
    | '+' :: s => (false, s)
    | s => (false, s)
  let n : Int := Nat.ofDigitChars 10 (s.takeWhile Char.isDigit) 0
  toInt32 (if negative then max (-2 ^ 63) (-n) else min (2 ^ 63 - 1) n)

def digitValue (c : Char) : Option Nat :=
  if c.isDigit then some (c.toNat - '0'.toNat)
  else if 'a' ≤ c ∧ c ≤ 'f' then some (c.toNat - 'a'.toNat + 10)
  else if 'A' ≤ c ∧ c ≤ 'F' then some (c.toNat - 'A'.toNat + 10)
  else none

def isDigitOf (base : Nat) (c : Char) : Bool := (digitValue c).any (· < base)

/-- The numeral at the start of a text, and what follows it. -/
def numeral (base : Nat) (s : Str) : Nat × Str :=
  ((s.takeWhile (isDigitOf base)).foldl (fun n c => base * n + (digitValue c).getD 0) 0,
    s.dropWhile (isDigitOf base))

/-- `strtoul` with base 0, where the text starts with a digit. -/
def strtoul : Str → Nat × Str
  | '0' :: x :: c :: s =>
    if (x = 'x' ∨ x = 'X') ∧ isDigitOf 16 c then numeral 16 (c :: s)
    else numeral 8 ('0' :: x :: c :: s)
  | '0' :: s => numeral 8 ('0' :: s)
  | s => numeral 10 s

/-- The number of a dotted address, with at most `dots` more dots: the last part fills
the bytes that are left, and a blank ends the address. -/
def inetNumber : Nat → Str → Option Nat
  | _, [] => none
  | dots, c :: s =>
    if c.isDigit then
      match dots, strtoul (c :: s) with
      | dots + 1, (part, '.' :: rest) =>
        if part < 256 then (inetNumber dots rest).map (part * 256 ^ (dots + 1) + ·) else none
      | dots, (part, rest) =>
        if rest.head?.all isSpace ∧ part < 256 ^ (dots + 1) then some part else none
    else none

/-- The bytes of an address, as `struct in_addr` keeps them: the first part lowest. -/
def byteSwap (n : UInt32) : UInt32 :=
  let second : UInt32 := n &&& 0xff00
  let third : UInt32 := (n >>> 8) &&& 0xff00
  (n <<< 24) ||| (second <<< 8) ||| third ||| (n >>> 24)

/-- `INADDR_NONE` for what is no address. -/
def inetAddr (ip : Str) : UInt32 :=
  match inetNumber 3 ip with
  | some n => byteSwap (UInt32.ofNat n)
  | none => 0xffffffff

def inetNtop (n : UInt32) : Str :=
  let byte (k : UInt32) : Str := Text.decimal ((n >>> (8 * k)).toNat % 256)
  byte 0 ++ '.' :: byte 1 ++ '.' :: byte 2 ++ '.' :: byte 3

/-! ## Util.cpp -/

def ipv4Int64 (ip : Str) (port : Int) : UInt64 :=
  ((inetAddr ip).toUInt64 <<< 32) ||| (UInt32.ofInt port).toUInt64

def int64Ipv4 (ipv4 : UInt64) : Str × Int :=
  (inetNtop (ipv4 >>> 32).toUInt32, toInt32 (ipv4 &&& 0x00000000FFFFFFFF).toNat)

/-- The error texts stay with the source: no caller reads them. -/
def strIpv4 (addr : Str) : Option (Str × Int) :=
  match Text.cutAt ':' addr with
  | none => none
  | some (ip, rest) =>
    let port := atoi rest
    if port = 0 ∨ ip = [] then none else some (ip, port)

def strIpv4Int64 (addr : Str) : Option UInt64 :=
  (strIpv4 addr).map fun (ip, port) => ipv4Int64 ip port

def int64StrIpv4 (ipv4 : UInt64) : Str :=
  (int64Ipv4 ipv4).1 ++ ':' :: Text.decimal (int64Ipv4 ipv4).2

example : int64StrIpv4 (ipv4Int64 "10.0.0.7".toList 6379) = "10.0.0.7:6379".toList := by
  decide +kernel

end RedisCluster.Source
