import RedisCluster.Library.Program
import RedisCluster.Source.Frames

/-!
# CityHash64

`city.cpp` as far as the routing table uses it, on a little-endian host. The text lies in memory
from `s` on, and every load from it is a call.
-/

set_option autoImplicit false

namespace RedisCluster.Source
open Library

/-! ## Loads -/

abbrev Loads := Program fun _ : Access => Nat

/-- A load of bytes at any place. -/
def unalignedLoad (p size : Nat) : Loads Nat := Program.ask ⟨p, size⟩

def fetch64 (p : Nat) : Loads UInt64 := return .ofNat (← unalignedLoad p 8)

def fetch32 (p : Nat) : Loads UInt32 := return .ofNat (← unalignedLoad p 4)

/-- `p[0]` as a `uint8` -/
def fetch8 (p : Nat) : Loads UInt8 := return .ofNat (← unalignedLoad p 1)

/-- Loads are served from memory, which stays as it is. -/
def serveLoad (mem : Memory) (c : Access) : Unit → Nat × Unit := fun u =>
  (Bytes.toNat (mem.read c.pos c.size), u)

/-! ## Mixing -/

def k0 : UInt64 := 0xc3a5c85c97cb3127
def k1 : UInt64 := 0xb492b66fbe98f273
def k2 : UInt64 := 0x9ae16a3b2f90404f
def k3 : UInt64 := 0xc949d7c7509e6557

def rotateByAtLeast1 (val shift : UInt64) : UInt64 := (val >>> shift) ||| (val <<< (64 - shift))

/-- The shift by 64 is avoided: it is not defined. -/
def rotate (val shift : UInt64) : UInt64 := if shift = 0 then val else rotateByAtLeast1 val shift

def shiftMix (val : UInt64) : UInt64 := val ^^^ (val >>> 47)

def kMul : UInt64 := 0x9ddfea08eb382d69

def hash128to64 (x : UInt64 × UInt64) : UInt64 :=
  let a := (x.1 ^^^ x.2) * kMul
  let a := a ^^^ (a >>> 47)
  let b := (x.2 ^^^ a) * kMul
  let b := b ^^^ (b >>> 47)
  b * kMul

def hashLen16 (u v : UInt64) : UInt64 := hash128to64 (u, v)

/-! ## Short texts -/

/-- Three cases: over 8 bytes, over 3, and less. -/
def hashLen0to16 (s : Nat) (len : UInt64) : Loads UInt64 :=
  if len > 8 then do
    let a ← fetch64 s
    let b ← fetch64 (s + len.toNat - 8)
    return hashLen16 a (rotateByAtLeast1 (b + len) len) ^^^ b
  else if len ≥ 4 then do
    let a := (← fetch32 s).toUInt64
    return hashLen16 (len + (a <<< 3)) (← fetch32 (s + len.toNat - 4)).toUInt64
  else if len > 0 then do
    let a ← fetch8 s
    let b ← fetch8 (s + (len >>> 1).toNat)
    let c ← fetch8 (s + len.toNat - 1)
    let y : UInt32 := a.toUInt32 + (b.toUInt32 <<< 8)
    let z : UInt32 := (len + (c.toUInt32 <<< 2).toUInt64).toUInt32
    return shiftMix (y.toUInt64 * k2 ^^^ z.toUInt64 * k3) * k2
  else return k2

def hashLen17to32 (s : Nat) (len : UInt64) : Loads UInt64 := do
  let a := (← fetch64 s) * k1
  let b ← fetch64 (s + 8)
  let c := (← fetch64 (s + len.toNat - 8)) * k2
  let d := (← fetch64 (s + len.toNat - 16)) * k0
  return hashLen16 (rotate (a - b) 43 + rotate c 30 + d) (a + rotate (b ^^^ k3) 20 - c + len)

def weakHashLen32WithSeeds (w x y z a b : UInt64) : UInt64 × UInt64 :=
  let a := a + w
  let b := rotate (b + a + z) 21
  let c := a
  let a := a + x
  let a := a + y
  let b := b + rotate a 44
  (a + z, b + c)

def weakHashLen32 (s : Nat) (a b : UInt64) : Loads (UInt64 × UInt64) :=
  return weakHashLen32WithSeeds (← fetch64 s) (← fetch64 (s + 8)) (← fetch64 (s + 16))
    (← fetch64 (s + 24)) a b

def hashLen33to64 (s : Nat) (len : UInt64) : Loads UInt64 := do
  let z ← fetch64 (s + 24)
  let a := (← fetch64 s) + (len + (← fetch64 (s + len.toNat - 16))) * k0
  let b := rotate (a + z) 52
  let c := rotate a 37
  let a := a + (← fetch64 (s + 8))
  let c := c + rotate a 7
  let a := a + (← fetch64 (s + 16))
  let vf := a + z
  let vs := b + rotate a 31 + c
  let a := (← fetch64 (s + 16)) + (← fetch64 (s + len.toNat - 32))
  let z ← fetch64 (s + len.toNat - 8)
  let b := rotate (a + z) 52
  let c := rotate a 37
  let a := a + (← fetch64 (s + len.toNat - 24))
  let c := c + rotate a 7
  let a := a + (← fetch64 (s + len.toNat - 16))
  let wf := a + z
  let ws := b + rotate a 31 + c
  let r := shiftMix ((vf + ws) * k2 + (wf + vs) * k0)
  return shiftMix (r * k0 + vs) * k2

/-! ## Long texts -/

/-- The 56 bytes of state. -/
structure CityState where
  v : UInt64 × UInt64
  w : UInt64 × UInt64
  x : UInt64
  y : UInt64
  z : UInt64

/-- The body of the loop. -/
def cityChunk (s : Nat) (st : CityState) : Loads CityState := do
  let x := rotate (st.x + st.y + st.v.1 + (← fetch64 (s + 8))) 37 * k1
  let y := rotate (st.y + st.v.2 + (← fetch64 (s + 48))) 42 * k1
  let x := x ^^^ st.w.2
  let y := y + (st.v.1 + (← fetch64 (s + 40)))
  let z := rotate (st.z + st.w.1) 33 * k1
  let v ← weakHashLen32 s (st.v.2 * k1) (x + st.w.1)
  let w ← weakHashLen32 (s + 32) (z + st.w.2) (y + (← fetch64 (s + 16)))
  -- `std::swap(z, x)`
  return ⟨v, w, z, y, x⟩

/-- The rounds of the loop, each 64 bytes further. -/
def cityChunks : Nat → Nat → CityState → Loads CityState
  | 0, _, st => return st
  | rounds + 1, s, st => do cityChunks rounds (s + 64) (← cityChunk s st)

/-- The loop takes 64 bytes at a time, and has looked at the last 64 first. -/
def hashLenOver64 (s : Nat) (len : UInt64) : Loads UInt64 := do
  let x ← fetch64 (s + len.toNat - 40)
  let y := (← fetch64 (s + len.toNat - 16)) + (← fetch64 (s + len.toNat - 56))
  let z := hashLen16 ((← fetch64 (s + len.toNat - 48)) + len) (← fetch64 (s + len.toNat - 24))
  let v ← weakHashLen32 (s + len.toNat - 64) len z
  let w ← weakHashLen32 (s + len.toNat - 32) (y + k1) x
  let x := x * k1 + (← fetch64 s)
  -- a multiple of 64 that is not 0, so that `do while (len != 0)` makes as many rounds
  let len := (len - 1) &&& ~~~63
  let st ← cityChunks (len.toNat / 64) s ⟨v, w, x, y, z⟩
  return hashLen16 (hashLen16 st.v.1 st.w.1 + shiftMix st.y * k1 + st.z)
    (hashLen16 st.v.2 st.w.2 + st.x)

/-- The function for the length. -/
def cityHash64 (s : Nat) (len : UInt64) : Loads UInt64 :=
  if len ≤ 32 then
    if len ≤ 16 then hashLen0to16 s len else hashLen17to32 s len
  else if len ≤ 64 then hashLen33to64 s len
  else hashLenOver64 s len

/-- The hash of a text in memory. -/
def cityHash64Of (mem : Memory) (s : Nat) (len : UInt64) : UInt64 :=
  (Program.run (serveLoad mem) (cityHash64 s len) ()).1

/-- Its loads. -/
def cityLoads (mem : Memory) (s : Nat) (len : UInt64) : List Access :=
  Program.calls (serveLoad mem) (cityHash64 s len) ()

/-- `CityHash64(key.c_str(), key.size())` -/
def keyHash (key : Str) : UInt64 :=
  cityHash64Of (.of (key.map fun c => UInt8.ofNat c.toNat) fun _ => 0) 0 (.ofNat key.length)

end RedisCluster.Source
