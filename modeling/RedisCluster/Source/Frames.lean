import RedisCluster.Library.Bytes
import RedisCluster.Source.LogicCore

/-!
# Binary frames

`LogicCore::from_sublayer_old` and the `ltt` functions of `Util.cpp`, on a little-endian host
with a `long` of 64 bits. `p` starts at `pro.c_str()`, a place in a memory that does not end
with the frame. Every read through `p` is noted.
-/

set_option autoImplicit false

namespace RedisCluster.Source
open Library

/-! ## Reading and writing -/

/-- A `memcpy` from the stream: its place in the frame, and its size. -/
structure Access where
  pos : Nat
  size : Nat
  deriving DecidableEq, Repr

/-- The cursor `p`, and what has been read through it. -/
structure Cursor where
  p : Nat
  reads : List Access

/-- A reader that moves a cursor and notes what it has looked at. -/
abbrev Reader := StateM Cursor

section Streams
variable (mem : Memory)

/-- The `memcpy` into a variable that is 0 before, and `*p += sz`. -/
def memcpyStream (sz : Nat) : Reader Nat := fun c =>
  (Bytes.toNat (mem.read c.p sz), ⟨c.p + sz, c.reads ++ [⟨c.p, sz⟩]⟩)

/-- The bytes are taken as they stand, the lowest first. Fewer than four leave the rest 0. -/
def streamLttBit32 (sz : Nat) : Reader UInt32 := return .ofNat (← memcpyStream mem sz)

def streamLttBit64 (sz : Nat) : Reader UInt64 := return .ofNat (← memcpyStream mem sz)

end Streams

/-- The bytes that are written. -/
def bit32LttStream (n : UInt32) (sz : Nat) : List UInt8 := Bytes.ofNat sz n.toNat

def bit64LttStream (n : UInt64) (sz : Nat) : List UInt8 := Bytes.ofNat sz n.toNat

@[simp] theorem length_bit32LttStream (n : UInt32) (sz : Nat) : (bit32LttStream n sz).length = sz :=
  Bytes.length_ofNat ..

@[simp] theorem length_bit64LttStream (n : UInt64) (sz : Nat) : (bit64LttStream n sz).length = sz :=
  Bytes.length_ofNat ..

/-! ## from_sublayer_old -/

def protoTypeFin : Int := 2
def protoTypeFinDelay : Int := 3
def protoTypeUpidx : Int := 4

def protoLenHead : Nat := 2
def protoLenConn : Nat := 8
def protoLenType : Nat := 2
def protoLenSendidx : Nat := 4
def protoLenRecvidx : Nat := 4
def protoLenUid : Nat := 8
def protoLenStamp : Nat := 4
def protoLenCliType : Nat := 4

/-- The head that all frames have: its length, the connection and the type. -/
def protoLenGlobalHead : Nat := protoLenHead + protoLenConn + protoLenType

def protoLenFin : Nat := protoLenGlobalHead + protoLenSendidx + protoLenRecvidx + protoLenUid

def protoLenFinDelay : Nat :=
  protoLenGlobalHead + protoLenSendidx + protoLenRecvidx + protoLenUid + protoLenStamp

def protoLenUpidx : Nat :=
  protoLenGlobalHead + protoLenSendidx + protoLenRecvidx + protoLenUid + protoLenCliType

/-! Frames as `fin_test`, `fin_delay_test` and `upidx_test` write them. -/

/-- The length that is written is not looked at by the reader. -/
def writeHead (headLen : Nat) (connIdx : Int64) (proTp : Int) : List UInt8 :=
  bit32LttStream (.ofNat headLen) protoLenHead ++ bit64LttStream connIdx.toUInt64 protoLenConn ++
    bit32LttStream (.ofInt proTp) protoLenType

/-- The counts and the user, which all three types have. -/
def writeIdx (sendidx recvidx : Int32) (uid : Int64) : List UInt8 :=
  bit32LttStream sendidx.toUInt32 protoLenSendidx ++ bit32LttStream recvidx.toUInt32 protoLenRecvidx ++
    bit64LttStream uid.toUInt64 protoLenUid

/-- A frame as `fin_test` writes it. -/
def finFrame (connIdx : Int64) (sendidx recvidx : Int32) (uid : Int64) : List UInt8 :=
  writeHead protoLenFin connIdx protoTypeFin ++ writeIdx sendidx recvidx uid

/-- A frame as `fin_delay_test` writes it. -/
def finDelayFrame (connIdx : Int64) (sendidx recvidx : Int32) (uid : Int64) (delay : Int32) : List UInt8 :=
  writeHead protoLenFinDelay connIdx protoTypeFinDelay ++ writeIdx sendidx recvidx uid ++
    bit32LttStream delay.toUInt32 protoLenStamp

/-- A frame as `upidx_test` writes it. -/
def upidxFrame (connIdx : Int64) (sendidx recvidx : Int32) (uid : Int64) (cliTp : Int32) : List UInt8 :=
  writeHead protoLenUpidx connIdx protoTypeUpidx ++ writeIdx sendidx recvidx uid ++
    bit32LttStream cliTp.toUInt32 protoLenCliType

/-- The fields of a frame, one after the other, as far as its type has any. A frame of another
length than its type has is only logged. -/
def readFrame (mem : Memory) (now : Int) (sublayerIndex : Str) : Reader (Option (Int × Request)) := do
  let _headLen ← streamLttBit32 mem protoLenHead
  let connIdx := (← streamLttBit64 mem protoLenConn).toInt64.toInt
  let proTp := (← streamLttBit32 mem protoLenType).toInt32.toInt
  if proTp = protoTypeFin then
    let sendidx := (← streamLttBit32 mem protoLenSendidx).toInt32.toInt
    let recvidx := (← streamLttBit32 mem protoLenRecvidx).toInt32.toInt
    let uid := (← streamLttBit64 mem protoLenUid).toInt64.toInt
    return some (uid, .fin ⟨connIdx, ⟨sendidx, recvidx⟩, sublayerIndex⟩)
  else if proTp = protoTypeFinDelay then
    let sendidx := (← streamLttBit32 mem protoLenSendidx).toInt32.toInt
    let recvidx := (← streamLttBit32 mem protoLenRecvidx).toInt32.toInt
    let uid := (← streamLttBit64 mem protoLenUid).toInt64.toInt
    let expire := (← streamLttBit32 mem protoLenStamp).toInt32.toInt
    return some (uid, .finDelay ⟨⟨connIdx, ⟨sendidx, recvidx⟩, sublayerIndex⟩, expire⟩)
  else if proTp = protoTypeUpidx then
    let sendidx := (← streamLttBit32 mem protoLenSendidx).toInt32.toInt
    let recvidx := (← streamLttBit32 mem protoLenRecvidx).toInt32.toInt
    let uid := (← streamLttBit64 mem protoLenUid).toInt64.toInt
    let cliTp := (← streamLttBit32 mem protoLenCliType).toInt32.toInt
    return some (uid, .upidx ⟨⟨connIdx, ⟨sendidx, recvidx⟩, sublayerIndex⟩, now, cliTp, []⟩)
  else return none

/-- What `from_sublayer_old` does with a frame. -/
structure FrameRun (σ : Type) where
  reads : List Access
  /-- The arguments of `fin_fn`, `fin_delay_fn` or `upidx_fn`, if one of them is called. -/
  request : Option (Int × Request)
  calls : List HookCall
  state : σ

namespace LogicCore
variable {σ : Type} (lc : LogicCore σ)

/-- The calls for a frame; `syn_fn` is not among them. -/
def serveFrame (s : σ) : Option (Int × Request) → List HookCall × σ
  | some (uid, .fin pr) =>
    let ((rv, cliInfo), calls, s) := lc.finFn 100 uid pr s
    if rv = 0 then
      let (_, calls', s) := lc.offlineNotifyFn uid cliInfo s
      (calls ++ calls', s)
    else (calls, s)
  | some (uid, .finDelay pr) => (lc.finDelayFn 100 uid pr s).2
  | some (uid, .upidx pr) => (lc.upidxFn 100 uid pr s).2
  | _ => ([], s)

/-- `beyond` is what lies in memory behind the bytes of `pro`. -/
def fromSublayerOld (beyond : Memory) (now : Int) (sublayerIndex : Str) (pro : List UInt8) (s : σ) :
    FrameRun σ :=
  if pro.length < protoLenGlobalHead then ⟨[], none, [], s⟩
  else
    let (request, c) := readFrame (.of pro beyond) now sublayerIndex ⟨0, []⟩
    let (calls, s) := lc.serveFrame s request
    ⟨c.reads, request, calls, s⟩

end LogicCore
end RedisCluster.Source
