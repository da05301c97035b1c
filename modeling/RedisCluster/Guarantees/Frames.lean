import RedisCluster.Guarantees.MalformedMessages
import RedisCluster.Source.Frames

/-!
# Binary frames

What is read of a frame depends on its type only. A frame of another length than its type has
is read and served all the same, past its end where it is too short. A frame as it is written
is served with the values that were written.
-/

set_option autoImplicit false

namespace RedisCluster.Guarantees
open Library Source

/-! ## What is read -/

/-- What `type` says a frame is. -/
def frameType (pro : List UInt8) : Option ReqType :=
  let type : Int := Bytes.toNat ((pro.drop 10).take 2)
  if type = protoTypeFin then some .fin
  else if type = protoTypeFinDelay then some .finDelay
  else if type = protoTypeUpidx then some .upidx
  else none

/-- The length that a frame for this request has; there is none for `syn`. -/
def protoLen : ReqType → Option Nat
  | .syn => none
  | .fin => some protoLenFin
  | .finDelay => some protoLenFinDelay
  | .upidx => some protoLenUpidx

/-- The requests that a frame can make; `offline_notify_fn` only follows a `fin`. -/
def frameHook : HookCall → Option ReqType
  | .fin .. => some .fin
  | .finDelay .. => some .finDelay
  | .upidx .. => some .upidx
  | _ => none

/-- The calls of `fin_fn`, `fin_delay_fn` and `upidx_fn`. -/
def frameCalls (calls : List HookCall) : List HookCall :=
  calls.filter fun call => (frameHook call).isSome

/-- The hook of a type is set. -/
def hookSet {σ : Type} (lc : LogicCore σ) : ReqType → Bool
  | .syn => lc.synHook.isSome
  | .fin => lc.finHook.isSome
  | .finDelay => lc.finDelayHook.isSome
  | .upidx => lc.upidxHook.isSome

/-- Nothing is read that is not of the frame, and a hook is called only for a frame of the length
that belongs to it. -/
structure InFrame {σ : Type} (pro : List UInt8) (run : FrameRun σ) : Prop where
  reads : ∀ a ∈ run.reads, a.pos + a.size ≤ pro.length
  whole : ∀ call ∈ run.calls, ∀ type, frameHook call = some type → protoLen type = some pro.length

/-- A frame that has a head and a known type has the length of its type. It may be longer where
the hook of its type is not set, as then nothing is called. -/
def WellSized {σ : Type} (lc : LogicCore σ) (pro : List UInt8) : Prop :=
  protoLenGlobalHead ≤ pro.length → ∀ type, frameType pro = some type →
    protoLen type = some pro.length ∨
      hookSet lc type = false ∧ ∀ length, protoLen type = some length → length ≤ pro.length

/-- What `stream_ltt_bit32` reads at a place, as an `int`. -/
def int32At (mem : Memory) (pos size : Nat) : Int :=
  (UInt32.ofNat (Bytes.toNat (mem.read pos size))).toInt32.toInt

/-- What `stream_ltt_bit64` reads at a place, as a `long`. -/
def int64At (mem : Memory) (pos size : Nat) : Int :=
  (UInt64.ofNat (Bytes.toNat (mem.read pos size))).toInt64.toInt

/-- The reads of a frame of this type. -/
def fieldReads (type : Option ReqType) : List Access :=
  [⟨0, 2⟩, ⟨2, 8⟩, ⟨10, 2⟩] ++
    match type with
    | some .fin => [⟨12, 4⟩, ⟨16, 4⟩, ⟨20, 8⟩]
    | some .finDelay => [⟨12, 4⟩, ⟨16, 4⟩, ⟨20, 8⟩, ⟨28, 4⟩]
    | some .upidx => [⟨12, 4⟩, ⟨16, 4⟩, ⟨20, 8⟩, ⟨28, 4⟩]
    | _ => []

/-- What a frame of this type asks for. -/
def fieldRequest (mem : Memory) (now : Int) (sublayerIndex : Str) : Option ReqType → Option (Int × Request)
  | some .fin =>
    some (int64At mem 20 8, .fin ⟨int64At mem 2 8, ⟨int32At mem 12 4, int32At mem 16 4⟩, sublayerIndex⟩)
  | some .finDelay =>
    some (int64At mem 20 8, .finDelay ⟨⟨int64At mem 2 8, ⟨int32At mem 12 4, int32At mem 16 4⟩,
      sublayerIndex⟩, int32At mem 28 4⟩)
  | some .upidx =>
    some (int64At mem 20 8, .upidx ⟨⟨int64At mem 2 8, ⟨int32At mem 12 4, int32At mem 16 4⟩,
      sublayerIndex⟩, now, int32At mem 28 4, []⟩)
  | _ => none

section Read
variable {mem : Memory} {now : Int} {sublayerIndex : Str} {pro : List UInt8}

/-- Two bytes are too few for a negative number. -/
theorem int32At_type (beyond : Memory) (hhead : protoLenGlobalHead ≤ pro.length) :
    int32At (.of pro beyond) 10 2 = Bytes.toNat ((pro.drop 10).take 2) := by
  have hread : Memory.read (.of pro beyond) 10 2 = (pro.drop 10).take 2 := Memory.read_of beyond hhead
  have hlength : ((pro.drop 10).take 2).length ≤ 2 := List.length_take_le ..
  have hlt : Bytes.toNat ((pro.drop 10).take 2) < 2 ^ 31 := by
    have hbound := Bytes.toNat_lt ((pro.drop 10).take 2)
    have hpow : 256 ^ ((pro.drop 10).take 2).length ≤ 256 ^ 2 := Nat.pow_le_pow_right (by decide) hlength
    omega
  rw [int32At, hread, UInt32.toInt32_ofNat', Int32.toInt_ofNat_of_lt hlt]

/-- The branches of `readFrame`, with what they have read. -/
theorem readFrame_branch (mem : Memory) (now : Int) (sublayerIndex : Str) :
    readFrame mem now sublayerIndex ⟨0, []⟩ =
      if int32At mem 10 2 = protoTypeFin then
        (fieldRequest mem now sublayerIndex (some .fin), ⟨28, fieldReads (some .fin)⟩)
      else if int32At mem 10 2 = protoTypeFinDelay then
        (fieldRequest mem now sublayerIndex (some .finDelay), ⟨32, fieldReads (some .finDelay)⟩)
      else if int32At mem 10 2 = protoTypeUpidx then
        (fieldRequest mem now sublayerIndex (some .upidx), ⟨32, fieldReads (some .upidx)⟩)
      else (none, ⟨12, fieldReads none⟩) := by
  unfold readFrame
  simp only [bind, StateT.bind, streamLttBit32, streamLttBit64, memcpyStream]
  change (if int32At mem 10 2 = protoTypeFin then _ else if int32At mem 10 2 = protoTypeFinDelay then _
    else if int32At mem 10 2 = protoTypeUpidx then _ else _ : Reader _) _ = _
  split
  · rfl
  · split
    · rfl
    · split <;> rfl

/-- A frame is read as its type says. -/
theorem readFrame_eq (beyond : Memory) (hhead : protoLenGlobalHead ≤ pro.length) :
    (readFrame (.of pro beyond) now sublayerIndex ⟨0, []⟩).1 =
        fieldRequest (.of pro beyond) now sublayerIndex (frameType pro) ∧
      (readFrame (.of pro beyond) now sublayerIndex ⟨0, []⟩).2.reads = fieldReads (frameType pro) := by
  rw [readFrame_branch, int32At_type beyond hhead]
  unfold frameType
  dsimp only
  split
  · exact ⟨rfl, rfl⟩
  · split
    · exact ⟨rfl, rfl⟩
    · split <;> exact ⟨rfl, rfl⟩

variable {σ : Type} (lc : LogicCore σ) (beyond : Memory) (s : σ)

theorem fromSublayerOld_short (hshort : pro.length < protoLenGlobalHead) :
    lc.fromSublayerOld beyond now sublayerIndex pro s = ⟨[], none, [], s⟩ :=
  if_pos hshort

theorem fromSublayerOld_request (hhead : protoLenGlobalHead ≤ pro.length) :
    (lc.fromSublayerOld beyond now sublayerIndex pro s).request =
      fieldRequest (.of pro beyond) now sublayerIndex (frameType pro) := by
  rw [LogicCore.fromSublayerOld, if_neg (Nat.not_lt.mpr hhead)]
  exact (readFrame_eq beyond hhead).1

/-- The places that are read follow from the type alone. -/
theorem fromSublayerOld_reads (hhead : protoLenGlobalHead ≤ pro.length) :
    (lc.fromSublayerOld beyond now sublayerIndex pro s).reads = fieldReads (frameType pro) := by
  rw [LogicCore.fromSublayerOld, if_neg (Nat.not_lt.mpr hhead)]
  exact (readFrame_eq beyond hhead).2

theorem fromSublayerOld_calls (hhead : protoLenGlobalHead ≤ pro.length) :
    (lc.fromSublayerOld beyond now sublayerIndex pro s).calls =
      (lc.serveFrame s (fieldRequest (.of pro beyond) now sublayerIndex (frameType pro))).1 := by
  rw [LogicCore.fromSublayerOld, if_neg (Nat.not_lt.mpr hhead), ← (readFrame_eq beyond hhead).1]
  rfl

/-- The call for a request. -/
def hookCall (uid : Int) : Request → HookCall
  | .syn pr => .syn 100 uid pr
  | .fin pr => .fin 100 uid pr
  | .finDelay pr => .finDelay 100 uid pr
  | .upidx pr => .upidx 100 uid pr

/-- Of the three hooks a request calls its own, once, if that is set. -/
theorem serveFrame_calls {uid : Int} {r : Request} (hsyn : r.type ≠ .syn) :
    frameCalls (lc.serveFrame s (some (uid, r))).1 =
      if hookSet lc r.type = true then [hookCall uid r] else [] := by
  cases r with
  | syn pr => exact absurd rfl hsyn
  | fin pr =>
    have hnotify : ∀ cliInfo s, frameCalls (lc.offlineNotifyFn uid cliInfo s).2.1 = [] := by
      intro cliInfo s
      unfold LogicCore.offlineNotifyFn
      cases lc.offlineNotifyHook <;> rfl
    have hfin : frameCalls (lc.finFn 100 uid pr s).2.1 =
        if hookSet lc .fin = true then [hookCall uid (.fin pr)] else [] := by
      rw [hookSet, LogicCore.finFn]
      cases lc.finHook <;> rfl
    rw [LogicCore.serveFrame]
    dsimp only
    split
    · rw [frameCalls, List.filter_append]
      exact (congrArg₂ (· ++ ·) hfin (hnotify _ _)).trans (List.append_nil _)
    · exact hfin
  | finDelay pr =>
    rw [LogicCore.serveFrame, LogicCore.finDelayFn, Request.type, hookSet]
    cases lc.finDelayHook <;> rfl
  | upidx pr =>
    rw [LogicCore.serveFrame, LogicCore.upidxFn, Request.type, hookSet]
    cases lc.upidxHook <;> rfl

/-- A frame that was read as a request calls the hook of this request, if that is set, and no other
of the three. -/
theorem frameCalls_of_request {uid : Int} {r : Request}
    (h : (lc.fromSublayerOld beyond now sublayerIndex pro s).request = some (uid, r))
    (hsyn : r.type ≠ .syn) :
    frameCalls (lc.fromSublayerOld beyond now sublayerIndex pro s).calls =
      if hookSet lc r.type = true then [hookCall uid r] else [] := by
  by_cases hhead : protoLenGlobalHead ≤ pro.length
  · rw [fromSublayerOld_request lc beyond s hhead] at h
    rw [fromSublayerOld_calls lc beyond s hhead, h]
    exact serveFrame_calls lc s hsyn
  · rw [fromSublayerOld_short lc beyond s (Nat.not_le.mp hhead)] at h
    cases h

theorem frameHook_hookCall {uid : Int} {r : Request} (hsyn : r.type ≠ .syn) :
    frameHook (hookCall uid r) = some r.type := by
  cases r with
  | syn pr => exact absurd rfl hsyn
  | fin pr => rfl
  | finDelay pr => rfl
  | upidx pr => rfl

/-- A request is of the type that the frame has. -/
theorem fieldRequest_type {mem : Memory} {type : Option ReqType} {uid : Int} {r : Request}
    (h : fieldRequest mem now sublayerIndex type = some (uid, r)) : type = some r.type := by
  cases type with
  | none => cases h
  | some type =>
    cases type with
    | syn => cases h
    | fin =>
      obtain ⟨_, rfl⟩ := Prod.mk.inj (Option.some.inj h)
      rfl
    | finDelay =>
      obtain ⟨_, rfl⟩ := Prod.mk.inj (Option.some.inj h)
      rfl
    | upidx =>
      obtain ⟨_, rfl⟩ := Prod.mk.inj (Option.some.inj h)
      rfl

theorem frameType_ne_syn : frameType pro ≠ some .syn := by
  unfold frameType
  dsimp only
  split
  · simp
  · split
    · simp
    · split <;> simp

/-- A frame as long as its type says holds all its fields. -/
theorem fieldReads_inside {type : ReqType} {length : Nat} (h : protoLen type = some length) :
    ∀ a ∈ fieldReads (some type), a.pos + a.size ≤ length := by
  cases type with
  | syn => cases h
  | fin =>
    cases h
    decide
  | finDelay =>
    cases h
    decide
  | upidx =>
    cases h
    decide

/-- The last field ends where the frame ends. -/
theorem fieldReads_end {type : ReqType} {length : Nat} (h : protoLen type = some length) :
    ∃ a ∈ fieldReads (some type), a.pos + a.size = length := by
  cases type with
  | syn => cases h
  | fin =>
    cases h
    decide
  | finDelay =>
    cases h
    decide
  | upidx =>
    cases h
    decide

theorem fieldRequest_some {mem : Memory} {type : ReqType} (hsyn : type ≠ .syn) :
    ∃ uid r, fieldRequest mem now sublayerIndex (some type) = some (uid, r) := by
  cases type with
  | syn => exact absurd rfl hsyn
  | fin => exact ⟨_, _, rfl⟩
  | finDelay => exact ⟨_, _, rfl⟩
  | upidx => exact ⟨_, _, rfl⟩

end Read

/-- A frame is read inside of its bytes, and calls a hook only if it has the length of its type,
exactly where it is too short for a head, of no known type, of the length of its type, or longer
while the hook of its type is not set. What stands behind the bytes is any memory. A read behind
them is taken to return what is there, where the real one may end the program. -/
theorem frame_inside_iff {σ : Type} (lc : LogicCore σ) (beyond : Memory) (now : Int)
    (sublayerIndex : Str) (pro : List UInt8) (s : σ) :
    InFrame pro (lc.fromSublayerOld beyond now sublayerIndex pro s) ↔ WellSized lc pro := by
  by_cases hhead : protoLenGlobalHead ≤ pro.length
  · have served : ∀ type, frameType pro = some type → ∃ uid r, r.type = type ∧ r.type ≠ .syn ∧
        frameCalls (lc.fromSublayerOld beyond now sublayerIndex pro s).calls =
          if hookSet lc type = true then [hookCall uid r] else [] := by
      intro type htype
      have hsyn : type ≠ .syn := by
        rintro rfl
        exact frameType_ne_syn htype
      obtain ⟨uid, r, hr⟩ := @fieldRequest_some now sublayerIndex (.of pro beyond) type hsyn
      obtain rfl := Option.some.inj (fieldRequest_type hr)
      refine ⟨uid, r, rfl, hsyn, frameCalls_of_request lc beyond s ?_ hsyn⟩
      rw [fromSublayerOld_request lc beyond s hhead, htype, hr]
    constructor
    · intro inside _ type htype
      obtain ⟨uid, r, rfl, hsyn, hcalls⟩ := served type htype
      by_cases hset : hookSet lc r.type = true
      · left
        rw [if_pos hset] at hcalls
        have hcall : hookCall uid r ∈ frameCalls
            (lc.fromSublayerOld beyond now sublayerIndex pro s).calls := by simp [hcalls]
        exact inside.whole _ (List.mem_filter.mp hcall).1 _ (frameHook_hookCall hsyn)
      · refine Or.inr ⟨Bool.not_eq_true _ ▸ hset, fun length hlength => ?_⟩
        obtain ⟨a, ha, hend⟩ := fieldReads_end hlength
        rw [← hend]
        refine inside.reads a ?_
        rwa [fromSublayerOld_reads lc beyond s hhead, htype]
    · intro sized
      constructor
      · rw [fromSublayerOld_reads lc beyond s hhead]
        cases htype : frameType pro with
        | none =>
          have hall : ∀ a ∈ fieldReads none, a.pos + a.size ≤ protoLenGlobalHead := by decide
          exact fun a ha => (hall a ha).trans hhead
        | some type =>
          rcases sized hhead type htype with hwhole | ⟨_, hlonger⟩
          · exact fieldReads_inside hwhole
          · cases hlength : protoLen type with
            | none =>
              cases type with
              | syn => exact absurd htype frameType_ne_syn
              | fin => cases hlength
              | finDelay => cases hlength
              | upidx => cases hlength
            | some length =>
              exact fun a ha => (fieldReads_inside hlength a ha).trans (hlonger length hlength)
      · intro call hcall type hhook
        have hserved : call ∈ frameCalls (lc.fromSublayerOld beyond now sublayerIndex pro s).calls :=
          List.mem_filter.mpr ⟨hcall, by simp [hhook]⟩
        cases htype : frameType pro with
        | none =>
          rw [fromSublayerOld_calls lc beyond s hhead, htype] at hserved
          cases hserved
        | some type' =>
          obtain ⟨uid, r, rfl, hsyn, hcalls⟩ := served type' htype
          rw [hcalls] at hserved
          split at hserved
          · next hset =>
            rw [List.mem_singleton.mp hserved, frameHook_hookCall hsyn] at hhook
            obtain rfl := Option.some.inj hhook
            refine (sized hhead _ htype).resolve_right fun h => ?_
            rw [h.1] at hset
            cases hset
          · cases hserved
  · rw [fromSublayerOld_short lc beyond s (Nat.not_le.mp hhead)]
    refine iff_of_true ⟨by simp, by simp⟩ fun h => absurd h hhead

/-- The head of a frame of type 2, and nothing behind it. -/
def headAlone : List UInt8 := [28, 0, 9, 0, 0, 0, 0, 0, 0, 0, 2, 0]

/-- The indices of `headAlone` are read behind its end. -/
theorem head_alone_overread :
    ¬ InFrame headAlone (exampleCore.fromSublayerOld (fun _ => 0) 40 ['g'] headAlone ()) := by
  intro inside
  have hread := inside.reads ⟨12, 4⟩ (by decide +kernel)
  exact absurd hread (by decide)

/-! ## What was written -/

section Written
variable {mem : Memory} {pos : Nat}

/-- A number that was written at a place is read back there, with its sign. -/
theorem int32At_written {n : Int32} (h : mem.Holds pos (bit32LttStream n.toUInt32 4)) :
    int32At mem pos 4 = n.toInt := by
  have hlt : n.toUInt32.toNat < 256 ^ 4 := n.toUInt32.toNat_lt
  rw [int32At, h.read (Bytes.length_ofNat ..), bit32LttStream, Bytes.toNat_ofNat_of_lt hlt,
    UInt32.ofNat_toNat, Int32.toInt32_toUInt32]

theorem int64At_written {n : Int64} (h : mem.Holds pos (bit64LttStream n.toUInt64 8)) :
    int64At mem pos 8 = n.toInt := by
  have hlt : n.toUInt64.toNat < 256 ^ 8 := n.toUInt64.toNat_lt
  rw [int64At, h.read (Bytes.length_ofNat ..), bit64LttStream, Bytes.toNat_ofNat_of_lt hlt,
    UInt64.ofNat_toNat, Int64.toInt64_toUInt64]

/-- The fields that all frames have. -/
structure Written (mem : Memory) (conn uid : Int64) (send recv : Int32) : Prop where
  conn : int64At mem 2 8 = conn.toInt
  send : int32At mem 12 4 = send.toInt
  recv : int32At mem 16 4 = recv.toInt
  uid : int64At mem 20 8 = uid.toInt

variable {headLen : Nat} {conn uid : Int64} {send recv : Int32} {type : Int}
  {pro rest : List UInt8}

theorem length_writeHead : (writeHead headLen conn type).length = 12 := by
  simp only [writeHead, List.length_append, length_bit32LttStream, length_bit64LttStream]
  rfl

theorem length_writeIdx : (writeIdx send recv uid).length = 16 := by
  simp only [writeIdx, List.length_append, length_bit32LttStream, length_bit64LttStream]
  rfl

/-- The fields that all three frames have. -/
theorem written_fields
    (h : mem.Holds 0 (writeHead headLen conn type ++ writeIdx send recv uid)) :
    Written mem conn uid send recv := by
  obtain ⟨hhead, hidx⟩ := Memory.holds_append.mp h
  rw [length_writeHead] at hidx
  obtain ⟨hhead, _⟩ := Memory.holds_append.mp hhead
  obtain ⟨_, hconn⟩ := Memory.holds_append.mp hhead
  obtain ⟨hidx, huid⟩ := Memory.holds_append.mp hidx
  obtain ⟨hsend, hrecv⟩ := Memory.holds_append.mp hidx
  simp only [List.length_append, length_bit32LttStream] at hconn hrecv huid
  exact ⟨int64At_written hconn, int32At_written hsend, int32At_written hrecv, int64At_written huid⟩

/-- The type that was written. -/
theorem frameType_written (hpro : pro = writeHead headLen conn type ++ rest) :
    Bytes.toNat ((pro.drop 10).take 2) = (UInt32.ofInt type).toNat % 256 ^ 2 := by
  have hholds := Memory.holds_of pro fun _ => 0
  rw [hpro] at hholds
  obtain ⟨hhead, _⟩ := Memory.holds_append.mp hholds
  obtain ⟨_, htype⟩ := Memory.holds_append.mp hhead
  simp only [List.length_append, length_bit32LttStream, length_bit64LttStream] at htype
  have hread := htype.read (length_bit32LttStream ..)
  rw [← hpro, Memory.read_of] at hread
  · rw [show (pro.drop 10).take 2 = _ from hread]
    exact Bytes.toNat_ofNat ..
  · rw [hpro, List.length_append, length_writeHead]
    exact Nat.le_add_right 12 _

variable {σ : Type} (lc : LogicCore σ) (beyond : Memory) (now : Int) (sublayerIndex : Str) (s : σ)
variable (delay cliTp : Int32)

theorem finFrame_length : (finFrame conn send recv uid).length = protoLenFin := by
  rw [finFrame, List.length_append, length_writeHead, length_writeIdx]
  rfl

theorem finDelayFrame_length : (finDelayFrame conn send recv uid delay).length = protoLenFinDelay := by
  rw [finDelayFrame, List.length_append, List.length_append, length_writeHead, length_writeIdx,
    length_bit32LttStream]
  rfl

theorem upidxFrame_length : (upidxFrame conn send recv uid cliTp).length = protoLenUpidx := by
  rw [upidxFrame, List.length_append, List.length_append, length_writeHead, length_writeIdx,
    length_bit32LttStream]
  rfl

theorem finFrame_request :
    (lc.fromSublayerOld beyond now sublayerIndex (finFrame conn send recv uid) s).request =
      some (uid.toInt, .fin ⟨conn.toInt, ⟨send.toInt, recv.toInt⟩, sublayerIndex⟩) := by
  have hhead : protoLenGlobalHead ≤ (finFrame conn send recv uid).length := by
    rw [finFrame_length]
    decide
  have htype : frameType (finFrame conn send recv uid) = some .fin := by
    rw [finFrame, frameType, frameType_written rfl]
    rfl
  have written := written_fields (Memory.holds_of (finFrame conn send recv uid) beyond)
  rw [fromSublayerOld_request lc beyond s hhead, htype, fieldRequest, written.conn, written.send,
    written.recv, written.uid]

/-- The last field of the frames that have one more. -/
theorem last_written {frame : List UInt8} {last : Int32} (hframe : frame =
    writeHead headLen conn type ++ writeIdx send recv uid ++ bit32LttStream last.toUInt32 4) :
    Written (.of frame beyond) conn uid send recv ∧ int32At (.of frame beyond) 28 4 = last.toInt := by
  have hholds := Memory.holds_of frame beyond
  rw [hframe] at hholds ⊢
  obtain ⟨hfields, hlast⟩ := Memory.holds_append.mp hholds
  rw [List.length_append, length_writeHead, length_writeIdx] at hlast
  exact ⟨written_fields hfields, int32At_written hlast⟩

theorem finDelayFrame_request :
    (lc.fromSublayerOld beyond now sublayerIndex (finDelayFrame conn send recv uid delay) s).request =
      some (uid.toInt, .finDelay ⟨⟨conn.toInt, ⟨send.toInt, recv.toInt⟩, sublayerIndex⟩, delay.toInt⟩) := by
  have hhead : protoLenGlobalHead ≤ (finDelayFrame conn send recv uid delay).length := by
    rw [finDelayFrame_length]
    decide
  have htype : frameType (finDelayFrame conn send recv uid delay) = some .finDelay := by
    rw [finDelayFrame, List.append_assoc, frameType, frameType_written rfl]
    rfl
  obtain ⟨written, hlast⟩ := @last_written protoLenFinDelay conn uid send recv protoTypeFinDelay beyond
    (finDelayFrame conn send recv uid delay) delay rfl
  rw [fromSublayerOld_request lc beyond s hhead, htype, fieldRequest, written.conn, written.send,
    written.recv, written.uid, hlast]

theorem upidxFrame_request :
    (lc.fromSublayerOld beyond now sublayerIndex (upidxFrame conn send recv uid cliTp) s).request =
      some (uid.toInt, .upidx ⟨⟨conn.toInt, ⟨send.toInt, recv.toInt⟩, sublayerIndex⟩, now,
        cliTp.toInt, []⟩) := by
  have hhead : protoLenGlobalHead ≤ (upidxFrame conn send recv uid cliTp).length := by
    rw [upidxFrame_length]
    decide
  have htype : frameType (upidxFrame conn send recv uid cliTp) = some .upidx := by
    rw [upidxFrame, List.append_assoc, frameType, frameType_written rfl]
    rfl
  obtain ⟨written, hlast⟩ := @last_written protoLenUpidx conn uid send recv protoTypeUpidx beyond
    (upidxFrame conn send recv uid cliTp) cliTp rfl
  rw [fromSublayerOld_request lc beyond s hhead, htype, fieldRequest, written.conn, written.send,
    written.recv, written.uid, hlast]

end Written

/-- Decoding undoes encoding: a frame has the length of its type, and of the three hooks it calls
exactly its own, with what was written into it. A hook that is not set is not called. -/
theorem frames_round_trip {σ : Type} (lc : LogicCore σ) (beyond : Memory) (now : Int)
    (sublayerIndex : Str) (conn uid : Int64) (send recv delay cliTp : Int32) (s : σ) :
    (finFrame conn send recv uid).length = protoLenFin ∧
    (finDelayFrame conn send recv uid delay).length = protoLenFinDelay ∧
    (upidxFrame conn send recv uid cliTp).length = protoLenUpidx ∧
    frameCalls (lc.fromSublayerOld beyond now sublayerIndex (finFrame conn send recv uid) s).calls =
      (if lc.finHook.isSome = true then
        [.fin 100 uid.toInt ⟨conn.toInt, ⟨send.toInt, recv.toInt⟩, sublayerIndex⟩] else []) ∧
    frameCalls (lc.fromSublayerOld beyond now sublayerIndex (finDelayFrame conn send recv uid delay) s).calls =
      (if lc.finDelayHook.isSome = true then
        [.finDelay 100 uid.toInt ⟨⟨conn.toInt, ⟨send.toInt, recv.toInt⟩, sublayerIndex⟩, delay.toInt⟩]
      else []) ∧
    frameCalls (lc.fromSublayerOld beyond now sublayerIndex (upidxFrame conn send recv uid cliTp) s).calls =
      (if lc.upidxHook.isSome = true then
        [.upidx 100 uid.toInt ⟨⟨conn.toInt, ⟨send.toInt, recv.toInt⟩, sublayerIndex⟩, now, cliTp.toInt, []⟩]
      else []) := by
  refine ⟨finFrame_length, finDelayFrame_length delay, upidxFrame_length cliTp, ?_, ?_, ?_⟩
  · rw [frameCalls_of_request lc beyond s (finFrame_request lc beyond now sublayerIndex s) (by simp [Request.type])]
    rfl
  · rw [frameCalls_of_request lc beyond s (finDelayFrame_request lc beyond now sublayerIndex s delay)
      (by simp [Request.type])]
    rfl
  · rw [frameCalls_of_request lc beyond s (upidxFrame_request lc beyond now sublayerIndex s cliTp)
      (by simp [Request.type])]
    rfl

/-! All three hooks are set: each frame calls its own, and a `fin` is reported as well. -/

example : let core : LogicCore Unit := { exampleCore with
    finHook := some fun _ _ _ s => ((0, ['v']), s), upidxHook := some fun _ _ _ s => ((0, ⟨0, 0⟩), s),
    offlineNotifyHook := some fun _ _ s => (0, s) }
    (core.fromSublayerOld (fun _ => 0) 40 ['g'] (finFrame (-1) (-2) 3 (-4)) ()).calls =
      [.fin 100 (-4) ⟨-1, ⟨-2, 3⟩, ['g']⟩, .offlineNotify (-4) ['v']] := by
  rfl

end RedisCluster.Guarantees
