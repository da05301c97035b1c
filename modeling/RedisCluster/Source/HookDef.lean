import RedisCluster.Library.Text

/-!
# Session requests

`HookDef.h`: what a client's connection asks for, and the keys that a request gives to
its script.
-/

set_option autoImplicit false

namespace RedisCluster.Source
open Library

/-- `proto_idx_pair`: the counts of messages that were sent and received. -/
structure ProtoIdxPair where
  sendIdx : Int
  recvIdx : Int

/-- Numbers go to the scripts in decimal. -/
def ProtoIdxPair.keys (p : ProtoIdxPair) : List Str :=
  [Text.decimal p.sendIdx, Text.decimal p.recvIdx]

/-- `proto_gb_head`: the connection, its counts and where it comes from. -/
structure ProtoGbHead where
  logicConn : Int
  idx : ProtoIdxPair
  sublayerIndex : Str

def ProtoGbHead.keys (p : ProtoGbHead) : List Str :=
  Text.decimal p.logicConn :: p.idx.keys ++ [p.sublayerIndex]

/-- `proto_syn`: the session comes up, with the client's own fields. -/
structure ProtoSyn where
  head : ProtoGbHead
  expire : Int
  cliType : Int
  cliVer : Str
  data : List Str

def ProtoSyn.keys (p : ProtoSyn) : List Str :=
  p.head.keys ++ [Text.decimal p.expire, Text.decimal p.cliType, p.cliVer]

/-- `proto_fin`: the session goes. -/
structure ProtoFin where
  head : ProtoGbHead

def ProtoFin.keys (p : ProtoFin) : List Str := p.head.keys

/-- `proto_fin_delay`: the session is to go at `expire`, unless it comes up again. -/
structure ProtoFinDelay where
  head : ProtoGbHead
  expire : Int

def ProtoFinDelay.keys (p : ProtoFinDelay) : List Str :=
  p.head.keys ++ [Text.decimal p.expire]

/-- `proto_upidx`: the session goes on, and its counts have changed. -/
structure ProtoUpidx where
  head : ProtoGbHead
  expire : Int
  cliType : Int
  cliVer : Str

def ProtoUpidx.keys (p : ProtoUpidx) : List Str :=
  p.head.keys ++ [Text.decimal p.expire, Text.decimal p.cliType, p.cliVer]

/-- `REQ_SYN`, `REQ_FIN`, `REQ_FIN_DELAY`, `REQ_UPIDX`. -/
inductive ReqType where
  | syn | fin | finDelay | upidx
  deriving DecidableEq, Repr

/-- One of the four requests. -/
inductive Request where
  | syn (proto : ProtoSyn)
  | fin (proto : ProtoFin)
  | finDelay (proto : ProtoFinDelay)
  | upidx (proto : ProtoUpidx)

namespace Request

def type : Request → ReqType
  | .syn _ => .syn
  | .fin _ => .fin
  | .finDelay _ => .finDelay
  | .upidx _ => .upidx

/-- What all of them have. -/
def head : Request → ProtoGbHead
  | .syn proto => proto.head
  | .fin proto => proto.head
  | .finDelay proto => proto.head
  | .upidx proto => proto.head

/-- `gen_proto_args`. -/
def keys : Request → List Str
  | .syn proto => proto.keys
  | .fin proto => proto.keys
  | .finDelay proto => proto.keys
  | .upidx proto => proto.keys

/-- The arguments that are not keys. -/
def data : Request → List Str
  | .syn proto => proto.data
  | _ => []

/-- `syn` and `syn_async` refuse fields without a value. -/
def accepted (r : Request) : Bool := r.data.length % 2 = 0

end Request
end RedisCluster.Source
