import RedisCluster.Source.OnlineCtrl

/-!
# Reading sessions

`get_session_info` and `get_multi` of `OnlineCtrl.cpp`. A caller's maps start empty. The
uids of one request go to a redis of their clusters that `rand` picks, in one command for
each redis. Logging is left out, and with it the acting user of `get_multi`.
-/

set_option autoImplicit false

namespace RedisCluster.Source
open Library

/-- `map<string, string>` -/
abbrev FieldMap := Std.ExtTreeMap Str Str

/-- `map<long, map<string, map<string, string>>>` -/
abbrev UidsSessions := Std.ExtTreeMap Int (Std.ExtTreeMap Str FieldMap)

/-- `map<uint64_t, set<string>>` -/
abbrev DispUids := Std.ExtTreeMap UInt64 (Std.ExtTreeSet Str)

/-! ## Replies -/

/-- What a string is that is made of `c_str()`. -/
def cStr (s : Str) : Str := s.takeWhile (· ≠ Char.ofNat 0)

/-- The loop over the elements, whose keys are C strings. -/
def setPairs : List RedisRv → FieldMap → FieldMap
  | key :: value :: rest, kvs => setPairs rest (kvs.insert (cStr key.str) value.str)
  | _, kvs => kvs

/-- Elements that are not pairs are only logged. -/
def addPairs (element : List RedisRv) (kvs : FieldMap) : FieldMap :=
  if element.length % 2 = 0 then setPairs element kvs else kvs

/-- Replies other than arrays are only logged. -/
def sessionInfo (rv : RedisRvs) : FieldMap :=
  rv.toList.foldl (fun kvs (_, tmp) => if tmp.type = .array then addPairs tmp.element kvs else kvs) ∅

/-- One triple of user, connection and fields. The map keeps what it has, and later fields win. -/
def oneUidSession (uidsSessions : UidsSessions) (tmp : RedisRv) : UidsSessions :=
  match tmp.type, tmp.element with
  | .array, [uid, lc, kvs] =>
    if uid.type = .integer ∧ lc.type = .string ∧ kvs.type = .array then
      let msessions := uidsSessions[uid.integer]?.getD ∅
      let sessions := msessions[lc.str]?.getD ∅
      uidsSessions.insert uid.integer (msessions.insert lc.str (addPairs kvs.element sessions))
    else uidsSessions
  | _, _ => uidsSessions

/-- Replies come by the addresses of the redis, each with its triples in order. -/
def multiSessions (rv : RedisRvs) : UidsSessions :=
  rv.toList.foldl (fun uidsSessions (_, tmp) =>
    if tmp.type = .array then tmp.element.foldl oneUidSession uidsSessions else uidsSessions) ∅

/-! ## Commands -/

/-- The uids for each redis; `rand i` is what `rand` returns for the uid in place `i`. -/
def dispUids (oc : OnlineCtrl) (rand : Nat → Nat) (uids : List Int) : DispUids :=
  uids.zipIdx.foldl (fun disp (uid, i) =>
    let suid := Text.decimal uid
    let rdAddr := redisAddrSlaveFirst oc.rh oc.cityHash64 (rand i) suid
    if rdAddr = 0 then disp else disp.insert rdAddr ((disp[rdAddr]?.getD ∅).insert suid)) ∅

def multiCommands (oc : OnlineCtrl) (disp : DispUids) : Commands :=
  disp.map fun _ suids =>
    "EVALSHA".toList :: oc.dir.sha1 .getMulti :: Text.decimal suids.size :: suids.toList

section Calls
variable {σ : Type} (net : RedisNetwork σ) (rounds : Nat)

def OnlineCtrl.getSessionInfo (oc : OnlineCtrl) (uid : Int) (session : Str) (ks : List Str) (s : σ) :
    Option (FieldMap × σ) := do
  let suid := Text.decimal uid
  let args := "EVALSHA".toList :: oc.dir.sha1 .getSessionInfo :: "2".toList :: suid :: session :: ks
  let (rv, s) ← singleUidCommend net rounds oc suid args (oc.dir.data .getSessionInfo) s
  return (sessionInfo rv, s)

def OnlineCtrl.getMulti (oc : OnlineCtrl) (rand : Nat → Nat) (uids : List Int) (s : σ) :
    Option (UidsSessions × σ) := do
  let addrCmd := multiCommands oc (dispUids oc rand uids)
  let (rv, s) ← cmd net (oc.dir.data .getMulti) rounds false addrCmd ∅ s
  return (multiSessions rv, s)

end Calls
end RedisCluster.Source
