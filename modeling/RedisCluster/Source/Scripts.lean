import RedisCluster.Library.Keyspace
import RedisCluster.Source.HookDef
import RedisCluster.Source.Reply

/-!
# The Lua scripts

The scripts below `script/` run at one instant. An error ends a script but keeps what it
has done. `U.uid` holds the connections of a user, `L.uid.lc` the session of one of them,
`DLY_CK` the sessions to be removed later with the stamps from which they may be, and
`RANK_W` how often every user wrote.
-/

set_option autoImplicit false

namespace RedisCluster.Source
open Library

/-! ## Lua and redis -/

/-- A script's state is the keyspace; its errors are texts. -/
def Script (α : Type) := Keyspace → Except Str α × Keyspace

namespace Script
variable {α β : Type}

/-- An error ends the script; what was written stays. -/
def fail (error : Str) : Script α := fun s => (.error error, s)

instance : Monad Script where
  pure a := fun s => (.ok a, s)
  bind x f := fun s =>
    match x s with
    | (.ok a, s') => f a s'
    | (.error error, s') => (.error error, s')

/-- `redis.call` of a command whose reply the script does not use. -/
def call (command : Keyspace → Keyspace) : Script Unit := fun s => (.ok (), command s)

/-- `redis.call` of a command that only reads. -/
def ask (query : Keyspace → α) : Script α := fun s => (.ok (query s), s)

variable {s : Keyspace}

theorem pure_apply (a : α) : (pure a : Script α) s = (.ok a, s) := rfl

theorem call_apply (command : Keyspace → Keyspace) : call command s = (.ok (), command s) := rfl

theorem ask_apply (query : Keyspace → α) : ask query s = (.ok (query s), s) := rfl

/-- A script goes on after what succeeded. -/
theorem bind_ok {x : Script α} {a : α} {s' : Keyspace} (h : x s = (.ok a, s'))
    (f : α → Script β) : (x >>= f) s = f a s' := by
  change (match x s with | (.ok a, s') => f a s' | (.error error, s') => (.error error, s')) = _
  rw [h]

/-- An error ends it. -/
theorem bind_error {x : Script α} {error : Str} {s' : Keyspace} (h : x s = (.error error, s'))
    (f : α → Script β) : (x >>= f) s = (.error error, s') := by
  change (match x s with | (.ok a, s') => f a s' | (.error error, s') => (.error error, s')) = _
  rw [h]

end Script

/-- An integer as a double: 53 bits of it, rounded to even. -/
def double (n : Int) : Int :=
  let k := n.natAbs.log2 - 52
  let q := n.natAbs >>> k
  let r := n.natAbs % 2 ^ k
  let up := 2 ^ k < 2 * r ∨ (2 ^ k = 2 * r ∧ q % 2 = 1)
  n.sign * ((q + if up then 1 else 0) * 2 ^ k : Nat)

/-- `tonumber`, of the decimal texts that the callers print. -/
def toNumber : Str → Option Int := Text.readInt

namespace RedisReply

def nil : RedisReply := .mk .nil 0 none []

def bulk (str : Str) : RedisReply := .mk .string 0 (some str) []

def status (str : Str) : RedisReply := .mk .status 0 (some str) []

def error (str : Str) : RedisReply := .mk .error 0 (some str) []

def array (element : List RedisReply) : RedisReply := .mk .array 0 none element

/-- The reply for a Lua number. -/
def number (n : Int) : RedisReply := .mk .integer (double n) none []

/-- The reply for a string, or for the `false` of a missing one. -/
def ofOption (str : Option Str) : RedisReply := (str.map bulk).getD nil

end RedisReply

/-- The reply to a client that had a script run. -/
def runScript (script : Script RedisReply) (s : Keyspace) : RedisReply × Keyspace :=
  match script s with
  | (.ok reply, s') => (reply, s')
  | (.error error, s') => (.error error, s')

/-! ## Keys -/

/-- The index of a user: its connections, each with client type and version. -/
def kuid (uid : Str) : Str := "U.".toList ++ uid

/-- The hash of a session. -/
def klc (uid lc : Str) : Str := "L.".toList ++ uid ++ '.' :: lc

/-- The sessions that are to be removed, by the stamps from which on. -/
def dlyCk : Str := "DLY_CK".toList

/-- How often each user wrote. -/
def rankW : Str := "RANK_W".toList

/-- The reply of a script that got another number of keys. -/
def keysError (keys : List Str) : RedisReply :=
  .error ("error keys size ".toList ++ Text.decimal keys.length)

/-! ## The scripts of requests -/

/-- `WRITE STAT`. -/
def writeStat (uid : Str) : Script Unit := do
  .call fun s => s.zincrby rankW 1 uid
  let cn ← .ask fun s => s.zcard rankW
  if cn > 1000 then
    .call fun s => s.zremrangebyrank rankW (cn - 1000)

/-- `expire check`. -/
def purge (uid : Str) : List Str → Script Unit
  | [] => pure ()
  | v :: lcs => do
    if !(← .ask fun s => s.has (klc uid v)) then
      .call fun s => s.hdel (kuid uid) v
    purge uid lcs

/-- The loop over `ARGV`. A field without a value is an error of `redis.call`. -/
def setArgs (klc : Str) : List Str → Script Unit
  | [] => pure ()
  | [_] => .fail "Lua redis() command arguments must be strings or integers".toList
  | field :: value :: argv => do
    .call fun s => s.hset klc field value
    setArgs klc argv

/-- `ep`. -/
def lifetime (ct : Int) : Nat :=
  if ct ≥ 100 ∧ ct < 200 then 600
  else if ct ≥ 200 ∧ ct < 300 then 600
  else if ct ≥ 0 ∧ ct < 100 then 1200
  else if ct = 100000 then 60
  else 600

/-- `syn.lua`, and `upidx.lua`, which has the same text. -/
def syn (keys argv : List Str) : Script RedisReply :=
  match keys with
  | [uid, lc, sid, _, gate, _, ct, cv] => do
    purge uid (← .ask fun s => s.hkeys (kuid uid))
    .call fun s => s.hsetnx (kuid uid) lc (ct ++ ';' :: cv)
    .call fun s => s.hmset (klc uid lc) [("SID".toList, ['0']), ("RID".toList, sid),
      ("GATE".toList, gate), ("CT".toList, ct)]
    .call fun s => s.hsetnx (klc uid lc) "CV".toList cv
    setArgs (klc uid lc) argv
    match toNumber ct with
    | none => .fail "attempt to compare number with nil".toList
    | some ct =>
      let ep := lifetime ct
      .call fun s => s.expire (klc uid lc) ep
      if (← .ask fun s => s.ttl (kuid uid)) < ep then
        .call fun s => s.expire (kuid uid) ep
      .call fun s => s.zrem dlyCk (klc uid lc)
      writeStat uid
      return .array (.number 0 :: ((toNumber sid).map .number).toList)
  | keys => return keysError keys

/-- `fin.lua`. -/
def fin (keys : List Str) : Script RedisReply :=
  match keys with
  | [uid, lc, _, _, _] => do
    let ofl ← .ask fun s => s.hget (kuid uid) lc
    .call fun s => s.hdel (kuid uid) lc
    .call fun s => s.del (klc uid lc)
    .call fun s => s.zrem dlyCk (klc uid lc)
    writeStat uid
    return .ofOption ofl
  | keys => return keysError keys

/-- `fin_delay.lua`. -/
def finDelay (keys : List Str) : Script RedisReply :=
  match keys with
  | [uid, lc, _, _, gate, delay] => do
    writeStat uid
    if (← .ask fun s => s.hget (klc uid lc) "GATE".toList) = some gate then
      match toNumber delay with
      | none => .fail "ERR value is not a valid float".toList
      | some delay =>
        .call fun s => s.zadd dlyCk delay (klc uid lc)
        .call fun s => s.hset (klc uid lc) "GATE".toList []
        return .status "OK".toList
    else
      return .status "OK".toList
  | keys => return keysError keys

/-- The scripts for the requests of `REQ_*`. -/
def scriptOf : ReqType → List Str → List Str → Script RedisReply
  | .syn, keys, argv => syn keys argv
  | .fin, keys, _ => fin keys
  | .finDelay, keys, _ => finDelay keys
  | .upidx, keys, argv => syn keys argv

/-! ## Removal, and the index -/

/-- The second loop of `timeout_rm.lua`. -/
def dropSessions : List Str → List RedisReply → Script (List RedisReply)
  | [], ofl => pure ofl
  | klc :: lcs, ofl =>
    -- `string.find(klc, '%.', 3)`
    match Text.cutAt '.' (klc.drop 2) with
    | none => .fail "attempt to perform arithmetic on a nil value".toList
    | some (uid, lc) => do
      let tv ← .ask fun s => s.hget (kuid uid) lc
      .call fun s => s.hdel (kuid uid) lc
      match tv with
      | some tv => dropSessions lcs (ofl ++ ((toNumber uid).map .number).toList ++ [.bulk tv])
      | none => dropSessions lcs ofl

/-- `timeout_rm.lua`. -/
def timeoutRm (keys : List Str) : Script RedisReply :=
  match keys with
  | [st, _] =>
    match toNumber st with
    | none => .fail "ERR min or max is not a float".toList
    | some st => do
      let lcs ← .ask fun s => (s.zrangebyscore dlyCk st).map Prod.fst
      .call fun s => lcs.foldl Keyspace.del s
      let ofl ← dropSessions lcs []
      .call fun s => s.zremrangebyscore dlyCk st
      return .array ofl
  | keys => return keysError keys

/-- `get_session_ope.lua`. -/
def getSessionOpe (uid : Str) (s : Keyspace) : List Str := s.hkeys (kuid uid)

/-- `get_session_info.lua`, which names its hash `S.uid.sn`. -/
def getSessionInfo (keys : List Str) : Script RedisReply :=
  match keys with
  | uid :: sn :: _ => do
    let fields ← .ask fun s => s.hgetall ("S.".toList ++ uid ++ '.' :: sn)
    return .array (fields.flatMap fun fv => [.bulk fv.1, .bulk fv.2])
  | _ => .fail "attempt to concatenate local 'sn' (a nil value)".toList

/-- One entry of the reply of `get_multi.lua`. -/
def sessionEntry (s : Keyspace) (uid lc : Str) : RedisReply :=
  .array (((toNumber uid).map .number).toList ++ [.bulk lc,
    .array ((s.hgetall (klc uid lc)).flatMap fun fv => [.bulk fv.1, .bulk fv.2])])

/-- `get_multi.lua`. -/
def getMulti (keys : List Str) (s : Keyspace) : List RedisReply :=
  keys.flatMap fun uid => (s.hkeys (kuid uid)).map fun lc => sessionEntry s uid lc

/-! ## A redis that serves requests -/

/-- What happens to the store of one redis. -/
inductive SessionEvent where
  | request (uid : Int) (r : Request)
  | timeoutRm (st cn : Int)
  /-- Time passes, in milliseconds. -/
  | elapse (d : Nat)

/-- A request that is refused runs no script. -/
def sessionStep (s : Keyspace) : SessionEvent → Keyspace
  | .request uid r =>
    if r.accepted then
      (runScript (scriptOf r.type (Text.decimal uid :: r.keys) r.data) s).2
    else s
  | .timeoutRm st cn => (runScript (timeoutRm [Text.decimal st, Text.decimal cn]) s).2
  | .elapse d => s.elapse d

/-- The store after a run from nothing. -/
def runSessions (es : List SessionEvent) : Keyspace := es.foldl sessionStep .empty

theorem runSessions_snoc (es : List SessionEvent) (e : SessionEvent) :
    runSessions (es ++ [e]) = sessionStep (runSessions es) e :=
  List.foldl_concat ..

end RedisCluster.Source
