import Mathlib.Logic.Function.Basic
import RedisCluster.Source.Scripts

/-!
# A redis with a script cache

`EVALSHA` runs a script that the redis has seen, `EVAL` and `SCRIPT LOAD` show it one.
Scripts are known by the file they come from. Two files with one text, as `syn.lua` and
`upidx.lua` are, are one script to redis.
-/

set_option autoImplicit false

namespace RedisCluster.Source
open Library

/-- The files below the script path that `OnlineCtrl` has redis run for requests, removal and the
fields of sessions. -/
inductive LuaFile where
  | request (type : ReqType)
  | timeoutRm
  | getSessionInfo
  | getMulti
  deriving DecidableEq

namespace LuaFile

def all : List LuaFile :=
  [.request .syn, .request .fin, .request .finDelay, .request .upidx, .timeoutRm, .getSessionInfo,
    .getMulti]

theorem mem_all (file : LuaFile) : file ∈ all := by
  cases file with
  | request type => cases type <;> decide
  | timeoutRm | getSessionInfo | getMulti => decide

def script : LuaFile → List Str → List Str → Script RedisReply
  | .request type => scriptOf type
  | .timeoutRm => fun keys _ => Source.timeoutRm keys
  | .getSessionInfo => fun keys _ => Source.getSessionInfo keys
  | .getMulti => fun keys _ => do return .array (← .ask (Source.getMulti keys))

end LuaFile

/-- What `check_sha1` reads and computes: the SHA-1s tell different texts apart. -/
structure ScriptDir where
  data : LuaFile → Str
  sha1 : LuaFile → Str
  nonempty : ∀ file, data file ≠ []
  sha1_eq : ∀ file other, sha1 file = sha1 other → data file = data other
  script_eq : ∀ file other, data file = data other →
    sha1 file = sha1 other ∧ file.script = other.script

/-- A redis: its data and the scripts that it knows. -/
structure Redis where
  keys : Keyspace
  /-- The SHA-1s of the cached scripts. -/
  cached : Str → Bool

/-- What a command has redis do. -/
inductive Order where
  | run (file : LuaFile) (keys argv : List Str)
  | load (file : LuaFile)
  | refuse (error : Str)

def noScript : Str := "NOSCRIPT No matching script. Please use EVAL.".toList

def badKeyCount : Str := "ERR Number of keys can't be greater than number of args".toList

/-- The keys are as many as the third argument says. -/
def splitKeys (numkeys : Str) (args : List Str) : Option (List Str × List Str) :=
  match toNumber numkeys with
  | none => none
  | some n => if 0 ≤ n ∧ n ≤ args.length then some (args.splitAt n.toNat) else none

variable (dir : ScriptDir)

/-- No caller sends a text that is not of one of the files. -/
def redisOrder (cached : Str → Bool) : List Str → Order
  | name :: script :: third :: args =>
    if name = "EVALSHA".toList then
      match splitKeys third args with
      | none => .refuse badKeyCount
      | some (keys, argv) =>
        match LuaFile.all.find? fun file => dir.sha1 file = script with
        | none => .refuse noScript
        | some file => if cached script then .run file keys argv else .refuse noScript
    else if name = "EVAL".toList then
      match splitKeys third args with
      | none => .refuse badKeyCount
      | some (keys, argv) =>
        match LuaFile.all.find? fun file => dir.data file = script with
        | none => .refuse "ERR Error compiling script".toList
        | some file => .run file keys argv
    else if name = "SCRIPT".toList ∧ script = "LOAD".toList then
      match LuaFile.all.find? fun file => dir.data file = third with
      | none => .refuse "ERR Error compiling script".toList
      | some file => .load file
    else .refuse "ERR unknown command".toList
  | _ => .refuse "ERR wrong number of arguments".toList

/-- A script that was loaded or run by its text is known from then on. -/
def Redis.learn (r : Redis) (file : LuaFile) : Redis :=
  { r with cached := Function.update r.cached (dir.sha1 file) true }

/-- The reply to a command, and the redis after it. -/
def Redis.exec (r : Redis) (args : List Str) : RedisReply × Redis :=
  match redisOrder dir r.cached args with
  | .run file keys argv =>
    let (reply, s) := runScript (file.script keys argv) r.keys
    (reply, { r.learn dir file with keys := s })
  | .load file => (.bulk (dir.sha1 file), r.learn dir file)
  | .refuse error => (.error error, r)

/-! ## Orders of the commands that are sent -/

/-- The file that redis finds by its SHA-1 has the same script. -/
theorem find_sha1 (file : LuaFile) : ∃ found,
    (LuaFile.all.find? fun other => dir.sha1 other = dir.sha1 file) = some found ∧
      dir.sha1 found = dir.sha1 file ∧ found.script = file.script := by
  cases hfind : LuaFile.all.find? fun other => dir.sha1 other = dir.sha1 file with
  | none =>
    have hnone := List.find?_eq_none.mp hfind file file.mem_all
    simp at hnone
  | some found =>
    have hsha : dir.sha1 found = dir.sha1 file := by simpa using List.find?_some hfind
    exact ⟨found, rfl, hsha, (dir.script_eq _ _ (dir.sha1_eq _ _ hsha)).2⟩

theorem find_data (file : LuaFile) : ∃ found,
    (LuaFile.all.find? fun other => dir.data other = dir.data file) = some found ∧
      dir.sha1 found = dir.sha1 file ∧ found.script = file.script := by
  cases hfind : LuaFile.all.find? fun other => dir.data other = dir.data file with
  | none =>
    have hnone := List.find?_eq_none.mp hfind file file.mem_all
    simp at hnone
  | some found =>
    have hdata : dir.data found = dir.data file := by simpa using List.find?_some hfind
    exact ⟨found, rfl, dir.script_eq _ _ hdata⟩

variable {dir}

theorem splitKeys_decimal (keys argv : List Str) :
    splitKeys (Text.decimal keys.length) (keys ++ argv) = some (keys, argv) := by
  have hread : toNumber (Text.decimal keys.length) = some (keys.length : Int) :=
    Text.readInt_decimal _
  unfold splitKeys
  simp only [hread, List.length_append]
  rw [if_pos (by omega), Int.toNat_natCast, List.splitAt_eq, List.take_left, List.drop_left]

/-- What a redis is after running a script. -/
def Redis.ran (r : Redis) (dir : ScriptDir) (file : LuaFile) (keys argv : List Str) : Redis :=
  { r.learn dir file with keys := (runScript (file.script keys argv) r.keys).2 }

variable {r : Redis} {file : LuaFile} {keys argv : List Str}

/-- A script that is known is run by its SHA-1. -/
theorem exec_evalsha (hcached : r.cached (dir.sha1 file) = true) :
    r.exec dir ("EVALSHA".toList :: dir.sha1 file :: Text.decimal keys.length :: (keys ++ argv)) =
      ((runScript (file.script keys argv) r.keys).1, r.ran dir file keys argv) := by
  obtain ⟨found, hfind, hsha, hscript⟩ := find_sha1 dir file
  simp only [Redis.exec, redisOrder, splitKeys_decimal, hfind, hcached, if_true, Redis.ran,
    Redis.learn, hsha, hscript]

/-- One that is not known is refused, and nothing changes. -/
theorem exec_evalsha_unknown (hcached : r.cached (dir.sha1 file) = false) :
    r.exec dir ("EVALSHA".toList :: dir.sha1 file :: Text.decimal keys.length :: (keys ++ argv)) =
      (.error noScript, r) := by
  obtain ⟨found, hfind, _, _⟩ := find_sha1 dir file
  simp only [Redis.exec, redisOrder, splitKeys_decimal, hfind, hcached, if_true]
  rfl

/-- A text is run whether it is known or not. -/
theorem exec_eval :
    r.exec dir ("EVAL".toList :: dir.data file :: Text.decimal keys.length :: (keys ++ argv)) =
      ((runScript (file.script keys argv) r.keys).1, r.ran dir file keys argv) := by
  obtain ⟨found, hfind, hsha, hscript⟩ := find_data dir file
  have hname : "EVAL".toList ≠ "EVALSHA".toList := by decide
  simp only [Redis.exec, redisOrder, splitKeys_decimal, hfind, if_neg hname, if_true, Redis.ran,
    Redis.learn, hsha, hscript]

theorem exec_load :
    r.exec dir ["SCRIPT".toList, "LOAD".toList, dir.data file] =
      (.bulk (dir.sha1 file), r.learn dir file) := by
  obtain ⟨found, hfind, hsha, _⟩ := find_data dir file
  have hname : "SCRIPT".toList ≠ "EVALSHA".toList := by decide
  have hname' : "SCRIPT".toList ≠ "EVAL".toList := by decide
  simp only [Redis.exec, redisOrder, hfind, if_neg hname, if_neg hname', and_self, if_true,
    Redis.learn, hsha]

end RedisCluster.Source
