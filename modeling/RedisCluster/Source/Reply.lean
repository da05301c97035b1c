import RedisCluster.Library.Text

/-!
# Replies of a redis

The reply of hiredis (`redisReply`) and its copy `RedisRv`, with the collectors of
`RedisEvent.cpp`: the one of synchronous commands keeps errors apart, the one of
asynchronous commands does not.
-/

set_option autoImplicit false

namespace RedisCluster.Source
open Library

/-- The addresses to send to, and the arguments of the command for each. -/
abbrev Commands := Std.ExtTreeMap UInt64 (List Str)

/-- `REDIS_REPLY_*`. -/
inductive ReplyType where
  | string | array | integer | nil | status | error
  deriving DecidableEq, Repr

/-- `str` is absent where hiredis leaves a null pointer. -/
inductive RedisReply where
  | mk (type : ReplyType) (integer : Int) (str : Option Str) (element : List RedisReply)

namespace RedisReply

def type : RedisReply → ReplyType
  | .mk type _ _ _ => type

def str : RedisReply → Option Str
  | .mk _ _ str _ => str

end RedisReply

/-- `RedisRv`: a reply copied out of hiredis. -/
inductive RedisRv where
  | mk (type : ReplyType) (integer : Int) (str : Str) (element : List RedisRv)

namespace RedisRv

def type : RedisRv → ReplyType
  | .mk type _ _ _ => type

def integer : RedisRv → Int
  | .mk _ integer _ _ => integer

def str : RedisRv → Str
  | .mk _ _ str _ => str

def element : RedisRv → List RedisRv
  | .mk _ _ _ element => element

end RedisRv

/-- `RedisRvs`: the replies of a call by the address of the redis. -/
abbrev RedisRvs := Std.ExtTreeMap UInt64 RedisRv

/-- A fresh `RedisRv()`; `redisrvs_add` sets its type and integer. -/
def RedisRv.fresh : RedisRv := .mk .nil 0 [] []

mutual
/-- `redisrvs_add` writes over what the value held: a reply without text keeps the old
text, and elements are appended. -/
def redisrvsAdd : RedisReply → RedisRv → RedisRv
  | .mk type integer str element, rv =>
    .mk type integer (str.getD rv.str)
      (if type = .array then rv.element ++ redisrvsAddAll element else rv.element)

def redisrvsAddAll : List RedisReply → List RedisRv
  | [] => []
  | reply :: element => redisrvsAdd reply .fresh :: redisrvsAddAll element
end

/-- The collector of `cmd`: replies and errors. A lost reply adds nothing. -/
def redisrpRedisrvs (reply : Option RedisReply) (rvs err : RedisRvs) (addr : UInt64) :
    RedisRvs × RedisRvs :=
  match reply with
  | none => (rvs, err)
  | some reply =>
    if reply.type ≠ .error then
      (rvs.insert addr (redisrvsAdd reply (rvs[addr]?.getD .fresh)), err)
    else (rvs, err.insert addr (redisrvsAdd reply .fresh))

/-- The collector of `cmd_async`. -/
def redisrpRedisrvs2 (reply : Option RedisReply) (rvs : RedisRvs) (addr : UInt64) : RedisRvs :=
  match reply with
  | none => rvs
  | some reply => rvs.insert addr (redisrvsAdd reply (rvs[addr]?.getD .fresh))

end RedisCluster.Source
