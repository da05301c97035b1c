import RedisCluster.Guarantees.SessionFields
import RedisCluster.Guarantees.SyncAsync
import RedisCluster.Source.RedisArgs

/-!
# Arguments and script keys

The vector of `gen_redis_args` gives every script the keys at the places where it reads
them, and as many as its guard wants. What follows them is the data of the client.
-/

set_option autoImplicit false

namespace RedisCluster.Guarantees
open Library Source

/-- The keys, in the order in which the scripts read them. -/
def boundKeys (uid : Int) : Request → List Str
  | .syn proto =>
    [Text.decimal uid, Text.decimal proto.head.logicConn, Text.decimal proto.head.idx.sendIdx,
      Text.decimal proto.head.idx.recvIdx, proto.head.sublayerIndex, Text.decimal proto.expire,
      Text.decimal proto.cliType, proto.cliVer]
  | .fin proto =>
    [Text.decimal uid, Text.decimal proto.head.logicConn, Text.decimal proto.head.idx.sendIdx,
      Text.decimal proto.head.idx.recvIdx, proto.head.sublayerIndex]
  | .finDelay proto =>
    [Text.decimal uid, Text.decimal proto.head.logicConn, Text.decimal proto.head.idx.sendIdx,
      Text.decimal proto.head.idx.recvIdx, proto.head.sublayerIndex, Text.decimal proto.expire]
  | .upidx proto =>
    [Text.decimal uid, Text.decimal proto.head.logicConn, Text.decimal proto.head.idx.sendIdx,
      Text.decimal proto.head.idx.recvIdx, proto.head.sublayerIndex, Text.decimal proto.expire,
      Text.decimal proto.cliType, proto.cliVer]

/-- What `#KEYS` is compared with. -/
def guardCount : ReqType → Nat
  | .syn => 8
  | .fin => 5
  | .finDelay => 6
  | .upidx => 8

section Guard
variable {keys argv : List Str} {s : Keyspace}

theorem syn_guard (h : keys.length ≠ 8) : syn keys argv s = (.ok (keysError keys), s) := by
  unfold syn
  split
  · exact absurd rfl h
  · rfl

/-- With another number of keys a script does nothing. -/
theorem script_guard {type : ReqType} (h : keys.length ≠ guardCount type) :
    scriptOf type keys argv s = (.ok (keysError keys), s) := by
  cases type with
  | syn => exact syn_guard h
  | upidx => exact syn_guard h
  | fin =>
    rw [scriptOf]
    unfold fin
    split
    · exact absurd rfl h
    · rfl
  | finDelay =>
    rw [scriptOf]
    unfold finDelay
    split
    · exact absurd rfl h
    · rfl

end Guard

section Bound
variable {uid : Int} {r : Request}

theorem boundKeys_eq : boundKeys uid r = requestKeys uid r := by
  cases r <;> rfl

/-- Redis takes the vector apart as it was put together. -/
theorem redisOrder_vector {dir : ScriptDir} {cached : Str → Bool}
    (known : cached (dir.sha1 (.request r.type)) = true) :
    ∃ found, redisOrder dir cached (requestVector (dir.sha1 (.request r.type)) uid r) =
      .run found (boundKeys uid r) r.data ∧ found.script = scriptOf r.type := by
  obtain ⟨found, hfind, _, hscript⟩ := find_sha1 dir (.request r.type)
  refine ⟨found, ?_, hscript⟩
  rw [requestVector, pushRedisArgs_eq, boundKeys_eq]
  simp only [List.cons_append]
  rw [← List.cons_append]
  simp only [redisOrder, splitKeys_decimal, hfind, known, if_true]
  rfl

/-- The fields of the data get its values, and no other field hears of it. -/
theorem ext_fields (accepted : r.accepted = true) (s : Keyspace) (f : Str) :
    (runScript (scriptOf r.type (boundKeys uid r) r.data) s).2.hget
        (sessionKey uid r.head.logicConn) f =
      (extValue r.data f).or ((runScript (scriptOf r.type (boundKeys uid r) []) s).2.hget
        (sessionKey uid r.head.logicConn) f) := by
  have even : r.data.length % 2 = 0 := of_decide_eq_true accepted
  cases r with
  | syn proto =>
    have hwith := hget_syn s uid proto.head proto.expire proto.cliType proto.cliVer even f
    have hwithout := @hget_syn s uid proto.head proto.expire proto.cliType proto.cliVer [] rfl f
    exact hwith.trans (congrArg _ hwithout.symm)
  | upidx proto => rfl
  | fin proto => rfl
  | finDelay proto => rfl

end Bound

/-- Every request gets a vector, whatever the network does while its script is loaded, and that is
an `EVALSHA` of the script. The script gets the keys it reads, as many as it wants, and the client's
data as `ARGV`, every pair of which ends up in its own field. Nothing is said of data of an odd
length, which `syn` refuses. -/
theorem arguments_bind (uid : Int) (r : Request) (accepted : r.accepted = true) :
    (∀ (σ : Type) (net : RedisNetwork σ) (rounds : Nat) (oc oc' : OnlineCtrl) (s s' : σ)
        (args : List Str), genRedisArgs net rounds oc uid r s = some (args, oc', s') →
      args = requestVector (oc.dir.sha1 (.request r.type)) uid r) ∧
    (∀ (σ : Type) (net : RedisNetwork σ) (rounds : Nat) (oc : OnlineCtrl) (s : σ), ∃ oc' s',
      genRedisArgs net (rounds + 1) oc uid r s =
        some (requestVector (oc.dir.sha1 (.request r.type)) uid r, oc', s')) ∧
    (∀ (dir : ScriptDir) (cached : Str → Bool), cached (dir.sha1 (.request r.type)) = true →
      ∃ found, redisOrder dir cached (requestVector (dir.sha1 (.request r.type)) uid r) =
        .run found (boundKeys uid r) r.data ∧ found.script = scriptOf r.type) ∧
    (boundKeys uid r).length = guardCount r.type ∧
    (∀ keys argv s, keys.length ≠ guardCount r.type →
      scriptOf r.type keys argv s = (.ok (keysError keys), s)) ∧
    ∀ s, (runScript (scriptOf r.type (boundKeys uid r) r.data) s).1.type ≠ .error ∧
      ∀ f, (runScript (scriptOf r.type (boundKeys uid r) r.data) s).2.hget
          (sessionKey uid r.head.logicConn) f =
        (extValue r.data f).or ((runScript (scriptOf r.type (boundKeys uid r) []) s).2.hget
          (sessionKey uid r.head.logicConn) f) := by
  refine ⟨fun σ net rounds oc oc' s s' args h => genRedisArgs_vector h,
    fun σ net rounds oc s => genRedisArgs_total net rounds oc s,
    fun dir cached known => redisOrder_vector known, by cases r <;> rfl,
    fun keys argv s h => script_guard h, fun s => ⟨?_, ?_⟩⟩
  · rw [boundKeys_eq]
    exact (request_writes uid accepted s).1
  · exact ext_fields accepted s

/-- A request with two pairs of data. -/
def exampleExtSyn : Request :=
  .syn ⟨⟨1, ⟨1, 0⟩, ['g']⟩, 0, 100, ['v'], [['k'], ['1'], ['m'], ['2']]⟩

theorem arguments_bind_example :
    (boundKeys 7 exampleExtSyn).length = guardCount exampleExtSyn.type ∧
      (∃ found, redisOrder exampleDir (fun _ => true)
          (requestVector (exampleDir.sha1 (.request exampleExtSyn.type)) 7 exampleExtSyn) =
        .run found (boundKeys 7 exampleExtSyn) [['k'], ['1'], ['m'], ['2']] ∧
          found.script = scriptOf exampleExtSyn.type) ∧
      (runScript (scriptOf exampleExtSyn.type (boundKeys 7 exampleExtSyn) exampleExtSyn.data) .empty).2.hget
        (sessionKey 7 1) ['m'] = some ['2'] := by
  obtain ⟨_, _, horder, hcount, _, hfields⟩ := arguments_bind 7 exampleExtSyn (by decide)
  refine ⟨hcount, horder exampleDir (fun _ => true) rfl, ?_⟩
  exact ((hfields .empty).2 ['m']).trans rfl

end RedisCluster.Guarantees
