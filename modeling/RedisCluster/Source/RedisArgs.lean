import RedisCluster.Source.OnlineCtrl

/-!
# The argument vector of a request

`gen_redis_args` as it runs: every `keys` pushes its texts to the back of the vector and
returns the size that the vector then has, and the count of the keys is that size without
what stood before the first key.
-/

set_option autoImplicit false

namespace RedisCluster.Source
open Library

/-- `d.push_back` of every text, and `(int)d.size()`. -/
def pushBack (d texts : List Str) : List Str × Int :=
  (d ++ texts, toInt32 (d ++ texts).length)

/-- Every `keys` appends its own, and returns the size of the whole vector. -/
def ProtoIdxPair.pushKeys (p : ProtoIdxPair) (d : List Str) : List Str × Int :=
  let (d, _) := pushBack d [Text.decimal p.sendIdx]
  pushBack d [Text.decimal p.recvIdx]

def ProtoGbHead.pushKeys (p : ProtoGbHead) (d : List Str) : List Str × Int :=
  let (d, _) := pushBack d [Text.decimal p.logicConn]
  let (d, _) := p.idx.pushKeys d
  pushBack d [p.sublayerIndex]

def ProtoSyn.pushKeys (p : ProtoSyn) (d : List Str) : List Str × Int :=
  let (d, _) := p.head.pushKeys d
  let (d, _) := pushBack d [Text.decimal p.expire]
  let (d, _) := pushBack d [Text.decimal p.cliType]
  pushBack d [p.cliVer]

def ProtoFin.pushKeys (p : ProtoFin) (d : List Str) : List Str × Int :=
  let (d, _) := p.head.pushKeys d
  pushBack d []

def ProtoFinDelay.pushKeys (p : ProtoFinDelay) (d : List Str) : List Str × Int :=
  let (d, _) := p.head.pushKeys d
  pushBack d [Text.decimal p.expire]

def ProtoUpidx.pushKeys (p : ProtoUpidx) (d : List Str) : List Str × Int :=
  let (d, _) := p.head.pushKeys d
  let (d, _) := pushBack d [Text.decimal p.expire]
  let (d, _) := pushBack d [Text.decimal p.cliType]
  pushBack d [p.cliVer]

/-- The `switch` over the type of the request. -/
def genProtoArgs : Request → List Str → List Str × Int
  | .syn proto, args => proto.pushKeys args
  | .fin proto, args => proto.pushKeys args
  | .finDelay proto, args => proto.pushKeys args
  | .upidx proto, args => proto.pushKeys args

/-- `gen_redis_args` into an empty vector, with the SHA-1 that was looked up. -/
def pushRedisArgs (sha1 : Str) (uid : Int) (r : Request) : List Str :=
  let args := ["EVALSHA".toList, sha1, "KEY_SUM".toList]
  let args := args ++ [Text.decimal uid]
  let (args, keySum) := genProtoArgs r args
  args.set 2 (Text.decimal (keySum - 3))

/-- The vector that is sent: `syn` and `syn_async` insert the data at its end. -/
def requestVector (sha1 : Str) (uid : Int) (r : Request) : List Str :=
  pushRedisArgs sha1 uid r ++ r.data

/-! ## What the vector is -/

section Vector
variable {sha1 : Str} {uid : Int} {r : Request}

theorem genProtoArgs_fst (d : List Str) : (genProtoArgs r d).1 = d ++ r.keys := by
  cases r <;> simp [genProtoArgs, ProtoSyn.pushKeys, ProtoFin.pushKeys, ProtoFinDelay.pushKeys,
    ProtoUpidx.pushKeys, ProtoGbHead.pushKeys, ProtoIdxPair.pushKeys, pushBack, Request.keys,
    ProtoSyn.keys, ProtoFin.keys, ProtoFinDelay.keys, ProtoUpidx.keys, ProtoGbHead.keys,
    ProtoIdxPair.keys]

/-- What is returned is the size of the whole vector. -/
theorem genProtoArgs_snd (d : List Str) : (genProtoArgs r d).2 = toInt32 (d ++ r.keys).length := by
  cases r <;> simp [genProtoArgs, ProtoSyn.pushKeys, ProtoFin.pushKeys, ProtoFinDelay.pushKeys,
    ProtoUpidx.pushKeys, ProtoGbHead.pushKeys, ProtoIdxPair.pushKeys, pushBack, Request.keys,
    ProtoSyn.keys, ProtoFin.keys, ProtoFinDelay.keys, ProtoUpidx.keys, ProtoGbHead.keys,
    ProtoIdxPair.keys]

theorem length_keys_le : r.keys.length ≤ 7 := by
  cases r <;> simp [Request.keys, ProtoSyn.keys, ProtoFin.keys, ProtoFinDelay.keys, ProtoUpidx.keys,
    ProtoGbHead.keys, ProtoIdxPair.keys]

theorem pushRedisArgs_eq : pushRedisArgs sha1 uid r =
    "EVALSHA".toList :: sha1 :: Text.decimal (Text.decimal uid :: r.keys).length ::
      (Text.decimal uid :: r.keys) := by
  have hlen := @length_keys_le r
  have hsize : toInt32 (["EVALSHA".toList, sha1, "KEY_SUM".toList] ++ [Text.decimal uid] ++
      r.keys).length - 3 = ((Text.decimal uid :: r.keys).length : Nat) := by
    rw [toInt32, Int.bmod_eq_of_le]
    · simp
      omega
    · simp
      omega
    · simp
      omega
  unfold pushRedisArgs
  simp only [genProtoArgs_fst, genProtoArgs_snd, hsize]
  rfl

/-- The calls send this vector. -/
theorem genRedisArgs_vector {σ : Type} {net : RedisNetwork σ} {rounds : Nat} {oc oc' : OnlineCtrl}
    {s s' : σ} {args : List Str} (h : genRedisArgs net rounds oc uid r s = some (args, oc', s')) :
    args = requestVector (oc.dir.sha1 (.request r.type)) uid r := by
  obtain ⟨⟨found, oc₁, s₁⟩, hlookup, hargs⟩ := Option.bind_eq_some_iff.mp h
  have hfound : found = oc.dir.sha1 (.request r.type) := by
    unfold lookupSha1 at hlookup
    split at hlookup
    · obtain ⟨_, _, heq⟩ := Option.bind_eq_some_iff.mp hlookup
      cases heq
      rfl
    · cases hlookup
      rfl
  cases hargs
  rw [requestVector, pushRedisArgs_eq, hfound]
  rfl

/-- The load of a script, which has no text to fall back to, ends after one round. -/
theorem genRedisArgs_total {σ : Type} (net : RedisNetwork σ) (rounds : Nat) (oc : OnlineCtrl) (s : σ) :
    ∃ oc' s', genRedisArgs net (rounds + 1) oc uid r s =
      some (requestVector (oc.dir.sha1 (.request r.type)) uid r, oc', s') := by
  have loads : ∀ (cmds : Commands), ∃ rv s', cmd net [] (rounds + 1) false cmds ∅ s = some (rv, s') := by
    intro cmds
    unfold cmd
    split
    · exact ⟨_, _, rfl⟩
    · exact ⟨_, _, if_neg fun h => h.1 rfl⟩
  obtain ⟨found, hlookup⟩ : ∃ found, lookupSha1 net (rounds + 1) oc r.type s = some found := by
    unfold lookupSha1
    dsimp only
    split
    · obtain ⟨rv, s', hload⟩ := loads ((oc.scripts r.type).addrs.toList.foldl (fun cmds addr =>
        cmds.insert addr ["SCRIPT".toList, "LOAD".toList, oc.dir.data (.request r.type)]) ∅)
      rw [hload]
      exact ⟨_, rfl⟩
    · exact ⟨_, rfl⟩
  obtain ⟨args, oc', s', hargs⟩ : ∃ args oc' s',
      genRedisArgs net (rounds + 1) oc uid r s = some (args, oc', s') := by
    unfold genRedisArgs
    rw [hlookup]
    exact ⟨_, _, _, rfl⟩
  exact ⟨oc', s', by rw [hargs, genRedisArgs_vector hargs]⟩

end Vector
end RedisCluster.Source
