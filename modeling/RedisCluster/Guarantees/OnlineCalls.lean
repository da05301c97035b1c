import RedisCluster.Guarantees.Commands
import RedisCluster.Guarantees.Sessions

/-!
# What the calls of the session store return

A request loads its script where it was found missing, and then has it run on the master
of its user.
-/

set_option autoImplicit false

namespace RedisCluster.Guarantees
open Library Source

variable {dir : ScriptDir} {plan : Nat → CmdRound} {w : World}

/-! ## Loading -/

def loadArgs (dir : ScriptDir) (file : LuaFile) : List Str :=
  ["SCRIPT".toList, "LOAD".toList, dir.data file]

/-- The commands of `lookup_sha1`. -/
def loadCmds (dir : ScriptDir) (file : LuaFile) (addrs : List UInt64) (cmds : Commands) : Commands :=
  addrs.foldl (fun cmds addr => cmds.insert addr (loadArgs dir file)) cmds

theorem loadCmds_get {file : LuaFile} {addrs : List UInt64} {cmds : Commands} {addr : UInt64} :
    (loadCmds dir file addrs cmds)[addr]? =
      if addr ∈ addrs then some (loadArgs dir file) else cmds[addr]? := by
  induction addrs generalizing cmds with
  | nil => simp [loadCmds]
  | cons first addrs ih =>
    rw [loadCmds, List.foldl_cons]
    refine ih.trans ?_
    rw [Ordered.getElem?_insert]
    by_cases hrest : addr ∈ addrs <;> by_cases hfirst : addr = first <;> simp [hrest, hfirst]

theorem redisOrder_load (r : Redis) (file : LuaFile) :
    ∃ found, redisOrder dir r.cached (loadArgs dir file) = .load found := by
  obtain ⟨found, hfind, _⟩ := find_data dir file
  have hname : "SCRIPT".toList ≠ "EVALSHA".toList := by decide
  have hname' : "SCRIPT".toList ≠ "EVAL".toList := by decide
  refine ⟨found, ?_⟩
  simp only [redisOrder, loadArgs, hfind, if_neg hname, if_neg hname', and_self, if_true]

/-- Loading a script runs none. -/
theorem runs_load {cmds : Commands} {file : LuaFile}
    (h : ∀ (addr : UInt64) (args : List Str), cmds[addr]? = some args → args = loadArgs dir file) :
    runs dir plan w cmds = [] := by
  rw [List.eq_nil_iff_forall_not_mem]
  intro e he
  obtain ⟨args, hargs, hexecution⟩ := mem_runs.mp he
  obtain ⟨_, _, _, _, _, horder, _⟩ := execution_eq.mp hexecution
  rw [h _ _ hargs] at horder
  obtain ⟨found, hload⟩ := redisOrder_load
    (((plan w.rounds).fate e.addr).before (w.servers e.addr)) file
  rw [hload] at horder
  cases horder

/-- The world in which the request of a type is sent: the script may have been loaded. -/
def afterLookup (plan : Nat → CmdRound) (oc : OnlineCtrl) (type : ReqType) (w : World) : World :=
  let cmds := loadCmds oc.dir (.request type) (oc.scripts type).addrs.toList ∅
  if (oc.scripts type).needLoad ∧ cmds.isEmpty = false then
    afterRound oc.dir plan w (sentCmds [] false cmds)
  else w

/-- The controller after it. -/
def looked (oc : OnlineCtrl) (type : ReqType) : OnlineCtrl :=
  if (oc.scripts type).needLoad then oc.setScript type ⟨false, ∅⟩ else oc

theorem lookupSha1_eq (oc : OnlineCtrl) (type : ReqType) (rounds : Nat) (w : World) :
    lookupSha1 (network oc.dir plan) (rounds + 1) oc type w =
      some (oc.dir.sha1 (.request type), looked oc type, afterLookup plan oc type w) := by
  unfold lookupSha1 afterLookup looked
  dsimp only
  by_cases hneed : (oc.scripts type).needLoad = true
  · rw [if_pos hneed, if_pos hneed]
    change (cmd _ _ _ _ (loadCmds oc.dir (.request type) (oc.scripts type).addrs.toList ∅) _ _ >>= _) = _
    generalize loadCmds oc.dir (.request type) (oc.scripts type).addrs.toList ∅ = cmds
    cases hempty : cmds.isEmpty with
    | true =>
      rw [cmd_empty hempty, if_neg (by simp)]
      rfl
    | false =>
      rw [cmd_done hempty (Or.inl rfl), if_pos ⟨hneed, rfl⟩]
      rfl
  · rw [if_neg hneed, if_neg hneed, if_neg (fun h => hneed h.1)]

theorem log_afterLookup (oc : OnlineCtrl) (type : ReqType) (w : World) :
    (afterLookup plan oc type w).log = w.log := by
  unfold afterLookup
  dsimp only
  split
  · rw [log_afterRound, runs_load, List.append_nil]
    intro addr args hargs
    obtain ⟨args', hargs', _, heq⟩ := sentCmds_get.mp hargs
    rw [loadCmds_get] at hargs'
    split at hargs'
    · rw [heq, ← Option.some.inj hargs']
      rfl
    · simp at hargs'
  · rfl

theorem looked_same (oc : OnlineCtrl) (type : ReqType) :
    (looked oc type).dir = oc.dir ∧ (looked oc type).rh = oc.rh ∧
      (looked oc type).cityHash64 = oc.cityHash64 := by
  unfold looked
  split <;> exact ⟨rfl, rfl, rfl⟩

/-! ## One request -/

/-- The master of the user's cluster; 0 if there is none. -/
def masterOf (oc : OnlineCtrl) (uid : Int) : UInt64 :=
  redisAddrMaster oc.rh oc.cityHash64 (Text.decimal uid)

def requestKeys (uid : Int) (r : Request) : List Str := Text.decimal uid :: r.keys

/-- The command of a request. -/
def requestArgs (dir : ScriptDir) (uid : Int) (r : Request) : List Str :=
  "EVALSHA".toList :: dir.sha1 (.request r.type) :: Text.decimal (requestKeys uid r).length ::
    (requestKeys uid r ++ r.data)

theorem commend_eq (oc : OnlineCtrl) (uid : Int) (r : Request) (rounds : Nat) (w : World) :
    commend (network oc.dir plan) (rounds + 1) oc uid r w =
      if masterOf oc uid = 0 then some (∅, looked oc r.type, afterLookup plan oc r.type w)
      else (cmd (network oc.dir plan) (oc.dir.data (.request r.type)) (rounds + 1) false
        ((∅ : Commands).insert (masterOf oc uid) (requestArgs oc.dir uid r)) ∅
        (afterLookup plan oc r.type w)).map fun (rv, w') => (rv, looked oc r.type, w') := by
  obtain ⟨hdir, hrh, hhash⟩ := looked_same oc r.type
  unfold commend genRedisArgs
  rw [lookupSha1_eq]
  simp only [Option.bind_eq_bind, Option.bind_some, Option.pure_def, singleUidCommend, hdir, hrh, hhash]
  unfold masterOf
  split
  · rfl
  · unfold requestArgs requestKeys
    cases cmd (network oc.dir plan) _ _ _ _ _ _ <;> rfl

/-- The one reply of a call to one redis. -/
theorem single_eq {rv : RedisRvs} {addr : UInt64} (only : ∀ a ∈ rv, a = addr) :
    single rv = rv[addr]? := by
  unfold single
  rw [Ordered.toList_of_only only]
  cases rv[addr]? <;> rfl

theorem requestArgs_names (dir : ScriptDir) (uid : Int) (r : Request) (addr : UInt64) :
    NamesScript dir (.request r.type) (requestKeys uid r)
      ((∅ : Commands).insert addr (requestArgs dir uid r)) := by
  intro a args hargs
  rw [Ordered.getElem?_insert] at hargs
  split at hargs
  · cases hargs
    exact ⟨r.data, rfl⟩
  · simp at hargs

/-- A request has its script run at most once, and gets the reply if it comes in time. -/
theorem commend_brings {uid : Int} {r : Request} (oc : OnlineCtrl) (plan : Nat → CmdRound) (w : World)
    (quiet : Quiet (.request r.type) (requestKeys uid r)) (rounds : Nat) :
    ∃ rv w' new, commend (network oc.dir plan) (rounds + 3) oc uid r w =
        some (rv, looked oc r.type, w') ∧
      w'.log = w.log ++ new ∧ new.length ≤ 1 ∧
      (∀ e ∈ new, e.addr = masterOf oc uid ∧ e.file.script = (LuaFile.request r.type).script ∧
        e.keys = requestKeys uid r) ∧
      ∀ v, single rv = some v ↔ ∃ e ∈ new, e.inTime = true ∧ e.reply.type ≠ .error ∧
        v = redisrvsAdd e.reply .fresh := by
  rw [commend_eq]
  split
  · refine ⟨∅, _, [], rfl, ?_, by simp, by simp, ?_⟩
    · rw [List.append_nil]
      exact log_afterLookup oc _ w
    · intro v
      rw [@single_eq ∅ 0 (by simp)]
      simp
  · obtain ⟨rv, w', new, hcmd, brought⟩ := cmd_brings plan
      (requestArgs_names oc.dir uid r (masterOf oc uid)) quiet rounds (afterLookup plan oc r.type w)
    have haddr : ∀ e ∈ new, e.addr = masterOf oc uid := by
      intro e he
      have hsent := brought.sent e he
      rw [Ordered.mem_insert_map] at hsent
      exact hsent.resolve_right (by simp)
    refine ⟨rv, w', new, by rw [hcmd]; rfl, ?_, ?_, ?_, ?_⟩
    · rw [brought.log, log_afterLookup]
    · have hsubset : new.map Execution.addr ⊆ [masterOf oc uid] := by
        intro a ha
        obtain ⟨e, he, rfl⟩ := List.mem_map.mp ha
        exact List.mem_singleton.mpr (haddr e he)
      have hlength := brought.once.length_le_of_subset hsubset
      rwa [List.length_map] at hlength
    · intro e he
      exact ⟨haddr e he, brought.script e he⟩
    · have only : ∀ a ∈ rv, a = masterOf oc uid := by
        intro a ha
        obtain ⟨v, hv⟩ := Ordered.mem_iff_getElem?.mp ha
        obtain ⟨e, he, rfl, _⟩ := (brought.replies a v).mp hv
        exact haddr e he
      intro v
      rw [single_eq only, brought.replies]
      constructor
      · rintro ⟨e, he, _, h⟩
        exact ⟨e, he, h⟩
      · rintro ⟨e, he, h⟩
        exact ⟨e, he, haddr e he, h⟩

end RedisCluster.Guarantees
