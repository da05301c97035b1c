import RedisCluster.Guarantees.ClientVersion
import RedisCluster.Guarantees.OnlineRuns
import RedisCluster.Guarantees.SessionMachine
import RedisCluster.Guarantees.SweptSessions

/-!
# The whole service

Messages of the connection layer, turns of the removal loop and the time, where the redis answer in
time. On the master of its user a session is what its own messages have made of it.

The hooks make the synchronous calls. The hooks of `g_lc` do not wait for an answer; there a request
may get lost, which is the subject of a module of its own.
-/

set_option autoImplicit false

namespace RedisCluster.Guarantees
open Library Source

/-! ## Runs -/

inductive ServiceEvent where
  | message (now : Int) (sublayerIndex pro : Str)
  /-- A turn of `check_timeout`. -/
  | sweep (now : Int)
  /-- Time passes for every redis, in milliseconds. -/
  | elapse (d : Nat)

def serviceStep (net : RedisNetwork World) (rounds : Nat) (parse : ParseFromString)
    (s : OnlineCtrl × World) : ServiceEvent → OnlineCtrl × World
  | .message now sublayerIndex pro =>
    ((onlineCore net rounds parse).fromSublayer now sublayerIndex pro s).2
  | .sweep now => (((onlineCore net rounds parse).checkTimeoutTurn now s).map Prod.snd).getD s
  | .elapse d => (s.1, elapseAll s.2 d)

def serviceRun (net : RedisNetwork World) (rounds : Nat) (parse : ParseFromString)
    (s : OnlineCtrl × World) (es : List ServiceEvent) : OnlineCtrl × World :=
  es.foldl (serviceStep net rounds parse) s

/-- The redis is sent the script of a turn. -/
def sweeps (oc : OnlineCtrl) (now : Int) (addr : UInt64) : Bool :=
  (timeoutCommands oc now (-1))[addr]?.any fun args => args.length < argvMaxLen

/-- What an event is for one redis. -/
def serviceEventAt (oc : OnlineCtrl) (parse : ParseFromString) (addr : UInt64) :
    ServiceEvent → Option SessionEvent
  | .message now sublayerIndex pro => eventAt oc parse addr (.message now sublayerIndex pro)
  | .sweep now => if sweeps oc now addr then some (.timeoutRm now (-1)) else none
  | .elapse d => some (.elapse d)

theorem serviceEventAt_sweep (oc : OnlineCtrl) (parse : ParseFromString) (addr : UInt64) (now : Int) :
    serviceEventAt oc parse addr (.sweep now) =
      if sweeps oc now addr then some (.timeoutRm now (-1)) else none := rfl

/-! ## A turn -/

section Turn
variable {dir : ScriptDir} {plan : Nat → CmdRound} {file : LuaFile} {keys : List Str}
  {addrCmd : Commands}

theorem NamesScript.evals (names : NamesScript dir file keys addrCmd) :
    Evals dir file (fun _ => keys) (fun addr => (addrCmd[addr]?.getD []).drop (3 + keys.length))
      addrCmd := by
  intro addr args hargs
  obtain ⟨argv, rfl⟩ := names addr args hargs
  dsimp only
  rw [hargs, Option.getD_some, Nat.add_comm, ← List.drop_drop]
  simp

theorem sweeps_iff {oc : OnlineCtrl} {now : Int} {addr : UInt64} :
    sweeps oc now addr = true ↔ Asks (timeoutCommands oc now (-1)) addr := by
  unfold sweeps Asks
  rw [Option.any_eq_true]
  simp only [decide_eq_true_eq]

/-- A sweep of sessions is never an error. -/
theorem timeoutRm_fine {s : Keyspace} (names : SessionNames s) (now : Int) (argv : List Str) :
    (runScript (LuaFile.timeoutRm.script [Text.decimal now, Text.decimal (-1)] argv) s).1.type ≠ .error := by
  obtain ⟨pairs, hpairs, _⟩ := sweep_answers names now (-1)
  intro herror
  unfold LuaFile.script at herror
  dsimp only at herror
  rw [hpairs] at herror
  cases herror

theorem turn_of_cmd {s : OnlineCtrl × World} {now : Int} {rounds : Nat} {rv : RedisRvs} {w' : World}
    (parse : ParseFromString)
    (hcmd : cmd (network s.1.dir plan) (s.1.dir.data .timeoutRm) rounds false
      (timeoutCommands s.1 now (-1)) ∅ s.2 = some (rv, w')) :
    (onlineCore (network s.1.dir plan) rounds parse).checkTimeoutTurn now s =
      some ([.timeoutRm 300 now (-1), .offlineNotifyMulti (timeoutRvs rv)], s.1, w') := by
  have hcall : s.1.timeoutRm (network s.1.dir plan) rounds now (-1) s.2 = some (0, timeoutRvs rv, w') := by
    rw [OnlineCtrl.timeoutRm, hcmd]
    rfl
  rw [LogicCore.checkTimeoutTurn, LogicCore.timeoutRmFn]
  simp only [onlineCore, syncTimeoutRm, hcall]
  rfl

/-- The script of a turn runs on the redis that it is sent to, and on no other. -/
theorem sweep_ran (prompt : Prompt plan) (rounds : Nat) (oc : OnlineCtrl) (w : World)
    (names : ∀ addr, SessionNames (w.servers addr).keys) (now : Int) :
    ∃ rv w', cmd (network oc.dir plan) (oc.dir.data .timeoutRm) (rounds + 3) false
        (timeoutCommands oc now (-1)) ∅ w = some (rv, w') ∧
      ∀ addr, ∃ argv, w'.servers addr = if sweeps oc now addr then
        (w.servers addr).ran oc.dir .timeoutRm [Text.decimal now, Text.decimal (-1)] argv
      else w.servers addr := by
  have evals := (timeoutCommands_names oc now (-1)).evals
  obtain ⟨rv, w', hcmd, hran⟩ := @Prompt.cmd_evals _ plan w _ _ _ _ prompt evals
    (fun addr _ => timeoutRm_fine (names addr) now _) (rounds + 1)
  refine ⟨rv, w', hcmd, fun addr => ?_⟩
  by_cases h : sweeps oc now addr = true
  · exact ⟨_, (hran.asked addr (sweeps_iff.mp h)).trans (if_pos h).symm⟩
  · exact ⟨[], (hran.other addr fun asks => h (sweeps_iff.mpr asks)).trans (if_neg h).symm⟩

/-- A turn sweeps the redis that it reaches, and no other. -/
theorem checkTimeoutTurn_keys (prompt : Prompt plan) (rounds : Nat) (parse : ParseFromString)
    (s : OnlineCtrl × World) (names : ∀ addr, SessionNames (s.2.servers addr).keys) (now : Int) :
    ∃ calls w', (onlineCore (network s.1.dir plan) (rounds + 3) parse).checkTimeoutTurn now s =
        some (calls, s.1, w') ∧
      ∀ addr, (w'.servers addr).keys = if sweeps s.1 now addr then
        sessionStep (s.2.servers addr).keys (.timeoutRm now (-1)) else (s.2.servers addr).keys := by
  obtain ⟨rv, w', hcmd, hran⟩ := sweep_ran prompt rounds s.1 s.2 names now
  refine ⟨_, w', turn_of_cmd parse hcmd, fun addr => ?_⟩
  obtain ⟨argv, hserver⟩ := hran addr
  rw [hserver]
  split <;> rfl

end Turn

section Runs
variable {dir : ScriptDir} {plan : Nat → CmdRound} (prompt : Prompt plan) (rounds : Nat)
  (parse : ParseFromString)

theorem serviceEventAt_same {oc oc' : OnlineCtrl} (table : SameTable oc oc') (addr : UInt64) :
    serviceEventAt oc' parse addr = serviceEventAt oc parse addr := by
  funext e
  cases e with
  | elapse d => rfl
  | sweep now =>
    have hcommands : timeoutCommands oc' now (-1) = timeoutCommands oc now (-1) := by
      unfold timeoutCommands
      rw [table.rh, table.dir]
    rw [serviceEventAt_sweep, serviceEventAt_sweep, sweeps, hcommands, sweeps]
  | message now sublayerIndex pro => simp only [serviceEventAt, eventAt, table.reaches]

include prompt in
theorem serviceStep_keys (s : OnlineCtrl × World) (hdir : s.1.dir = dir)
    (names : ∀ addr, SessionNames (s.2.servers addr).keys) (e : ServiceEvent) :
    SameTable s.1 (serviceStep (network dir plan) (rounds + 3) parse s e).1 ∧
      ∀ addr, ((serviceStep (network dir plan) (rounds + 3) parse s e).2.servers addr).keys =
        ((serviceEventAt s.1 parse addr e).toList).foldl sessionStep (s.2.servers addr).keys := by
  subst hdir
  cases e with
  | elapse d => exact ⟨.refl _, fun addr => rfl⟩
  | message now sublayerIndex pro =>
    exact onlineStep_keys prompt rounds parse s rfl (.message now sublayerIndex pro)
  | sweep now =>
    obtain ⟨calls, w', hturn, hkeys⟩ := checkTimeoutTurn_keys prompt rounds parse s names now
    rw [serviceStep, hturn]
    refine ⟨.refl _, fun addr => (hkeys addr).trans ?_⟩
    rw [serviceEventAt_sweep]
    split <;> rfl

include prompt in
/-- Every redis has what its own events have made of it. -/
theorem serviceRun_keys (s : OnlineCtrl × World) (hdir : s.1.dir = dir)
    (past : UInt64 → List SessionEvent)
    (reached : ∀ addr, (s.2.servers addr).keys = runSessions (past addr)) (es : List ServiceEvent) :
    SameTable s.1 (serviceRun (network dir plan) (rounds + 3) parse s es).1 ∧
      ∀ addr, ((serviceRun (network dir plan) (rounds + 3) parse s es).2.servers addr).keys =
        runSessions (past addr ++ es.filterMap (serviceEventAt s.1 parse addr)) := by
  induction es generalizing s past with
  | nil =>
    refine ⟨.refl _, fun addr => ?_⟩
    rw [List.filterMap_nil, List.append_nil]
    exact reached addr
  | cons e es ih =>
    have names : ∀ addr, SessionNames (s.2.servers addr).keys := fun addr => by
      rw [reached]
      exact sessionNames_runSessions _
    obtain ⟨htable, hkeys⟩ := serviceStep_keys prompt rounds parse s hdir names e
    have hreached : ∀ addr, ((serviceStep (network dir plan) (rounds + 3) parse s e).2.servers addr).keys =
        runSessions (past addr ++ (serviceEventAt s.1 parse addr e).toList) := by
      intro addr
      rw [hkeys, reached, runSessions, runSessions, List.foldl_append]
    obtain ⟨htable', hkeys'⟩ := ih _ (htable.dir.trans hdir) _ hreached
    refine ⟨htable.trans htable', fun addr => (hkeys' addr).trans ?_⟩
    rw [serviceEventAt_same parse htable, List.append_assoc, List.filterMap_cons]
    cases serviceEventAt s.1 parse addr e <;> rfl

end Runs

/-! ## Sessions -/

section Sessions
variable {oc : OnlineCtrl} {parse : ParseFromString} {plan : Nat → CmdRound} {w : World}

theorem reaches_of_own {addr : UInt64} {uid lc : Int} {r : Request} {es : List ServiceEvent}
    (mem : .request uid r ∈ es.filterMap (serviceEventAt oc parse addr)) (own : Own uid lc uid r) :
    addr = masterOf oc uid := by
  obtain ⟨e, _, he⟩ := List.mem_filterMap.mp mem
  cases e with
  | elapse d => cases he
  | sweep now =>
    rw [serviceEventAt_sweep] at he
    split at he <;> cases he
  | message now sublayerIndex pro =>
    unfold serviceEventAt eventAt at he
    cases hfound : messageRequest parse now sublayerIndex pro with
    | none => simp [hfound] at he
    | some found =>
      simp only [hfound, Option.ite_none_right_eq_some, Option.some.injEq,
        SessionEvent.request.injEq] at he
      obtain ⟨hreaches, rfl, _⟩ := he
      exact hreaches.1

/-- The events of the redis that has a user's sessions. -/
def eventsOf (oc : OnlineCtrl) (parse : ParseFromString) (uid : Int) (es : List ServiceEvent) :
    List SessionEvent :=
  es.filterMap (serviceEventAt oc parse (masterOf oc uid))

/-- Whatever the service gets, a session is on the master of its user what its own messages have
made of it, and it is nowhere else. The hooks make the synchronous calls (`g_lc` has the
asynchronous ones, see `async_service_heals`), the redis hold nothing at the start, and every
command is answered in time. -/
theorem service_refines_machines (prompt : Prompt plan) (rounds : Nat) (oc : OnlineCtrl)
    (parse : ParseFromString) (fresh : ∀ addr, (w.servers addr).keys = .empty) (es : List ServiceEvent)
    (uid lc : Int) :
    Stores ((serviceRun (network oc.dir plan) (rounds + 3) parse (oc, w) es).2.servers
        (masterOf oc uid)).keys uid lc (sessionAfter uid lc (eventsOf oc parse uid es)) ∧
      ∀ addr, addr ≠ masterOf oc uid →
        ((serviceRun (network oc.dir plan) (rounds + 3) parse (oc, w) es).2.servers addr).keys.has
          (sessionKey uid lc) = false := by
  obtain ⟨_, hkeys⟩ := serviceRun_keys prompt rounds parse (oc, w) rfl (fun _ => []) fresh es
  refine ⟨?_, fun addr hne => ?_⟩
  · rw [hkeys]
    exact stores_after uid lc _
  · rw [hkeys]
    refine (stores_after uid lc _).gone ?_
    by_contra there
    obtain ⟨pre, r, post, ct, heq, own, _, _⟩ := opened_before there
    have hmem : .request uid r ∈ es.filterMap (serviceEventAt oc parse addr) := by
      change [] ++ _ = _ at heq
      rw [List.nil_append] at heq
      rw [heq]
      simp
    exact hne (reaches_of_own hmem own)

end Sessions

/-- A session is opened, a minute passes, and a turn finds nothing to remove. -/
theorem service_refines_machines_example :
    Stores ((serviceRun (network exampleCtrl.dir examplePlan) 3 versionParse (exampleCtrl, freshWorld)
        [.message 5 ['g'] ['s'], .elapse 60000, .sweep 65]).2.servers (masterOf exampleCtrl 7)).keys 7 1
      (sessionAfter 7 1 (eventsOf exampleCtrl versionParse 7
        [.message 5 ['g'] ['s'], .elapse 60000, .sweep 65])) := by
  have h := service_refines_machines (w := freshWorld) examplePlan_prompt 0 exampleCtrl versionParse
    (fun _ => rfl) [.message 5 ['g'] ['s'], .elapse 60000, .sweep 65] 7 1
  rw [Nat.zero_add] at h
  exact h.1

end RedisCluster.Guarantees
