import RedisCluster.Guarantees.LossyRuns
import RedisCluster.Source.Traffic

/-!
# One of many calls

A call among others goes on as `cmd` does. What a whole `cmd` does on a network that loses things it
may also do in the middle of any traffic.
-/

set_option autoImplicit false

namespace RedisCluster.Guarantees
open Library Source

/-! ## Runs without strange answers -/

/-- A wait ends with answers to its own round only, one for a redis at most. So it is as long as no
slot is used again while answers to its last use are out. -/
def OwnAnswers (s : CallTraffic) : TrafficEvent → Prop
  | .proceed n replies => ∀ c, s.callers n = some c → (replies.map Prod.fst).Nodup ∧
      (∀ addr ∈ replies.map Prod.fst, addr ∈ c.addrCmd) ∧
      ∀ addr r, (addr, some r) ∈ replies → ⟨n, c.round, addr, r⟩ ∈ s.replies
  | _ => True

/-- Own answers are among those that a wait may take. -/
theorem OwnAnswers.enabled {s : CallTraffic} {n : Nat} {c : Caller}
    {replies : List (UInt64 × Option RedisReply)} (own : OwnAnswers s (.proceed n replies))
    (hc : s.callers n = some c) (waiting : c.phase = .waiting) : TrafficEnabled s (.proceed n replies) :=
  ⟨c, hc, waiting, fun addr r hr => ⟨n, c.round, (own c hc).2.2 addr r hr⟩⟩

/-- The runs all of whose waits end with their own answers. -/
abbrev OwnRun (oc : OnlineCtrl) (s : CallTraffic) : List TrafficEvent → CallTraffic → Prop :=
  Run (fun s e => TrafficEnabled s e ∧ OwnAnswers s e) (trafficStep oc) s

/-! ## The end of a wait -/

section Proceed
variable {dir : ScriptDir} {c : Caller} {replies : List (UInt64 × Option RedisReply)}

/-- A wait with errors is followed by another round, for those that lack the script. -/
theorem proceed_again (sync : c.task.isAsync = false)
    (again : dir.data c.task.file ≠ [] ∧ (collect replies c.rv).2.isEmpty = false) :
    c.proceed dir replies = { c with
      iseval := true, addrCmd := errAddrs c.addrCmd (collect replies c.rv).2
      rv := (collect replies c.rv).1, phase := .ready } := by
  rw [Caller.proceed, if_neg (by rw [sync]; exact Bool.false_ne_true)]
  exact if_pos again

/-- A wait without errors is the last. -/
theorem proceed_done (sync : c.task.isAsync = false)
    (done : ¬ (dir.data c.task.file ≠ [] ∧ (collect replies c.rv).2.isEmpty = false)) :
    c.proceed dir replies = { c with addrCmd := ∅, rv := (collect replies c.rv).1, phase := .ready } := by
  rw [Caller.proceed, if_neg (by rw [sync]; exact Bool.false_ne_true)]
  exact if_neg done

/-- An asynchronous call has one round, and keeps errors too. -/
theorem proceed_async (async : c.task.isAsync = true) :
    c.proceed dir replies = { c with
      addrCmd := ∅, rv := replies.foldl (fun rv reply => redisrpRedisrvs2 reply.2 rv reply.1) c.rv
      phase := .ready } := if_pos async

theorem sent_plain (first : c.iseval = false) : c.sent dir = sendable c.addrCmd := by
  unfold Caller.sent
  rw [first]
  apply Std.ExtTreeMap.ext_getElem?
  intro addr
  rw [Std.ExtTreeMap.getElem?_map]
  simp

/-- The one wait of an asynchronous call. -/
theorem cmdAsyncRv_proceed {σ : Type} (net : RedisNetwork σ) (s : σ) (async : c.task.isAsync = true)
    (first : c.iseval = false) (fresh : c.rv = ∅) :
    cmdAsyncRv net c.addrCmd s =
      ((c.proceed dir (net.round s (c.sent dir)).1).rv, (net.round s (c.sent dir)).2) := by
  rw [sent_plain first, cmdAsyncRv, proceed_async async, fresh]

end Proceed

/-! ## What goes out -/

section Flights
variable {oc : OnlineCtrl} {n : Nat} {c : Caller} {connected : UInt64 → Bool}

theorem requestCommands_get {uid : Int} {r : Request} {addr : UInt64} {args : List Str}
    (h : (OnlineTask.requestCommands oc uid r)[addr]? = some args) :
    r.accepted = true ∧ args = requestArgs oc.dir uid r := by
  unfold OnlineTask.requestCommands at h
  dsimp only at h
  split at h
  · simp at h
  · next hnot =>
    rw [not_or, Bool.not_eq_false] at hnot
    exact ⟨hnot.1, (insert_get.mp h).2⟩

/-- The commands that are under way are those that the round sends and that find a connection. -/
theorem mem_flightsOf {f : Flight} : f ∈ flightsOf oc n c connected ↔
    f.call = n ∧ f.round = c.round + 1 ∧
      (sentCmds (oc.dir.data c.task.file) c.iseval c.addrCmd)[f.addr]? = some f.args ∧
      connected f.addr = true := by
  unfold flightsOf
  rw [List.mem_map]
  constructor
  · rintro ⟨⟨addr, args⟩, hentry, rfl⟩
    obtain ⟨hmem, hconnected⟩ := List.mem_filter.mp hentry
    exact ⟨rfl, rfl, Std.ExtTreeMap.mem_toList_iff_getElem?_eq_some.mp hmem, hconnected⟩
  · rintro ⟨rfl, hround, hget, hconnected⟩
    have hmem : (f.addr, f.args) ∈ (c.sent oc.dir).toList :=
      Std.ExtTreeMap.mem_toList_iff_getElem?_eq_some.mpr hget
    exact ⟨(f.addr, f.args), List.mem_filter.mpr ⟨hmem, hconnected⟩, by rw [← hround]⟩

theorem nodup_flightsOf : ((flightsOf oc n c connected).map Flight.addr).Nodup := by
  have hkeys : (flightsOf oc n c connected).map Flight.addr =
      ((c.sent oc.dir).toList.filter fun entry => connected entry.1).map Prod.fst := by
    unfold flightsOf
    rw [List.map_map]
    rfl
  have hsublist : ((c.sent oc.dir).toList.filter fun entry => connected entry.1).Sublist
      (c.sent oc.dir).toList := List.filter_sublist
  rw [hkeys]
  exact (hsublist.map Prod.fst).nodup (Ordered.nodup_keys (c.sent oc.dir))

end Flights

/-! ## A whole call -/

section Call
variable (oc : OnlineCtrl) {plan : Nat → CmdRound} {s : CallTraffic} {n : Nat} {c : Caller}

/-- What becomes of a command. -/
theorem fate_traffic {fate : Fate} (sent : fate.sent = true) (kept : ∀ r, (fate.before r).keys = r.keys)
    {f : Flight} (hf : f ∈ s.flights) (hc : s.callers f.call = some c) :
    ∃ es s', OwnRun oc s es s' ∧ s'.callers = s.callers ∧
      s'.servers = Function.update s.servers f.addr (fate.outcome oc.dir (s.servers f.addr) f.args).2 ∧
      (∀ g ∈ s.flights, g ≠ f → g ∈ s'.flights) ∧ (∀ a ∈ s.replies, a ∈ s'.replies) ∧
      (fate.runs = true →
        ⟨f.call, f.round, f.addr, ((fate.before (s.servers f.addr)).exec oc.dir f.args).1⟩ ∈ s'.replies) := by
  have hbefore : { s.servers f.addr with cached := (fate.before (s.servers f.addr)).cached } =
      fate.before (s.servers f.addr) := by
    dsimp only
    rw [← kept]
  have cached : OwnRun oc s [.cache f.addr (fate.before (s.servers f.addr)).cached] _ :=
    .one ⟨trivial, trivial⟩ rfl
  rw [hbefore] at cached
  unfold Fate.outcome
  rw [if_pos sent]
  by_cases hruns : fate.runs = true
  · rw [if_pos hruns]
    refine ⟨_, _, cached.snoc (e := TrafficEvent.exec f) ⟨hf, trivial⟩ (trafficStep_exec hc), rfl, ?_,
      fun g hg hne => ?_, fun a ha => List.mem_append_left _ ha, fun _ => ?_⟩
    · dsimp only
      rw [Function.update_self, Function.update_idem]
    · exact (List.mem_erase_of_ne hne).mpr hg
    · dsimp only
      rw [Function.update_self]
      exact List.mem_append_right _ (List.mem_singleton_self _)
  · rw [if_neg hruns]
    exact ⟨_, _, cached, rfl, rfl, fun g hg _ => hg, fun a ha => ha, fun h => absurd h hruns⟩

/-- What becomes of the commands of a round, one after the other. -/
theorem fates_traffic {fate : UInt64 → Fate} (kept : ∀ addr r, ((fate addr).before r).keys = r.keys)
    (hc : s.callers n = some c) (fs : List Flight) (nodup : (fs.map Flight.addr).Nodup)
    (flying : ∀ f ∈ fs, f ∈ s.flights ∧ f.call = n ∧ (fate f.addr).sent = true) :
    ∃ es s', OwnRun oc s es s' ∧ s'.callers = s.callers ∧
      (∀ f ∈ fs, s'.servers f.addr = ((fate f.addr).outcome oc.dir (s.servers f.addr) f.args).2) ∧
      (∀ addr ∉ fs.map Flight.addr, s'.servers addr = s.servers addr) ∧
      (∀ a ∈ s.replies, a ∈ s'.replies) ∧
      ∀ f ∈ fs, (fate f.addr).runs = true → ⟨n, f.round, f.addr,
        (((fate f.addr).before (s.servers f.addr)).exec oc.dir f.args).1⟩ ∈ s'.replies := by
  induction fs generalizing s with
  | nil =>
    exact ⟨[], s, .nil, rfl, fun f hf => (by cases hf), fun _ _ => rfl, fun _ ha => ha,
      fun f hf => (by cases hf)⟩
  | cons f fs ih =>
    rw [List.map_cons, List.nodup_cons] at nodup
    obtain ⟨hf, hcall, hsent⟩ := flying f (List.mem_cons_self ..)
    have hne : ∀ g ∈ fs, g.addr ≠ f.addr := fun g hg heq =>
      nodup.1 (heq ▸ List.mem_map_of_mem hg)
    obtain ⟨es, s₁, run, hcallers, hservers, hflights, hreplies, hreply⟩ :=
      fate_traffic oc hsent (kept f.addr) hf (hcall ▸ hc)
    have hother : ∀ addr, addr ≠ f.addr → s₁.servers addr = s.servers addr := fun addr h => by
      rw [hservers, Function.update_of_ne h]
    have flying' : ∀ g ∈ fs, g ∈ s₁.flights ∧ g.call = n ∧ (fate g.addr).sent = true := by
      intro g hg
      obtain ⟨hmem, hrest⟩ := flying g (List.mem_cons_of_mem _ hg)
      exact ⟨hflights g hmem fun heq => hne g hg (congrArg Flight.addr heq), hrest⟩
    obtain ⟨es', s₂, run', hcallers', hservers', hother', hreplies', hreply'⟩ :=
      ih (hcallers ▸ hc) nodup.2 flying'
    refine ⟨_, s₂, run.trans run', hcallers'.trans hcallers, fun g hg => ?_, fun addr haddr => ?_,
      fun a ha => hreplies' a (hreplies a ha), fun g hg hruns => ?_⟩
    · rcases List.mem_cons.mp hg with rfl | hg
      · rw [hother' _ nodup.1, hservers, Function.update_self]
      · rw [hservers' g hg, hother _ (hne g hg)]
    · rw [List.map_cons, List.mem_cons, not_or] at haddr
      rw [hother' addr haddr.2, hother addr haddr.1]
    · rcases List.mem_cons.mp hg with rfl | hg
      · rw [← hcall]
        exact hreplies' _ (hreply hruns)
      · rw [← hother _ (hne g hg)]
        exact hreply' g hg hruns

variable (undisturbed : Undisturbed plan)

include undisturbed in
/-- A round of the network, up to the end of the wait. -/
theorem round_traffic (hc : s.callers n = some c) (ready : c.phase = .ready)
    (left : c.addrCmd.isEmpty = false) {w : World} (servers : s.servers = w.servers) :
    ∃ es s', OwnRun oc s es s' ∧
      s'.servers = (afterRound oc.dir plan w (c.sent oc.dir)).servers ∧
      (∀ m, m ≠ n → s'.callers m = s.callers m) ∧
      s'.callers n = some ({ c with round := c.round + 1, phase := .waiting }.proceed oc.dir
        (replies oc.dir plan w (c.sent oc.dir))) := by
  have hsent : c.sent oc.dir = sentCmds (oc.dir.data c.task.file) c.iseval c.addrCmd := rfl
  obtain ⟨s₁, sent, hc₁, hothers, hflying, hservers⟩ : ∃ s₁, OwnRun oc s
      [.send n fun addr => ((plan w.rounds).fate addr).sent] s₁ ∧
      s₁.callers n = some { c with round := c.round + 1, phase := .waiting } ∧
      (∀ m, m ≠ n → s₁.callers m = s.callers m) ∧
      (∀ f ∈ flightsOf oc n c fun addr => ((plan w.rounds).fate addr).sent, f ∈ s₁.flights) ∧
      s₁.servers = w.servers :=
    ⟨_, .one ⟨⟨c, hc, ready, left⟩, trivial⟩ (trafficStep_send hc _), Function.update_self ..,
      fun m hm => Function.update_of_ne hm .., fun f hf => List.mem_append_right _ hf, servers⟩
  obtain ⟨es, s₂, run, hcallers, hran, hother, _, hreply⟩ := fates_traffic oc
    (fun addr r => undisturbed w.rounds addr r) hc₁ _ nodup_flightsOf fun f hf =>
      ⟨hflying f hf, (mem_flightsOf.mp hf).1, (mem_flightsOf.mp hf).2.2.2⟩
  rw [← hcallers] at hc₁ hothers
  have own : OwnAnswers s₂ (.proceed n (replies oc.dir plan w (c.sent oc.dir))) := by
    intro c' hc'
    rw [hc₁] at hc'
    cases hc'
    refine ⟨nodup_replies, fun addr haddr => ?_, fun addr r hr => ?_⟩
    · obtain ⟨entry, hentry, rfl⟩ := List.mem_map.mp haddr
      obtain ⟨_, args, hargs, _⟩ := mem_replies.mp hentry
      obtain ⟨args', hargs', _⟩ := sentCmds_get.mp hargs
      exact Ordered.mem_iff_getElem?.mpr ⟨args', hargs'⟩
    · obtain ⟨_, args, hargs, houtcome⟩ := mem_replies.mp hr
      obtain ⟨hsent', hruns, _, hexec⟩ := outcome_some.mp houtcome
      have hf : (⟨n, c.round + 1, addr, args⟩ : Flight) ∈
          flightsOf oc n c fun addr => ((plan w.rounds).fate addr).sent :=
        mem_flightsOf.mpr ⟨rfl, rfl, hargs, hsent'⟩
      have hmem := hreply _ hf hruns
      rw [hservers] at hmem
      dsimp only at hmem
      rw [hexec] at hmem
      exact hmem
  refine ⟨_, _, (sent.trans run).snoc ⟨own.enabled hc₁ rfl, own⟩ (trafficStep_proceed hc₁ _), ?_,
    fun m hm => (Function.update_of_ne hm ..).trans (hothers m hm), Function.update_self ..⟩
  funext addr
  change s₂.servers addr = _
  cases hargs : (c.sent oc.dir)[addr]? with
  | none =>
    rw [servers_unsent hargs, hother addr, hservers]
    intro hmem
    obtain ⟨f, hf, rfl⟩ := List.mem_map.mp hmem
    obtain ⟨_, _, hget, _⟩ := mem_flightsOf.mp hf
    rw [← hsent, hargs] at hget
    cases hget
  | some args =>
    rw [servers_sent hargs]
    by_cases hready : ((plan w.rounds).fate addr).sent = true
    · have hf : (⟨n, c.round + 1, addr, args⟩ : Flight) ∈
          flightsOf oc n c fun addr => ((plan w.rounds).fate addr).sent :=
        mem_flightsOf.mpr ⟨rfl, rfl, hargs, hready⟩
      have heq := hran _ hf
      rw [hservers] at heq
      exact heq
    · rw [hother addr, hservers, Fate.outcome, if_neg hready]
      intro hmem
      obtain ⟨f, hf, rfl⟩ := List.mem_map.mp hmem
      exact hready (mem_flightsOf.mp hf).2.2.2

/-- From here on the call may return this, with these redis, while no other call moves. -/
def MayReturn (oc : OnlineCtrl) (s : CallTraffic) (n : Nat) (rv : RedisRvs) (servers : UInt64 → Redis) :
    Prop :=
  ∃ es s', OwnRun oc s es s' ∧ s'.servers = servers ∧ (∀ m, m ≠ n → s'.callers m = s.callers m) ∧
    ∃ notes, s'.log = notes ++ [.returned n rv]

theorem MayReturn.after {es : List TrafficEvent} {s₁ : CallTraffic} {rv : RedisRvs} {servers : UInt64 → Redis}
    (run : OwnRun oc s es s₁) (others : ∀ m, m ≠ n → s₁.callers m = s.callers m)
    (h : MayReturn oc s₁ n rv servers) : MayReturn oc s n rv servers := by
  obtain ⟨es', s₂, run', hservers, hothers, hlog⟩ := h
  exact ⟨es ++ es', s₂, run.trans run', hservers, fun m hm => (hothers m hm).trans (others m hm), hlog⟩

theorem ret_traffic (hc : s.callers n = some c) (ready : c.phase = .ready)
    (done : c.addrCmd.isEmpty = true) : MayReturn oc s n c.rv s.servers :=
  ⟨_, _, .one (e := TrafficEvent.ret n) ⟨⟨c, hc, ready, done⟩, trivial⟩ (trafficStep_ret hc), rfl,
    fun _ hm => Function.update_of_ne hm .., s.log, rfl⟩

include undisturbed in
/-- By induction on the fuel: a round is a send, the runs of its commands and the end of its wait.
-/
theorem cmd_traffic (sync : c.task.isAsync = false) (hc : s.callers n = some c) (ready : c.phase = .ready)
    {w : World} (servers : s.servers = w.servers) {rounds : Nat} {rv : RedisRvs} {w' : World}
    (hcmd : cmd (network oc.dir plan) (oc.dir.data c.task.file) rounds c.iseval c.addrCmd c.rv w =
      some (rv, w')) : MayReturn oc s n rv w'.servers := by
  induction rounds generalizing s c w with
  | zero =>
    rw [cmd] at hcmd
    cases hcmd
  | succ rounds ih =>
    cases left : c.addrCmd.isEmpty with
    | true =>
      rw [cmd_empty left] at hcmd
      cases hcmd
      rw [← servers]
      exact ret_traffic oc hc ready left
    | false =>
      obtain ⟨es, s₁, run, hservers, hothers, hc₁⟩ := round_traffic oc undisturbed hc ready left servers
      refine .after oc run hothers ?_
      by_cases again : oc.dir.data c.task.file ≠ [] ∧
          (collect (replies oc.dir plan w (c.sent oc.dir)) c.rv).2.isEmpty = false
      · rw [@proceed_again oc.dir { c with round := c.round + 1, phase := .waiting } _ sync again] at hc₁
        exact ih (by exact sync) hc₁ rfl hservers ((cmd_again left again.1 again.2).symm.trans hcmd)
      · rw [@proceed_done oc.dir { c with round := c.round + 1, phase := .waiting } _ sync again] at hc₁
        rw [not_and_or, not_not, Bool.not_eq_false] at again
        have hrest := (cmd_done left again).symm.trans hcmd
        cases hrest
        have hret := ret_traffic oc hc₁ rfl Std.ExtTreeMap.isEmpty_empty
        rw [hservers] at hret
        exact hret

include undisturbed in
theorem cmdAsyncRv_traffic (async : c.task.isAsync = true) (first : c.iseval = false) (fresh : c.rv = ∅)
    (hc : s.callers n = some c) (ready : c.phase = .ready) {w : World} (servers : s.servers = w.servers) :
    MayReturn oc s n (cmdAsyncRv (network oc.dir plan) c.addrCmd w).1
      (cmdAsyncRv (network oc.dir plan) c.addrCmd w).2.servers := by
  rw [@cmdAsyncRv_proceed oc.dir c _ (network oc.dir plan) w async first fresh]
  cases left : c.addrCmd.isEmpty with
  | true =>
    have hnone : ∀ addr : UInt64, (c.sent oc.dir)[addr]? = none := by
      intro addr
      rw [sent_plain first, Std.ExtTreeMap.isEmpty_iff.mp left]
      simp [sendable]
    have hreplies : replies oc.dir plan w (c.sent oc.dir) = [] := by
      rw [List.eq_nil_iff_forall_not_mem]
      intro entry hentry
      obtain ⟨_, args, hargs, _⟩ := mem_replies.mp hentry
      rw [hnone] at hargs
      cases hargs
    have hservers : (afterRound oc.dir plan w (c.sent oc.dir)).servers = s.servers := by
      funext addr
      rw [servers_unsent (hnone addr), servers]
    change MayReturn oc s n (c.proceed oc.dir (replies oc.dir plan w (c.sent oc.dir))).rv
      (afterRound oc.dir plan w (c.sent oc.dir)).servers
    have hret := ret_traffic oc hc ready left
    rw [proceed_async async, hreplies, hservers]
    exact hret
  | false =>
    obtain ⟨es, s₁, run, hservers, hothers, hc₁⟩ := round_traffic oc undisturbed hc ready left servers
    refine .after oc run hothers ?_
    rw [@proceed_async oc.dir { c with round := c.round + 1, phase := .waiting } _ async] at hc₁
    have hret := ret_traffic oc hc₁ rfl Std.ExtTreeMap.isEmpty_empty
    rw [hservers] at hret
    rw [proceed_async async]
    exact hret

include undisturbed in
/-- Whatever a call does on a network that loses things, in its rounds with their late answers,
their `EVAL` and what redis forget, it may do in the middle of any traffic, while no other call
moves. Nobody writes to the redis between its rounds (`Undisturbed`), and its waits take answers to
their own round. -/
theorem call_among_others {task : OnlineTask} (hc : s.callers n = some (.enter oc task)) {w : World}
    (servers : s.servers = w.servers) :
    (task.isAsync = false → ∀ rounds rv w',
      cmd (network oc.dir plan) (oc.dir.data task.file) rounds false (task.commands oc) ∅ w =
        some (rv, w') → MayReturn oc s n rv w'.servers) ∧
    (task.isAsync = true → MayReturn oc s n (cmdAsyncRv (network oc.dir plan) (task.commands oc) w).1
      (cmdAsyncRv (network oc.dir plan) (task.commands oc) w).2.servers) :=
  ⟨fun sync _ _ _ hcmd => cmd_traffic oc undisturbed sync hc rfl servers hcmd,
    fun async => cmdAsyncRv_traffic oc undisturbed async rfl rfl hc rfl servers⟩

end Call

/-- A request among others, whose answer is late. -/
theorem call_among_others_example :
    ∃ rv w', cmd (network exampleCtrl.dir latePlan) (exampleCtrl.dir.data (.request .syn)) 2 false
        (OnlineTask.commands exampleCtrl (.request 7 exampleSyn)) ∅ freshWorld = some (rv, w') ∧
      MayReturn exampleCtrl ((CallTraffic.init exampleCtrl.rh freshWorld.servers).setCaller 0
        (.enter exampleCtrl (.request 7 exampleSyn))) 0 rv w'.servers := by
  have undisturbed : Undisturbed latePlan := fun _ _ _ => rfl
  have evals : Evals exampleCtrl.dir (.request .syn) (fun _ => requestKeys 7 exampleSyn)
      (fun _ => exampleSyn.data) (OnlineTask.commands exampleCtrl (.request 7 exampleSyn)) :=
    fun addr args hargs => (@requestCommands_get exampleCtrl 7 exampleSyn addr args hargs).2
  obtain ⟨rv, w', hcmd, _⟩ := @cmd_once exampleCtrl.dir latePlan freshWorld _ _ _ _ ∅ undisturbed evals
    (fun _ _ => (@request_writes 7 exampleSyn rfl _).1) 0
  have called := CallTraffic.callers_setCaller_self (.init exampleCtrl.rh freshWorld.servers) 0
    (.enter exampleCtrl (.request 7 exampleSyn))
  exact ⟨rv, w', hcmd,
    (@call_among_others exampleCtrl latePlan _ 0 undisturbed _ called freshWorld rfl).1 rfl 2 rv w' hcmd⟩

end RedisCluster.Guarantees
