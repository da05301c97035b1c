import RedisCluster.Guarantees.TrafficCalls

/-!
# Calls that overlap

However calls of many threads overlap, every redis has what the sessions' own machine makes of the
scripts in the order in which it ran them, each call has run once at most on each redis, after it
was called, and what it returns was the answer at that moment.
-/

set_option autoImplicit false

namespace RedisCluster.Guarantees
open Library Source

/-! ## Calls -/

/-- What a call is for the sessions. -/
def taskEvent : OnlineTask → SessionEvent
  | .request uid r => .request uid r
  | .requestAsync uid r => .request uid r
  | .timeoutRm stamp count => .timeoutRm stamp count

/-- The script that a call has run. -/
def taskScript : OnlineTask → Script RedisReply
  | .request uid r => scriptOf r.type (requestKeys uid r) r.data
  | .requestAsync uid r => scriptOf r.type (requestKeys uid r) r.data
  | .timeoutRm stamp count => timeoutRm [Text.decimal stamp, Text.decimal count]

/-- What a call answers where this has happened. -/
def taskAnswer (es : List SessionEvent) (task : OnlineTask) : RedisRv :=
  redisrvsAdd (runScript (taskScript task) (runSessions es)).1 .fresh

/-- A reply that is an error does not count. -/
def answered (rv : RedisRvs) (addr : UInt64) : Option RedisRv := rv[addr]?.filter fun v => v.type ≠ .error

/-- A request with an odd number of data is refused before anything is sent. -/
def taskAccepted : OnlineTask → Bool
  | .request _ r => r.accepted
  | .requestAsync _ r => r.accepted
  | .timeoutRm _ _ => true

/-- The command has the script of the call run. -/
def RunsTask (dir : ScriptDir) (task : OnlineTask) (args : List Str) : Prop :=
  ∀ cached, redisOrder dir cached args = .refuse noScript ∨
    ∃ file keys argv, redisOrder dir cached args = .run file keys argv ∧
      file.script keys argv = taskScript task

/-- The command of a call names its script by the SHA-1. -/
def NamesTask (dir : ScriptDir) (task : OnlineTask) (args : List Str) : Prop :=
  taskAccepted task = true ∧ ∃ keys argv,
    args = "EVALSHA".toList :: dir.sha1 task.file :: Text.decimal keys.length :: (keys ++ argv) ∧
      task.file.script keys argv = taskScript task

section Task
variable {dir : ScriptDir} {oc : OnlineCtrl} {task : OnlineTask} {addr : UInt64} {args : List Str}
  {es : List SessionEvent} {s : Keyspace}

/-- Every command of a call names its script. -/
theorem commands_names (h : (task.commands oc)[addr]? = some args) : NamesTask oc.dir task args := by
  cases task with
  | request uid r =>
    obtain ⟨haccepted, rfl⟩ := requestCommands_get h
    exact ⟨haccepted, requestKeys uid r, r.data, rfl, rfl⟩
  | requestAsync uid r =>
    obtain ⟨haccepted, rfl⟩ := requestCommands_get h
    exact ⟨haccepted, requestKeys uid r, r.data, rfl, rfl⟩
  | timeoutRm stamp count =>
    obtain ⟨argv, rfl⟩ := timeoutCommands_names oc stamp count addr args h
    exact ⟨rfl, [Text.decimal stamp, Text.decimal count], argv, rfl, rfl⟩

/-- By the SHA-1 or by the text, the script is run, unless it is not known. -/
theorem NamesTask.runs (h : NamesTask dir task args) (iseval : Bool) :
    RunsTask dir task (if iseval then evalArgs (dir.data task.file) args else args) := by
  obtain ⟨_, keys, argv, rfl, hscript⟩ := h
  intro cached
  cases iseval with
  | true =>
    rw [if_pos rfl, evalArgs_evalsha]
    obtain ⟨found, hrun, hfound⟩ := @redisOrder_eval dir task.file keys ⟨.empty, cached⟩ argv
    exact Or.inr ⟨found, keys, argv, hrun, by rw [hfound, hscript]⟩
  | false =>
    rw [if_neg Bool.false_ne_true]
    rcases @redisOrder_evalsha dir task.file keys ⟨.empty, cached⟩ argv with
      ⟨found, hrun, hfound⟩ | hrefuse
    · exact Or.inr ⟨found, keys, argv, hrun, by rw [hfound, hscript]⟩
    · exact Or.inl hrefuse

/-- What is sent for an accepted call, by its event. -/
theorem sessionStep_task (accepted : taskAccepted task = true) :
    (runScript (taskScript task) s).2 = sessionStep s (taskEvent task) := by
  cases task with
  | request uid r =>
    rw [taskAccepted] at accepted
    rw [taskEvent, sessionStep, if_pos accepted]
    rfl
  | requestAsync uid r =>
    rw [taskAccepted] at accepted
    rw [taskEvent, sessionStep, if_pos accepted]
    rfl
  | timeoutRm stamp count => rfl

/-- No script of a call answers an error. -/
theorem task_fine (accepted : taskAccepted task = true) (names : SessionNames s) :
    (runScript (taskScript task) s).1.type ≠ .error := by
  cases task with
  | request uid r => exact (request_writes uid accepted s).1
  | requestAsync uid r => exact (request_writes uid accepted s).1
  | timeoutRm stamp count =>
    obtain ⟨pairs, hpairs, _⟩ := sweep_answers names stamp count
    rw [taskScript, hpairs]
    simp [RedisReply.array, RedisReply.type]

theorem redisrvsAdd_type (reply : RedisReply) (rv : RedisRv) :
    (redisrvsAdd reply rv).type = reply.type := by
  cases reply with
  | mk type integer str element => rw [redisrvsAdd]; rfl

/-- A command either runs the script of its call, or does nothing and is answered by an error. -/
theorem RunsTask.exec (runs : RunsTask dir task args) (r : Redis) :
    (r.exec dir args = (.error noScript, r) ∧
        ∀ file keys argv, redisOrder dir r.cached args ≠ .run file keys argv) ∨
      ∃ file keys argv, redisOrder dir r.cached args = .run file keys argv ∧
        (r.exec dir args).1 = (runScript (taskScript task) r.keys).1 ∧
        (r.exec dir args).2.keys = (runScript (taskScript task) r.keys).2 := by
  rcases runs r.cached with hrefuse | ⟨file, keys, argv, hrun, hscript⟩
  · refine Or.inl ⟨by rw [Redis.exec, hrefuse], fun file keys argv heq => ?_⟩
    rw [hrefuse] at heq
    cases heq
  · refine Or.inr ⟨file, keys, argv, hrun, ?_⟩
    rw [Redis.exec, hrun, ← hscript]
    exact ⟨rfl, rfl⟩

end Task

/-! ## What a call knows -/

/-- The command of a call for a redis is on its way, or its script has run there. -/
def Spent (s : CallTraffic) (n : Nat) (addr : UInt64) : Prop :=
  (∃ f ∈ s.flights, f.call = n ∧ f.addr = addr) ∨ ∃ task, .acted n task addr ∈ s.log

/-- The redis has run the script of the call, and answered this. -/
abbrev AnsweredThen (s : CallTraffic) (n : Nat) (addr : UInt64) (v : RedisRv) : Prop :=
  ActedWith taskEvent taskAnswer s.log n addr v

section Invariant
variable (dir : ScriptDir)

/-- A command on its way. -/
structure FlightOk (s : CallTraffic) (c : Caller) (f : Flight) : Prop where
  accepted : taskAccepted c.task = true
  runs : RunsTask dir c.task f.args
  round : f.round ≤ c.round
  asked : c.phase = .waiting → f.round = c.round → f.addr ∈ c.addrCmd
  unrun : ∀ task, .acted f.call task f.addr ∉ s.log

/-- What a call has still to ask is not spent, and what it was told is so. -/
structure CallerOk (s : CallTraffic) (n : Nat) (c : Caller) : Prop where
  called : .called n c.task ∈ s.log
  names : ∀ (addr : UInt64) (args : List Str), c.addrCmd[addr]? = some args → NamesTask dir c.task args
  unanswered : ∀ addr ∈ c.addrCmd, c.rv[addr]? = none
  ready : c.phase = .ready → ∀ addr ∈ c.addrCmd, ¬ Spent s n addr
  rv : ∀ (addr : UInt64) (v : RedisRv), c.rv[addr]? = some v →
    (v.type = .error → ¬ Spent s n addr) ∧ (v.type ≠ .error → AnsweredThen s n addr v)
  round : ∀ a ∈ s.replies, a.call = n → a.round ≤ c.round
  asked : c.phase = .waiting → ∀ a ∈ s.replies, a.call = n → a.round = c.round → a.addr ∈ c.addrCmd
  refused : c.phase = .waiting → ∀ a ∈ s.replies, a.call = n → a.round = c.round →
    a.reply.type = .error → ¬ Spent s n a.addr
  told : ∀ a ∈ s.replies, a.call = n → a.reply.type ≠ .error →
    AnsweredThen s n a.addr (redisrvsAdd a.reply .fresh)

/-- What is true at any moment of a run with own answers: the redis have what the log says, every
command and caller fits the log, and so does every session. -/
structure Sound (s : CallTraffic) : Prop where
  keys : ∀ addr, (s.servers addr).keys = runSessions (happenedAt taskEvent addr s.log)
  linear : Linear taskEvent taskAnswer answered s.log
  once : (s.flights.map fun f => (f.call, f.addr)).Nodup
  flights : ∀ f ∈ s.flights, ∃ c, s.callers f.call = some c ∧ FlightOk dir s c f
  callers : ∀ n c, s.callers n = some c → CallerOk dir s n c
  replies : ∀ a ∈ s.replies, ∃ c, s.callers a.call = some c
  called : ∀ n task, .called n task ∈ s.log → ∃ c, s.callers n = some c
  returned : ∀ n rv, .returned n rv ∈ s.log →
    ∃ c, s.callers n = some c ∧ c.phase = .returned ∧ c.rv = rv

end Invariant

/-- For this call nothing has been sent, executed or answered. -/
structure Aside (n : Nat) (s s' : CallTraffic) : Prop where
  log : ∃ notes, s'.log = s.log ++ notes
  acted : ∀ task addr, .acted n task addr ∈ s'.log → .acted n task addr ∈ s.log
  flights : ∀ f ∈ s'.flights, f.call = n → f ∈ s.flights
  replies : ∀ a ∈ s'.replies, a.call = n → a ∈ s.replies

section Aside
variable {dir : ScriptDir} {n : Nat} {s s' : CallTraffic} {c : Caller} {f : Flight} {addr : UInt64}
  {v : RedisRv}

theorem Aside.mem (aside : Aside n s s') {e : Note OnlineTask UInt64 RedisRvs SessionEvent}
    (h : e ∈ s.log) : e ∈ s'.log := by
  obtain ⟨notes, hlog⟩ := aside.log
  rw [hlog]
  exact List.mem_append_left _ h

theorem Aside.spent (aside : Aside n s s') (h : Spent s' n addr) : Spent s n addr := by
  rcases h with ⟨f, hf, hcall, haddr⟩ | ⟨task, hacted⟩
  · exact Or.inl ⟨f, aside.flights f hf hcall, hcall, haddr⟩
  · exact Or.inr ⟨task, aside.acted task addr hacted⟩

theorem Aside.answered (aside : Aside n s s') (h : AnsweredThen s n addr v) : AnsweredThen s' n addr v := by
  obtain ⟨notes, hlog⟩ := aside.log
  rw [AnsweredThen, hlog]
  exact h.append notes

/-- What others do does not matter to a command under way. -/
theorem FlightOk.aside (h : FlightOk dir s c f) (aside : Aside f.call s s') : FlightOk dir s' c f where
  accepted := h.accepted
  runs := h.runs
  round := h.round
  asked := h.asked
  unrun task hacted := h.unrun task (aside.acted task _ hacted)

/-- Nor to a caller. -/
theorem CallerOk.aside (h : CallerOk dir s n c) (aside : Aside n s s') : CallerOk dir s' n c where
  called := aside.mem h.called
  names := h.names
  unanswered := h.unanswered
  ready hready addr haddr hspent := h.ready hready addr haddr (aside.spent hspent)
  rv addr v hv :=
    ⟨fun herror hspent => (h.rv addr v hv).1 herror (aside.spent hspent),
      fun hfine => aside.answered ((h.rv addr v hv).2 hfine)⟩
  round a ha hcall := h.round a (aside.replies a ha hcall) hcall
  asked hwaiting a ha hcall := h.asked hwaiting a (aside.replies a ha hcall) hcall
  refused hwaiting a ha hcall hround herror hspent :=
    h.refused hwaiting a (aside.replies a ha hcall) hcall hround herror (aside.spent hspent)
  told a ha hcall hfine := aside.answered (h.told a (aside.replies a ha hcall) hcall hfine)

end Aside

/-! ## Steps -/

section Steps
variable {oc : OnlineCtrl} {s s' : CallTraffic} {n : Nat} {c c' : Caller}

theorem mem_snoc_iff {α : Type} {l : List α} {x e : α} (h : x ≠ e) : x ∈ l ++ [e] ↔ x ∈ l := by
  rw [List.mem_append, List.mem_singleton]
  exact or_iff_left h

/-- The redis may change, and something may happen to all of them, but no call goes on. -/
theorem Sound.idle (h : Sound oc.dir s) (callers : s'.callers = s.callers)
    (flights : s'.flights = s.flights) (replies : s'.replies = s.replies)
    (log : s'.log = s.log ∨ ∃ e, s'.log = s.log ++ [.passed e])
    (keys : ∀ addr, (s'.servers addr).keys = runSessions (happenedAt taskEvent addr s'.log)) :
    Sound oc.dir s' := by
  have hmem : ∀ e ∈ s'.log, (∀ e', e ≠ .passed e') → e ∈ s.log := by
    intro e he hne
    rcases log with hlog | ⟨e', hlog⟩
    · rwa [hlog] at he
    · rw [hlog] at he
      exact (mem_snoc_iff (hne e')).mp he
  have aside : ∀ n, Aside n s s' := by
    intro n
    refine ⟨?_, fun task addr hacted => hmem _ hacted (fun _ heq => by cases heq), fun f hf _ => ?_,
      fun a ha _ => ?_⟩
    · rcases log with hlog | ⟨e, hlog⟩
      · exact ⟨[], by rw [hlog, List.append_nil]⟩
      · exact ⟨_, hlog⟩
    · rwa [flights] at hf
    · rwa [replies] at ha
  refine ⟨keys, ?_, by rw [flights]; exact h.once, fun f hf => ?_, fun n c hc => ?_, fun a ha => ?_,
    fun n task hcalled => ?_, fun n rv hreturned => ?_⟩
  · rcases log with hlog | ⟨e, hlog⟩
    · rw [hlog]
      exact h.linear
    · rw [hlog]
      exact h.linear.snoc_passed e
  · rw [flights] at hf
    obtain ⟨c, hc, hok⟩ := h.flights f hf
    exact ⟨c, by rw [callers]; exact hc, hok.aside (aside _)⟩
  · rw [callers] at hc
    exact (h.callers n c hc).aside (aside n)
  · rw [replies] at ha
    rw [callers]
    exact h.replies a ha
  · rw [callers]
    exact h.called n task (hmem _ hcalled fun _ heq => by cases heq)
  · rw [callers]
    exact h.returned n rv (hmem _ hreturned fun _ heq => by cases heq)

/-- A call goes on by itself. -/
theorem Sound.goes_on (h : Sound oc.dir s) (callers : s'.callers = Function.update s.callers n (some c'))
    (flights : s'.flights = s.flights) (replies : s'.replies = s.replies) (aside : ∀ m, Aside m s s')
    (keys : ∀ addr, (s'.servers addr).keys = runSessions (happenedAt taskEvent addr s'.log))
    (linear : Linear taskEvent taskAnswer answered s'.log)
    (flying : ∀ f ∈ s.flights, f.call = n → FlightOk oc.dir s' c' f) (caller : CallerOk oc.dir s' n c')
    (called : ∀ m task, .called m task ∈ s'.log → m = n ∨ .called m task ∈ s.log)
    (returned : ∀ m rv, .returned m rv ∈ s'.log → m = n ∧ c'.phase = .returned ∧ c'.rv = rv ∨
      m ≠ n ∧ .returned m rv ∈ s.log) : Sound oc.dir s' := by
  have hother : ∀ m, m ≠ n → s'.callers m = s.callers m := fun m hne => by
    rw [callers, Function.update_of_ne hne]
  have hown : s'.callers n = some c' := by rw [callers, Function.update_self]
  refine ⟨keys, linear, by rw [flights]; exact h.once, fun f hf => ?_, fun m c hc => ?_, fun a ha => ?_,
    fun m task hcalled => ?_, fun m rv hreturned => ?_⟩
  · rw [flights] at hf
    by_cases hcall : f.call = n
    · exact ⟨c', by rw [hcall, hown], flying f hf hcall⟩
    · obtain ⟨c, hc, hok⟩ := h.flights f hf
      exact ⟨c, by rw [hother _ hcall, hc], hok.aside (aside _)⟩
  · by_cases hm : m = n
    · subst hm
      rw [hown, Option.some_inj] at hc
      subst hc
      exact caller
    · rw [hother m hm] at hc
      exact (h.callers m c hc).aside (aside m)
  · rw [replies] at ha
    by_cases hm : a.call = n
    · exact ⟨c', by rw [hm, hown]⟩
    · rw [hother _ hm]
      exact h.replies a ha
  · by_cases hm : m = n
    · exact ⟨c', by rw [hm, hown]⟩
    · rw [hother m hm]
      exact h.called m task ((called m task hcalled).resolve_left hm)
  · rcases returned m rv hreturned with ⟨rfl, hphase, hrv⟩ | ⟨hm, hbefore⟩
    · exact ⟨c', hown, hphase, hrv⟩
    · rw [hother m hm]
      exact h.returned m rv hbefore

/-- A call that has not been made has left no trace. -/
theorem Sound.unknown (h : Sound oc.dir s) (new : s.callers n = none) :
    (∀ f ∈ s.flights, f.call ≠ n) ∧ (∀ a ∈ s.replies, a.call ≠ n) ∧
      (∀ task, .called n task ∉ s.log) ∧ (∀ task addr, .acted n task addr ∉ s.log) ∧
        ∀ rv, .returned n rv ∉ s.log := by
  have hnone : ∀ c, s.callers n ≠ some c := fun c hc => by rw [new] at hc; cases hc
  have hcalled : ∀ task, .called n task ∉ s.log := by
    intro task hcalled
    obtain ⟨c, hc⟩ := h.called n task hcalled
    exact hnone c hc
  refine ⟨?_, ?_, hcalled, ?_, ?_⟩
  · rintro f hf rfl
    obtain ⟨c, hc, _⟩ := h.flights f hf
    exact hnone c hc
  · rintro a ha rfl
    obtain ⟨c, hc⟩ := h.replies a ha
    exact hnone c hc
  · intro task addr hacted
    obtain ⟨pre, post, hlog⟩ := List.append_of_mem hacted
    apply hcalled task
    rw [hlog]
    exact List.mem_append_left _ (h.linear.acted pre n task addr post hlog).1
  · intro rv hreturned
    obtain ⟨c, hc, _⟩ := h.returned n rv hreturned
    exact hnone c hc

theorem Sound.call (h : Sound oc.dir s) (new : s.callers n = none) (task : OnlineTask) :
    Sound oc.dir { s.setCaller n (.enter { oc with rh := s.rh } task) with
      log := s.log ++ [.called n task] } := by
  obtain ⟨hflights, hreplies, hcalled, hacted, hreturned⟩ := h.unknown new
  refine h.goes_on (n := n) rfl rfl rfl (fun m => ⟨⟨_, rfl⟩, fun task' addr hmem => ?_,
    fun f hf _ => hf, fun a ha _ => ha⟩) (fun addr => ?_) (h.linear.snoc_called hcalled)
    (fun f hf hcall => absurd hcall (hflights f hf)) ?_ (fun m task' hmem => ?_) fun m rv hmem => ?_
  · exact (mem_snoc_iff (by simp)).mp hmem
  · rw [happenedAt_snoc]
    change (s.servers addr).keys = runSessions (_ ++ [])
    rw [List.append_nil]
    exact h.keys addr
  · refine ⟨?_, ?_, ?_, ?_, ?_, ?_, ?_, ?_, ?_⟩
    · exact List.mem_append_right _ (List.mem_singleton_self _)
    · intro addr args hargs
      exact @commands_names { oc with rh := s.rh } task addr args hargs
    · exact fun addr _ => Std.ExtTreeMap.getElem?_empty
    · rintro _ addr _ (⟨f, hf, hcall, _⟩ | ⟨task', hmem⟩)
      · exact hflights f hf hcall
      · exact hacted task' addr ((mem_snoc_iff (by simp)).mp hmem)
    · intro addr v hv
      exact absurd hv (by simp [Caller.enter])
    · exact fun a ha hcall => absurd hcall (hreplies a ha)
    · exact fun _ a ha hcall => absurd hcall (hreplies a ha)
    · exact fun _ a ha hcall => absurd hcall (hreplies a ha)
    · exact fun a ha hcall => absurd hcall (hreplies a ha)
  · rcases List.mem_append.mp hmem with hmem | hmem
    · exact Or.inr hmem
    · rw [List.mem_singleton] at hmem
      cases hmem
      exact Or.inl rfl
  · have hmem' := (mem_snoc_iff (by simp)).mp hmem
    refine Or.inr ⟨?_, hmem'⟩
    rintro rfl
    exact hreturned rv hmem'

/-! ### A round goes out -/

theorem Sound.send (h : Sound oc.dir s) (hc : s.callers n = some c) (hready : c.phase = .ready)
    {connected : UInt64 → Bool} (round : c'.round = c.round + 1) (hwaits : c'.phase = .waiting)
    (task : c'.task = c.task) (addrCmd : c'.addrCmd = c.addrCmd) (rv : c'.rv = c.rv)
    (callers : s'.callers = Function.update s.callers n (some c'))
    (flights : s'.flights = s.flights ++ flightsOf oc n c connected) (replies : s'.replies = s.replies)
    (log : s'.log = s.log) (servers : s'.servers = s.servers) : Sound oc.dir s' := by
  have hcaller := h.callers n c hc
  have hown : s'.callers n = some c' := by rw [callers, Function.update_self]
  have hkept : ∀ m, m ≠ n → s'.callers m = s.callers m := fun m hne => by
    rw [callers, Function.update_of_ne hne]
  have hmem : ∀ f ∈ flightsOf oc n c connected, f.addr ∈ c.addrCmd := by
    intro f hf
    obtain ⟨args, hargs, _⟩ := sentCmds_get.mp (mem_flightsOf.mp hf).2.2.1
    exact Ordered.mem_iff_getElem?.mpr ⟨args, hargs⟩
  have hother : ∀ m, m ≠ n → Aside m s s' := by
    intro m hm
    refine ⟨⟨[], by rw [log, List.append_nil]⟩, fun _ _ hacted => by rwa [log] at hacted,
      fun f hf hcall => ?_, fun a ha _ => by rwa [replies] at ha⟩
    rw [flights] at hf
    rcases List.mem_append.mp hf with hf | hf
    · exact hf
    · exact absurd (hcall.symm.trans (mem_flightsOf.mp hf).1) hm
  have hspent : ∀ addr, addr ∉ c.addrCmd → Spent s' n addr → Spent s n addr := by
    rintro addr haddr (⟨f, hf, hcall, rfl⟩ | ⟨task, hacted⟩)
    · rw [flights] at hf
      rcases List.mem_append.mp hf with hf | hf
      · exact Or.inl ⟨f, hf, hcall, rfl⟩
      · exact absurd (hmem f hf) haddr
    · rw [log] at hacted
      exact Or.inr ⟨task, hacted⟩
  have hnew : ((flightsOf oc n c connected).map fun f => (f.call, f.addr)).Nodup := by
    apply List.Nodup.of_map Prod.snd
    rw [List.map_map]
    exact nodup_flightsOf
  refine ⟨?_, by rw [log]; exact h.linear, ?_, fun f hf => ?_, fun m c₁ hc₁ => ?_, fun a ha => ?_,
    fun m task hcalled => ?_, fun m rv hreturned => ?_⟩
  · rw [servers, log]
    exact h.keys
  · rw [flights, List.map_append, List.nodup_append]
    refine ⟨h.once, hnew, ?_⟩
    rintro key hkey key' hkey' rfl
    obtain ⟨f, hf, rfl⟩ := List.mem_map.mp hkey
    obtain ⟨f', hf', heq⟩ := List.mem_map.mp hkey'
    obtain ⟨hcall, haddr⟩ := Prod.mk.inj heq
    apply hcaller.ready hready f'.addr (hmem f' hf')
    exact Or.inl ⟨f, hf, by rw [← hcall, (mem_flightsOf.mp hf').1], haddr.symm⟩
  · rw [flights] at hf
    rcases List.mem_append.mp hf with hf | hf
    · obtain ⟨c₁, hc₁, hok⟩ := h.flights f hf
      by_cases hcall : f.call = n
      · rw [hcall, hc, Option.some_inj] at hc₁
        subst hc₁
        have hle := hok.round
        refine ⟨c', by rw [hcall, hown], by rw [task]; exact hok.accepted, by rw [task]; exact hok.runs,
          by omega, fun _ hround => absurd hround (by omega), fun task hacted => ?_⟩
        rw [log] at hacted
        exact hok.unrun task hacted
      · exact ⟨c₁, by rw [hkept _ hcall, hc₁], hok.aside (hother _ hcall)⟩
    · obtain ⟨hcall, hround, hget, _⟩ := mem_flightsOf.mp hf
      obtain ⟨args, hargs, _, hsent⟩ := sentCmds_get.mp hget
      have hnames := hcaller.names f.addr args hargs
      refine ⟨c', by rw [hcall, hown], by rw [task]; exact hnames.1, ?_, by omega, fun _ _ => ?_,
        fun task hacted => ?_⟩
      · rw [hsent, task]
        exact hnames.runs c.iseval
      · rw [addrCmd]
        exact hmem f hf
      · rw [hcall, log] at hacted
        exact hcaller.ready hready f.addr (hmem f hf) (Or.inr ⟨task, hacted⟩)
  · by_cases hm : m = n
    · subst hm
      rw [hown, Option.some_inj] at hc₁
      subst hc₁
      have hold : ∀ a ∈ s'.replies, a.call = m → a ∈ s.replies ∧ a.round < c'.round := by
        intro a ha hcall
        rw [replies] at ha
        have hle := hcaller.round a ha hcall
        exact ⟨ha, by omega⟩
      refine ⟨by rw [log, task]; exact hcaller.called, by rw [addrCmd, task]; exact hcaller.names,
        by rw [addrCmd, rv]; exact hcaller.unanswered, fun hphase => ?_, ?_, ?_, ?_, ?_, ?_⟩
      · rw [hwaits] at hphase
        cases hphase
      · intro addr v hv
        rw [rv] at hv
        obtain ⟨herror, hfine⟩ := hcaller.rv addr v hv
        rw [AnsweredThen, log]
        refine ⟨fun htype hafter => herror htype (hspent addr (fun haddr => ?_) hafter), hfine⟩
        rw [hcaller.unanswered addr haddr] at hv
        cases hv
      · exact fun a ha hcall => Nat.le_of_lt (hold a ha hcall).2
      · exact fun _ a ha hcall heq => absurd heq (Nat.ne_of_lt (hold a ha hcall).2)
      · exact fun _ a ha hcall heq => absurd heq (Nat.ne_of_lt (hold a ha hcall).2)
      · intro a ha hcall hfine
        rw [AnsweredThen, log]
        exact hcaller.told a (hold a ha hcall).1 hcall hfine
    · rw [hkept m hm] at hc₁
      exact (h.callers m c₁ hc₁).aside (hother m hm)
  · rw [replies] at ha
    by_cases hm : a.call = n
    · exact ⟨c', by rw [hm, hown]⟩
    · rw [hkept _ hm]
      exact h.replies a ha
  · rw [log] at hcalled
    by_cases hm : m = n
    · exact ⟨c', by rw [hm, hown]⟩
    · rw [hkept m hm]
      exact h.called m task hcalled
  · rw [log] at hreturned
    obtain ⟨c₁, hc₁, hphase, hrv⟩ := h.returned m rv hreturned
    have hm : m ≠ n := by
      rintro rfl
      rw [hc, Option.some_inj] at hc₁
      subst hc₁
      rw [hready] at hphase
      cases hphase
    exact ⟨c₁, by rw [hkept m hm, hc₁], hphase, hrv⟩

/-! ### A redis executes a command -/

/-- The command does nothing, and is answered by an error, or the script runs, with what it
answers then. -/
inductive Executes (oc : OnlineCtrl) (s s' : CallTraffic) (c : Caller) (f : Flight) (reply : RedisReply) : Prop
  | refused (error : reply.type = .error) (log : s'.log = s.log)
      (keys : ∀ addr, (s'.servers addr).keys = (s.servers addr).keys)
  | ran (fine : reply.type ≠ .error) (log : s'.log = s.log ++ [.acted f.call c.task f.addr])
      (keys : ∀ addr, (s'.servers addr).keys =
        if f.addr = addr then sessionStep (s.servers addr).keys (taskEvent c.task)
        else (s.servers addr).keys)
      (told : redisrvsAdd reply .fresh = taskAnswer (happenedAt taskEvent f.addr s.log) c.task)

/-- The command is gone, and nothing but it has been run. -/
structure Executed (s s' : CallTraffic) (f : Flight) : Prop where
  flights : ∀ g ∈ s'.flights, g ∈ s.flights ∧ ¬ (g.call = f.call ∧ g.addr = f.addr)
  log : ∃ notes, s'.log = s.log ++ notes
  acted : ∀ m task addr, .acted m task addr ∈ s'.log →
    .acted m task addr ∈ s.log ∨ m = f.call ∧ addr = f.addr
  same : ∀ e ∈ s'.log, (∀ m task addr, e ≠ .acted m task addr) → e ∈ s.log

section Exec
variable {f : Flight} {reply : RedisReply}

/-- A command that is run was not run before. -/
theorem Sound.executed (h : Sound oc.dir s) (hf : f ∈ s.flights) (executes : Executes oc s s' c f reply)
    (flights : s'.flights = s.flights.erase f) : Executed s s' f := by
  refine ⟨fun g hg => ?_, ?_, fun m task addr hmem => ?_, fun e he hne => ?_⟩
  · rw [flights] at hg
    obtain ⟨hne, hmem⟩ := (List.Nodup.mem_erase_iff h.once.of_map).mp hg
    refine ⟨hmem, fun heq => hne ?_⟩
    exact List.inj_on_of_nodup_map h.once hmem hf (Prod.ext heq.1 heq.2)
  · cases executes with
    | refused _ log _ => exact ⟨[], by rw [log, List.append_nil]⟩
    | ran _ log _ _ => exact ⟨_, log⟩
  · cases executes with
    | refused _ log _ =>
      rw [log] at hmem
      exact Or.inl hmem
    | ran _ log _ _ =>
      rw [log] at hmem
      rcases List.mem_append.mp hmem with hmem | hmem
      · exact Or.inl hmem
      · rw [List.mem_singleton] at hmem
        cases hmem
        exact Or.inr ⟨rfl, rfl⟩
  · cases executes with
    | refused _ log _ => rwa [log] at he
    | ran _ log _ _ =>
      rw [log] at he
      exact (mem_snoc_iff (hne _ _ _)).mp he

/-- What was not spent is not spent now. -/
theorem Executed.spent (executed : Executed s s' f) (hf : f ∈ s.flights) {addr : UInt64}
    (h : Spent s' f.call addr) : Spent s f.call addr := by
  rcases h with ⟨g, hg, hcall, haddr⟩ | ⟨task, hmem⟩
  · exact Or.inl ⟨g, (executed.flights g hg).1, hcall, haddr⟩
  · rcases executed.acted _ _ _ hmem with hmem | ⟨_, rfl⟩
    · exact Or.inr ⟨task, hmem⟩
    · exact Or.inl ⟨f, hf, rfl, rfl⟩

theorem Executed.aside (executed : Executed s s' f)
    (replies : s'.replies = s.replies ++ [⟨f.call, f.round, f.addr, reply⟩]) {m : Nat} (hm : m ≠ f.call) :
    Aside m s s' := by
  refine ⟨executed.log, fun task addr hmem => ?_, fun g hg _ => (executed.flights g hg).1,
    fun a ha hcall => ?_⟩
  · exact (executed.acted m task addr hmem).resolve_right fun heq => hm heq.1
  · rw [replies] at ha
    rcases List.mem_append.mp ha with ha | ha
    · exact ha
    · rw [List.mem_singleton] at ha
      subst ha
      exact absurd hcall.symm hm

/-- The call whose command it was is told at most this. -/
theorem CallerOk.executed (h : CallerOk oc.dir s f.call c) (hok : FlightOk oc.dir s c f)
    (hf : f ∈ s.flights) (executes : Executes oc s s' c f reply) (executed : Executed s s' f)
    (replies : s'.replies = s.replies ++ [⟨f.call, f.round, f.addr, reply⟩]) :
    CallerOk oc.dir s' f.call c := by
  obtain ⟨notes, hlog⟩ := executed.log
  have hanswered : ∀ addr v, AnsweredThen s f.call addr v → AnsweredThen s' f.call addr v := by
    intro addr v hv
    rw [AnsweredThen, hlog]
    exact hv.append notes
  have hreply : ∀ a ∈ s'.replies, a ∈ s.replies ∨ a = ⟨f.call, f.round, f.addr, reply⟩ := by
    intro a ha
    rw [replies] at ha
    exact (List.mem_append.mp ha).imp_right List.mem_singleton.mp
  refine ⟨by rw [hlog]; exact List.mem_append_left _ h.called, h.names, h.unanswered,
    fun hready addr haddr hafter => h.ready hready addr haddr (executed.spent hf hafter),
    ?_, ?_, ?_, ?_, ?_⟩
  · intro addr v hv
    obtain ⟨herror, hfine⟩ := h.rv addr v hv
    exact ⟨fun htype hafter => herror htype (executed.spent hf hafter),
      fun htype => hanswered _ _ (hfine htype)⟩
  · intro a ha hcall
    rcases hreply a ha with ha | rfl
    · exact h.round a ha hcall
    · exact hok.round
  · intro hwaiting a ha hcall hround
    rcases hreply a ha with ha | rfl
    · exact h.asked hwaiting a ha hcall hround
    · exact hok.asked hwaiting hround
  · intro hwaiting a ha hcall hround herror hafter
    rcases hreply a ha with ha | rfl
    · exact h.refused hwaiting a ha hcall hround herror (executed.spent hf hafter)
    · cases executes with
      | ran fine _ _ _ => exact fine herror
      | refused _ log _ =>
        rcases hafter with ⟨g, hg, hgcall, hgaddr⟩ | ⟨task, hmem⟩
        · exact (executed.flights g hg).2 ⟨hgcall, hgaddr⟩
        · rw [log] at hmem
          exact hok.unrun task hmem
  · intro a ha hcall hfine
    rcases hreply a ha with ha | rfl
    · exact hanswered _ _ (h.told a ha hcall hfine)
    · cases executes with
      | refused error _ _ => exact absurd error hfine
      | ran _ log _ told =>
        rw [AnsweredThen, log, told]
        exact .last h.called

/-- A redis runs a command: here the event takes its place in the order. -/
theorem Sound.exec (h : Sound oc.dir s) (hf : f ∈ s.flights) (hc : s.callers f.call = some c)
    (hok : FlightOk oc.dir s c f) (executes : Executes oc s s' c f reply)
    (callers : s'.callers = s.callers) (flights : s'.flights = s.flights.erase f)
    (replies : s'.replies = s.replies ++ [⟨f.call, f.round, f.addr, reply⟩]) : Sound oc.dir s' := by
  have hcaller := h.callers _ c hc
  have executed := h.executed hf executes flights
  refine ⟨?_, ?_, ?_, fun g hg => ?_, fun m c₁ hc₁ => ?_, fun a ha => ?_, fun m task hmem => ?_,
    fun m rv hmem => ?_⟩
  · intro addr
    cases executes with
    | refused _ log keys => rw [keys, log, h.keys]
    | ran _ log keys _ =>
      rw [keys, log, happenedAt_snoc, Note.eventAt, h.keys]
      split
      · rw [Option.toList_some, runSessions_snoc]
      · rw [Option.toList_none, List.append_nil]
  · cases executes with
    | refused _ log _ =>
      rw [log]
      exact h.linear
    | ran _ log _ _ =>
      rw [log]
      exact h.linear.snoc_acted hcaller.called hok.unrun
  · rw [flights]
    exact (List.erase_sublist.map _).nodup h.once
  · obtain ⟨hmem, hne⟩ := executed.flights g hg
    obtain ⟨c₁, hc₁, hokg⟩ := h.flights g hmem
    refine ⟨c₁, by rw [callers, hc₁], hokg.accepted, hokg.runs, hokg.round, hokg.asked,
      fun task hmem => ?_⟩
    exact (executed.acted _ _ _ hmem).elim (hokg.unrun task) hne
  · rw [callers] at hc₁
    by_cases hm : m = f.call
    · subst hm
      rw [hc, Option.some_inj] at hc₁
      subst hc₁
      exact hcaller.executed hok hf executes executed replies
    · exact (h.callers m c₁ hc₁).aside (executed.aside replies hm)
  · rw [callers]
    rw [replies] at ha
    rcases List.mem_append.mp ha with ha | ha
    · exact h.replies a ha
    · rw [List.mem_singleton] at ha
      subst ha
      exact ⟨c, hc⟩
  · rw [callers]
    exact h.called m task (executed.same _ hmem fun _ _ _ heq => by cases heq)
  · rw [callers]
    exact h.returned m rv (executed.same _ hmem fun _ _ _ heq => by cases heq)

end Exec

/-! ### A wait ends -/

/-- What is asked again was answered by an error, and what is new was answered. -/
structure Proceeds (c c' : Caller) (replies : List (UInt64 × Option RedisReply)) : Prop where
  task : c'.task = c.task
  round : c'.round = c.round
  phase : c'.phase = .ready
  again : ∀ (addr : UInt64) (args : List Str), c'.addrCmd[addr]? = some args →
    c.addrCmd[addr]? = some args ∧ c'.rv[addr]? = c.rv[addr]? ∧
      ∃ r, (addr, some r) ∈ replies ∧ r.type = .error
  rv : ∀ (addr : UInt64) (v : RedisRv), c'.rv[addr]? = some v → c.rv[addr]? = some v ∨
    ∃ r, (addr, some r) ∈ replies ∧ v = redisrvsAdd r .fresh

/-- The collector of `cmd_async` keeps errors, too. -/
theorem collect_async {replies : List (UInt64 × Option RedisReply)} {rv : RedisRvs}
    (nodup : (replies.map Prod.fst).Nodup) (fresh : ∀ addr ∈ replies.map Prod.fst, rv[addr]? = none)
    {addr : UInt64} {v : RedisRv}
    (hv : (replies.foldl (fun rv reply => redisrpRedisrvs2 reply.2 rv reply.1) rv)[addr]? = some v) :
    rv[addr]? = some v ∨ ∃ r, (addr, some r) ∈ replies ∧ v = redisrvsAdd r .fresh := by
  induction replies generalizing rv with
  | nil => exact Or.inl hv
  | cons first replies ih =>
    obtain ⟨first, reply⟩ := first
    rw [List.map_cons, List.nodup_cons] at nodup
    have hne : ∀ addr ∈ replies.map Prod.fst, addr ≠ first := by
      rintro addr haddr rfl
      exact nodup.1 haddr
    have hfresh : ∀ addr ∈ replies.map Prod.fst, (redisrpRedisrvs2 reply rv first)[addr]? = none := by
      intro addr haddr
      have hnone := fresh addr (List.mem_cons_of_mem _ haddr)
      cases reply with
      | none => exact hnone
      | some r => rw [redisrpRedisrvs2, Ordered.getElem?_insert, if_neg (hne addr haddr), hnone]
    rcases ih nodup.2 hfresh hv with hbefore | ⟨r, hr, rfl⟩
    · cases reply with
      | none => exact Or.inl hbefore
      | some r =>
        rw [redisrpRedisrvs2, Ordered.getElem?_insert] at hbefore
        split at hbefore
        · next haddr =>
          rw [fresh first (List.mem_cons_self ..), Option.getD_none, Option.some_inj] at hbefore
          exact Or.inr ⟨r, by simp [haddr], hbefore.symm⟩
        · exact Or.inl hbefore
    · exact Or.inr ⟨r, List.mem_cons_of_mem _ hr, rfl⟩

/-- What a wait makes of its answers, in all kinds of calls. -/
theorem proceeds (dir : ScriptDir) (c : Caller) {replies : List (UInt64 × Option RedisReply)}
    (nodup : (replies.map Prod.fst).Nodup) (fresh : ∀ addr ∈ replies.map Prod.fst, c.rv[addr]? = none) :
    Proceeds c (c.proceed dir replies) replies := by
  have hcollected : ∀ (addr : UInt64) (v : RedisRv), (collect replies c.rv).1[addr]? = some v →
      c.rv[addr]? = some v ∨ ∃ r, (addr, some r) ∈ replies ∧ v = redisrvsAdd r .fresh := by
    intro addr v hv
    refine ((collect_rv nodup fresh).mp hv).imp_right ?_
    rintro ⟨r, hr, _, rfl⟩
    exact ⟨r, hr, rfl⟩
  have hnothing : ∀ (addr : UInt64) (args : List Str), (∅ : Commands)[addr]? ≠ some args := by
    intro addr args hargs
    simp at hargs
  unfold Caller.proceed
  split
  · refine ⟨rfl, rfl, rfl, fun addr args hargs => absurd hargs (hnothing addr args), fun addr v hv => ?_⟩
    exact collect_async nodup fresh hv
  · dsimp only
    split
    · refine ⟨rfl, rfl, rfl, fun addr args hargs => ?_, hcollected⟩
      obtain ⟨hcmd, v, hv, _⟩ := errAddrs_get.mp hargs
      obtain ⟨r, hr, herror, _⟩ := (collect_err nodup).mp hv
      refine ⟨hcmd, collect_rv_same nodup fun r' hr' => ?_, r, hr, herror⟩
      have heq := List.inj_on_of_nodup_map nodup hr hr' rfl
      cases heq
      exact herror
    · exact ⟨rfl, rfl, rfl, fun addr args hargs => absurd hargs (hnothing addr args), hcollected⟩

/-- A wait ends with own answers. They are those of runs that are in the order. -/
theorem Sound.proceed (h : Sound oc.dir s) (hc : s.callers n = some c) (hwaiting : c.phase = .waiting)
    {replies : List (UInt64 × Option RedisReply)} (nodup : (replies.map Prod.fst).Nodup)
    (hasked : ∀ addr ∈ replies.map Prod.fst, addr ∈ c.addrCmd)
    (hreplies : ∀ addr r, (addr, some r) ∈ replies → ⟨n, c.round, addr, r⟩ ∈ s.replies) :
    Sound oc.dir (s.setCaller n (c.proceed oc.dir replies)) := by
  have hcaller := h.callers n c hc
  have hproceeds := proceeds oc.dir c nodup fun addr haddr => hcaller.unanswered addr (hasked addr haddr)
  generalize c.proceed oc.dir replies = c' at hproceeds
  have hready : c'.phase ≠ .waiting := by
    rw [hproceeds.phase]
    exact CallerPhase.noConfusion
  have hsent : ∀ addr ∈ c'.addrCmd,
      c.rv[addr]? = none ∧ c'.rv[addr]? = c.rv[addr]? ∧ ¬ Spent s n addr := by
    intro addr haddr
    obtain ⟨args, hargs⟩ := Ordered.mem_iff_getElem?.mp haddr
    obtain ⟨hcmd, hsame, r, hr, herror⟩ := hproceeds.again addr args hargs
    exact ⟨hcaller.unanswered addr (Ordered.mem_iff_getElem?.mpr ⟨args, hcmd⟩), hsame,
      hcaller.refused hwaiting _ (hreplies addr r hr) rfl rfl herror⟩
  have haside : ∀ m, Aside m s (s.setCaller n c') := fun m =>
    ⟨⟨[], (List.append_nil _).symm⟩, fun _ _ hacted => hacted, fun _ hf _ => hf, fun _ ha _ => ha⟩
  refine h.goes_on (n := n) rfl rfl rfl haside h.keys h.linear (fun f hf hcall => ?_) ?_
    (fun m task hcalled => Or.inr hcalled) fun m rv hreturned => Or.inr ⟨?_, hreturned⟩
  · obtain ⟨c₁, hc₁, hok⟩ := h.flights f hf
    rw [hcall, hc, Option.some_inj] at hc₁
    subst hc₁
    exact ⟨by rw [hproceeds.task]; exact hok.accepted, by rw [hproceeds.task]; exact hok.runs,
      by rw [hproceeds.round]; exact hok.round, fun hphase => absurd hphase hready, hok.unrun⟩
  · refine ⟨by rw [hproceeds.task]; exact hcaller.called, fun addr args hargs => ?_, fun addr haddr => ?_,
      fun _ addr haddr => (hsent addr haddr).2.2, fun addr v hv => ?_,
      fun a ha hcall => by rw [hproceeds.round]; exact hcaller.round a ha hcall,
      fun hphase => absurd hphase hready, fun hphase => absurd hphase hready, hcaller.told⟩
    · rw [hproceeds.task]
      exact hcaller.names addr args (hproceeds.again addr args hargs).1
    · obtain ⟨hnone, hsame, _⟩ := hsent addr haddr
      rw [hsame, hnone]
    · rcases hproceeds.rv addr v hv with hv | ⟨r, hr, rfl⟩
      · exact hcaller.rv addr v hv
      · have ha := hreplies addr r hr
        rw [redisrvsAdd_type]
        exact ⟨fun herror => hcaller.refused hwaiting _ ha rfl rfl herror,
          fun hfine => hcaller.told _ ha rfl hfine⟩
  · rintro rfl
    obtain ⟨c₁, hc₁, hphase, _⟩ := h.returned m rv hreturned
    rw [hc, Option.some_inj] at hc₁
    rw [← hc₁, hwaiting] at hphase
    cases hphase

theorem Sound.ret (h : Sound oc.dir s) (hc : s.callers n = some c) (hready : c.phase = .ready) :
    Sound oc.dir { s.setCaller n { c with phase := .returned } with
      log := s.log ++ [.returned n c.rv] } := by
  have hcaller := h.callers n c hc
  have hunreturned : ∀ rv, .returned n rv ∉ s.log := by
    intro rv hreturned
    obtain ⟨c₁, hc₁, hphase, _⟩ := h.returned n rv hreturned
    rw [hc, Option.some_inj] at hc₁
    rw [← hc₁, hready] at hphase
    cases hphase
  have haside : ∀ m, Aside m s { s.setCaller n { c with phase := .returned } with
      log := s.log ++ [.returned n c.rv] } := fun m =>
    ⟨⟨_, rfl⟩, fun _ _ hacted => (mem_snoc_iff (by simp)).mp hacted, fun _ hf _ => hf, fun _ ha _ => ha⟩
  have hok := hcaller.aside (haside n)
  refine h.goes_on (n := n) rfl rfl rfl haside (fun addr => ?_)
    (h.linear.snoc_returned ⟨_, hcaller.called⟩ hunreturned fun addr v hv => ?_) (fun f hf hcall => ?_) ?_
    (fun m task hcalled => ?_) fun m rv hreturned => ?_
  · rw [happenedAt_snoc]
    change (s.servers addr).keys = runSessions (_ ++ [])
    rw [List.append_nil]
    exact h.keys addr
  · rw [answered, Option.filter_eq_some_iff] at hv
    exact (hcaller.rv addr v hv.1).2 (of_decide_eq_true hv.2)
  · obtain ⟨c₁, hc₁, hflight⟩ := h.flights f hf
    rw [hcall, hc, Option.some_inj] at hc₁
    subst hc₁
    have hflight' := hflight.aside (haside f.call)
    exact ⟨hflight'.accepted, hflight'.runs, hflight'.round, fun hphase => (by cases hphase),
      hflight'.unrun⟩
  · exact ⟨hok.called, hok.names, hok.unanswered, fun hphase => (by cases hphase), hok.rv, hok.round,
      fun hphase => (by cases hphase), fun hphase => (by cases hphase), hok.told⟩
  · exact Or.inr ((mem_snoc_iff (by simp)).mp hcalled)
  · rcases List.mem_append.mp hreturned with hmem | hmem
    · refine Or.inr ⟨?_, hmem⟩
      rintro rfl
      exact hunreturned rv hmem
    · rw [List.mem_singleton] at hmem
      cases hmem
      exact Or.inl ⟨rfl, rfl, rfl⟩

/-! ### Every step -/

/-- What a command does that is on its way. -/
theorem FlightOk.executes (h : Sound oc.dir s) {f : Flight} (hok : FlightOk oc.dir s c f)
    (servers : s'.servers = Function.update s.servers f.addr ((s.servers f.addr).exec oc.dir f.args).2)
    (log : s'.log = logAfter oc s c.task f) : Executes oc s s' c f ((s.servers f.addr).exec oc.dir f.args).1 := by
  have names : SessionNames (s.servers f.addr).keys := by
    rw [h.keys]
    exact sessionNames_runSessions _
  rcases hok.runs.exec (s.servers f.addr) with ⟨hexec, hnot⟩ | ⟨file, keys, argv, horder, hreply, hkeys⟩
  · rw [hexec] at servers ⊢
    refine .refused rfl ?_ fun addr => by rw [servers, Function.update_eq_self]
    rw [log, logAfter]
    split
    · next file keys argv horder => exact absurd horder (hnot file keys argv)
    · rfl
  · rw [logAfter, horder] at log
    rw [hreply]
    refine .ran (task_fine hok.accepted names) log (fun addr => ?_) ?_
    · rw [servers, Function.update_apply, ← sessionStep_task hok.accepted]
      by_cases haddr : addr = f.addr
      · rw [if_pos haddr, if_pos haddr.symm, hkeys, haddr]
      · rw [if_neg haddr, if_neg fun heq => haddr heq.symm]
    · rw [taskAnswer, ← h.keys]

/-- One step of the traffic, by its kind. -/
theorem Sound.step (h : Sound oc.dir s) {e : TrafficEvent} (may : TrafficEnabled s e)
    (own : OwnAnswers s e) (next : trafficStep oc s e = some s') : Sound oc.dir s' := by
  cases e with
  | call n task =>
    cases next
    exact h.call may task
  | send n connected =>
    obtain ⟨c, hc, hready, _⟩ := may
    rw [trafficStep_send hc] at next
    cases next
    exact @Sound.send oc s _ n c { c with round := c.round + 1, phase := .waiting } h hc hready connected
      rfl rfl rfl rfl rfl rfl rfl rfl rfl rfl
  | exec f =>
    obtain ⟨c, hc, hok⟩ := h.flights f may
    rw [trafficStep_exec hc] at next
    cases next
    exact h.exec may hc hok (FlightOk.executes h hok rfl rfl) rfl rfl rfl
  | proceed n replies =>
    obtain ⟨c, hc, hwaiting, _⟩ := may
    obtain ⟨nodup, hasked, hreplies⟩ := own c hc
    rw [trafficStep_proceed hc] at next
    cases next
    exact h.proceed hc hwaiting nodup hasked hreplies
  | ret n =>
    obtain ⟨c, hc, hready, _⟩ := may
    rw [trafficStep_ret hc] at next
    cases next
    exact h.ret hc hready
  | cache addr cached =>
    cases next
    refine h.idle rfl rfl rfl (Or.inl rfl) fun addr' => ?_
    rw [← h.keys]
    dsimp only
    rw [Function.update_apply]
    split
    · next heq => rw [heq]
    · rfl
  | table rh =>
    cases next
    exact h.idle rfl rfl rfl (Or.inl rfl) h.keys
  | elapse d =>
    cases next
    refine h.idle rfl rfl rfl (Or.inr ⟨_, rfl⟩) fun addr => ?_
    rw [happenedAt_snoc, Note.eventAt, Option.toList_some, runSessions_snoc, ← h.keys]
    rfl

theorem sound_init (rh : RedisHash) {servers : UInt64 → Redis}
    (fresh : ∀ addr, (servers addr).keys = .empty) : Sound oc.dir (.init rh servers) := by
  refine ⟨fresh, .empty, .nil, ?_, ?_, ?_, ?_, ?_⟩
  · intro f hf
    cases hf
  · intro n c hc
    cases hc
  · intro a ha
    cases ha
  · intro n task hcalled
    cases hcalled
  · intro n rv hreturned
    cases hreturned

/-- By induction on the run. -/
theorem sound_run {s₀ : CallTraffic} {es : List TrafficEvent} (h : Sound oc.dir s₀)
    (run : OwnRun oc s₀ es s) : Sound oc.dir s :=
  run.invariant (P := fun _ s => Sound oc.dir s) h fun _ _ _ _ hsound may next =>
    hsound.step may.1 may.2 next

end Steps

/-! ## Every run -/

/-- What a run of many calls has done is one line of events. -/
structure Linearized (s : CallTraffic) : Prop where
  linear : Linear taskEvent taskAnswer answered s.log
  /-- What is called after an answer is run after it. -/
  in_order : ∀ pre n rv mid m task post,
    s.log = pre ++ .returned n rv :: mid ++ .called m task :: post →
      ∀ addr v, answered rv addr = some v → (∃ task', .acted n task' addr ∈ pre) ∧
        ∀ task' addr', .acted m task' addr' ∉ pre ++ .returned n rv :: mid
  stored : ∀ addr uid lc, Stores (s.servers addr).keys uid lc
    (sessionAfter uid lc (happenedAt taskEvent addr s.log))
  /-- After an error is returned nothing has run, or ever will. -/
  refused : ∀ n rv (addr : UInt64) v, .returned n rv ∈ s.log → rv[addr]? = some v →
    v.type = .error → ∀ task, .acted n task addr ∉ s.log

/-- However requests, synchronous and asynchronous, and sweeps of many threads overlap, whatever is
late, lost or forgotten and however the table changes, each runs once at most on each redis, at one
moment after its call, what it returns is what the script replies there at that moment, and every
session is what its own machine has made of the events in their order. A wait is assumed to take
only answers to its own call and round (`OwnRun`): `foreign_answers` has it fail where a slot is
used again too early. Writes of an answer whose call has left without `reset` are not in the model.
-/
theorem calls_linearizable (oc : OnlineCtrl) {rh : RedisHash} {servers : UInt64 → Redis}
    (fresh : ∀ addr, (servers addr).keys = .empty) {es : List TrafficEvent} {s : CallTraffic}
    (run : OwnRun oc (.init rh servers) es s) : Linearized s := by
  have h := sound_run (sound_init rh fresh) run
  refine ⟨h.linear, ?_, fun addr uid lc => ?_, fun n rv addr v hreturned hv herror task hacted => ?_⟩
  · intro pre n rv mid m task post hlog addr v hanswer
    exact h.linear.in_order hlog hanswer
  · rw [h.keys]
    exact stores_after uid lc _
  · obtain ⟨c, hc, _, rfl⟩ := h.returned n rv hreturned
    exact ((h.callers n c hc).rv addr v hv).1 herror (Or.inr ⟨task, hacted⟩)

/-! ## Two calls at once -/

def exampleFin : Request := .fin ⟨⟨1, ⟨1, 0⟩, ['g']⟩⟩

/-- The command of a request, on its way. -/
def exampleFlight (n : Nat) (r : Request) : Flight :=
  ⟨n, 1, masterOf exampleCtrl 7, requestArgs exampleCtrl.dir 7 r⟩

def lateReply : RedisReply :=
  ((freshWorld.servers (masterOf exampleCtrl 7)).exec exampleCtrl.dir (exampleFlight 0 exampleSyn).args).1

/-- The second call is sent first, and run last. -/
def overlapping : List TrafficEvent :=
  [.call 0 (.request 7 exampleSyn), .call 1 (.requestAsync 7 exampleFin), .send 1 fun _ => true,
    .send 0 fun _ => true, .exec (exampleFlight 0 exampleSyn),
    .proceed 0 [(masterOf exampleCtrl 7, some lateReply)], .ret 0, .exec (exampleFlight 1 exampleFin)]

def waitingSyn : Caller :=
  { Caller.enter exampleCtrl (.request 7 exampleSyn) with round := 1, phase := .waiting }

theorem lateReply_fine : lateReply.type ≠ .error := by
  have hexec := @exec_evalsha exampleCtrl.dir (freshWorld.servers (masterOf exampleCtrl 7))
    (.request exampleSyn.type) (requestKeys 7 exampleSyn) exampleSyn.data rfl
  have hsame : lateReply = _ := congrArg Prod.fst hexec
  rw [hsame]
  exact (request_writes 7 rfl _).1

theorem waitingSyn_proceeds :
    (waitingSyn.proceed exampleCtrl.dir [(masterOf exampleCtrl 7, some lateReply)]).phase = .ready ∧
      (waitingSyn.proceed exampleCtrl.dir
        [(masterOf exampleCtrl 7, some lateReply)]).addrCmd.isEmpty = true := by
  have hcollect : (collect [(masterOf exampleCtrl 7, some lateReply)] ∅).2 = ∅ := by
    simp [collect, redisrpRedisrvs, lateReply_fine]
  simp [Caller.proceed, waitingSyn, Caller.enter, OnlineTask.isAsync, hcollect]

/-- Both commands are on their way. -/
theorem overlapping_sent : ∃ s c₁, OwnRun exampleCtrl (.init exampleCtrl.rh freshWorld.servers)
    (overlapping.take 4) s ∧ s.callers 0 = some waitingSyn ∧ s.callers 1 = some c₁ ∧
      s.flights = [exampleFlight 1 exampleFin, exampleFlight 0 exampleSyn] ∧
      s.servers = freshWorld.servers ∧
      s.log = [.called 0 (.request 7 exampleSyn), .called 1 (.requestAsync 7 exampleFin)] := by
  have start : OwnRun exampleCtrl (.init exampleCtrl.rh freshWorld.servers) [] _ := .nil
  obtain ⟨s, called, h₀, h₁, hflights, hservers, hlog⟩ : ∃ s, OwnRun exampleCtrl
      (.init exampleCtrl.rh freshWorld.servers) (overlapping.take 2) s ∧
      s.callers 0 = some (.enter exampleCtrl (.request 7 exampleSyn)) ∧
      s.callers 1 = some (.enter exampleCtrl (.requestAsync 7 exampleFin)) ∧ s.flights = [] ∧
      s.servers = freshWorld.servers ∧
      s.log = [.called 0 (.request 7 exampleSyn), .called 1 (.requestAsync 7 exampleFin)] := by
    have first := start.snoc (e := TrafficEvent.call 0 (.request 7 exampleSyn)) ⟨rfl, trivial⟩ rfl
    have second := first.snoc (e := TrafficEvent.call 1 (.requestAsync 7 exampleFin)) ⟨rfl, trivial⟩ rfl
    exact ⟨_, second, rfl, rfl, rfl, rfl, rfl⟩
  have first := called.snoc (e := TrafficEvent.send 1 fun _ => true)
    ⟨⟨_, h₁, rfl, by decide +kernel⟩, trivial⟩ (trafficStep_send h₁ _)
  have second := first.snoc (e := TrafficEvent.send 0 fun _ => true)
    ⟨⟨_, h₀, rfl, by decide +kernel⟩, trivial⟩
    (@trafficStep_send _ { s.setCaller 1 _ with flights := _ } 0 _ h₀ _)
  refine ⟨_, _, second, rfl, rfl, ?_, hservers, hlog⟩
  dsimp only
  rw [hflights]
  decide +kernel

theorem overlapping_run :
    ∃ s, OwnRun exampleCtrl (.init exampleCtrl.rh freshWorld.servers) overlapping s := by
  obtain ⟨s₁, c₁, sent, h₀, h₁, hflights, hservers, _⟩ := overlapping_sent
  obtain ⟨s₂, ran, h₀, h₁, hflights, hreplies⟩ : ∃ s₂, OwnRun exampleCtrl
      (.init exampleCtrl.rh freshWorld.servers) (overlapping.take 5) s₂ ∧
      s₂.callers 0 = some waitingSyn ∧ s₂.callers 1 = some c₁ ∧
      s₂.flights = [exampleFlight 1 exampleFin] ∧
      ⟨0, 1, masterOf exampleCtrl 7, lateReply⟩ ∈ s₂.replies := by
    have flying : exampleFlight 0 exampleSyn ∈ s₁.flights := by
      rw [hflights]
      decide +kernel
    refine ⟨_, sent.snoc (e := TrafficEvent.exec _) ⟨flying, trivial⟩ (trafficStep_exec h₀), h₀, h₁, ?_, ?_⟩
    · dsimp only
      rw [hflights]
      decide +kernel
    · dsimp only
      rw [hservers]
      exact List.mem_append_right _ (List.mem_singleton_self _)
  have own : OwnAnswers s₂ (.proceed 0 [(masterOf exampleCtrl 7, some lateReply)]) := by
    intro c hc
    rw [h₀] at hc
    cases hc
    refine ⟨by simp, fun addr haddr => ?_, fun addr r hr => ?_⟩
    · rw [List.map_singleton, List.mem_singleton] at haddr
      rw [haddr]
      decide +kernel
    · rw [List.mem_singleton] at hr
      cases hr
      exact hreplies
  have returned := (ran.snoc ⟨own.enabled h₀ rfl, own⟩ (trafficStep_proceed h₀ _)).snoc
    (e := TrafficEvent.ret 0) ⟨⟨_, rfl, waitingSyn_proceeds⟩, trivial⟩ (trafficStep_ret rfl)
  have flying : exampleFlight 1 exampleFin ∈ s₂.flights := by
    rw [hflights]
    exact List.mem_singleton_self _
  exact ⟨_, returned.snoc (e := TrafficEvent.exec _) ⟨flying, trivial⟩ (trafficStep_exec h₁)⟩

/-- The second call has returned nothing, and its script runs. -/
theorem calls_linearizable_example : ∃ s, OwnRun exampleCtrl (.init exampleCtrl.rh freshWorld.servers)
    overlapping s ∧ Linearized s := by
  obtain ⟨s, run⟩ := overlapping_run
  exact ⟨s, run, calls_linearizable exampleCtrl (fun _ => rfl) run⟩

/-! A slot that is used again: the first call takes the answer to the second one. -/

/-- An answer to another call. -/
def foreignReply : RedisReply :=
  ((freshWorld.servers (masterOf exampleCtrl 7)).exec exampleCtrl.dir (exampleFlight 1 exampleFin).args).1

theorem waitingSyn_takes :
    (waitingSyn.proceed exampleCtrl.dir [(masterOf exampleCtrl 7, some foreignReply)]).phase = .ready ∧
      (waitingSyn.proceed exampleCtrl.dir
        [(masterOf exampleCtrl 7, some foreignReply)]).addrCmd.isEmpty = true ∧
      (answered (waitingSyn.proceed exampleCtrl.dir [(masterOf exampleCtrl 7, some foreignReply)]).rv
        (masterOf exampleCtrl 7)).isSome = true := by
  decide +kernel

/-- Answers that are not the call's own are no answers: what the call returns has not happened. -/
theorem foreign_answers : ∃ es s, TrafficRun exampleCtrl (.init exampleCtrl.rh freshWorld.servers) es s ∧
    ¬ Linearized s := by
  obtain ⟨s₁, c₁, sent, h₀, h₁, hflights, hservers, hlog⟩ := overlapping_sent
  obtain ⟨s₂, ran, h₀, hreplies, hlog⟩ : ∃ s₂, TrafficRun exampleCtrl
      (.init exampleCtrl.rh freshWorld.servers)
      (overlapping.take 4 ++ [.exec (exampleFlight 1 exampleFin)]) s₂ ∧
      s₂.callers 0 = some waitingSyn ∧ ⟨1, 1, masterOf exampleCtrl 7, foreignReply⟩ ∈ s₂.replies ∧
      ∀ op, .acted 0 op (masterOf exampleCtrl 7) ∉ s₂.log := by
    have flying : exampleFlight 1 exampleFin ∈ s₁.flights := by
      rw [hflights]
      exact List.mem_cons_self ..
    have sent' : TrafficRun exampleCtrl _ _ _ := Run.mono (fun _ _ h => h.1) sent
    refine ⟨_, sent'.snoc (e := TrafficEvent.exec _) flying (trafficStep_exec h₁), h₀, ?_, fun op hmem => ?_⟩
    · dsimp only
      rw [hservers]
      exact List.mem_append_right _ (List.mem_singleton_self _)
    · dsimp only at hmem
      unfold logAfter at hmem
      rw [hlog] at hmem
      split at hmem <;> simp [exampleFlight] at hmem
  have may : TrafficEnabled s₂ (.proceed 0 [(masterOf exampleCtrl 7, some foreignReply)]) := by
    refine ⟨_, h₀, rfl, fun addr r hr => ?_⟩
    rw [List.mem_singleton] at hr
    cases hr
    exact ⟨1, 1, hreplies⟩
  have returned := (ran.snoc may (trafficStep_proceed h₀ _)).snoc (e := TrafficEvent.ret 0)
    ⟨_, rfl, waitingSyn_takes.1, waitingSyn_takes.2.1⟩ (trafficStep_ret rfl)
  refine ⟨_, _, returned, fun h => ?_⟩
  obtain ⟨v, hv⟩ := Option.isSome_iff_exists.mp waitingSyn_takes.2.2
  obtain ⟨_, _, hanswers⟩ := h.linear.returned s₂.log _ _ [] rfl
  obtain ⟨op, before, since, after, heq, _⟩ := hanswers _ v hv
  refine hlog op ?_
  rw [heq]
  simp

end RedisCluster.Guarantees
