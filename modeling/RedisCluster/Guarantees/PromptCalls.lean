import RedisCluster.Guarantees.OnlineCalls

/-!
# Calls that are answered in time

Where nothing is lost and nothing else happens, a call has its script run once on every redis that
it sends a command to, whether the redis knows the script or has to be sent its text. This is the
network of most results about the session store; what a worse one does is left to the modules about
single calls and lossy runs.
-/

set_option autoImplicit false

namespace RedisCluster.Guarantees
open Library Source

/-- Every command is sent and run, nothing else happens, and every reply is in time. -/
structure Prompt (plan : Nat → CmdRound) : Prop where
  fate : ∀ n addr, (plan n).fate addr = ⟨true, id, true, true⟩
  arrivals : ∀ n sent, ∀ addr ∈ sent, addr ∈ (plan n).arrivals sent

section Prompt
variable {dir : ScriptDir} {plan : Nat → CmdRound} {w : World} {cmds : Commands}

theorem Prompt.servers (prompt : Prompt plan) (addr : UInt64) :
    (afterRound dir plan w cmds).servers addr =
      match cmds[addr]? with
      | some args => ((w.servers addr).exec dir args).2
      | none => w.servers addr := by
  change (match cmds[addr]? with
    | some args => (((plan w.rounds).fate addr).outcome dir (w.servers addr) args).2
    | none => w.servers addr) = _
  rw [prompt.fate]
  rfl

theorem Prompt.mem_replies (prompt : Prompt plan) {addr : UInt64} {reply : Option RedisReply} :
    (addr, reply) ∈ replies dir plan w cmds ↔
      ∃ args, cmds[addr]? = some args ∧ some ((w.servers addr).exec dir args).1 = reply := by
  rw [Guarantees.mem_replies]
  constructor
  · rintro ⟨_, args, hargs, houtcome⟩
    rw [prompt.fate] at houtcome
    exact ⟨args, hargs, Option.some.inj houtcome⟩
  · rintro ⟨args, hargs, rfl⟩
    refine ⟨?_, args, hargs, by rw [prompt.fate]; rfl⟩
    apply prompt.arrivals
    rw [List.mem_filter, Std.ExtTreeMap.mem_keys, prompt.fate]
    exact ⟨Ordered.mem_iff_getElem?.mpr ⟨args, hargs⟩, rfl⟩

/-! ## A script on many redis -/

/-- Every command is the `EVALSHA` of one script, with keys and arguments for its redis. -/
def Evals (dir : ScriptDir) (file : LuaFile) (keys argv : UInt64 → List Str) (addrCmd : Commands) :
    Prop :=
  ∀ (addr : UInt64) (args : List Str), addrCmd[addr]? = some args →
    args = "EVALSHA".toList :: dir.sha1 file :: Text.decimal (keys addr).length ::
      (keys addr ++ argv addr)

/-- A command for this redis is short enough to be sent. -/
def Asks (addrCmd : Commands) (addr : UInt64) : Prop :=
  ∃ args, addrCmd[addr]? = some args ∧ args.length < argvMaxLen

variable {file : LuaFile} {keys argv : UInt64 → List Str} {addrCmd : Commands}

theorem sentCmds_asks {luaCode : Str} {iseval : Bool} {addr : UInt64} {args : List Str}
    (h : (sentCmds luaCode iseval addrCmd)[addr]? = some args) : Asks addrCmd addr := by
  obtain ⟨args', hargs', hlen, _⟩ := sentCmds_get.mp h
  exact ⟨args', hargs', hlen⟩

theorem sentCmds_none {luaCode : Str} {iseval : Bool} {addr : UInt64} (h : ¬ Asks addrCmd addr) :
    (sentCmds luaCode iseval addrCmd)[addr]? = none := by
  rw [Option.eq_none_iff_forall_ne_some]
  intro args hargs
  exact h (sentCmds_asks hargs)

/-- The redis runs the script at once: it is sent the text, or knows it. -/
def RunsAtOnce (dir : ScriptDir) (file : LuaFile) (iseval : Bool) (w : World) (addr : UInt64) : Prop :=
  iseval = true ∨ (w.servers addr).cached (dir.sha1 file) = true

/-- What a redis answers that runs the script. -/
def answerOf (file : LuaFile) (keys argv : UInt64 → List Str) (w : World) (addr : UInt64) : RedisReply :=
  (runScript (file.script (keys addr) (argv addr)) (w.servers addr).keys).1

/-- What the command does on its redis. -/
theorem Evals.exec (evals : Evals dir file keys argv addrCmd) {addr : UInt64}
    (asks : Asks addrCmd addr) (iseval : Bool) (w : World) :
    ∃ args, (sentCmds (dir.data file) iseval addrCmd)[addr]? = some args ∧
      (RunsAtOnce dir file iseval w addr → (w.servers addr).exec dir args =
        (answerOf file keys argv w addr, (w.servers addr).ran dir file (keys addr) (argv addr))) ∧
      (¬ RunsAtOnce dir file iseval w addr → (w.servers addr).exec dir args =
        (.error noScript, w.servers addr)) := by
  obtain ⟨args, hargs, hlen⟩ := asks
  refine ⟨_, sentCmds_get.mpr ⟨args, hargs, hlen, rfl⟩, ?_⟩
  rw [evals addr args hargs]
  cases iseval with
  | true =>
    rw [if_pos rfl, evalArgs_evalsha]
    exact ⟨fun _ => exec_eval, fun unknown => absurd (Or.inl rfl) unknown⟩
  | false =>
    rw [if_neg Bool.false_ne_true]
    constructor
    · rintro (heval | hcached)
      · cases heval
      · exact exec_evalsha hcached
    · intro unknown
      exact exec_evalsha_unknown (Bool.eq_false_iff.mpr fun hcached => unknown (Or.inr hcached))

section Round
variable (prompt : Prompt plan) (evals : Evals dir file keys argv addrCmd) (iseval : Bool)
  {addr : UInt64} {rv : RedisRvs}

include prompt evals in
/-- In a round the script is run on the redis that run it at once. -/
theorem Prompt.round_ran (asks : Asks addrCmd addr) (ready : RunsAtOnce dir file iseval w addr) :
    (afterRound dir plan w (sentCmds (dir.data file) iseval addrCmd)).servers addr =
      (w.servers addr).ran dir file (keys addr) (argv addr) := by
  obtain ⟨args, hargs, hran, _⟩ := evals.exec asks iseval w
  rw [prompt.servers, hargs]
  dsimp only
  rw [hran ready]

include prompt evals in
/-- The others stay as they are. -/
theorem Prompt.round_same (idle : Asks addrCmd addr → ¬ RunsAtOnce dir file iseval w addr) :
    (afterRound dir plan w (sentCmds (dir.data file) iseval addrCmd)).servers addr = w.servers addr := by
  rw [prompt.servers]
  by_cases asks : Asks addrCmd addr
  · obtain ⟨args, hargs, _, hsame⟩ := evals.exec asks iseval w
    rw [hargs]
    dsimp only
    rw [hsame (idle asks)]
  · rw [sentCmds_none asks]

include prompt evals in
theorem Prompt.mem_round {reply : RedisReply} :
    (addr, some reply) ∈ replies dir plan w (sentCmds (dir.data file) iseval addrCmd) ↔
      Asks addrCmd addr ∧ (RunsAtOnce dir file iseval w addr ∧ reply = answerOf file keys argv w addr ∨
        ¬ RunsAtOnce dir file iseval w addr ∧ reply = .error noScript) := by
  rw [prompt.mem_replies]
  by_cases asks : Asks addrCmd addr
  · obtain ⟨args, hargs, hran, hsame⟩ := evals.exec asks iseval w
    simp only [hargs, Option.some.injEq, exists_eq_left']
    by_cases ready : RunsAtOnce dir file iseval w addr
    · rw [hran ready]
      simp only [asks, ready, true_and, not_true_eq_false, false_and, or_false]
      exact eq_comm
    · rw [hsame ready]
      simp only [asks, ready, true_and, not_false_eq_true, false_and, false_or]
      exact eq_comm
  · simp [sentCmds_none asks, asks]

variable (fine : ∀ addr, Asks addrCmd addr → (answerOf file keys argv w addr).type ≠ .error)

include prompt evals fine in
/-- The answers of the round come to those that are there. -/
theorem Prompt.round_rv (fresh : ∀ addr, Asks addrCmd addr → rv[addr]? = none) {v : RedisRv} :
    (collect (replies dir plan w (sentCmds (dir.data file) iseval addrCmd)) rv).1[addr]? = some v ↔
      rv[addr]? = some v ∨ Asks addrCmd addr ∧ RunsAtOnce dir file iseval w addr ∧
        v = redisrvsAdd (answerOf file keys argv w addr) .fresh := by
  rw [collect_rv nodup_replies]
  · constructor
    · rintro (hold | ⟨reply, hreply, htype, rfl⟩)
      · exact Or.inl hold
      · obtain ⟨asks, ⟨ready, rfl⟩ | ⟨_, rfl⟩⟩ := (prompt.mem_round evals iseval).mp hreply
        · exact Or.inr ⟨asks, ready, rfl⟩
        · exact absurd rfl htype
    · rintro (hold | ⟨asks, ready, rfl⟩)
      · exact Or.inl hold
      · exact Or.inr ⟨_, (prompt.mem_round evals iseval).mpr ⟨asks, Or.inl ⟨ready, rfl⟩⟩,
          fine addr asks, rfl⟩
  · intro a ha
    obtain ⟨⟨a', reply⟩, hmem, rfl⟩ := List.mem_map.mp ha
    obtain ⟨args, hargs, _⟩ := prompt.mem_replies.mp hmem
    exact fresh _ (sentCmds_asks hargs)

include prompt evals fine in
/-- Only a script that is not known is an error. -/
theorem Prompt.round_err {v : RedisRv} :
    (collect (replies dir plan w (sentCmds (dir.data file) iseval addrCmd)) rv).2[addr]? = some v ↔
      Asks addrCmd addr ∧ ¬ RunsAtOnce dir file iseval w addr ∧
        v = redisrvsAdd (.error noScript) .fresh := by
  rw [collect_err nodup_replies]
  constructor
  · rintro ⟨reply, hreply, htype, rfl⟩
    obtain ⟨asks, ⟨_, rfl⟩ | ⟨unknown, rfl⟩⟩ := (prompt.mem_round evals iseval).mp hreply
    · exact absurd htype (fine addr asks)
    · exact ⟨asks, unknown, rfl⟩
  · rintro ⟨asks, unknown, rfl⟩
    exact ⟨_, (prompt.mem_round evals iseval).mpr ⟨asks, Or.inr ⟨unknown, rfl⟩⟩, rfl, rfl⟩

end Round

/-- The script has run once on every redis that was asked, and its answers are there. -/
structure AllRan (dir : ScriptDir) (file : LuaFile) (keys argv : UInt64 → List Str) (addrCmd : Commands)
    (w w' : World) (rv rv' : RedisRvs) : Prop where
  asked : ∀ addr, Asks addrCmd addr →
    w'.servers addr = (w.servers addr).ran dir file (keys addr) (argv addr)
  other : ∀ addr, ¬ Asks addrCmd addr → w'.servers addr = w.servers addr
  answers : ∀ (addr : UInt64) (v : RedisRv), rv'[addr]? = some v ↔ rv[addr]? = some v ∨
    Asks addrCmd addr ∧ v = redisrvsAdd (answerOf file keys argv w addr) .fresh

/-- Nobody is asked. -/
theorem AllRan.refl (none : ∀ addr, ¬ Asks addrCmd addr) (w : World) (rv : RedisRvs) :
    AllRan dir file keys argv addrCmd w w rv rv where
  asked addr asks := absurd asks (none addr)
  other _ _ := rfl
  answers addr v := by simp [none addr]

theorem not_asks_of_isEmpty (h : addrCmd.isEmpty = true) (addr : UInt64) : ¬ Asks addrCmd addr := by
  rintro ⟨args, hargs, _⟩
  rw [not_mem_of_isEmpty h] at hargs
  cases hargs

/-- In a round in which all run the script at once, the call is done. -/
theorem Prompt.cmd_ready (prompt : Prompt plan) (evals : Evals dir file keys argv addrCmd)
    {iseval : Bool} {rv : RedisRvs} (ready : ∀ addr, Asks addrCmd addr → RunsAtOnce dir file iseval w addr)
    (fine : ∀ addr, Asks addrCmd addr → (answerOf file keys argv w addr).type ≠ .error)
    (fresh : ∀ addr, Asks addrCmd addr → rv[addr]? = none) (rounds : Nat) :
    ∃ rv' w', cmd (network dir plan) (dir.data file) (rounds + 1) iseval addrCmd rv w = some (rv', w') ∧
      AllRan dir file keys argv addrCmd w w' rv rv' := by
  cases hempty : addrCmd.isEmpty with
  | true => exact ⟨rv, w, cmd_empty hempty, .refl (not_asks_of_isEmpty hempty) w rv⟩
  | false =>
    refine ⟨_, _, cmd_done hempty (Or.inr ?_), ?_⟩
    · rw [Std.ExtTreeMap.isEmpty_iff]
      apply Std.ExtTreeMap.ext_getElem?
      intro addr
      rw [Std.ExtTreeMap.getElem?_empty, Option.eq_none_iff_forall_ne_some]
      intro v hv
      obtain ⟨asks, unknown, _⟩ := (prompt.round_err evals iseval fine).mp hv
      exact unknown (ready addr asks)
    · constructor
      · exact fun addr asks => prompt.round_ran evals iseval asks (ready addr asks)
      · exact fun addr idle => prompt.round_same evals iseval fun asks => absurd asks idle
      · intro addr v
        refine (prompt.round_rv evals iseval fine fresh).trans (or_congr_right ?_)
        exact ⟨fun h => ⟨h.1, h.2.2⟩, fun h => ⟨h.1, ready addr h.1, h.2⟩⟩

theorem lacksScript_evalsha {args : List Str} (evals : Evals dir file keys argv addrCmd)
    {addr : UInt64} (h : addrCmd[addr]? = some args) :
    lacksScript args (redisrvsAdd (.error noScript) .fresh) = true := by
  have hstr : (redisrvsAdd (.error noScript) .fresh).str = noScript := rfl
  have hprefix : "NOSCRIPT".toList.isPrefixOf noScript = true := by decide
  rw [evals addr args h, lacksScript, hstr, hprefix, Bool.and_true]
  simp

/-! ### The second round -/

/-- What the redis are after the first round. -/
def firstWorld (dir : ScriptDir) (plan : Nat → CmdRound) (file : LuaFile) (addrCmd : Commands)
    (w : World) : World :=
  afterRound dir plan w (sentCmds (dir.data file) false addrCmd)

/-- The replies and the errors of the first round. -/
def firstReplies (dir : ScriptDir) (plan : Nat → CmdRound) (file : LuaFile) (addrCmd : Commands)
    (w : World) : RedisRvs × RedisRvs :=
  collect (replies dir plan w (sentCmds (dir.data file) false addrCmd)) ∅

section Second
variable (prompt : Prompt plan) (evals : Evals dir file keys argv addrCmd)
  (fine : ∀ addr, Asks addrCmd addr → (answerOf file keys argv w addr).type ≠ .error) {addr : UInt64}

include prompt evals fine

/-- It goes to those that did not know the script. -/
theorem Prompt.asks_again :
    Asks (errAddrs addrCmd (firstReplies dir plan file addrCmd w).2) addr ↔
      Asks addrCmd addr ∧ ¬ RunsAtOnce dir file false w addr := by
  constructor
  · rintro ⟨args, hargs, hlen⟩
    obtain ⟨hargs, v, hv, _⟩ := errAddrs_get.mp hargs
    obtain ⟨asks, unknown, _⟩ := (prompt.round_err evals false fine).mp hv
    exact ⟨asks, unknown⟩
  · rintro ⟨⟨args, hargs, hlen⟩, unknown⟩
    have herr := (@Prompt.round_err dir plan w file keys argv addrCmd prompt evals false addr ∅ fine _).mpr
      ⟨⟨args, hargs, hlen⟩, unknown, rfl⟩
    exact ⟨args, errAddrs_get.mpr ⟨hargs, _, herr, lacksScript_evalsha evals hargs⟩, hlen⟩

theorem Prompt.first_answers {v : RedisRv} :
    (firstReplies dir plan file addrCmd w).1[addr]? = some v ↔ Asks addrCmd addr ∧
      RunsAtOnce dir file false w addr ∧ v = redisrvsAdd (answerOf file keys argv w addr) .fresh := by
  have hfresh : ∀ addr : UInt64, (∅ : RedisRvs)[addr]? = none := fun _ => Std.ExtTreeMap.getElem?_empty
  refine (prompt.round_rv evals false fine fun addr _ => hfresh addr).trans (or_iff_right ?_)
  rw [hfresh]
  simp

omit fine in
/-- Those are as they were. -/
theorem Prompt.first_same (unknown : ¬ RunsAtOnce dir file false w addr) :
    (firstWorld dir plan file addrCmd w).servers addr = w.servers addr :=
  prompt.round_same evals false fun _ => unknown

omit fine in
theorem Prompt.first_answerOf (unknown : ¬ RunsAtOnce dir file false w addr) :
    answerOf file keys argv (firstWorld dir plan file addrCmd w) addr = answerOf file keys argv w addr := by
  rw [answerOf, prompt.first_same evals unknown, answerOf]

/-- Both rounds together ran the script everywhere. -/
theorem Prompt.both_rounds {w' : World} {rv : RedisRvs}
    (second : AllRan dir file keys argv (errAddrs addrCmd (firstReplies dir plan file addrCmd w).2)
      (firstWorld dir plan file addrCmd w) w' (firstReplies dir plan file addrCmd w).1 rv) :
    AllRan dir file keys argv addrCmd w w' ∅ rv := by
  constructor
  · intro addr asks
    by_cases ready : RunsAtOnce dir file false w addr
    · rw [second.other addr fun h => ((prompt.asks_again evals fine).mp h).2 ready]
      exact prompt.round_ran evals false asks ready
    · rw [second.asked addr ((prompt.asks_again evals fine).mpr ⟨asks, ready⟩),
        prompt.first_same evals ready]
  · intro addr idle
    rw [second.other addr fun h => idle ((prompt.asks_again evals fine).mp h).1]
    exact prompt.round_same evals false fun asks => absurd asks idle
  · intro addr v
    rw [second.answers, prompt.first_answers evals fine, prompt.asks_again evals fine,
      Std.ExtTreeMap.getElem?_empty]
    constructor
    · rintro (⟨asks, _, rfl⟩ | ⟨⟨asks, unknown⟩, rfl⟩)
      · exact Or.inr ⟨asks, rfl⟩
      · exact Or.inr ⟨asks, by rw [prompt.first_answerOf evals unknown]⟩
    · rintro (hold | ⟨asks, rfl⟩)
      · cases hold
      · by_cases ready : RunsAtOnce dir file false w addr
        · exact Or.inl ⟨asks, ready, rfl⟩
        · exact Or.inr ⟨⟨asks, ready⟩, by rw [prompt.first_answerOf evals ready]⟩

end Second

/-- A call runs its script on every redis that it asks. -/
theorem Prompt.cmd_evals (prompt : Prompt plan) (evals : Evals dir file keys argv addrCmd)
    (fine : ∀ addr, Asks addrCmd addr → (answerOf file keys argv w addr).type ≠ .error) (rounds : Nat) :
    ∃ rv w', cmd (network dir plan) (dir.data file) (rounds + 2) false addrCmd ∅ w = some (rv, w') ∧
      AllRan dir file keys argv addrCmd w w' ∅ rv := by
  by_cases ready : ∀ addr, Asks addrCmd addr → RunsAtOnce dir file false w addr
  · exact prompt.cmd_ready evals ready fine (fun _ _ => Std.ExtTreeMap.getElem?_empty) (rounds + 1)
  · simp only [not_forall] at ready
    obtain ⟨first, asks, unknown⟩ := ready
    have hempty : addrCmd.isEmpty = false := by
      rw [← Bool.not_eq_true]
      exact fun h => not_asks_of_isEmpty h first asks
    have herr : (firstReplies dir plan file addrCmd w).2[first]? =
        some (redisrvsAdd (.error noScript) .fresh) :=
      (prompt.round_err evals false fine).mpr ⟨asks, unknown, rfl⟩
    have hnonempty : (firstReplies dir plan file addrCmd w).2.isEmpty = false := by
      rw [Std.ExtTreeMap.isEmpty_eq_false_iff]
      intro hnone
      rw [hnone, Std.ExtTreeMap.getElem?_empty] at herr
      cases herr
    have hagain := @cmd_again _ (network dir plan) _ (rounds + 1) _ addrCmd ∅ w hempty
      (dir.nonempty file) hnonempty
    have hasks := fun addr => @Prompt.asks_again dir plan w file keys argv addrCmd prompt evals fine addr
    have evals' : Evals dir file keys argv (errAddrs addrCmd (firstReplies dir plan file addrCmd w).2) :=
      fun addr args hargs => evals addr args (errAddrs_get.mp hargs).1
    have fine' : ∀ addr, Asks (errAddrs addrCmd (firstReplies dir plan file addrCmd w).2) addr →
        (answerOf file keys argv (firstWorld dir plan file addrCmd w) addr).type ≠ .error := by
      intro addr hasked
      obtain ⟨asks, unknown⟩ := (hasks addr).mp hasked
      rw [prompt.first_answerOf evals unknown]
      exact fine addr asks
    have fresh : ∀ addr, Asks (errAddrs addrCmd (firstReplies dir plan file addrCmd w).2) addr →
        (firstReplies dir plan file addrCmd w).1[addr]? = none := by
      intro addr hasked
      rw [Option.eq_none_iff_forall_ne_some]
      intro v hv
      exact ((hasks addr).mp hasked).2 ((prompt.first_answers evals fine).mp hv).2.1
    obtain ⟨rv, w', hcmd, hran⟩ := @Prompt.cmd_ready dir plan (firstWorld dir plan file addrCmd w) file keys
      argv _ prompt evals' true _ (fun _ _ => Or.inl rfl) fine' fresh rounds
    exact ⟨rv, w', hagain.trans hcmd, prompt.both_rounds evals fine hran⟩

end Prompt
end RedisCluster.Guarantees
