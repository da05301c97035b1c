import RedisCluster.Guarantees.LockRelease
import RedisCluster.Guarantees.Recovery

/-!
# Controllers work one after the other

Controllers run at once, any of their calls may fail with or without effect, and a controller
may die between two calls. What they do to the tree is what whole checks and interrupted ones
do to it one after the other. This needs nothing of the answers to `get_lock` and `free_lock`:
a lock that is lost keeps everybody out.
-/

set_option autoImplicit false

namespace RedisCluster.Guarantees
open Library Routine ZkCall Source

/-! ## The parts of a check -/

/-- The base nodes, with the codes of `init_path_check`. -/
def baseNames : List (Str × Nat) :=
  [("lock".toList, 1), ("config".toList, 2), ("error".toList, 3), ("check".toList, 4),
    ("legal_nodes".toList, 5)]

/-- `init_path_check`: one base node after the other. -/
def setup : List (Str × Nat) → Ctl Unit
  | [] => return ()
  | (name, code) :: rest => do
    orReturn (checkAddCreate [name] .persistent []) code
    setup rest

/-- `check_add_create` where the node is missing. -/
def creating (name : Str) (code : Nat) (rest : List (Str × Nat)) :
    Program Resp (Except Halt Unit) :=
  .call (.zooCreate [name] none .persistent) fun
    | .ok q => .call (.zooExists q) fun
      | .ok _ => (setup rest).run
      | .error _ => .done (.error (.rv code))
    | .error _ => .done (.error (.rv code))

/-- The destructor of `local_lock`. -/
def release : Except Halt Legal → Program Resp (Except Halt Legal)
  | .error .lengthError => .done (.error .lengthError)
  | outcome => .call (.zooDelete lockNode) fun _ => .done outcome

/-- What `check` goes on with after the preparation: its request for the lock, and the passes if it
gets it. -/
def afterSetup (session : Nat) (net : Network) : Except Halt Unit → Program Resp (Except Halt Legal)
  | .error halt => .done (.error halt)
  | .ok () => .call (.zooCreate lockNode none (.ephemeral session)) fun
    | .ok _ => (checkLocked net).run >>= release
    | .error _ => .done (.error .noLock)

theorem mem_baseNames {q : Path} : q ∈ basePaths ↔ ∃ b ∈ baseNames, q = [b.1] := by
  simp [basePaths, baseNames, lockPath, cfgPath, errPath, checkPath, nodePath]

theorem initPathCheck_eq : initPathCheck = setup baseNames := by
  unfold initPathCheck
  simp only [setup, baseNames, lockPath, cfgPath, errPath, checkPath, nodePath]
  simp

/-- A base node is looked for first, and created only if it is not there. -/
theorem setup_cons (name : Str) (code : Nat) (rest : List (Str × Nat)) : ∃ next,
    (setup ((name, code) :: rest)).run = .call (.zooExists [name]) next ∧
      next (.ok ()) = (setup rest).run ∧ next (.error .noNode) = creating name code rest ∧
      ∀ e, e ≠ .noNode → ∃ halt, next (.error e) = .done (.error halt) := by
  refine ⟨_, rfl, rfl, ?_, ?_⟩
  · refine congrArg (Program.call _) (funext fun r => ?_)
    cases r with
    | error e => rfl
    | ok q =>
      refine congrArg (Program.call _) (funext fun r => ?_)
      cases r with
      | ok u => rfl
      | error e => cases e <;> rfl
  · intro e he
    cases e with
    | noNode => exact absurd rfl he
    | nodeExists => exact ⟨_, rfl⟩
    | notEmpty => exact ⟨_, rfl⟩
    | badArguments => exact ⟨_, rfl⟩
    | connectionLoss => exact ⟨_, rfl⟩

/-- A check is its preparation and what comes after it. -/
theorem check_run (session : Nat) (net : Network) :
    (check (some session) net).run = (setup baseNames).run >>= afterSetup session net := by
  rw [← initPathCheck_eq]
  unfold check
  rw [ExceptT.run_bind]
  refine congrArg (initPathCheck.run >>= ·) (funext fun r => ?_)
  cases r with
  | error halt => rfl
  | ok u =>
    refine congrArg (Program.call _) (funext fun r => ?_)
    cases r with
    | error e => rfl
    | ok q =>
      have hlift : (ExceptT.lift (checkLocked net).run : Ctl (Except Halt Legal)).run =
          (checkLocked net).run >>= fun r => pure (.ok r) := map_eq_pure_bind _ _
      change (ExceptT.lift (checkLocked net).run >>= _ : Ctl Legal).run = _
      rw [ExceptT.run_bind, hlift, bind_assoc]
      refine congrArg ((checkLocked net).run >>= ·) (funext fun outcome => ?_)
      cases outcome with
      | ok legal => rfl
      | error halt => cases halt <;> rfl

/-! ## The base nodes stay -/

/-- A call that deletes no base node, and creates none that a session owns. -/
def Steady : ZkCall → Prop
  | .zooCreate path _ mode => path.length ≤ 1 → mode = .persistent
  | .zooDelete path => 2 ≤ path.length
  | _ => True

/-- No session owns a base node. -/
def BasesLast (t : Tree) : Prop := ∀ name node, t.get [name] = some node → node.owner = none

theorem Working.steady {c : ZkCall} (h : Working c) : Steady c := by
  cases c with
  | zooExists path => trivial
  | zooGet path => trivial
  | zooGetChildren path => trivial
  | zooCreate path data mode =>
    intro hshort
    have hlong := (Inner.getLast h).1
    omega
  | zooDelete path => exact (Inner.getLast h).1

section Steady
variable {c : ZkCall} {t t' : Tree} {r : c.Resp}

/-- Such a call takes no base node away and gives none to a session. -/
theorem Steady.served (h : Steady c) (lasting : BasesLast t) : BasesLast (serve c t).2 ∧
    ∀ name, [name] ∈ t → [name] ∈ (serve c t).2 := by
  cases c with
  | zooExists path => exact ⟨lasting, fun _ h => h⟩
  | zooGet path =>
    rw [IsRead.same (c := .zooGet path) trivial t]
    exact ⟨lasting, fun _ h => h⟩
  | zooGetChildren path => exact ⟨lasting, fun _ h => h⟩
  | zooCreate path data mode =>
    rw [serve]
    split
    · next q t' hcreate =>
      cases path with
      | nil => cases hcreate
      | cons name path =>
        obtain ⟨rfl, hcreated⟩ := Tree.create_ok hcreate
        constructor
        · intro base node hnode
          rw [hcreated.get] at hnode
          split at hnode
          · next heq =>
            cases hnode
            have hpath : path = [] := (List.cons.inj heq).2.symm
            have hmode := h (by simp [hpath])
            rw [hmode]
            rfl
          · exact lasting base node hnode
        · exact fun base hbase => (hcreated.mem_iff _).mpr (Or.inr hbase)
    · exact ⟨lasting, fun _ h => h⟩
  | zooDelete path =>
    rw [serve]
    split
    · next t' hdelete =>
      cases path with
      | nil => cases hdelete
      | cons name path =>
        have hdeleted := Tree.delete_ok hdelete
        have hother : ∀ base, [base] ≠ name :: path := by
          intro base heq
          have hlength : 2 ≤ (name :: path).length := h
          rw [← heq] at hlength
          simp at hlength
        refine ⟨fun base node hnode => ?_, fun base hbase => ?_⟩
        · rw [hdeleted.get, if_neg (hother base)] at hnode
          exact lasting base node hnode
        · rw [Tree.mem_iff, hdeleted.get, if_neg (hother base), ← Tree.mem_iff]
          exact hbase
    · exact ⟨lasting, fun _ h => h⟩

/-- Nor does it where it fails. -/
theorem Steady.faulty (h : Steady c) (lasting : BasesLast t) (answered : Faulty c t r t') :
    BasesLast t' ∧ ∀ name, [name] ∈ t → [name] ∈ t' := by
  rcases answered.state with rfl | rfl
  · exact ⟨lasting, fun _ h => h⟩
  · exact h.served lasting

end Steady

theorem BasesLast.outlives {t : Tree} (lasting : BasesLast t) (session : Nat) (name : Str) :
    t.outlives session [name] = true := by
  rw [Tree.outlives, Tree.outlives, Bool.and_true]
  cases hget : t.get [name] with
  | none => rfl
  | some node =>
    rw [Option.all_some, lasting name node hget]
    rfl

/-- No base node goes with a session. -/
theorem BasesLast.expire {t : Tree} (lasting : BasesLast t) (session : Nat) :
    BasesLast (t.expire session) ∧ ∀ name, [name] ∈ t → [name] ∈ t.expire session := by
  constructor
  · intro name node hnode
    rw [Tree.get_expire, if_pos (lasting.outlives session name)] at hnode
    exact lasting name node hnode
  · exact fun name hmem => (Tree.mem_expire _ _).mpr ⟨hmem, lasting.outlives session name⟩

/-! ## Before the lock -/

/-- What is left of `init_path_check` in a check that has seen some of the base nodes. -/
inductive Setup (t : Tree) : Program Resp (Except Halt Unit) → Prop
  | look {seen rest : List (Str × Nat)} (split : seen ++ rest = baseNames)
      (there : ∀ b ∈ seen, [b.1] ∈ t) : Setup t (setup rest).run
  | create {seen rest : List (Str × Nat)} {name : Str} {code : Nat}
      (split : seen ++ (name, code) :: rest = baseNames) (there : ∀ b ∈ seen, [b.1] ∈ t) :
      Setup t (creating name code rest)
  | verify {seen rest : List (Str × Nat)} {name : Str} {code : Nat}
      (split : seen ++ (name, code) :: rest = baseNames) (there : ∀ b ∈ seen, [b.1] ∈ t)
      {next : (ZkCall.zooExists [name]).Resp → Program Resp (Except Halt Unit)}
      (passed : next (.ok ()) = (setup rest).run)
      (failed : ∀ e, ∃ halt, next (.error e) = .done (.error halt)) :
      Setup t (.call (.zooExists [name]) next)
  | failed (halt : Halt) : Setup t (.done (.error halt))

/-- What is left of a check that has not taken the lock. -/
def Ahead (session : Nat) (t : Tree) (p : Program Resp (Except Halt Legal)) : Prop :=
  ∃ x net, Setup t x ∧ p = x >>= afterSetup session net

section Before
variable {session : Nat} {t t' : Tree}

/-- Base nodes that others create do not disturb a preparation. -/
theorem Setup.mono {x : Program Resp (Except Halt Unit)} (h : Setup t x)
    (keeps : ∀ name, [name] ∈ t → [name] ∈ t') : Setup t' x := by
  cases h with
  | look split there => exact .look split fun b hb => keeps _ (there b hb)
  | create split there => exact .create split fun b hb => keeps _ (there b hb)
  | verify split there passed failed =>
    exact .verify split (fun b hb => keeps _ (there b hb)) passed failed
  | failed halt => exact .failed halt

/-- A create of a node that is there changes nothing. -/
theorem create_there {name : Str} {path : Path} {data : Option Str} {mode : CreateMode}
    {r : (ZkCall.zooCreate (name :: path) data mode).Resp} (plain : mode ≠ .sequence)
    (there : name :: path ∈ t) (answered : Faulty (.zooCreate (name :: path) data mode) t r t') :
    t' = t := by
  have hserved : (serve (.zooCreate (name :: path) data mode) t).2 = t := by
    rw [serve]
    split
    · next q t₁ hcreate =>
      have hfresh := (Tree.create_ok hcreate).2.fresh
      cases mode with
      | persistent => exact absurd there hfresh
      | ephemeral owner => exact absurd there hfresh
      | sequence => exact absurd rfl plain
    · rfl
  rcases answered.state with h | h
  · exact h
  · exact h.trans hserved

/-- A create that succeeds was served. -/
theorem create_answered {name : Str} {path : Path} {data : Option Str} {mode : CreateMode} {q : Path}
    (answered : Faulty (.zooCreate (name :: path) data mode) t (.ok q) t') :
    q = t.createdName name path mode :: path ∧ t.Created name path data mode t' := by
  have hserved : serve (.zooCreate (name :: path) data mode) t = (.ok q, t') :=
    answered.resolve_right fun h => by
      obtain ⟨e, he, _⟩ := h
      cases he
  rw [serve] at hserved
  split at hserved
  · next q' t₁ hcreate =>
    cases hserved
    exact Tree.create_ok hcreate
  · cases hserved

/-- A look at a node changes nothing, and finds only what is there. -/
theorem exists_answered {path : Path} {r : (ZkCall.zooExists path).Resp}
    (answered : Faulty (.zooExists path) t r t') : t' = t ∧ (r = .ok () → path ∈ t) := by
  constructor
  · rcases answered.state with h | h
    · exact h
    · exact h
  · rintro rfl
    by_contra hmissing
    rcases answered with h | ⟨e, he, _⟩
    · rw [serve, if_neg hmissing] at h
      cases h
    · cases he

/-- A check passes the base nodes that are there. -/
theorem setup_reaches {seen rest : List (Str × Nat)} (there : ∀ b ∈ seen, [b.1] ∈ t) :
    Program.Reaches Faulty (setup (seen ++ rest)).run t (setup rest).run t := by
  induction seen with
  | nil => exact .here _ t
  | cons b seen ih =>
    obtain ⟨name, code⟩ := b
    obtain ⟨next, hrun, hpassed, _⟩ := setup_cons name code (seen ++ rest)
    have hanswer : Faulty (.zooExists [name]) t (.ok ()) t := by
      left
      rw [serve, if_pos (there (name, code) List.mem_cons_self)]
    have hrest := ih fun b hb => there b (List.mem_cons_of_mem _ hb)
    rw [← hpassed] at hrest
    rw [List.cons_append, hrun]
    exact .later hanswer hrest

/-- From a tree that has the base nodes so far, the preparation comes to the next one without a
change. -/
theorem creating_reaches {seen rest : List (Str × Nat)} {name : Str} {code : Nat}
    (there : ∀ b ∈ seen, [b.1] ∈ t) :
    Program.Reaches Faulty (setup (seen ++ (name, code) :: rest)).run t (creating name code rest) t := by
  obtain ⟨next, hrun, _, hmissing, _⟩ := setup_cons name code rest
  have hreach := @setup_reaches t seen ((name, code) :: rest) there
  rw [hrun] at hreach
  have hanswer : Faulty (.zooExists [name]) t (.error .noNode) t := Or.inr ⟨_, rfl, Or.inl rfl⟩
  rw [← hmissing]
  exact hreach.answered hanswer

/-- One more base node has been seen. -/
theorem Setup.look_on {seen rest : List (Str × Nat)} {b : Str × Nat}
    (split : seen ++ b :: rest = baseNames) (there : ∀ b ∈ seen, [b.1] ∈ t) (found : [b.1] ∈ t) :
    Setup t (setup rest).run := by
  have hsplit : (seen ++ [b]) ++ rest = baseNames := by
    rw [List.append_assoc]
    exact split
  refine .look hsplit fun b' hb' => ?_
  rcases List.mem_append.mp hb' with hold | hnew
  · exact there b' hold
  · rw [List.mem_singleton.mp hnew]
    exact found

/-- The calls of `init_path_check`. -/
def BaseCall (c : ZkCall) : Prop :=
  ∃ name, c = .zooExists [name] ∨ c = .zooCreate [name] none .persistent

/-- One call of `init_path_check`: alone it could have come to this from the tree as it is. -/
structure SetupStep (t t' : Tree) (c : ZkCall) (x : Program Resp (Except Halt Unit)) : Prop where
  kind : BaseCall c
  stops : Program.Stops Faulty (setup baseNames).run t t'
  quiet : (∀ q ∈ basePaths, q ∈ t) → t' = t
  rest : Setup t' x

theorem SetupStep.looked {name : Str} {r : (ZkCall.zooExists [name]).Resp}
    {x : Program Resp (Except Halt Unit)} (answered : Faulty (.zooExists [name]) t r t')
    (rest : Setup t' x) : SetupStep t t' (.zooExists [name]) x := by
  obtain ⟨rfl, _⟩ := exists_answered answered
  exact ⟨⟨name, Or.inl rfl⟩, .here _ _, fun _ => rfl, rest⟩

/-- One call of a preparation, whatever is answered. -/
theorem Setup.answered {x : Program Resp (Except Halt Unit)} (h : Setup t x) {c : ZkCall}
    {next : c.Resp → Program Resp (Except Halt Unit)} (hx : x = .call c next) {r : c.Resp}
    (answered : Faulty c t r t') : SetupStep t t' c (next r) := by
  cases h with
  | @look seen rest split there =>
    cases rest with
    | nil => cases hx
    | cons b rest =>
      obtain ⟨name, code⟩ := b
      obtain ⟨next₀, hrun, hpassed, hmissing, hfailed⟩ := setup_cons name code rest
      rw [hrun] at hx
      cases hx
      refine .looked answered ?_
      obtain ⟨rfl, hfound⟩ := exists_answered answered
      cases r with
      | ok u =>
        rw [show next₀ (.ok u) = _ from hpassed]
        exact .look_on split there (hfound rfl)
      | error e =>
        by_cases he : e = .noNode
        · rw [he, hmissing]
          exact .create split there
        · obtain ⟨halt, hhalt⟩ := hfailed e he
          rw [hhalt]
          exact .failed halt
  | @create seen rest name code split there =>
    have hreach := @creating_reaches t seen rest name code there
    rw [split, hx] at hreach
    have hstops := (hreach.answered answered).stops
    cases hx
    refine ⟨⟨name, Or.inr rfl⟩, hstops, fun hbase => ?_, ?_⟩
    · refine create_there (by simp) (hbase [name] (mem_baseNames.mpr ⟨(name, code), ?_, rfl⟩)) answered
      rw [← split]
      simp
    · cases r with
      | error e => exact .failed (.rv code)
      | ok q =>
        obtain ⟨rfl, hcreated⟩ := create_answered answered
        refine .verify split (fun b hb => (hcreated.mem_iff _).mpr (Or.inr (there b hb))) rfl ?_
        exact fun e => ⟨_, rfl⟩
  | @verify seen rest name code split there next₀ passed failed =>
    cases hx
    refine .looked answered ?_
    obtain ⟨rfl, hfound⟩ := exists_answered answered
    cases r with
    | ok u =>
      rw [show next₀ (.ok u) = _ from passed]
      exact .look_on split there (hfound rfl)
    | error e =>
      obtain ⟨halt, hhalt⟩ := failed e
      rw [hhalt]
      exact .failed halt
  | failed halt => cases hx

/-- It ends well only after it has seen all base nodes. -/
theorem Setup.complete {x : Program Resp (Except Halt Unit)} (h : Setup t x) (hx : x = .done (.ok ())) :
    ∀ b ∈ baseNames, [b.1] ∈ t := by
  cases h with
  | @look seen rest split there =>
    cases rest with
    | nil =>
      rw [List.append_nil] at split
      rwa [split] at there
    | cons b rest =>
      obtain ⟨next, hrun, _⟩ := setup_cons b.1 b.2 rest
      rw [hrun] at hx
      cases hx
  | create split there => cases hx
  | verify split there passed failed => cases hx
  | failed halt => cases hx

/-- The calls of a check that does not hold the lock. -/
def Prelude (session : Nat) (c : ZkCall) : Prop :=
  BaseCall c ∨ c = .zooCreate lockNode none (.ephemeral session)

theorem Prelude.steady {c : ZkCall} (h : Prelude session c) : Steady c := by
  rcases h with ⟨name, rfl | rfl⟩ | rfl
  · trivial
  · exact fun _ => rfl
  · simp [Steady, lockNode, lockPath]

/-- What a call of such a check comes to. It may have been made alone, from the tree as it is;
and it does nothing where the lock is taken. -/
inductive Advance (session : Nat) (t t' : Tree) (p : Program Resp (Except Halt Legal)) : Prop
  | goes (net : Network) (stops : Program.Stops Faulty (check (some session) net).run t t')
      (quiet : (∀ q ∈ basePaths, q ∈ t) → lockNode ∈ t → t' = t) (rest : Ahead session t' p) :
      Advance session t t' p
  | enters (net : Network) (free : lockNode ∉ t) (base : ∀ q ∈ basePaths, q ∈ t')
      (reaches : Program.Reaches Faulty (check (some session) net).run t p t')
      (owns : Owns t' session) (locked : p = (checkLocked net).run >>= release) :
      Advance session t t' p

/-- Base nodes that others create do not disturb a controller that is ahead of the lock. -/
theorem Ahead.mono {p : Program Resp (Except Halt Legal)} (h : Ahead session t p)
    (keeps : ∀ name, [name] ∈ t → [name] ∈ t') : Ahead session t' p := by
  obtain ⟨x, net, hx, rfl⟩ := h
  exact ⟨x, net, hx.mono keeps, rfl⟩

theorem ahead_failed (halt : Halt) : Ahead session t (.done (.error halt)) :=
  ⟨.done (.error halt), fun _ _ => ∅, .failed halt, rfl⟩

/-- Every check starts ahead of the lock. -/
theorem ahead_check (net : Network) : Ahead session t (check (some session) net).run := by
  refine ⟨(setup baseNames).run, net, ?_, check_run session net⟩
  exact @Setup.look t [] baseNames rfl fun b hb => absurd hb List.not_mem_nil

/-- A check that has seen all base nodes asks for the lock. -/
theorem check_asks (there : ∀ b ∈ baseNames, [b.1] ∈ t) (net : Network) :
    Program.Reaches Faulty (check (some session) net).run t (afterSetup session net (.ok ())) t := by
  have hsetup := @setup_reaches t baseNames [] there
  rw [List.append_nil] at hsetup
  rw [check_run]
  exact hsetup.bind

/-- After its request for the lock a controller owns the lock node, or has given up, whether the
create took effect or not. -/
theorem lock_answered (there : ∀ b ∈ baseNames, [b.1] ∈ t) (net : Network)
    {next : (ZkCall.zooCreate lockNode none (.ephemeral session)).Resp → Program Resp (Except Halt Legal)}
    (hnext : afterSetup session net (.ok ()) = .call (.zooCreate lockNode none (.ephemeral session)) next)
    {r : (ZkCall.zooCreate lockNode none (.ephemeral session)).Resp}
    (answered : Faulty (.zooCreate lockNode none (.ephemeral session)) t r t') :
    Advance session t t' (next r) := by
  have hreach : Program.Reaches Faulty (check (some session) net).run t (next r) t' := by
    have hasks := @check_asks session t there net
    rw [hnext] at hasks
    exact hasks.answered answered
  cases hnext
  cases r with
  | error e =>
    refine .goes net hreach.stops (fun _ hmem => ?_) (ahead_failed .noLock)
    exact create_there (by simp) hmem answered
  | ok q =>
    obtain ⟨_, hcreated⟩ := create_answered answered
    refine .enters net hcreated.fresh (fun q hq => ?_) hreach ⟨⟨none, some session⟩, ?_, rfl⟩ rfl
    · obtain ⟨b, hb, rfl⟩ := mem_baseNames.mp hq
      exact (hcreated.mem_iff _).mpr (Or.inr (there b hb))
    · exact (hcreated.get _).trans (if_pos rfl)

/-- One call ahead of the lock, whatever is answered. -/
theorem Ahead.answered {p : Program Resp (Except Halt Legal)} (h : Ahead session t p) {c : ZkCall}
    {next : c.Resp → Program Resp (Except Halt Legal)} (hp : p = .call c next) {r : c.Resp}
    (answered : Faulty c t r t') : Prelude session c ∧ Advance session t t' (next r) := by
  obtain ⟨x, net, hx, rfl⟩ := h
  cases x with
  | call c₀ next₀ =>
    cases hp
    have hstep := hx.answered rfl answered
    refine ⟨Or.inl hstep.kind,
      .goes net ?_ (fun hbase _ => hstep.quiet hbase) ⟨next₀ r, net, hstep.rest, rfl⟩⟩
    rw [check_run]
    exact hstep.stops.bind
  | done u =>
    cases u with
    | error halt => cases hp
    | ok u =>
      have hall := hx.complete rfl
      cases hp
      exact ⟨Or.inr rfl, lock_answered hall net rfl answered⟩

end Before

/-! ## Under the lock -/

/-- What is left of a check that holds the lock. -/
def Locked (p : Program Resp (Except Halt Legal)) : Prop :=
  ∃ x : Program Resp (Except Halt Legal),
    Program.wp (Program.OfKind Resp Working) id (fun _ _ => True) x True ∧ p = x >>= release

/-- Work under the lock does not touch the lock node. -/
theorem Working.lock_kept {c : ZkCall} {t t' : Tree} {r : c.Resp} (h : Working c)
    (answered : Faulty c t r t') : t'.get lockNode = t.get lockNode := by
  have hinner : ¬ Inner lockNode := by
    intro hinner
    obtain ⟨_, hlast⟩ := hinner.getLast
    revert hlast
    simp [lockNode, lockPath]
  rcases answered.state with rfl | rfl
  · rfl
  · exact h.outside hinner t

/-- What a call under the lock comes to. -/
inductive LockedStep (c : ZkCall) (p : Program Resp (Except Halt Legal)) : Prop
  | works (kind : Working c) (rest : Locked p)
  | frees (call : c = .zooDelete lockNode) {outcome : Except Halt Legal} (ends : p = .done outcome)

theorem locked_start (net : Network) : Locked ((checkLocked net).run >>= release) :=
  ⟨(checkLocked net).run, Program.wp.mono (working_checkLocked True trivial) fun _ _ _ => trivial, rfl⟩

/-- One call under the lock is work, or the last one, which frees it. -/
theorem Locked.answered {p : Program Resp (Except Halt Legal)} (h : Locked p) {c : ZkCall}
    {next : c.Resp → Program Resp (Except Halt Legal)} (hp : p = .call c next) (r : c.Resp) :
    LockedStep c (next r) := by
  obtain ⟨x, hx, rfl⟩ := h
  cases x with
  | call c₀ next₀ =>
    cases hp
    have hnext := hx.2 r _ rfl
    have hkind : Working c := hnext.here.2
    rw [eq_true (And.intro trivial hkind)] at hnext
    exact .works hkind ⟨next₀ r, hnext, rfl⟩
  | done outcome =>
    cases outcome with
    | ok legal =>
      cases hp
      exact .frees rfl rfl
    | error halt =>
      cases halt with
      | lengthError => cases hp
      | rv code =>
        cases hp
        exact .frees rfl rfl
      | noHandle =>
        cases hp
        exact .frees rfl rfl
      | noLock =>
        cases hp
        exact .frees rfl rfl

/-- A check leaves with the lock only on the exception. -/
theorem Locked.done {p : Program Resp (Except Halt Legal)} (h : Locked p) {outcome : Except Halt Legal}
    (hp : p = .done outcome) : outcome = .error .lengthError := by
  obtain ⟨x, _, rfl⟩ := h
  cases x with
  | call c next => cases hp
  | done outcome =>
    cases outcome with
    | ok legal => cases hp
    | error halt =>
      cases halt with
      | lengthError =>
        cases hp
        rfl
      | rv code => cases hp
      | noHandle => cases hp
      | noLock => cases hp

/-! ## The cluster -/

/-- Controllers at work, any of whose calls may fail. A process may die between two calls; the
lock node is the only node that its session owns. The configuration is edited while no
check runs. -/
inductive ClusterStep : Controllers → Controllers → Prop
  | work {s s' : Controllers} (step : ControllerStep Faulty s s') : ClusterStep s s'
  | die (s : Controllers) (session : Nat) :
      ClusterStep s { s with running := Function.update s.running session none }
  | expire {s : Controllers} {session : Nat} (dead : s.running session = none)
      (owns : Owns s.tree session) : ClusterStep s { s with tree := s.tree.expire session }
  | configure {s : Controllers} {t' : Tree} (quiet : ∀ session, s.running session = none)
      (change : Reconfigured s.tree t') (lasting : BasesLast t') : ClusterStep s { s with tree := t' }

/-- What controllers reach that come and go. -/
abbrev ClusterRun : Controllers → Controllers → Prop := Relation.ReflTransGen ClusterStep

/-- One check after the other, whole or cut off, with lock nodes that disappear and edits of
the configuration between them. -/
inductive Serial (t : Tree) : Tree → Prop
  | start : Serial t t
  | check {t₁ t₂ : Tree} (before : Serial t t₁) (session : Nat) (net : Network)
      (stopped : Program.Stops Faulty (check (some session) net).run t₁ t₂) : Serial t t₂
  | expire {t₁ : Tree} (before : Serial t t₁) (session : Nat) : Serial t (t₁.expire session)
  | configure {t₁ t₂ : Tree} (before : Serial t t₁) (change : Reconfigured t₁ t₂) : Serial t t₂

theorem Serial.trans {t t₁ t₂ : Tree} (h : Serial t t₁) (h' : Serial t₁ t₂) : Serial t t₂ := by
  induction h' with
  | start => exact h
  | check _ session net stopped ih => exact .check ih session net stopped
  | expire _ session ih => exact .expire ih session
  | configure _ change ih => exact .configure ih change

/-- What a serial order reaches, interrupted checks reach. -/
theorem Serial.reach {t t' : Tree} (h : Serial t t') (reach : Reach t) : Reach t' := by
  induction h with
  | start => exact reach
  | check _ session net stopped ih => exact .check ih (some session) net stopped
  | expire _ session ih => exact .expire ih session
  | configure _ change ih => exact .configure ih change

/-- Some check of the session, alone in the serial order, has this result. -/
def Checked (before last : Tree) (session : Nat) (legal : Legal) : Prop :=
  ∃ net t t', Serial before t ∧
    Program.Returns Faulty (check (some session) net).run t (.ok legal) t' ∧ Serial t' last

/-- What is left of a check that does not hold the lock. -/
inductive Outside (before last : Tree) (session : Nat) (t : Tree) :
    Program Resp (Except Halt Legal) → Prop
  | ahead {p : Program Resp (Except Halt Legal)} (ahead : Ahead session t p) :
      Outside before last session t p
  | done {outcome : Except Halt Legal}
      (checked : ∀ legal, outcome = .ok legal → Checked before last session legal) :
      Outside before last session t (.done outcome)

/-- A check that holds the lock. Alone it would have come to this point, from a tree of the
serial order. -/
structure Inside (last : Tree) (session : Nat) (net : Network) (t : Tree)
    (p : Program Resp (Except Halt Legal)) : Prop where
  reaches : Program.Reaches Faulty (check (some session) net).run last p t
  owns : Owns t session
  base : ∀ q ∈ basePaths, q ∈ t
  locked : Locked p

/-- `last` is the tree of the serial order up to the check that holds the lock. -/
structure Serialised (before : Tree) (s : Controllers) (holder : Option Nat) (last : Tree) : Prop where
  serial : Serial before last
  lasting : BasesLast s.tree
  free : holder = none → s.tree = last
  inside : ∀ session, holder = some session →
    ∃ net p, s.running session = some p ∧ Inside last session net s.tree p
  outside : ∀ session p, holder ≠ some session → s.running session = some p →
    Outside before last session s.tree p

section Steps
variable {before last last' : Tree} {s : Controllers} {session : Nat} {holder : Option Nat}

/-- Others may go on: a controller outside stays where it is in the order. -/
theorem Outside.mono {t t' : Tree} {p : Program Resp (Except Halt Legal)}
    (h : Outside before last session t p) (keeps : ∀ name, [name] ∈ t → [name] ∈ t')
    (later : Serial last last') : Outside before last' session t' p := by
  cases h with
  | ahead ahead => exact .ahead (ahead.mono keeps)
  | done checked =>
    refine .done fun legal hlegal => ?_
    obtain ⟨net, t₁, t₂, hfirst, hcheck, hlast⟩ := checked legal hlegal
    exact ⟨net, t₁, t₂, hfirst, hcheck, hlast.trans later⟩

theorem Outside.call {t : Tree} {p : Program Resp (Except Halt Legal)} (h : Outside before last session t p)
    {c : ZkCall} {next : c.Resp → Program Resp (Except Halt Legal)} (hp : p = .call c next) :
    Ahead session t p := by
  cases h with
  | ahead ahead => exact ahead
  | done checked => cases hp

theorem Outside.prelude {t : Tree} {p : Program Resp (Except Halt Legal)}
    (h : Outside before last session t p) {c : ZkCall}
    {next : c.Resp → Program Resp (Except Halt Legal)} (hp : p = .call c next) : Prelude session c := by
  have hanswer : Faulty c t (.error .connectionLoss) t := Or.inr ⟨_, rfl, Or.inl rfl⟩
  exact ((h.call hp).answered hp hanswer).1

theorem Outside.checked {t : Tree} {p : Program Resp (Except Halt Legal)}
    (h : Outside before last session t p) {legal : Legal} (hp : p = .done (.ok legal)) :
    Checked before last session legal := by
  cases h with
  | ahead ahead =>
    obtain ⟨x, net, _, rfl⟩ := ahead
    cases x with
    | call c next => cases hp
    | done u => cases u <;> cases hp
  | done checked =>
    cases hp
    exact checked legal rfl

/-- Who holds the lock, apart from the order. -/
theorem Serialised.parted (h : Serialised before s holder last) :
    Parted (fun session p => ∃ net, Inside last session net s.tree p)
      (fun session => Outside before last session s.tree) s.running holder where
  inside session hholder := by
    obtain ⟨net, p, hp, hinside⟩ := h.inside session hholder
    exact ⟨p, hp, net, hinside⟩
  outside := h.outside

theorem serialised_of_parted (serial : Serial before last) (lasting : BasesLast s.tree)
    (free : holder = none → s.tree = last)
    (parted : Parted (fun session p => ∃ net, Inside last session net s.tree p)
      (fun session => Outside before last session s.tree) s.running holder) :
    Serialised before s holder last where
  serial := serial
  lasting := lasting
  free := free
  inside session hholder := by
    obtain ⟨p, hp, net, hinside⟩ := parted.inside session hholder
    exact ⟨net, p, hp, hinside⟩
  outside := parted.outside

/-- Whoever owns the lock node keeps everybody else out. -/
theorem Serialised.holder_of_owner (h : Serialised before s holder last) (owns : Owns s.tree session) :
    holder = none ∨ holder = some session := by
  cases holder with
  | none => exact Or.inl rfl
  | some other =>
    obtain ⟨net, p, _, hinside⟩ := h.inside other rfl
    obtain ⟨node, hnode, howner⟩ := owns
    obtain ⟨node', hnode', howner'⟩ := hinside.owns
    rw [hnode] at hnode'
    cases hnode'
    rw [howner] at howner'
    exact Or.inr howner'.symm

theorem serialised_free (serial : Serial before s.tree) (lasting : BasesLast s.tree)
    (outside : ∀ session p, s.running session = some p → Outside before s.tree session s.tree p) :
    Serialised before s none s.tree :=
  serialised_of_parted serial lasting (fun _ => rfl) (.nobody outside)

/-- A controller that does not hold the lock begins, ends or dies. -/
theorem Serialised.replace (h : Serialised before s holder last) (hne : holder ≠ some session)
    {q : Option (Program Resp (Except Halt Legal))}
    (hq : ∀ p, q = some p → Outside before last session s.tree p) :
    Serialised before { s with running := Function.update s.running session q } holder last :=
  serialised_of_parted h.serial h.lasting h.free (h.parted.replace hne hq)

/-- Nobody holds the lock after this step, and the order goes on to the tree as it is now. -/
theorem Serialised.leaves (h : Serialised before s holder last)
    (alone : ∀ other, holder = some other → other = session) {t' : Tree}
    {q : Option (Program Resp (Except Halt Legal))} (serial : Serial last t') (lasting : BasesLast t')
    (keeps : ∀ name, [name] ∈ s.tree → [name] ∈ t')
    (hq : ∀ p, q = some p → Outside before t' session t' p) :
    Serialised before ⟨t', Function.update s.running session q⟩ none t' :=
  serialised_of_parted (h.serial.trans serial) lasting (fun _ => rfl)
    (h.parted.leaves alone (fun _ _ houtside => houtside.mono keeps serial) hq)

/-- The lock is this controller's after the step, which adds nothing to the order so far. -/
theorem Serialised.holds (h : Serialised before s holder last)
    (alone : ∀ other, holder = some other → other = session) {t' : Tree} {net : Network}
    {p : Program Resp (Except Halt Legal)} (lasting : BasesLast t')
    (keeps : ∀ name, [name] ∈ s.tree → [name] ∈ t') (inside : Inside last session net t' p) :
    Serialised before ⟨t', Function.update s.running session (some p)⟩ (some session) last :=
  serialised_of_parted h.serial lasting (fun hnone => by cases hnone)
    (h.parted.holds alone (fun _ _ houtside => houtside.mono keeps .start) ⟨net, inside⟩)

/-- A controller that dies leaves its check cut off where it stands. -/
theorem Serialised.die (h : Serialised before s holder last) (session : Nat) :
    ∃ holder' last', Serialised before { s with running := Function.update s.running session none }
      holder' last' := by
  by_cases heq : holder = some session
  · subst heq
    obtain ⟨net, p, _, hinside⟩ := h.inside session rfl
    have hserial : Serial last s.tree := .check .start session net hinside.reaches.stops
    exact ⟨none, s.tree, h.leaves (fun _ hother => (Option.some_inj.mp hother).symm) hserial h.lasting
      (fun _ h => h) fun _ h => by cases h⟩
  · exact ⟨holder, last, h.replace heq fun _ h => by cases h⟩

/-- The session of a dead holder expires: its lock node goes, and the order goes on. -/
theorem Serialised.expire (h : Serialised before s holder last) (dead : s.running session = none)
    (owns : Owns s.tree session) :
    ∃ last', Serialised before { s with tree := s.tree.expire session } none last' := by
  have hfree : holder = none := (h.holder_of_owner owns).resolve_right (h.parted.not_holder dead)
  subst hfree
  have htree := h.free rfl
  have hserial : Serial last (s.tree.expire session) := by
    rw [htree]
    exact .expire .start session
  refine ⟨_, serialised_free (h.serial.trans hserial) (h.lasting.expire session).1 fun other p hp => ?_⟩
  exact (h.outside other p (Option.some_ne_none other).symm hp).mono (h.lasting.expire session).2 hserial

/-- While no check runs an edit is one more entry of the order. -/
theorem Serialised.configure (h : Serialised before s holder last) {t' : Tree}
    (quiet : ∀ session, s.running session = none) (change : Reconfigured s.tree t')
    (lasting : BasesLast t') : Serialised before { s with tree := t' } none t' := by
  have hfree : holder = none := by
    cases holder with
    | none => rfl
    | some session => exact absurd rfl (h.parted.not_holder (quiet session))
  have htree := h.free hfree
  refine serialised_free (.configure h.serial (htree ▸ change)) lasting fun session p hp => ?_
  dsimp only at hp
  rw [quiet session] at hp
  cases hp

/-- A call of a check that holds the lock. -/
theorem Serialised.inside_call (h : Serialised before s (some session) last) {c : ZkCall} {r : c.Resp}
    {next : c.Resp → Program Resp (Except Halt Legal)} {t' : Tree}
    (hcall : s.running session = some (.call c next)) (answered : Faulty c s.tree r t') :
    ∃ holder' last', Serialised before ⟨t', Function.update s.running session (some (next r))⟩
      holder' last' := by
  have hself : ∀ other, some session = some other → other = session := fun other h =>
    (Option.some_inj.mp h).symm
  obtain ⟨net, hinside⟩ := h.parted.holder_inside hcall rfl
  have hreaches := hinside.reaches.answered answered
  cases hinside.locked.answered rfl r with
  | works kind rest =>
    obtain ⟨hlasting, hkeeps⟩ := kind.steady.faulty h.lasting answered
    refine ⟨some session, last, h.holds hself hlasting hkeeps ⟨hreaches, ?_, fun q hq => ?_, rest⟩⟩
    · obtain ⟨node, hnode, howner⟩ := hinside.owns
      exact ⟨node, (kind.lock_kept answered).trans hnode, howner⟩
    · obtain ⟨b, _, rfl⟩ := mem_baseNames.mp hq
      exact hkeeps _ (hinside.base _ hq)
  | frees hcall' ends =>
    rename_i outcome
    subst hcall'
    obtain ⟨hlasting, hkeeps⟩ :=
      Steady.faulty (c := .zooDelete lockNode) (by simp [Steady, lockNode, lockPath]) h.lasting answered
    rw [ends] at hreaches ⊢
    have hserial : Serial last t' := .check .start session net hreaches.stops
    refine ⟨none, t', h.leaves hself hserial hlasting hkeeps fun p hp => ?_⟩
    cases hp
    refine .done fun legal hlegal => ?_
    subst hlegal
    exact ⟨net, last, t', h.serial, hreaches.returns, .start⟩

/-- A call of a controller that does not hold the lock. -/
theorem Serialised.outside_call (h : Serialised before s holder last) (hne : holder ≠ some session)
    {c : ZkCall} {r : c.Resp} {next : c.Resp → Program Resp (Except Halt Legal)} {t' : Tree}
    (hcall : s.running session = some (.call c next)) (answered : Faulty c s.tree r t') :
    ∃ holder' last', Serialised before ⟨t', Function.update s.running session (some (next r))⟩
      holder' last' := by
  obtain ⟨hkind, hadvance⟩ := ((h.outside session _ hne hcall).call rfl).answered rfl answered
  obtain ⟨hlasting, hkeeps⟩ := hkind.steady.faulty h.lasting answered
  cases hadvance with
  | goes net stops quiet rest =>
    cases holder with
    | none =>
      have hserial : Serial last t' := .check .start session net ((h.free rfl) ▸ stops)
      refine ⟨none, t', h.leaves (fun _ hother => by cases hother) hserial hlasting hkeeps fun p hp => ?_⟩
      cases hp
      exact .ahead rest
    | some other =>
      obtain ⟨_, _, _, hinside⟩ := h.inside other rfl
      obtain ⟨node, hnode, _⟩ := hinside.owns
      obtain rfl := quiet hinside.base (Tree.mem_of_get hnode)
      refine ⟨_, _, h.replace hne fun p hp => ?_⟩
      cases hp
      exact .ahead rest
  | enters net free base reaches owns locked =>
    have hfree : holder = none := by
      cases holder with
      | none => rfl
      | some other =>
        obtain ⟨_, _, _, hinside⟩ := h.inside other rfl
        obtain ⟨node, hnode, _⟩ := hinside.owns
        exact absurd (Tree.mem_of_get hnode) free
    subst hfree
    refine ⟨some session, last, h.holds (fun _ hother => by cases hother) hlasting hkeeps
      ⟨(h.free rfl) ▸ reaches, owns, base, ?_⟩⟩
    rw [locked]
    exact locked_start net

/-- One step keeps the order, by the kind of the step. -/
theorem Serialised.step {s' : Controllers} (h : Serialised before s holder last)
    (step : ClusterStep s s') : ∃ holder' last', Serialised before s' holder' last' := by
  cases step with
  | die session => exact h.die session
  | expire dead owns => exact ⟨none, h.expire dead owns⟩
  | configure quiet change lasting => exact ⟨none, _, h.configure quiet change lasting⟩
  | work step =>
    cases step with
    | @enter session net outside =>
      refine ⟨holder, last, h.replace (h.parted.not_holder outside) fun p hp => ?_⟩
      cases hp
      exact .ahead (ahead_check net)
    | @leave session outcome inside returns =>
      have hne : holder ≠ some session := by
        intro hholder
        obtain ⟨net, hinside⟩ := h.parted.holder_inside inside hholder
        exact returns (hinside.locked.done rfl)
      exact ⟨holder, last, h.replace hne fun p hp => by cases hp⟩
    | @call session c r t' next inside answered =>
      by_cases hholder : holder = some session
      · subst hholder
        exact h.inside_call inside answered
      · exact h.outside_call hholder inside answered

end Steps

section Runs
variable {before : Tree} {s : Controllers}

/-- And so does a whole run. -/
theorem clusterRun_serialised (lasting : BasesLast before) (run : ClusterRun (.outside before) s) :
    ∃ holder last, Serialised before s holder last := by
  induction run with
  | refl => exact ⟨none, before, serialised_free .start lasting fun _ _ h => by cases h⟩
  | tail _ step ih =>
    obtain ⟨holder, last, h⟩ := ih
    exact h.step step

/-- The tree is that of a serial order, up to the check that holds the lock, which alone would have
come to the same point; and whoever has computed lists has computed them in that order. No base node
is ephemeral, and the configuration is edited only while no check runs: `mutual_exclusion` is what
stays without this. In the order a check that is still in its preparation counts as one that was cut
off, and `Serial` does not say whose check each one is. -/
theorem controllers_serialize (lasting : BasesLast before) (run : ClusterRun (.outside before) s) :
    ∃ last, Serial before last ∧
      (s.tree = last ∨ ∃ session net p, s.running session = some p ∧
        Program.Reaches Faulty (check (some session) net).run last p s.tree) ∧
      ∀ session legal, s.running session = some (.done (.ok legal)) →
        Checked before last session legal := by
  obtain ⟨holder, last, h⟩ := clusterRun_serialised lasting run
  refine ⟨last, h.serial, ?_, fun session legal hdone => ?_⟩
  · cases holder with
    | none => exact Or.inl (h.free rfl)
    | some session =>
      obtain ⟨net, p, hp, hinside⟩ := h.inside session rfl
      exact Or.inr ⟨session, net, p, hp, hinside.reaches⟩
  · have hne : holder ≠ some session := by
      intro hholder
      obtain ⟨net, hinside⟩ := h.parted.holder_inside hdone hholder
      cases hinside.locked.done rfl
    exact (h.outside session _ hne hdone).checked rfl

end Runs

/-! ## One controller at work and another that asks for the lock -/

theorem basesLast_plant {t : Tree} {nodes : List (Path × Option Str)} (lasting : BasesLast t) :
    BasesLast (t.plant nodes) := by
  induction nodes generalizing t with
  | nil => exact lasting
  | cons node nodes ih =>
    cases hcreate : t.create node.1 node.2 .persistent with
    | error e =>
      rw [Tree.plant_error hcreate]
      exact ih lasting
    | ok result =>
      obtain ⟨q, t'⟩ := result
      rw [Tree.plant_ok hcreate]
      apply ih
      have hserved : (serve (.zooCreate node.1 node.2 .persistent) t).2 = t' := by
        rw [serve, hcreate]
      rw [← hserved]
      exact (Steady.served (c := .zooCreate node.1 node.2 .persistent) (fun _ => rfl) lasting).1

theorem basesLast_empty : BasesLast Tree.empty := by
  intro name node hnode
  have hmem := Tree.mem_empty.mp (Tree.mem_of_get hnode)
  cases hmem

/-- A controller may go on while nobody else does a call. -/
theorem run_reaches {env : Program.Env Resp Tree} {s : Controllers} {session : Nat}
    {p q : Program Resp (Except Halt Legal)} {t' : Tree} (inside : s.running session = some p)
    (reaches : Program.Reaches env p s.tree q t') :
    ControllerRun env s ⟨t', Function.update s.running session (some q)⟩ := by
  generalize ht : s.tree = t at reaches
  induction reaches generalizing s with
  | here p t =>
    subst ht
    rw [← inside, Function.update_eq_self]
  | later answered rest ih =>
    subst ht
    have hstep := ControllerStep.call inside answered
    refine .head hstep ?_
    have hrest := @ih ⟨_, Function.update s.running session _⟩ (Function.update_self ..) rfl
    rwa [Function.update_idem] at hrest

/-- No redis answers. -/
def silentNet : Network := fun _ _ => ∅

/-- The first controller holds the lock, the second is about to look at the base nodes. -/
def contended : Controllers :=
  ⟨lockedTree, Function.update (Function.update (fun _ => none) 2 (some (check (some 2) silentNet).run)) 1
    (some ((checkLocked silentNet).run >>= release))⟩

theorem contended_run : ClusterRun (.outside baseTree) contended := by
  have hthere : ∀ b ∈ baseNames, [b.1] ∈ baseTree := by decide +kernel
  have hlock : Faulty (.zooCreate lockNode none (.ephemeral 1)) baseTree (.ok lockNode) lockedTree :=
    Or.inl (Prod.ext (by decide +kernel) rfl)
  have hreach : Program.Reaches Faulty (check (some 1) silentNet).run baseTree
      ((checkLocked silentNet).run >>= release) lockedTree :=
    (@check_asks 1 baseTree hthere silentNet).answered hlock
  have hsecond : ControllerStep Faulty (.outside baseTree) _ :=
    @ControllerStep.enter Faulty (.outside baseTree) 2 silentNet rfl
  have hfirst := @ControllerStep.enter Faulty { Controllers.outside baseTree with
    running := Function.update (fun _ => none) 2 (some (check (some 2) silentNet).run) } 1 silentNet rfl
  have hrun := @run_reaches Faulty ⟨baseTree, Function.update (Function.update (fun _ => none) 2
    (some (check (some 2) silentNet).run)) 1 (some (check (some 1) silentNet).run)⟩ 1 _ _ lockedTree
    rfl hreach
  rw [Function.update_idem] at hrun
  have hall : ControllerRun Faulty (.outside baseTree) contended := .head hsecond (.head hfirst hrun)
  exact hall.lift id fun _ _ => .work

/-- The first controller has the lock, and the second one looks for it. -/
theorem controllers_serialize_example : ∃ last, Serial baseTree last ∧
    (contended.tree = last ∨ ∃ session net p, contended.running session = some p ∧
      Program.Reaches Faulty (check (some session) net).run last p contended.tree) ∧
    ∀ session legal, contended.running session = some (.done (.ok legal)) →
      Checked baseTree last session legal :=
  controllers_serialize (basesLast_plant basesLast_empty) contended_run

end RedisCluster.Guarantees
