import RedisCluster.Source.CtrlPublish

/-!
# The kinds of calls a check makes

Some routines only read. While it holds the lock, a check creates and deletes only inside
the branches `error`, `check` and `legal_nodes`; this is seen from its text, whatever
ZooKeeper answers.
-/

set_option autoImplicit false

namespace RedisCluster.Guarantees
open Library Routine ZkCall Source

/-- A call that changes nothing. -/
def IsRead : ZkCall → Prop
  | .zooCreate _ _ _ => False
  | .zooDelete _ => False
  | _ => True

/-- Inside one of the branches that the controller works on. -/
def Inner (q : Path) : Prop :=
  ∃ base ∈ [errPath, checkPath, nodePath], ∃ (name : Str) (names : Path),
    q = name :: (names ++ base)

/-- A call that creates and deletes only there. -/
def Working : ZkCall → Prop
  | .zooCreate path _ _ => Inner path
  | .zooDelete path => Inner path
  | _ => True

theorem IsRead.working {c : ZkCall} (h : IsRead c) : Working c := by
  cases c with
  | zooExists path => trivial
  | zooGet path => trivial
  | zooGetChildren path => trivial
  | zooCreate path data mode => exact h.elim
  | zooDelete path => exact h.elim

/-- Reading changes nothing. -/
theorem IsRead.same {c : ZkCall} (h : IsRead c) (t : Tree) : (ZkCall.serve c t).2 = t := by
  cases c with
  | zooExists path => rfl
  | zooGet path =>
    rw [ZkCall.serve]
    split <;> rfl
  | zooGetChildren path => rfl
  | zooCreate path data mode => exact h.elim
  | zooDelete path => exact h.elim

theorem inner_error (name : Str) (names : Path) : Inner (name :: (names ++ errPath)) :=
  ⟨errPath, by simp, name, names, rfl⟩

theorem inner_check (name : Str) (names : Path) : Inner (name :: (names ++ checkPath)) :=
  ⟨checkPath, by simp, name, names, rfl⟩

theorem inner_legal (name : Str) (names : Path) : Inner (name :: (names ++ nodePath)) :=
  ⟨nodePath, by simp, name, names, rfl⟩

/-- The last name of a path in the branches is one of theirs. -/
theorem Inner.getLast {q : Path} (h : Inner q) : 2 ≤ q.length ∧
    (q.getLast? = some "error".toList ∨ q.getLast? = some "check".toList ∨
      q.getLast? = some "legal_nodes".toList) := by
  obtain ⟨base, hbase, name, names, rfl⟩ := h
  have hlast : (name :: (names ++ base)).getLast? = base.getLast? ∧ 1 ≤ base.length := by
    simp only [List.mem_cons, List.not_mem_nil, or_false] at hbase
    rw [← List.cons_append]
    rcases hbase with rfl | rfl | rfl <;> exact ⟨List.getLast?_append, le_refl _⟩
  rw [hlast.1]
  refine ⟨by simp; omega, ?_⟩
  simp only [List.mem_cons, List.not_mem_nil, or_false] at hbase
  rcases hbase with rfl | rfl | rfl
  · exact Or.inl rfl
  · exact Or.inr (Or.inl rfl)
  · exact Or.inr (Or.inr rfl)

/-- Such a call changes no node outside the branches. -/
theorem Working.outside {c : ZkCall} (h : Working c) {q : Path} (hq : ¬ Inner q) (t : Tree) :
    (ZkCall.serve c t).2.get q = t.get q := by
  cases c with
  | zooExists path => rfl
  | zooGet path => rw [IsRead.same (c := .zooGet path) trivial t]
  | zooGetChildren path => rfl
  | zooCreate path data mode =>
    obtain ⟨base, hbase, name, names, rfl⟩ := h
    rw [ZkCall.serve]
    split
    · next p t' hcreate =>
      rw [(Tree.create_ok hcreate).2.get, if_neg]
      rintro rfl
      exact hq ⟨base, hbase, _, names, rfl⟩
    · rfl
  | zooDelete path =>
    obtain ⟨base, hbase, name, names, rfl⟩ := h
    rw [ZkCall.serve]
    split
    · next t' hdelete =>
      rw [(Tree.delete_ok hdelete).get, if_neg]
      rintro rfl
      exact hq ⟨base, hbase, _, names, rfl⟩
    · rfl

section Kinds
variable {α : Type} {kind : ZkCall → Prop} {path : Path} {code : Nat}

/-- The rules below follow the text of a routine. -/
theorem only_call {c : ZkCall} (h : kind c) : Only kind (call c code) := by
  refine Keeps.bind (Only.ask h) fun r _ => ?_
  cases r with
  | ok value => exact Keeps.pure trivial
  | error e => exact Keeps.throw

theorem only_orReturn {x : Ctl α} (h : Only kind x) : Only kind (orReturn x code) := Keeps.adapt h

theorem only_createNode {mode : CreateMode} {value : Str}
    (h : ∀ data, kind (.zooCreate path data mode)) : Only kind (createNode path mode value) :=
  only_call (h _)

theorem only_deleteNode (h : kind (.zooDelete path)) : Only kind (deleteNode path) := only_call h

theorem only_deleteIf {c : Prop} [Decidable c] (h : kind (.zooDelete path)) :
    Only kind (if c then orReturn (deleteNode path) code else return ()) :=
  Keeps.ite (fun _ => only_orReturn (only_deleteNode h)) fun _ => Keeps.pure trivial

/-! ## Routines that only read -/

theorem reading_nodeExist : Only IsRead (nodeExist path) := by
  refine Keeps.bind (Only.ask trivial) fun r _ => ?_
  split <;> exact Keeps.pure trivial

theorem reading_getData : Only IsRead (getData path) := by
  refine Keeps.bind (only_call trivial) fun data _ => ?_
  cases data with
  | none => exact Keeps.throw
  | some data => exact Keeps.pure trivial

theorem reading_getNodes {isaddr : Bool} : Only IsRead (getNodes path isaddr) :=
  Keeps.bind (only_call trivial) fun _ _ => Keeps.pure trivial

theorem reading_getClusterNode {ischeck : Bool} : Only IsRead (getClusterNode path ischeck) := by
  refine Keeps.bind (only_call trivial) fun clusters _ => ?_
  refine Keeps.foldlM (fun cfgs cluster _ _ => ?_) trivial
  refine Keeps.ite (fun _ => Keeps.pure trivial) fun _ => ?_
  exact Keeps.bind (only_orReturn reading_getNodes) fun _ _ => Keeps.pure trivial

theorem reading_getConfig : Only IsRead (getConfig path) := by
  refine Keeps.bind (only_orReturn reading_getClusterNode) fun cfgs _ => ?_
  have hsingle : Only IsRead ((cfgs.toList.flatMap fun entry => entry.2.toList).foldlM addSingle ∅) :=
    Keeps.foldlM (fun _ _ _ _ => Keeps.ite (fun _ => Keeps.throw) fun _ => Keeps.pure trivial) trivial
  exact Keeps.bind hsingle fun _ _ => Keeps.pure trivial

/-! ## What a check does under the lock -/

theorem working_of_reading {x : Ctl α} (h : Only IsRead x) : Only Working x :=
  h.mono fun _ => IsRead.working

theorem working_getCheckNode {c node : Str} {rdis : StrMap} :
    Only Working (getCheckNode checkPath c rdis node) := by
  have hdelete : ∀ (name : Str) (code : Nat),
      Only Working (orReturn (deleteNode (name :: c :: checkPath)) code) :=
    fun name code => only_orReturn (only_deleteNode (inner_check name [c]))
  refine Keeps.bind (only_orReturn (working_of_reading reading_getData)) fun data _ => ?_
  refine Keeps.ite (fun _ => ?_) fun _ => ?_
  · exact Keeps.bind (hdelete _ _) fun _ _ => Keeps.pure trivial
  · split
    · refine Keeps.ite (fun _ => ?_) fun _ => ?_
      · exact Keeps.bind (hdelete _ _) fun _ _ => Keeps.pure trivial
      · exact Keeps.bind (hdelete _ _) fun _ _ => Keeps.pure trivial
    · exact Keeps.pure trivial

theorem working_getCheck : Only Working (getCheck checkPath) := by
  refine Keeps.bind (only_orReturn (working_of_reading reading_getClusterNode)) fun cls _ => ?_
  refine Keeps.foldlM (fun chks entry _ _ => ?_) trivial
  have hnodes : Only Working (entry.2.toList.foldlM (getCheckNode checkPath entry.1) ∅) :=
    Keeps.foldlM (fun _ _ _ _ => working_getCheckNode) trivial
  exact Keeps.bind hnodes fun _ _ => Keeps.pure trivial

theorem working_addBranch {missing : Bool} {branch : Path} (h : Inner branch) :
    Only Working (addBranch missing branch) := by
  refine Keeps.ite (fun _ => ?_) fun _ => Keeps.pure trivial
  exact Keeps.bind (only_orReturn (only_createNode fun _ => h)) fun _ _ => Keeps.pure trivial

theorem working_createCheck {c value : Str} : Only Working
    (orReturn (createNode (redisPrefix :: c :: checkPath) .sequence value) code) :=
  only_orReturn (only_createNode fun _ => inner_check redisPrefix [c])

theorem working_logicCheckAdd {cfgs errs : Clusters} {chks : Checks} :
    Only Working (logicCheckAdd cfgs errs chks) := by
  refine Keeps.forM fun entry _ => ?_
  refine Keeps.bind (working_addBranch (inner_error entry.1 [])) fun _ _ => ?_
  refine Keeps.bind (working_addBranch (inner_check entry.1 [])) fun _ _ => ?_
  refine Keeps.forM fun addr _ => ?_
  refine Keeps.ite (fun _ => ?_) fun _ => Keeps.pure trivial
  exact Keeps.bind working_createCheck fun _ _ => Keeps.pure trivial

theorem working_logicErrorRm {cfgs errs : Clusters} : Only Working (logicErrorRm cfgs errs) := by
  refine Keeps.forM fun entry _ => ?_
  refine Keeps.bind (Keeps.forM fun addr _ => ?_) fun _ _ => ?_
  · exact only_deleteIf (inner_error addr [entry.1])
  · exact only_deleteIf (inner_error entry.1 [])

theorem working_logicCheckRm {cfgs : Clusters} {chks : Checks} :
    Only Working (logicCheckRm cfgs chks) := by
  refine Keeps.forM fun entry _ => ?_
  refine Keeps.bind (Keeps.forM fun pair _ => ?_) fun _ _ => ?_
  · exact only_deleteIf (inner_check pair.2 [entry.1])
  · exact only_deleteIf (inner_check entry.1 [])

theorem working_checkError {cfgs : StrMap} : Only Working (checkError cfgs) := by
  refine Keeps.bind (only_orReturn (working_of_reading reading_getClusterNode)) fun errs _ => ?_
  refine Keeps.forM fun entry _ => Keeps.forM fun addr _ => ?_
  refine Keeps.ite (fun _ => ?_) fun _ => Keeps.pure trivial
  refine Keeps.bind (only_orReturn (only_deleteNode (inner_error addr [entry.1]))) fun _ _ => ?_
  exact Keeps.bind working_createCheck fun _ _ => Keeps.pure trivial

/-- A name with slashes goes further down its own branch. -/
theorem working_createSlash {text value : Str} {mode : CreateMode}
    (h : ∀ name names, Inner (name :: (names ++ path))) :
    Only Working (createNode (path.slash text) mode value) := by
  obtain ⟨name, names, hslash⟩ := Path.slash_eq path text
  rw [hslash]
  exact only_createNode fun _ => h name names

theorem working_checkCheck {cfgs : StrMap} : Only Working (checkCheck cfgs) := by
  refine Keeps.bind (only_orReturn working_getCheck) fun chks _ => ?_
  refine Keeps.forM fun entry _ => Keeps.forM fun pair _ => ?_
  refine Keeps.ite (fun _ => Keeps.pure trivial) fun _ => ?_
  refine Keeps.bind (only_orReturn (working_createSlash fun name names => ?_)) fun _ _ => ?_
  · have hinner := inner_error name (names ++ [entry.1])
    rwa [List.append_assoc] at hinner
  · exact only_orReturn (only_deleteNode (inner_check pair.2 [entry.1]))

theorem working_legalCmp {lists : Std.ExtTreeMap Str (List Str)} : Only Working (legalCmp lists) := by
  refine Keeps.bind (only_orReturn (working_of_reading reading_getNodes)) fun befRds _ => ?_
  have hlegal : Only Working (lists.toList.foldlM addLegalNode (∅ : Addrs)) :=
    Keeps.foldlM (fun _ _ _ _ => Keeps.ite (fun _ => Keeps.throw) fun _ => Keeps.pure trivial) trivial
  refine Keeps.bind hlegal fun legal _ => ?_
  refine Keeps.bind (Keeps.forM fun node _ => ?_) fun _ _ => ?_
  · exact only_orReturn (only_deleteNode (inner_legal node []))
  · refine Keeps.forM fun node _ => ?_
    exact Keeps.bind (only_orReturn (working_createSlash inner_legal)) fun _ _ => Keeps.pure trivial

theorem working_genLegalRedis {cfgs : StrMap} : Only Working (genLegalRedis cfgs) := by
  refine Keeps.bind (only_orReturn working_getCheck) fun chks _ => ?_
  refine Keeps.bind (only_orReturn (working_of_reading reading_getClusterNode)) fun errs _ => ?_
  have hlists : Only Working
      (liftM (chks.toList.foldlM (genCluster cfgs errs) ⟨∅, ∅⟩) : Ctl Legal) :=
    Keeps.liftExcept fun _ _ => trivial
  refine Keeps.bind hlists fun legal _ => ?_
  exact Keeps.bind (only_orReturn working_legalCmp) fun _ _ => Keeps.pure trivial

/-- Under the lock a check works inside the branches only. -/
theorem working_checkLocked {net : Network} : Only Working (checkLocked net) := by
  refine Keeps.bind (working_of_reading reading_getConfig) fun cfgs _ => ?_
  refine Keeps.bind (working_of_reading reading_getClusterNode) fun errs _ => ?_
  refine Keeps.bind working_getCheck fun chks _ => ?_
  refine Keeps.bind working_logicCheckAdd fun _ _ => ?_
  refine Keeps.bind working_logicErrorRm fun _ _ => ?_
  refine Keeps.bind working_logicCheckRm fun _ _ => ?_
  refine Keeps.bind working_checkError fun _ _ => ?_
  refine Keeps.bind working_checkCheck fun _ _ => ?_
  exact working_genLegalRedis

end Kinds

/-- The part of a check under the lock changes nothing outside its branches. -/
theorem locked_outside {net : Network} {t t' : Tree} {legal : Legal}
    (run : Ok ZkCall.serve (checkLocked net) t legal t') {q : Path} (hq : ¬ Inner q) :
    t'.get q = t.get q := by
  have hkeeps : ∀ c s, Working c → s.get q = t.get q → (ZkCall.serve c s).2.get q = t.get q :=
    fun c s h hs => (h.outside hq s).trans hs
  have hend := working_checkLocked.ok run hkeeps rfl
  exact hend

end RedisCluster.Guarantees
