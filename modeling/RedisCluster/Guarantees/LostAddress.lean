import RedisCluster.Guarantees.Partition

/-!
# Addresses that a check loses

Where the first of the check nodes with one address has not the least number, `get_check` deletes the
node whose name it files, and `logic_check_rm` deletes that name again. The check ends well
only if `logic_check_add` has created a node with just this name in between. The address of the new
node is then in neither tree when the check ends, though it is configured.
-/

set_option autoImplicit false

namespace RedisCluster.Guarantees
open Library Routine Source

variable {t t' s s' : Tree}

/-- Neither tree has the address. -/
structure Absent (c a : Str) (t : Tree) : Prop where
  error : a :: c :: errPath ∉ t
  check : ∀ n, ¬ HasData t (n :: c :: checkPath) a

theorem Absent.congr {c a : Str} (h : Absent c a t)
    (hget : ∀ q, (q = a :: c :: errPath ∨ ∃ n, q = n :: c :: checkPath) → t'.get q = t.get q) :
    Absent c a t' where
  error := by
    rw [Tree.mem_iff, hget _ (Or.inl rfl), ← Tree.mem_iff]
    exact h.error
  check n := by
    rw [HasData.congr (hget _ (Or.inr ⟨n, rfl⟩))]
    exact h.check n

/-- What only deletes brings no address back. -/
theorem Absent.sub {c a : Str} (h : Absent c a t)
    (sub : ∀ q node, t'.get q = some node → t.get q = some node) : Absent c a t' where
  error hmem := by
    obtain ⟨node, hget⟩ := Tree.mem_iff.mp hmem
    exact h.error (Tree.mem_of_get (sub _ node hget))
  check n hd := by
    obtain ⟨node, hget, hdata⟩ := hd
    exact h.check n ⟨node, sub _ node hget, hdata⟩

/-! ## One node for a new address -/

/-- No check node, or only one, carries the address: none before its round in
`logic_check_add`. -/
structure Sole (c a : Str) (visited : Prop) (t : Tree) : Prop where
  before : ¬ visited → ∀ n, ¬ HasData t (n :: c :: checkPath) a
  once : ∀ n m, HasData t (n :: c :: checkPath) a → HasData t (m :: c :: checkPath) a → n = m

theorem Sole.congr {c a : Str} {visited visited' : Prop} (h : Sole c a visited t)
    (sub : ∀ n, HasData t' (n :: c :: checkPath) a → HasData t (n :: c :: checkPath) a)
    (later : visited → visited') : Sole c a visited' t' where
  before hnot n hn := h.before (mt later hnot) n (sub n hn)
  once n m hn hm := h.once n m (sub n hn) (sub m hm)

/-- A round creates one node, or none. -/
theorem checkAddNode_once {tmp : Option StrMap} {tmpErr : Option Addrs} {cluster addr : Str} {u : Unit}
    (run : Ok ZkCall.serve (checkAddNode tmp tmpErr cluster addr) s u s') :
    ∃ name, ∀ p data, HasData s' p data → HasData s p data ∨
      p = name :: cluster :: checkPath ∧ data = addr := by
  unfold checkAddNode at run
  split at run
  · obtain ⟨q, hcreate⟩ := create_unit.mp run
    obtain ⟨_, hcreated⟩ := Tree.create_ok hcreate
    refine ⟨s.createdName redisPrefix (cluster :: checkPath) .sequence, fun p data hp => ?_⟩
    obtain ⟨node, hget, hdata⟩ := hp
    rcases (Grown.of_created hcreated).origin p node hget with hold | ⟨hp, hnode⟩
    · exact Or.inl ⟨node, hold, hdata⟩
    · refine Or.inr ⟨hp, ?_⟩
      rw [hnode, dataOf] at hdata
      dsimp only at hdata
      split at hdata
      · cases hdata
      · exact (Option.some.inj hdata).symm
  · obtain ⟨_, rfl⟩ := ok_pure.mp run
    exact ⟨[], fun p data hp => Or.inl hp⟩

/-- The addresses of one cluster are gone through once, so the name is given out once. -/
theorem checkAddNodes_once {tmp : Option StrMap} {tmpErr : Option Addrs} {cluster c a : Str}
    {addrs : Addrs} {u : Unit} {visited : Prop} (h : Sole c a visited s)
    (new : cluster = c → ¬ visited)
    (run : Ok ZkCall.serve (addrs.toList.forM (checkAddNode tmp tmpErr cluster)) s u s') :
    Sole c a (visited ∨ cluster = c) s' := by
  have hloop : Sole c a (visited ∨ cluster = c ∧ a ∈ addrs.toList) s' := by
    refine run.forM (fun seen s => Sole c a (visited ∨ cluster = c ∧ a ∈ seen) s)
      (by simpa using h) ?_
    intro seen addr rest hsplit s₁ s₂ hrun hsole
    obtain ⟨name, hnew⟩ := checkAddNode_once hrun
    by_cases hround : cluster = c ∧ addr = a
    · obtain ⟨rfl, rfl⟩ := hround
      have hfirst : addr ∉ seen := by
        have hnodup := Ordered.nodup_toList addrs
        rw [hsplit, List.nodup_append] at hnodup
        exact fun hmem => hnodup.2.2 addr hmem addr (by simp) rfl
      have hnone := hsole.before fun h => h.elim (new rfl) fun h => hfirst h.2
      have hname : ∀ n, HasData s₂ (n :: cluster :: checkPath) addr → n = name :=
        fun n hn => (List.cons.inj ((hnew _ _ hn).resolve_left (hnone n)).1).1
      refine ⟨fun hnot => absurd (Or.inr ⟨rfl, by simp⟩) hnot, fun n m hn hm => ?_⟩
      rw [hname n hn, hname m hm]
    · refine hsole.congr (fun n hn => (hnew _ _ hn).resolve_right ?_) fun h =>
        h.imp_right fun hseen => ⟨hseen.1, List.mem_append_left _ hseen.2⟩
      rintro ⟨hq, ha⟩
      obtain ⟨_, hc⟩ : n = name ∧ c = cluster := by simpa using hq
      exact hround ⟨hc.symm, ha.symm⟩
  exact hloop.congr (fun _ hn => hn) (Or.imp_right And.left)

/-- `logic_check_add` creates one node at most for an address that no check node carries. -/
theorem logicCheckAdd_once {cfgs errs : Clusters} {chks : Checks} {c a : Str} {u : Unit}
    (none : ∀ n, ¬ HasData t (n :: c :: checkPath) a)
    (run : Ok ZkCall.serve (logicCheckAdd cfgs errs chks) t u t') {n m : Str}
    (hn : HasData t' (n :: c :: checkPath) a) (hm : HasData t' (m :: c :: checkPath) a) : n = m := by
  have hend : Sole c a (c ∈ cfgs.toList.map Prod.fst) t' := by
    unfold logicCheckAdd at run
    refine run.forM (fun seen s => Sole c a (c ∈ seen.map Prod.fst) s)
      ⟨fun _ => none, fun n _ hn => absurd hn (none n)⟩ ?_
    rintro seen ⟨cluster, addrs⟩ rest hsplit s₁ s₂ hrun hsole
    unfold checkAddCluster at hrun
    obtain ⟨_, s₃, herror, hrun⟩ := ok_bind.mp hrun
    obtain ⟨_, s₄, hcheck, hnodes⟩ := ok_bind.mp hrun
    have branch : ∀ {missing : Bool} {tree : Path} {s s' : Tree},
        Ok ZkCall.serve (addBranch missing (cluster :: tree)) s ⟨⟩ s' →
          ∀ p data, HasData s' p data → HasData s p data := by
      intro missing tree s s' hadd p data hp
      unfold addBranch at hadd
      split at hadd
      · obtain ⟨q, hcreate⟩ := create_unit.mp hadd
        obtain ⟨_, hcreated⟩ := Tree.create_ok hcreate
        obtain ⟨node, hget, hdata⟩ := hp
        rcases (Grown.of_created hcreated).origin p node hget with hold | ⟨_, rfl⟩
        · exact ⟨node, hold, hdata⟩
        · cases hdata
      · obtain ⟨_, rfl⟩ := ok_pure.mp hadd
        exact hp
    have hbranches : Sole c a (c ∈ seen.map Prod.fst) s₄ :=
      hsole.congr (fun n hn => branch herror _ _ (branch hcheck _ _ hn)) id
    have hfirst : cluster = c → c ∉ seen.map Prod.fst := by
      rintro rfl
      exact (Ordered.visiting hsplit).2
    refine (checkAddNodes_once hbranches hfirst hnodes).congr (fun _ hn => hn) fun h => ?_
    rw [List.map_append, List.mem_append]
    exact h.imp_right fun heq => by simp [heq]
  exact hend.once n m hn hm

/-! ## What is absent stays so -/

/-- `check_error` brings back only what is in error. -/
theorem absent_repaired {cfgs : StrMap} {c a : Str} {u : Unit} (h : Absent c a t)
    (run : Ok ZkCall.serve (checkError cfgs) t u t') : Absent c a t' := by
  have hrepaired := checkError_ok run
  constructor
  · intro hmem
    obtain ⟨node, hget⟩ := Tree.mem_iff.mp hmem
    rcases hrepaired.edited.origin _ _ hget with ⟨hold, _⟩ | ⟨_, _, _, ⟨_, hq⟩, _⟩
    · exact h.error (Tree.mem_of_get hold)
    · simp [errPath, checkPath] at hq
  · rintro n ⟨node, hget, hdata⟩
    rcases hrepaired.edited.origin _ _ hget with ⟨hold, _⟩ | ⟨c', a', hback, ⟨_, hq⟩, hnode⟩
    · exact h.check n ⟨node, hold, hdata⟩
    · obtain ⟨_, rfl⟩ : n = _ ∧ c = c' := by simpa using hq
      rw [hnode, dataOf] at hdata
      dsimp only at hdata
      split at hdata
      · cases hdata
      · obtain rfl := Option.some.inj hdata
        exact h.error hback.1

/-- Whatever is written in a check node, `check_check` moves it to a node of that name. -/
theorem absent_failed {cfgs : StrMap} {c a : Str} {u : Unit} (h : Absent c a t)
    (run : Ok ZkCall.serve (checkCheck cfgs) t u t') : Absent c a t' := by
  unfold checkCheck at run
  obtain ⟨chks, s, hread, hloop⟩ := ok_bind.mp run
  obtain ⟨_, hread⟩ := getCheck_ok (orReturn_ok.mp hread)
  refine hloop.forM (fun _ s => Absent c a s) (h.sub fun _ _ hget => hread.sub hget) ?_
  rintro visited ⟨cluster, rdis⟩ rest hsplit s₁ s₂ hcluster habsent
  refine hcluster.forM (fun _ s => Absent c a s) habsent ?_
  rintro visited' ⟨addr, node⟩ rest' hsplit' s₃ s₄ hrun habsent
  have hother : ¬ (cluster = c ∧ addr = a) := by
    rintro ⟨rfl, rfl⟩
    have hrdis := (Ordered.visiting hsplit).1
    have hentry := (Ordered.visiting hsplit').1
    exact h.check node ((hread.clusters cluster rdis hrdis).names addr node hentry).2.2
  unfold checkCheckNode at hrun
  split at hrun
  · obtain ⟨_, rfl⟩ := ok_pure.mp hrun
    exact habsent
  · obtain ⟨q, s₅, hcreate, hdelete⟩ := ok_bind.mp hrun
    have hcreate := createNode_ok.mp (orReturn_ok.mp hcreate)
    have hdeleted := Tree.delete_ok (deleteNode_ok.mp (orReturn_ok.mp hdelete))
    obtain ⟨name, names, hslash⟩ := Path.slash_eq (cluster :: errPath) addr
    have hpath : ∀ q, q = name :: (names ++ cluster :: errPath) →
        q ≠ a :: c :: errPath ∧ ∀ n, q ≠ n :: c :: checkPath := by
      rintro q rfl
      refine ⟨fun heq => hother ?_, fun n heq => ?_⟩
      · obtain ⟨rfl, hnames⟩ := List.cons.inj heq
        have hlength := congrArg List.length hnames
        have hnil : names = [] := by
          rw [← List.length_eq_zero_iff]
          simpa [errPath] using hlength
        subst hnil
        obtain ⟨rfl, _⟩ := List.cons.inj hnames
        exact ⟨rfl, Path.slash_child hslash⟩
      · have hlast := congrArg List.getLast? heq
        rw [List.getLast?_cons_of_ne_nil (by simp), List.getLast?_append_of_ne_nil _ (by simp)] at hlast
        simp [errPath, checkPath] at hlast
    rw [hslash] at hcreate
    obtain ⟨_, hcreated⟩ := Tree.create_ok hcreate
    have hname : s₃.createdName name (names ++ cluster :: errPath) .persistent = name := rfl
    refine (habsent.congr fun q hq => ?_).sub fun q node hget => hdeleted.pruned.sub_get hget
    rw [hcreated.get, hname, if_neg]
    intro heq
    obtain ⟨herror, hcheck⟩ := hpath q heq
    rcases hq with rfl | ⟨n, rfl⟩
    · exact herror rfl
    · exact hcheck n rfl

/-- `gen_legal_redis` creates no check node. -/
theorem absent_published {cfgs : StrMap} {legal : Legal} {c a : Str} (h : Absent c a t)
    (run : Ok ZkCall.serve (genLegalRedis cfgs) t legal t') : Absent c a t' := by
  obtain ⟨_, _, s, hread, _, _, hpublished⟩ := (genLegalRedis_ok run).steps
  have habsent : Absent c a s := h.sub fun _ _ hget => hread.sub hget
  refine habsent.congr fun q hq => (hpublished.same q (not_in_branch ?_)).1
  rcases hq with rfl | ⟨n, rfl⟩
  · simp [errPath]
  · simp [checkPath]

/-! ## The lost address -/

section Cleaning
variable {start : Tree} (run : CleanedRun start)

/-- A new address whose only node `logic_check_rm` deletes is in neither tree. -/
theorem deleted_absent {c a k : Str} (new : isNew run.chks[c]? run.errs[c]? a)
    (node : HasData run.grown (k :: c :: checkPath) a) (gone : k :: c :: checkPath ∉ run.cleaned) :
    Absent c a run.cleaned := by
  rw [isNew, Bool.and_eq_true] at new
  have sub : ∀ q z, run.cleaned.get q = some z → run.grown.get q = some z := fun q z hget =>
    (logicErrorRm_ok run.errorRm).sub_get ((logicCheckRm_ok run.checkRm).sub_get hget)
  have none : ∀ n, ¬ HasData run.read (n :: c :: checkPath) a := by
    rintro n ⟨z, hget, hdata⟩
    obtain ⟨hstart, hsurvive⟩ := run.checks.survives (Tree.mem_of_get hget)
    obtain ⟨rdis, hrdis⟩ :=
      Ordered.mem_iff_getElem?.mp ((run.checks.keys c).mpr (Tree.mem_parent hstart))
    have hentry := (run.checks.clusters c rdis hrdis).covers n a hstart hsurvive.1
      ⟨z, run.checks.sub hget, hdata⟩
    rw [hrdis] at new
    simp [hentry] at new
  constructor
  · intro hmem
    obtain ⟨z, hget⟩ := Tree.mem_iff.mp hmem
    have hstart := grown_error run (Tree.mem_of_get (sub _ z hget))
    have herrs : run.errs[c]? = some (nodesOf start (c :: errPath) false) := by
      rw [run.errors]
      exact clusterEntry_some.mpr ⟨Tree.mem_parent hstart, by simp, rfl⟩
    have hnode : a ∈ nodesOf start (c :: errPath) false := mem_nodesOf.mpr ⟨hstart, by simp⟩
    rw [herrs] at new
    simp [hnode] at new
  · rintro n ⟨z, hget, hdata⟩
    obtain rfl := logicCheckAdd_once none run.add ⟨z, sub _ z hget, hdata⟩ node
    exact gone (Tree.mem_of_get hget)

/-- Where what is filed is not what is left, some configured address is lost. -/
theorem loses_address (unfiled : ¬ Filed run.cfgs start) :
    ∃ c addrs a, run.cfgs[c]? = some addrs ∧ a ∈ addrs ∧ Absent c a run.cleaned := by
  simp only [Filed, not_forall, not_le] at unfiled
  obtain ⟨c, d, hnot, m, n, hsurvive, hidx, hmd, hnd, hless⟩ := unfiled
  obtain ⟨rdis, hrdis⟩ :=
    Ordered.mem_iff_getElem?.mp ((run.checks.keys c).mpr (Tree.mem_parent hmd.mem))
  have hcluster := run.checks.clusters c rdis hrdis
  obtain ⟨k, hk⟩ := Ordered.mem_iff_getElem?.mp (hcluster.covers n d hnd.mem hidx hnd)
  have hleast := (hcluster.least d k n hk hnd.mem hidx hnd).1
  have hgone : ¬ Survives start (c :: checkPath) k := by
    intro hks
    obtain rfl := hsurvive.unique hks hmd (hcluster.names d k hk).2.2
    omega
  obtain ⟨j, addrs, a, rfl, _, hc, ha, hnew, hnode⟩ := reused_name run hrdis hk hnot hgone
  refine ⟨c, addrs, a, hc, ha, deleted_absent run hnew hnode ?_⟩
  exact (logicCheckRm_ok run.checkRm).gone _ ⟨c, rdis, hrdis, Or.inl ⟨d, _, hk, hnot, rfl⟩⟩

end Cleaning

/-- A check that ends well although the least number is not the first name leaves a configured
address in neither tree. -/
theorem check_loses {zkh : Option Nat} {net : Network} {legal : Legal}
    (success : Ok ZkCall.serve (check zkh net) t legal t') (unfiled : ¬ Filed (configured t) t) :
    ∃ c addrs a, (configured t)[c]? = some addrs ∧ a ∈ addrs ∧ Absent c a t' := by
  obtain ⟨s, s', hprepared, hlocked, hsame⟩ := check_ok success
  obtain ⟨run⟩ := checkLocked_ok hlocked
  have hcfgs : run.cfgs = configured t :=
    ConfigOf.unique run.config (config_same hprepared.same (configOf_configured t))
  have hunfiled : ¬ Filed run.cfgs s := fun filed =>
    unfiled (hcfgs ▸ filedBelow hprepared.same.symm filed)
  obtain ⟨c, addrs, a, hc, ha, habsent⟩ := loses_address run.toCleanedRun hunfiled
  refine ⟨c, addrs, a, hcfgs ▸ hc, ha, ?_⟩
  have hfinish := absent_published (absent_failed (absent_repaired habsent run.repair) run.fail) run.publish
  refine hfinish.congr fun q hq => hsame.get q ?_
  rcases hq with rfl | ⟨n, rfl⟩ <;>
    exact below_cons (by simp) (by simp [checkPath, errPath, lockPath])

end RedisCluster.Guarantees
