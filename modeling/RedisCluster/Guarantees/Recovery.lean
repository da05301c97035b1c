import RedisCluster.Guarantees.Completion
import RedisCluster.Guarantees.Publication

/-!
# Checks after interrupted checks

An address moves between check and error in two calls. A check that is cut off between the two of
`check_error` leaves the address in neither tree, and `logic_check_add` puts it back. One that is
cut off between the two of `check_check` leaves it in both, and while the address does not answer
every later check stops at the same create.

The trees are those that interrupted checks, expiring sessions and edits of the configuration reach
from nothing. Nodes that somebody else put under `check` or `error` are not among them.
-/

set_option autoImplicit false

namespace RedisCluster.Guarantees
open Library Routine ZkCall Source

variable {net : Network} {t t' : Tree}

/-- What checks leave that may be cut off anywhere and whose calls may fail, with lost
sessions and changes of the configuration between them. -/
inductive Reach : Tree → Prop
  | start : Reach Tree.empty
  | check {t t' : Tree} (before : Reach t) (zkh : Option Nat) (net : Network)
      (stopped : Program.Stops Faulty (check zkh net).run t t') : Reach t'
  | expire {t : Tree} (before : Reach t) (session : Nat) : Reach (t.expire session)
  | configure {t t' : Tree} (before : Reach t) (change : Reconfigured t t') : Reach t'

theorem reach_tended (h : Reach t) : Tended t := by
  induction h with
  | start => exact tended_empty
  | check before zkh net stopped ih => exact tends_check.stops ih stopped
  | expire before session ih => exact ih.expire session
  | configure before change ih => exact ih.reconfigured change

/-- Every address of the configuration that is both under check and in error answers. -/
def Unstuck (t : Tree) (cfgs : Clusters) (answers : StrMap) : Prop :=
  ∀ (c : Str) (addrs : Addrs), cfgs[c]? = some addrs → ∀ a ∈ addrs, a :: c :: errPath ∈ t →
    (∃ n, HasData t (n :: c :: checkPath) a) → a ∈ answers

/-- Every cluster has an address. -/
def Populated (cfgs : Clusters) : Prop :=
  ∀ (c : Str) (addrs : Addrs), cfgs[c]? = some addrs → ∃ a, a ∈ addrs

/-- The sequence numbers of every cluster last for one more check. -/
def Room (t : Tree) (cfgs : Clusters) : Prop :=
  ∀ (c : Str) (addrs : Addrs), cfgs[c]? = some addrs →
    t.counter (c :: checkPath) + 2 * addrs.size ≤ 10 ^ 10

/-! ## The cleaning passes one after the other -/

/-- What `check` has read before its first pass. -/
structure Reads (t : Tree) (cfgs errs : Clusters) (chks : Checks) (read : Tree) : Prop where
  tended : Tended t
  config : ConfigOf t cfgs
  errors : ∀ c, errs[c]? = clusterEntry t errPath false c
  checks : Ok serve (getCheck checkPath) t chks read

section Cleaning
variable {cfgs errs : Clusters} {chks : Checks} {read grown errored : Tree}

theorem Reads.read_tended (h : Reads t cfgs errs chks read) : Tended read :=
  (tended_ok tends_getCheck h.checks h.tended).1

/-- What was read before the passes has changed check nodes only. -/
theorem Reads.outside (h : Reads t cfgs errs chks read) {q : Path}
    (hq : ∀ n c, q ≠ n :: c :: checkPath) : read.get q = t.get q ∧ read.counter q = t.counter q :=
  (getCheck_ok h.checks).2.outside hq

theorem Reads.mem_iff (h : Reads t cfgs errs chks read) {q : Path}
    (hq : ∀ n c, q ≠ n :: c :: checkPath) : q ∈ read ↔ q ∈ t :=
  (getCheck_ok h.checks).2.mem_outside hq

theorem Reads.valid (h : Reads t cfgs errs chks read) : ValidClusters cfgs :=
  fun _ _ hc _ ha => config_name h.config hc ha

theorem Reads.name (h : Reads t cfgs errs chks read) : ∀ c ∈ cfgs, ValidName c := by
  intro c hc
  obtain ⟨addrs, haddrs⟩ := Ordered.mem_iff_getElem?.mp hc
  rw [h.config] at haddrs
  exact Tree.validName_of_mem (clusterEntry_some.mp haddrs).1

theorem Reads.branch_iff (h : Reads t cfgs errs chks read) (c : Str) :
    c ∈ chks ↔ c :: checkPath ∈ read :=
  ((getCheck_ok h.checks).2.keys c).trans (h.mem_iff fun _ _ heq => by simp at heq).symm

/-- `logic_check_add` ends well, and leaves numbers for the addresses that will come back from
error. -/
theorem Reads.add_runs (h : Reads t cfgs errs chks read) (base : ∀ q ∈ basePaths, q ∈ t)
    (room : Room t cfgs) :
    ∃ grown, Ok serve (logicCheckAdd cfgs errs chks) read () grown ∧
      ∀ (c : Str) (addrs : Addrs), cfgs[c]? = some addrs →
        grown.counter (c :: checkPath) + addrs.size ≤ 10 ^ 10 := by
  have herr : errPath ∈ read := (h.mem_iff fun _ _ heq => by simp [errPath] at heq).mpr
    (base errPath (by simp [basePaths]))
  have hcheck : checkPath ∈ read := (h.mem_iff fun _ _ heq => by simp [checkPath] at heq).mpr
    (base checkPath (by simp [basePaths]))
  have hcounter : ∀ c, read.counter (c :: checkPath) = t.counter (c :: checkPath) := fun c =>
    (h.outside fun _ _ heq => by simp at heq).2
  have newError : ∀ c : Str, errs[c]? = none → c :: errPath ∉ read := by
    intro c hnone hmem
    rw [h.mem_iff fun _ _ heq => by simp [errPath, checkPath] at heq] at hmem
    rw [h.errors, clusterEntry, if_pos ⟨hmem, by simp⟩] at hnone
    cases hnone
  have newCheck : ∀ c : Str, chks[c]? = none ↔ c :: checkPath ∉ read := fun c => by
    rw [← Ordered.not_mem_iff_getElem?, h.branch_iff]
  obtain ⟨grown, hadd, hgrown⟩ := logicCheckAdd_runs h.read_tended h.valid h.name herr hcheck
    newError newCheck fun c addrs hc => by
      have hroom := room c addrs hc
      rw [hcounter]
      omega
  refine ⟨grown, hadd, fun c addrs hc => ?_⟩
  have hroom := room c addrs hc
  have hless := hgrown c addrs hc
  rw [hcounter] at hless
  omega

/-- `logic_error_rm` ends well after it: what it deletes was there when it was read. -/
theorem Reads.errorRm_runs (h : Reads t cfgs errs chks read)
    (add : Ok serve (logicCheckAdd cfgs errs chks) read () grown) :
    ∃ errored, Ok serve (logicErrorRm cfgs errs) grown () errored := by
  have hadded := (logicCheckAdd_ok add).grown
  refine logicErrorRm_runs (tended_ok (tends_logicCheckAdd h.valid) add h.read_tended).1 ?_
  intro c nodes hget
  rw [h.errors] at hget
  obtain ⟨hbranch, _, rfl⟩ := clusterEntry_some.mp hget
  have hold : ∀ q, (∀ n c, q ≠ n :: c :: checkPath) → q ∈ t → q ∈ grown := fun q hq hmem =>
    hadded.mem ((h.mem_iff hq).mpr hmem)
  refine ⟨hold _ (fun _ _ heq => by simp [errPath, checkPath] at heq) hbranch, fun a => ?_⟩
  rw [mem_nodesOf]
  constructor
  · exact fun ha => hold _ (fun _ _ heq => by simp [errPath, checkPath] at heq) ha.1
  · intro ha
    obtain ⟨node, hnode⟩ := Tree.mem_iff.mp ha
    rcases hadded.origin _ _ hnode with hread | ⟨_, _, _, hmade⟩
    · refine ⟨(h.mem_iff fun _ _ heq => ?_).mp (Tree.mem_of_get hread), by simp⟩
      simp [errPath, checkPath] at heq
    · rcases hmade with ⟨_, hq, _⟩ | ⟨_, hq, _⟩ | ⟨_, _, ⟨_, hq⟩, _⟩ <;>
        simp [errPath, checkPath] at hq

/-- `logic_check_rm` ends well too, as the passes before do not delete check nodes. -/
theorem Reads.checkRm_runs (h : Reads t cfgs errs chks read)
    (add : Ok serve (logicCheckAdd cfgs errs chks) read () grown)
    (errorRm : Ok serve (logicErrorRm cfgs errs) grown () errored) :
    ∃ cleaned, Ok serve (logicCheckRm cfgs chks) errored () cleaned := by
  have hadded := (logicCheckAdd_ok add).grown
  have hpruned := logicErrorRm_ok errorRm
  have htgrown := (tended_ok (tends_logicCheckAdd h.valid) add h.read_tended).1
  have hkept : ∀ n c, ∀ q : Path, q = c :: checkPath ∨ q = n :: c :: checkPath →
      ¬ ∃ cluster nodes, errs[cluster]? = some nodes ∧ ErrorRemoved cfgs cluster nodes q := by
    intro n c q hq hremoved
    obtain ⟨_, _, _, ⟨_, _, _, heq⟩ | ⟨_, heq⟩⟩ := hremoved <;>
      rcases hq with rfl | rfl <;> simp [errPath, checkPath] at heq
  refine logicCheckRm_runs (tended_ok tends_logicErrorRm errorRm htgrown).1 ?_ ?_
  · intro c rdis hget
    have hbranch := (h.branch_iff c).mp (Ordered.mem_iff_getElem?.mpr ⟨rdis, hget⟩)
    refine ⟨hpruned.stays (hadded.mem hbranch) (hkept c c _ (Or.inl rfl)), fun a n hn => ?_⟩
    have hread := (read_named h.tended.names (getCheck_ok h.checks).2 hget a n).mp hn
    exact (Edited.of_pruned hpruned).hasData (hadded.hasData hread) (hkept n c _ (Or.inr rfl))
  · intro c rdis hget hnone n hmem
    obtain ⟨node, hnode⟩ := Tree.mem_iff.mp (hpruned.sub hmem)
    rcases hadded.origin _ _ hnode with hread | ⟨d, addrs, hd, hmade⟩
    · obtain ⟨a, ha, _⟩ := h.read_tended.data n c (Tree.mem_of_get hread)
      exact ⟨a, (read_named h.tended.names (getCheck_ok h.checks).2 hget a n).mpr ha⟩
    · rcases hmade with ⟨_, hq, _⟩ | ⟨_, hq, _⟩ | ⟨_, _, ⟨_, hq⟩, _⟩
      · simp [errPath, checkPath] at hq
      · simp at hq
      · cases hq
        rw [hd] at hnone
        cases hnone

end Cleaning

section Cleaned
variable (run : CleanedRun t)

theorem base_cleaned {name : Str} (h : [name] ∈ t) : [name] ∈ run.cleaned := by
  have hread : [name] ∈ run.read := (run.checks.mem_outside fun _ _ heq => by simp at heq).mpr h
  have hgrown := (logicCheckAdd_ok run.add).grown.mem hread
  refine (logicCheckRm_ok run.checkRm).stays ((logicErrorRm_ok run.errorRm).stays hgrown ?_) ?_
  · rintro ⟨_, _, _, ⟨_, _, _, hq⟩ | ⟨_, hq⟩⟩ <;> simp [errPath] at hq
  · rintro ⟨_, _, _, ⟨_, _, _, _, hq⟩ | ⟨_, hq⟩⟩ <;> simp [checkPath] at hq

/-- The removals give out no numbers. -/
theorem counter_cleaned {c : Str} (hc : c ∈ run.cfgs) :
    run.cleaned.counter (c :: checkPath) = run.grown.counter (c :: checkPath) := by
  have herrored : run.errored.counter (c :: checkPath) = run.grown.counter (c :: checkPath) := by
    refine ((logicErrorRm_ok run.errorRm).kept _ ?_).2
    rintro ⟨_, _, _, ⟨_, _, _, hq⟩ | ⟨_, hq⟩⟩ <;> simp [errPath, checkPath] at hq
  have hcleaned : run.cleaned.counter (c :: checkPath) = run.errored.counter (c :: checkPath) := by
    refine ((logicCheckRm_ok run.checkRm).kept _ ?_).2
    rintro ⟨_, _, _, ⟨_, _, _, _, hq⟩ | ⟨hnone, hq⟩⟩
    · simp at hq
    · cases hq
      exact Ordered.not_mem_iff_getElem?.mpr hnone hc
  exact hcleaned.trans herrored

/-- The sequence numbers last for every address that may be moved back from error. -/
theorem errors_fit (reconciled : Reconciled run.cfgs run.cleaned)
    (room : ∀ (c : Str) (addrs : Addrs), run.cfgs[c]? = some addrs →
      run.grown.counter (c :: checkPath) + addrs.size ≤ 10 ^ 10) {c : Str}
    (hc : c :: errPath ∈ run.cleaned) :
    run.cleaned.counter (c :: checkPath) + (nodesOf run.cleaned (c :: errPath) false).size ≤ 10 ^ 10 := by
  have hmem := (reconciled.errorClusters c).mp hc
  obtain ⟨addrs, haddrs⟩ := Ordered.mem_iff_getElem?.mp hmem
  have hsize : (nodesOf run.cleaned (c :: errPath) false).size ≤ addrs.size := by
    refine Ordered.size_le_of_subset fun a ha => ?_
    obtain ⟨addrs', haddrs', ha'⟩ := reconciled.errors c a (mem_nodesOf.mp ha).1
    rw [haddrs] at haddrs'
    cases haddrs'
    exact ha'
  have hcounter := counter_cleaned run hmem
  have hroom := room c addrs haddrs
  omega

/-- The cleaning passes put no address into both trees. -/
theorem stuck_from_start {c n a : Str} (herr : a :: c :: errPath ∈ run.cleaned)
    (hdata : HasData run.cleaned (n :: c :: checkPath) a) :
    a :: c :: errPath ∈ t ∧ ∃ n, HasData t (n :: c :: checkPath) a := by
  have hpruned := logicErrorRm_ok run.errorRm
  have hpruned' := logicCheckRm_ok run.checkRm
  have hstart := grown_error run (hpruned.sub (hpruned'.sub herr))
  obtain ⟨node, hget, hd⟩ := hdata
  refine ⟨hstart, n, ?_⟩
  rcases (logicCheckAdd_ok run.add).grown.origin _ _ (hpruned.sub_get (hpruned'.sub_get hget)) with
    hread | ⟨d, addrs, _, hmade⟩
  · exact ⟨node, run.checks.sub hread, hd⟩
  · rcases hmade with ⟨_, hq, _⟩ | ⟨_, hq, _⟩ | ⟨b, ⟨_, hnew⟩, ⟨_, hq⟩, rfl⟩
    · simp [errPath, checkPath] at hq
    · simp at hq
    · cases hq
      have hb : b = a := by
        dsimp only [dataOf] at hd
        split at hd
        · cases hd
        · exact Option.some.inj hd
      have herrs : run.errs[c]? = some (nodesOf t (c :: errPath) false) := by
        rw [run.errors]
        exact clusterEntry_some.mpr ⟨Tree.mem_parent hstart, by simp, rfl⟩
      have hmem : a ∈ nodesOf t (c :: errPath) false := mem_nodesOf.mpr ⟨hstart, by simp⟩
      rw [hb, isNew, herrs] at hnew
      simp [hmem] at hnew

end Cleaned

/-- Nor does `check_error`, which takes care of those that answer. -/
theorem stuck_from_cleaned {answers : StrMap} {cleaned repaired : Tree}
    (h : ErrorsRepaired (Repaired cleaned answers) cleaned repaired) {c n a : Str}
    (sick : a ∉ answers) (herr : a :: c :: errPath ∈ repaired)
    (hdata : HasData repaired (n :: c :: checkPath) a) :
    a :: c :: errPath ∈ cleaned ∧ HasData cleaned (n :: c :: checkPath) a := by
  constructor
  · obtain ⟨node, hget⟩ := Tree.mem_iff.mp herr
    rcases h.edited.origin _ _ hget with ⟨hold, _⟩ | ⟨_, _, _, ⟨_, hq⟩, _⟩
    · exact Tree.mem_of_get hold
    · simp [errPath, checkPath] at hq
  · obtain ⟨node, hget, hd⟩ := hdata
    rcases h.edited.origin _ _ hget with ⟨hold, _⟩ | ⟨_, b, hrepaired, ⟨_, hq⟩, rfl⟩
    · exact ⟨node, hold, hd⟩
    · dsimp only [dataOf] at hd
      split at hd
      · cases hd
      · cases hd
        exact absurd hrepaired.2 sick

/-- Where no address is stuck at the start, one that is to be moved to error is not there. -/
theorem unstuck_free (run : CleanedRun t) {answers : StrMap} (unstuck : Unstuck t run.cfgs answers)
    (reconciled : Reconciled run.cfgs run.cleaned) {repaired : Tree}
    (repairs : ErrorsRepaired (Repaired run.cleaned answers) run.cleaned repaired) {c n a : Str}
    (hdata : HasData repaired (n :: c :: checkPath) a) (sick : a ∉ answers) :
    a :: c :: errPath ∉ repaired := by
  intro herr
  obtain ⟨herr', hcleaned⟩ := stuck_from_cleaned repairs sick herr hdata
  obtain ⟨addrs, hc, ha⟩ := reconciled.errors c a herr'
  obtain ⟨hstart, hchecked⟩ := stuck_from_start run herr' hcleaned
  exact sick (unstuck c addrs hc a ha hstart hchecked)

/-- Base nodes stay through the moves. -/
theorem base_failed {repaired s failed : Tree} {chks : Checks} {answers : StrMap}
    (hread : CheckRead repaired checkPath (fun c => c :: checkPath ∈ repaired) chks s)
    (hset : ErrorsSet (Failed chks answers) s failed)
    (base : ∀ name, [name] ∈ basePaths → [name] ∈ repaired) : ∀ q ∈ basePaths, q ∈ failed := by
  intro q hq
  obtain ⟨name, rfl⟩ : ∃ name, q = [name] := by
    simp only [basePaths, List.mem_cons, List.not_mem_nil, or_false] at hq
    rcases hq with rfl | rfl | rfl | rfl | rfl <;> exact ⟨_, rfl⟩
  have hread' := (hread.mem_outside fun _ _ heq => by simp at heq).mpr (base name hq)
  exact hset.edited.mem hread' (by simp [checkPath])

/-! ## The whole check -/

/-- The passes of a check one after the other. Only `check_check` needs a condition on the answers.
-/
theorem checkLocked_runs (ht : Tended t) (base : ∀ q ∈ basePaths, q ∈ t) {cfgs : Clusters}
    (config : ConfigOf t cfgs) (single : SingleHome cfgs) (populated : Populated cfgs)
    (room : Room t cfgs) (unstuck : Unstuck t cfgs (answers net cfgs)) :
    ∃ legal t', Ok serve (checkLocked net) t legal t' := by
  have hconfig : Ok serve (getConfig cfgPath) t cfgs t :=
    getConfig_ok.mpr ⟨base cfgPath (by simp [basePaths]), rfl, config, single⟩
  obtain ⟨errs, herrs⟩ := getClusterNode_runs false (base errPath (by simp [basePaths]))
  obtain ⟨chks, read, hread⟩ := getCheck_runs ht (base checkPath (by simp [basePaths]))
  have hreads : Reads t cfgs errs chks read := ⟨ht, config, (getClusterNode_ok.mp herrs).2.2, hread⟩
  obtain ⟨grown, hadd, hroom⟩ := hreads.add_runs base room
  obtain ⟨errored, herrorRm⟩ := hreads.errorRm_runs hadd
  obtain ⟨cleaned, hcheckRm⟩ := hreads.checkRm_runs hadd herrorRm
  let run : CleanedRun t := ⟨cfgs, errs, chks, read, grown, errored, cleaned, config, single,
    hreads.errors, (getCheck_ok hread).2, hadd, herrorRm, hcheckRm⟩
  have htcleaned : Tended cleaned := by
    have htgrown := (tended_ok (tends_logicCheckAdd hreads.valid) hadd hreads.read_tended).1
    exact (tended_ok tends_logicCheckRm hcheckRm (tended_ok tends_logicErrorRm herrorRm htgrown).1).1
  have hreconciled : Reconciled cfgs cleaned := reconciled run (filed_of_fresh run ht.names.fresh)
  have hbase : ∀ name, [name] ∈ basePaths → [name] ∈ cleaned := fun name h =>
    base_cleaned run (base [name] h)
  obtain ⟨repaired, hrepair⟩ := checkError_runs (answers net cfgs) htcleaned
    (hbase _ (by simp [basePaths, errPath]))
    (fun c hc => (hreconciled.checkClusters c).mpr ((hreconciled.errorClusters c).mp hc))
    fun _ hc => errors_fit run hreconciled hroom hc
  have htrepaired := (tended_ok tends_checkError hrepair htcleaned).1
  have hedited := (checkError_ok hrepair).edited
  obtain ⟨hreconciled', hquiet⟩ := hreconciled.repair
    (fun _ _ hc _ ha => config_name config hc ha) (checkError_ok hrepair)
  have hfree : ∀ c n a, HasData repaired (n :: c :: checkPath) a → a ∉ answers net cfgs →
      a :: c :: errPath ∉ repaired :=
    fun _ _ _ hdata sick => unstuck_free run unstuck hreconciled (checkError_ok hrepair) hdata sick
  have hbase' : ∀ name, [name] ∈ basePaths → [name] ∈ repaired := fun name h =>
    hedited.mem (hbase name h) (by simp [errPath])
  obtain ⟨failed, hfail⟩ := checkCheck_runs (answers net cfgs) htrepaired
    (hbase' _ (by simp [basePaths, checkPath]))
    (fun c hc => (hreconciled'.errorClusters c).mpr ((hreconciled'.checkClusters c).mp hc)) hfree
  have htfailed := (tended_ok tends_checkCheck hfail htrepaired).1
  obtain ⟨chks', s, hread', hset⟩ := checkCheck_ok hfail fun c n d hd => by
    obtain ⟨addrs, hc, ha⟩ := hreconciled'.checks c n d hd
    exact (config_name config hc ha).2
  have hbase'' := base_failed hread' hset hbase'
  obtain ⟨legal, finish, hpublish⟩ := genLegalRedis_runs htfailed hbase''
    (hreconciled'.fail hquiet hread' hset).1 single (fun c hc => by
      obtain ⟨addrs, haddrs⟩ := Ordered.mem_iff_getElem?.mp hc
      rw [config] at haddrs
      exact (clusterEntry_some.mp haddrs).2.1 rfl) populated
  refine ⟨legal, finish, ?_⟩
  unfold checkLocked
  refine ok_bind.mpr ⟨cfgs, t, hconfig, ok_bind.mpr ⟨errs, t, herrs, ?_⟩⟩
  refine ok_bind.mpr ⟨chks, read, hread, ok_bind.mpr ⟨(), grown, hadd, ?_⟩⟩
  refine ok_bind.mpr ⟨(), errored, herrorRm, ok_bind.mpr ⟨(), cleaned, hcheckRm, ?_⟩⟩
  exact ok_bind.mpr ⟨(), repaired, hrepair, ok_bind.mpr ⟨(), failed, hfail, hpublish⟩⟩

/-- A check that ends well found no address stuck in both trees. -/
theorem locked_unstuck {start finish : Tree} {legal : Legal} (run : LockedRun net start legal finish)
    (nodes : ControllerNodes start) : Unstuck start run.cfgs (answers net run.cfgs) := by
  intro c addrs hc a ha herr hchecked
  obtain ⟨n, hn⟩ := hchecked
  by_contra hsick
  have filed := filed_of_fresh run.toCleanedRun nodes.fresh
  have herror := error_stays run.toCleanedRun hc ha herr
  obtain ⟨m, hidx, hm⟩ :=
    check_stays run.toCleanedRun filed hc ha (nodes.has_idx hn.mem) hn
  have hedited := (checkError_ok run.repair).edited
  have hrepaired : HasData run.repaired (m :: c :: checkPath) a :=
    hedited.hasData hm (by simp [errPath, checkPath])
  have hstill : a :: c :: errPath ∈ run.repaired := by
    apply hedited.mem herror
    rintro ⟨d, b, hans, hq⟩
    cases hq
    exact hsick hans.2
  obtain ⟨chks, s, hread, hset⟩ := failed_from run filed
  obtain ⟨rdis, hrdis⟩ :=
    Ordered.mem_iff_getElem?.mp ((hread.keys c).mpr (Tree.mem_parent hrepaired.mem))
  obtain ⟨k, hk⟩ := Ordered.mem_iff_getElem?.mp
    ((hread.clusters c rdis hrdis).covers m a hrepaired.mem hidx hrepaired)
  have hfailed : Failed chks (answers net run.cfgs) (c, a, k) := ⟨⟨rdis, hrdis, hk⟩, hsick⟩
  apply hset.fresh c a k hfailed
  rw [Tree.mem_iff, (hread.frame _ fun _ _ _ _ heq => by simp [errPath, checkPath] at heq).1,
    ← Tree.mem_iff]
  exact hstill

/-! ## Setup and lock -/

theorem nodeExist_runs (path : Path) :
    Ok serve (nodeExist path) t (if path ∈ t then 0 else 1) t := by
  unfold nodeExist
  rw [ok_bind]
  refine ⟨_, t, ok_ask.mpr rfl, ?_⟩
  by_cases hpath : path ∈ t
  · simp only [if_pos hpath]
    exact ok_pure.mpr ⟨rfl, rfl⟩
  · simp only [if_neg hpath]
    exact ok_pure.mpr ⟨rfl, rfl⟩

theorem checkAddCreate_runs {name : Str} (valid : ValidName name) :
    ∃ t', Ok serve (checkAddCreate [name] .persistent []) t () t' ∧
      ∀ q ∈ t', q = [name] ∨ q ∈ t := by
  have hexist := nodeExist_runs (t := t) [name]
  unfold checkAddCreate
  by_cases hname : [name] ∈ t
  · rw [if_pos hname] at hexist
    exact ⟨t, ok_bind.mpr ⟨0, t, hexist, ok_pure.mpr ⟨rfl, rfl⟩⟩, fun _ h => Or.inr h⟩
  · rw [if_neg hname] at hexist
    obtain ⟨t', hcreate⟩ : ∃ t', t.create [name] (dataOf []) .persistent = .ok ([name], t') :=
      Tree.create_of_fresh valid t.root_mem (fun h => by cases h) hname
    obtain ⟨_, hcreated⟩ := Tree.create_ok hcreate
    have hmem : [name] ∈ t' := (hcreated.mem_iff _).mpr (Or.inl rfl)
    have hexist' := nodeExist_runs (t := t') [name]
    rw [if_pos hmem] at hexist'
    refine ⟨t', ok_bind.mpr ⟨1, t, hexist, ok_bind.mpr ⟨[name], t', ?_, ?_⟩⟩, fun q hq => ?_⟩
    · exact orReturn_ok.mpr (createNode_ok.mpr hcreate)
    · exact ok_bind.mpr ⟨0, t', hexist', ok_pure.mpr ⟨rfl, rfl⟩⟩
    · exact (hcreated.mem_iff q).mp hq

/-- The preparation ends well on any tree without a lock node. -/
theorem initPathCheck_runs (alone : lockNode ∉ t) :
    ∃ t', Ok serve initPathCheck t () t' ∧ lockNode ∉ t' := by
  have step : ∀ (s : Tree) (path : Path) (code : Nat), lockNode ∉ s → path ∈ basePaths →
      ∃ s', Ok serve (orReturn (checkAddCreate path .persistent []) code) s () s' ∧ lockNode ∉ s' := by
    intro s path code halone hpath
    obtain ⟨name, hvalid, rfl⟩ : ∃ name, ValidName name ∧ path = [name] := by
      simp only [basePaths, List.mem_cons, List.not_mem_nil, or_false] at hpath
      rcases hpath with rfl | rfl | rfl | rfl | rfl <;>
        exact ⟨_, ⟨by decide, by decide⟩, rfl⟩
    obtain ⟨s', hrun, honly⟩ := checkAddCreate_runs (t := s) hvalid
    refine ⟨s', orReturn_ok.mpr hrun, fun hmem => ?_⟩
    rcases honly _ hmem with heq | hold
    · simp [lockNode, lockPath] at heq
    · exact halone hold
  obtain ⟨t₁, h₁, ha₁⟩ := step t lockPath 1 alone (by simp [basePaths])
  obtain ⟨t₂, h₂, ha₂⟩ := step t₁ cfgPath 2 ha₁ (by simp [basePaths])
  obtain ⟨t₃, h₃, ha₃⟩ := step t₂ errPath 3 ha₂ (by simp [basePaths])
  obtain ⟨t₄, h₄, ha₄⟩ := step t₃ checkPath 4 ha₃ (by simp [basePaths])
  obtain ⟨t₅, h₅, ha₅⟩ := step t₄ nodePath 5 ha₄ (by simp [basePaths])
  refine ⟨t₅, ?_, ha₅⟩
  unfold initPathCheck
  refine ok_bind.mpr ⟨(), t₁, h₁, ok_bind.mpr ⟨(), t₂, h₂, ?_⟩⟩
  exact ok_bind.mpr ⟨(), t₃, h₃, ok_bind.mpr ⟨(), t₄, h₄, h₅⟩⟩

theorem getLock_runs (session : Nat) (hpath : lockPath ∈ t) (alone : lockNode ∉ t) :
    ∃ t', Ok serve (getLock session) t true t' := by
  have hname : ValidName "lock".toList := ⟨by decide, by decide⟩
  obtain ⟨t', hcreate⟩ : ∃ t', t.create lockNode none (.ephemeral session) = .ok (lockNode, t') :=
    Tree.create_of_fresh hname hpath (fun h => by cases h) alone
  have hserve : serve (.zooCreate lockNode none (.ephemeral session)) t = (.ok lockNode, t') := by
    rw [serve, hcreate]
  refine ⟨t', ?_⟩
  unfold getLock
  exact ok_bind.mpr ⟨.ok lockNode, t', ok_ask.mpr hserve, ok_pure.mpr ⟨rfl, rfl⟩⟩

theorem freeLock_runs : ∃ t', Ok serve freeLock t () t' := by
  refine ⟨(serve (.zooDelete lockNode) t).2, ?_⟩
  unfold freeLock
  exact ok_bind.mpr ⟨_, _, ok_ask.mpr rfl, ok_pure.mpr ⟨rfl, rfl⟩⟩

/-- A locked check between setup and release makes a whole check. -/
theorem check_of_locked {session : Nat} {t₁ t₂ t₃ : Tree} {legal : Legal}
    (init : Ok serve initPathCheck t () t₁) (lock : Ok serve (getLock session) t₁ true t₂)
    (locked : Ok serve (checkLocked net) t₂ legal t₃) :
    ∃ t', Ok serve (check (some session) net) t legal t' := by
  obtain ⟨t', hfree⟩ := freeLock_runs (t := t₃)
  have hlift : Ok serve (ExceptT.lift (checkLocked net).run : Ctl (Except Halt Legal)) t₂
      (.ok legal) t₃ := by
    have hrun : Program.run serve (checkLocked net).run t₂ = (.ok legal, t₃) := locked
    simp [Routine.Ok, hrun]
  refine ⟨t', ?_⟩
  unfold check
  refine ok_bind.mpr ⟨(), t₁, init, ok_bind.mpr ⟨true, t₂, lock, ?_⟩⟩
  rw [if_pos rfl]
  exact ok_bind.mpr ⟨.ok legal, t₃, hlift, ok_bind.mpr ⟨(), t', hfree, ok_pure.mpr ⟨rfl, rfl⟩⟩⟩

/-! ## Recovery -/

/-- The preparation takes none of the numbers. -/
theorem roomBelow (h : SameBelow t t') {cfgs : Clusters} (room : Room t cfgs) : Room t' cfgs := by
  intro c addrs hc
  rw [h.counter _ (below_cons (by simp [checkPath]) (by simp [checkPath, lockPath]))]
  exact room c addrs hc

/-- The preparation sticks nothing and frees nothing. -/
theorem unstuckBelow (h : SameBelow t t') {cfgs : Clusters} {answers : StrMap} :
    Unstuck t' cfgs answers ↔ Unstuck t cfgs answers := by
  have herr : ∀ a c, a :: c :: errPath ∈ t' ↔ a :: c :: errPath ∈ t := fun a c =>
    h.mem_iff (below_cons (by simp) (by simp [lockPath, errPath]))
  have hdata : ∀ n c a, HasData t' (n :: c :: checkPath) a ↔ HasData t (n :: c :: checkPath) a :=
    fun n c a => HasData.congr (h.get _ (checkPath_below n c))
  simp only [Unstuck, herr, hdata]

/-- A check by itself after any interrupted ones ends well, and brings `legal_nodes` up to date,
exactly if no configured address that does not answer is in both trees. By itself means that nobody
holds the lock and no call fails. Every address is configured once, no cluster is empty, and the
sequence numbers last. -/
theorem check_recovers_iff (t : Tree) (session : Nat) (net : Network) (reach : Reach t)
    (alone : lockNode ∉ t) (single : SingleHome (configured t))
    (populated : Populated (configured t)) (room : Room t (configured t)) :
    (∃ legal t', Ok serve (check (some session) net) t legal t' ∧
      ListsPublished (configured t) (answers net (configured t)) legal.clusterLegalRedis t') ↔
      Unstuck t (configured t) (answers net (configured t)) := by
  have ht := reach_tended reach
  constructor
  · rintro ⟨legal, t', success, _⟩
    obtain ⟨s, s', hprepared, hlocked, _⟩ := check_ok success
    obtain ⟨run⟩ := checkLocked_ok hlocked
    have hcfgs : run.cfgs = configured t :=
      ConfigOf.unique run.config (config_same hprepared.same (configOf_configured t))
    have hunstuck := locked_unstuck run (nodesBelow hprepared.same ht.names)
    rw [hcfgs] at hunstuck
    exact (unstuckBelow hprepared.same).mp hunstuck
  · intro hunstuck
    obtain ⟨t₁, hinit, halone⟩ := initPathCheck_runs alone
    have hprepared := initPathCheck_ok hinit
    obtain ⟨t₂, hlock⟩ := getLock_runs session (hprepared.base lockPath (by simp [basePaths])) halone
    obtain ⟨hsame, hkeep⟩ := getLock_ok hlock
    have hbelow := hprepared.same.trans hsame
    have ht₂ := (tended_ok tends_getLock hlock (tended_ok tends_initPathCheck hinit ht).1).1
    obtain ⟨legal, t₃, hlocked⟩ := checkLocked_runs ht₂ (fun q hq => hkeep q (hprepared.base q hq))
      (config_same hbelow (configOf_configured t)) single populated (roomBelow hbelow room)
      ((unstuckBelow hbelow).mpr hunstuck)
    obtain ⟨t', hrun⟩ := check_of_locked hinit hlock hlocked
    exact ⟨legal, t', hrun, check_published (filed_of_check ht.names.fresh hrun) hrun⟩

/-! A check of the example is cut off between the two calls that move its second address
from check to error. -/

theorem reconfigured_create {path : Path} {data : Option Str} {q : Path}
    (h : t.create path data .persistent = .ok (q, t')) (hpath : cfgPath <:+ path) :
    Reconfigured t t' := by
  obtain ⟨names, rfl⟩ := hpath
  obtain ⟨name, parent, hcons, hparent⟩ : ∃ name parent, names ++ cfgPath = name :: parent ∧
      (parent = [] ∨ cfgPath <:+ parent) := by
    cases names with
    | nil => exact ⟨_, [], rfl, Or.inl rfl⟩
    | cons name names => exact ⟨name, names ++ cfgPath, rfl, Or.inr ⟨names, rfl⟩⟩
  have hself : ∀ q, ¬ cfgPath <:+ q → q ≠ t.createdName name parent .persistent :: parent := by
    intro q hq heq
    exact hq ⟨names, hcons.trans heq.symm⟩
  rw [hcons] at h
  obtain ⟨_, hcreated⟩ := Tree.create_ok h
  have hget := hcreated.get
  have hcounter := hcreated.counter
  constructor
  · intro q hq
    rw [hget, if_neg (hself q hq)]
  · intro q hq hne
    rw [hcounter, if_neg (hself q hq), if_neg]
    rintro rfl
    exact hparent.elim hne hq

/-- Whatever is planted below `config` is a change of the configuration. -/
theorem reconfigured_plant {nodes : List (Path × Option Str)}
    (h : ∀ node ∈ nodes, cfgPath <:+ node.1) : Reconfigured t (t.plant nodes) := by
  induction nodes generalizing t with
  | nil => exact ⟨fun _ _ => rfl, fun _ _ _ => rfl⟩
  | cons node nodes ih =>
    have hrest : ∀ s, Reconfigured s (Tree.plant s nodes) := fun s =>
      ih fun node hnode => h node (by simp [hnode])
    cases hcreate : t.create node.1 node.2 .persistent with
    | error e =>
      rw [Tree.plant_error hcreate]
      exact hrest t
    | ok result =>
      rw [Tree.plant_ok hcreate]
      have hstep := reconfigured_create hcreate (h node (by simp))
      exact ⟨fun q hq => ((hrest _).get q hq).trans (hstep.get q hq),
        fun q hq hne => ((hrest _).counter q hq hne).trans (hstep.counter q hq hne)⟩

/-- A check that stopped between the two calls of `check_check`: the address is under `check` and in
`error`. -/
def stuckTree : Tree :=
  (Program.cutAt serve 29 (check (some 1) exampleNet).run exampleTree).expire 1

/-- An interrupted check leaves it. -/
theorem reach_stuckTree : Reach stuckTree := by
  have hconfigured : Reach exampleTree := .configure .start (reconfigured_plant (by decide))
  refine .expire (.check hconfigured (some 1) exampleNet ?_) 1
  exact (Program.stops_cutAt _ _ _ _).mono fun _ _ _ _ => Or.inl

theorem stuckTree_accepted : lockNode ∉ stuckTree ∧ SingleHome (configured stuckTree) ∧
    Populated (configured stuckTree) ∧ Room stuckTree (configured stuckTree) := by
  have hsingle : ((configured stuckTree).toList.flatMap fun entry => entry.2.toList).Nodup := by
    decide +kernel
  have hpopulated : ∀ entry ∈ (configured stuckTree).toList, entry.2.toList ≠ [] := by
    decide +kernel
  have hroom : ∀ entry ∈ (configured stuckTree).toList,
      stuckTree.counter (entry.1 :: checkPath) + 2 * entry.2.size ≤ 10 ^ 10 := by
    decide +kernel
  refine ⟨by decide +kernel, nodup_flatMap_iff.mp hsingle, ?_, Ordered.forall_entries.mpr hroom⟩
  refine Ordered.forall_entries.mpr fun entry hentry => ?_
  obtain ⟨a, ha⟩ := List.exists_mem_of_ne_nil _ (hpopulated entry hentry)
  exact ⟨a, Std.ExtTreeSet.mem_toList.mp ha⟩

/-- The second address still does not answer, and the next check stops. -/
theorem check_stuck : ¬ ∀ (t : Tree) (session : Nat) (net : Network), Reach t → lockNode ∉ t →
    SingleHome (configured t) → Populated (configured t) → Room t (configured t) →
      ∃ legal t', Ok serve (check (some session) net) t legal t' := by
  intro h
  obtain ⟨alone, single, populated, room⟩ := stuckTree_accepted
  obtain ⟨legal, t', hrun⟩ := h stuckTree 2 exampleNet reach_stuckTree alone single populated room
  have hends : endsWith serve (check (some 2) exampleNet) stuckTree (fun _ _ => true) = true :=
    endsWith_iff.mpr ⟨legal, t', hrun, rfl⟩
  exact absurd hends (by decide +kernel)

/-- Every redis of a check answers. -/
def healthyNet : Network := fun _ cmds => cmds.map fun _ _ =>
  .mk .array 0 [] [.mk .string 0 "slaveof".toList [], .mk .string 0 [] []]

/-- Once the address answers, the check ends well. -/
theorem check_recovers_example :
    ∃ legal t', Ok serve (check (some 2) healthyNet) stuckTree legal t' ∧
      ListsPublished (configured stuckTree) (answers healthyNet (configured stuckTree))
        legal.clusterLegalRedis t' := by
  obtain ⟨alone, single, populated, room⟩ := stuckTree_accepted
  have hanswers : ∀ entry ∈ (configured stuckTree).toList, ∀ a ∈ entry.2.toList,
      a ∈ answers healthyNet (configured stuckTree) := by
    decide +kernel
  refine (check_recovers_iff stuckTree 2 healthyNet reach_stuckTree alone single populated room).mpr ?_
  intro c addrs hc a ha _ _
  exact hanswers (c, addrs) (Std.ExtTreeMap.mem_toList_iff_getElem?_eq_some.mpr hc) a
    (Std.ExtTreeSet.mem_toList.mpr ha)

end RedisCluster.Guarantees
