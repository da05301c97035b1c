import RedisCluster.Guarantees.Upkeep

/-!
# Passes that run to their end

On a tended tree the only call of a check that can fail, as long as the sequence
numbers last, is a create of `check_check`. Each pass is shown to find the nodes it
deletes, without children, and not to find the nodes it creates.
-/

set_option autoImplicit false

namespace RedisCluster.Guarantees
open Library Routine ZkCall Source

variable {t t' s s' : Tree}

/-- A served run of a routine that tends the tree. -/
theorem tended_ok {α : Type} {post : α → Prop} {x : Ctl α} {value : α} (h : Tends post x)
    (run : Ok serve x t value t') (ht : Tended t) : Tended t' ∧ post value := by
  have returned : Program.Returns Faulty x.run t (.ok value) t' :=
    (Program.returns_served.mpr run).mono fun _ _ _ _ => Or.inl
  exact ⟨h.stops ht returned.stops, Program.wp.returns (h t ht) returned value rfl⟩

theorem leaf_of_none {path : Path} (h : ∀ m, m :: path ∉ t) : t.children path = [] := by
  rw [List.eq_nil_iff_forall_not_mem]
  intro m hm
  exact h m (Tree.mem_children.mp hm)

/-- A node that is there and has no children is deleted. -/
theorem deleteNode_runs {name : Str} {path : Path} (hmem : name :: path ∈ t)
    (hleaf : ∀ m, m :: name :: path ∉ t) :
    ∃ t', Ok serve (deleteNode (name :: path)) t ⟨⟩ t' ∧ t.Deleted name path t' := by
  obtain ⟨t', hdelete⟩ := Tree.delete_of_leaf hmem (leaf_of_none hleaf)
  exact ⟨t', deleteNode_ok.mpr hdelete, Tree.delete_ok hdelete⟩

/-! ## One cluster at a time -/

/-- The two trees agree on a cluster, in whatever branch it is. -/
structure SameCluster (c : Str) (t s : Tree) : Prop where
  get : ∀ names base, s.get (names ++ [c, base]) = t.get (names ++ [c, base])
  counter : s.counter (c :: checkPath) = t.counter (c :: checkPath)

theorem SameCluster.trans {c : Str} {t s s' : Tree} (h : SameCluster c t s)
    (h' : SameCluster c s s') : SameCluster c t s' where
  get names base := (h'.get names base).trans (h.get names base)
  counter := h'.counter.trans h.counter

/-- Trees that agree on a cluster have the same nodes in it. -/
theorem SameCluster.mem_iff {c : Str} (h : SameCluster c t s) (names : List Str) (base : Str) :
    names ++ [c, base] ∈ s ↔ names ++ [c, base] ∈ t := by
  rw [Tree.mem_iff, Tree.mem_iff, h.get]

/-- The path lies in the branch of the cluster. -/
def InCluster (c : Str) (q : Path) : Prop := ∃ names base, q = names ++ [c, base]

/-- A path lies in one cluster only. -/
theorem InCluster.unique {c d : Str} {q : Path} (hc : InCluster c q) (hd : InCluster d q) :
    c = d := by
  obtain ⟨names, base, rfl⟩ := hc
  obtain ⟨names', base', heq⟩ := hd
  have hlast := (List.append_inj' heq rfl).2
  exact (List.cons.inj hlast).1

theorem inCluster_node (n c base : Str) : InCluster c [n, c, base] := ⟨[n], base, rfl⟩

theorem inCluster_branch (c base : Str) : InCluster c [c, base] := ⟨[], base, rfl⟩

/-- A pass that makes nodes in one cluster leaves the others alone. -/
theorem SameCluster.of_grown {made : Path → Znode → Prop} {c d : Str} (hd : d ≠ c)
    (h : Grown made s s') (inside : ∀ q node, made q node → InCluster c q)
    (counter : s'.counter (d :: checkPath) = s.counter (d :: checkPath)) : SameCluster d s s' where
  get names base := by
    cases hold : s.get (names ++ [d, base]) with
    | some node => exact h.kept _ _ hold
    | none =>
      rw [← Tree.not_mem_iff]
      intro hmem
      obtain ⟨node, hget⟩ := Tree.mem_iff.mp hmem
      rcases h.origin _ _ hget with hget | hmade
      · rw [hold] at hget
        cases hget
      · exact hd (InCluster.unique ⟨names, base, rfl⟩ (inside _ _ hmade))
  counter := counter

/-- A pass that deletes nodes in one cluster leaves the others alone. -/
theorem SameCluster.of_pruned {removed : Path → Prop} {c d : Str} (hd : d ≠ c)
    (h : s.Pruned s' removed) (inside : ∀ q, removed q → InCluster c q) : SameCluster d s s' where
  get names base :=
    (h.kept _ fun hr => hd (InCluster.unique ⟨names, base, rfl⟩ (inside _ hr))).1
  counter := (h.kept _ fun hr => hd (InCluster.unique (inCluster_branch d _) (inside _ hr))).2

/-- A loop over clusters runs to its end if each round does, on any tree that still agrees
with the first one on its cluster. -/
theorem forM_clusters_runs {β : Type} {f : β → Ctl Unit} {xs : List β} (key : β → Str)
    (inv : Tree → Prop) (done : β → Tree → Prop) (nodup : (xs.map key).Nodup) (start : inv t)
    (stable : ∀ x s s', done x s → SameCluster (key x) s s' → done x s')
    (body : ∀ x ∈ xs, ∀ s, inv s → SameCluster (key x) t s →
      ∃ s', Ok serve (f x) s () s' ∧ inv s' ∧ done x s' ∧
        ∀ d, d ≠ key x → SameCluster d s s') :
    ∃ t', Ok serve (xs.forM f) t () t' ∧ inv t' ∧ ∀ x ∈ xs, done x t' := by
  have hloop : ∃ t', Ok serve (xs.forM f) t () t' ∧ inv t' ∧
      (∀ d, d ∉ xs.map key → SameCluster d t t') ∧ ∀ x ∈ xs, done x t' := by
    refine ok_forM_total (fun visited s => inv s ∧ (∀ d, d ∉ visited.map key → SameCluster d t s) ∧
      ∀ x ∈ visited, done x s) ⟨start, fun _ _ => ⟨fun _ _ => rfl, rfl⟩, by simp⟩ ?_
    intro visited x rest hsplit s hinv
    obtain ⟨hs, hsame, hdone⟩ := hinv
    have hx : key x ∉ visited.map key := by
      intro hmem
      rw [hsplit, List.map_append, List.map_cons, List.nodup_append] at nodup
      exact nodup.2.2 _ hmem _ List.mem_cons_self rfl
    obtain ⟨s', hrun, hs', hnext, hothers⟩ := body x (by simp [hsplit]) s hs (hsame _ hx)
    refine ⟨s', hrun, hs', fun d hd => ?_, fun y hy => ?_⟩
    · rw [List.map_append, List.mem_append, not_or] at hd
      exact (hsame d hd.1).trans (hothers d (by simpa using hd.2))
    · rcases List.mem_append.mp hy with hy | hy
      · exact stable y s s' (hdone y hy) (hothers _ fun heq => hx (heq ▸ List.mem_map_of_mem hy))
      · obtain rfl := List.mem_singleton.mp hy
        exact hnext
  obtain ⟨t', hrun, hinv, _, hdone⟩ := hloop
  exact ⟨t', hrun, hinv, hdone⟩

/-- What a round of a pass leaves for the next ones: it works in one cluster, whose branch
stays, and gives out at most `g` numbers. -/
structure Round (c : Str) (g : Nat) (s s' : Tree) : Prop where
  tended : Tended s'
  branch : c :: checkPath ∈ s'
  counter : s'.counter (c :: checkPath) ≤ s.counter (c :: checkPath) + g
  others : ∀ d, d ≠ c → SameCluster d s s'

theorem Round.refl {c : Str} (ht : Tended t) (hc : c :: checkPath ∈ t) (g : Nat) : Round c g t t where
  tended := ht
  branch := hc
  counter := Nat.le_add_right _ _
  others _ _ := ⟨fun _ _ => rfl, rfl⟩

/-- Numbers given out in two rounds add up. -/
theorem Round.trans {c : Str} {g g' : Nat} (h : Round c g t s) (h' : Round c g' s s') :
    Round c (g + g') t s' where
  tended := h'.tended
  branch := h'.branch
  counter := by
    have hfirst := h.counter
    have hsecond := h'.counter
    omega
  others d hd := (h.others d hd).trans (h'.others d hd)

/-- A loop inside one cluster runs to its end if every item is ready when its turn comes. -/
theorem forM_rounds_runs {β : Type} {f : β → Ctl Unit} {xs : List β} {c : Str} (g : Nat)
    {limit : Nat} (ready : β → Tree → Prop) (nodup : xs.Nodup) (ht : Tended t) (hc : c :: checkPath ∈ t)
    (room : t.counter (c :: checkPath) + g * xs.length ≤ limit) (start : ∀ x ∈ xs, ready x t)
    (body : ∀ x ∈ xs, ∀ s, Tended s → c :: checkPath ∈ s →
      s.counter (c :: checkPath) + g ≤ limit → ready x s →
        ∃ s', Ok serve (f x) s () s' ∧ Round c g s s' ∧
          ∀ y ∈ xs, y ≠ x → ready y s → ready y s') :
    ∃ t', Ok serve (xs.forM f) t () t' ∧ Round c (g * xs.length) t t' := by
  have hloop : ∃ t', Ok serve (xs.forM f) t () t' ∧ Round c (g * xs.length) t t' ∧
      ∀ y ∈ xs, y ∉ xs → ready y t' := by
    refine ok_forM_total (fun visited s => Round c (g * visited.length) t s ∧
      ∀ y ∈ xs, y ∉ visited → ready y s) ⟨Round.refl ht hc _, fun y hy _ => start y hy⟩ ?_
    intro visited x rest hsplit s hinv
    obtain ⟨hround, hready⟩ := hinv
    have hx : x ∈ xs := by simp [hsplit]
    have hnew : x ∉ visited := by
      intro hmem
      rw [hsplit, List.nodup_append] at nodup
      exact nodup.2.2 x hmem x List.mem_cons_self rfl
    have hroom : s.counter (c :: checkPath) + g ≤ limit := by
      have hcounter := hround.counter
      rw [hsplit, List.length_append, List.length_cons, Nat.mul_add, Nat.mul_add] at room
      omega
    obtain ⟨s', hrun, hnext, hothers⟩ :=
      body x hx s hround.tended hround.branch hroom (hready x hx hnew)
    refine ⟨s', hrun, ?_, fun y hxs hy => ?_⟩
    · rw [List.length_append, List.length_singleton, Nat.mul_add, Nat.mul_one]
      exact hround.trans hnext
    · rw [List.mem_append, List.mem_singleton, not_or] at hy
      exact hothers y hxs hy.2 (hready y hxs hy.1)
  obtain ⟨t', hrun, hround, _⟩ := hloop
  exact ⟨t', hrun, hround⟩

/-! ## get_check -/

/-- A check node with data and without children is read, and is the only node that may go. -/
theorem getCheckNode_runs {c node : Str} (rdis : StrMap)
    (hdata : ∃ d, HasData t (node :: c :: checkPath) d)
    (hleaf : ∀ m, m :: node :: c :: checkPath ∉ t) :
    ∃ rdis' t', Ok serve (getCheckNode checkPath c rdis node) t rdis' t' ∧
      ∀ q, q ≠ node :: c :: checkPath → t'.get q = t.get q := by
  obtain ⟨d, hd⟩ := hdata
  by_cases hkept : cutIdx redisPrefix node ≠ -1 ∧ d ∉ rdis
  · refine ⟨noteCheck rdis node d, t, getCheckNode_ok.mpr ⟨d, hd, rfl, ?_⟩, fun _ _ => rfl⟩
    rw [if_pos hkept]
  · obtain ⟨t', hdelete⟩ := Tree.delete_of_leaf hd.mem (leaf_of_none hleaf)
    refine ⟨noteCheck rdis node d, t', getCheckNode_ok.mpr ⟨d, hd, rfl, ?_⟩, fun q hq => ?_⟩
    · rw [if_neg hkept]
      exact hdelete
    · rw [(Tree.delete_ok hdelete).get, if_neg hq]

/-- Reading one cluster leaves the check nodes of the others. -/
theorem getCheckCluster_runs (ht : Tended t) (c : Str) (nodes : Addrs) (chks : Checks)
    (hnodes : ∀ n ∈ nodes, n :: c :: checkPath ∈ t) :
    ∃ chks' t', Ok serve (getCheckCluster checkPath chks (c, nodes)) t chks' t' ∧ Tended t' ∧
      ∀ n d, d ≠ c → t'.get (n :: d :: checkPath) = t.get (n :: d :: checkPath) := by
  have hloop : ∃ rdis t', Ok serve (nodes.toList.foldlM (getCheckNode checkPath c) ∅) t rdis t' ∧
      (∀ a ∈ rdis, ValidName a) ∧ Tended t' ∧ ∀ q, (∀ n ∈ nodes.toList, q ≠ n :: c :: checkPath) → t'.get q = t.get q := by
    refine ok_foldlM_total (fun visited (rdis : StrMap) s => (∀ a ∈ rdis, ValidName a) ∧ Tended s ∧
      ∀ q, (∀ n ∈ visited, q ≠ n :: c :: checkPath) → s.get q = t.get q) ?_ ?_
    · exact ⟨by simp, ht, fun _ _ => rfl⟩
    · intro visited node rest hsplit rdis s hinv
      obtain ⟨hvalid, hs, hsame⟩ := hinv
      have hnew := Ordered.not_visited hsplit
      have hmem : node :: c :: checkPath ∈ s := by
        rw [Tree.mem_iff, hsame, ← Tree.mem_iff]
        · exact hnodes node (Ordered.visiting_set hsplit).1
        · intro n hn heq
          cases heq
          exact hnew hn
      obtain ⟨d, hd, _⟩ := hs.data node c hmem
      obtain ⟨rdis', s', hrun, hother⟩ :=
        getCheckNode_runs rdis ⟨d, hd⟩ fun m => hs.checkLeaf m node c
      obtain ⟨hs', hvalid'⟩ := tended_ok (tends_getCheckNode hvalid) hrun hs
      refine ⟨rdis', s', hrun, hvalid', hs', fun q hq => ?_⟩
      rw [hother q (hq node (by simp)), hsame q fun n hn => hq n (by simp [hn])]
  obtain ⟨rdis, t', hrun, _, ht', hsame⟩ := hloop
  refine ⟨chks.insert c rdis, t', ?_, ht', fun n d hd => hsame _ ?_⟩
  · unfold getCheckCluster
    rw [ok_bind]
    exact ⟨rdis, t', hrun, ok_pure.mpr ⟨rfl, rfl⟩⟩
  · intro m _ heq
    cases heq
    exact hd rfl

/-- On a tended tree `get_check` ends well whatever the names of the check nodes are. -/
theorem getCheck_runs (ht : Tended t) (hpath : checkPath ∈ t) :
    ∃ chks t', Ok serve (getCheck checkPath) t chks t' := by
  obtain ⟨cls, hcls⟩ := getClusterNode_runs false hpath
  have hentries := (getClusterNode_ok.mp hcls).2.2
  have hloop : ∃ chks t', Ok serve (cls.toList.foldlM (getCheckCluster checkPath) ∅) t chks t' ∧
      Tended t' ∧ ∀ n d, d ∉ cls.toList.map Prod.fst →
        t'.get (n :: d :: checkPath) = t.get (n :: d :: checkPath) := by
    refine ok_foldlM_total (fun visited (_ : Checks) s => Tended s ∧ ∀ n d, d ∉ visited.map Prod.fst →
      s.get (n :: d :: checkPath) = t.get (n :: d :: checkPath)) ⟨ht, fun _ _ _ => rfl⟩ ?_
    intro visited entry rest hsplit chks s hinv
    obtain ⟨c, nodes⟩ := entry
    obtain ⟨hs, hsame⟩ := hinv
    obtain ⟨hget, hnew⟩ := Ordered.visiting hsplit
    rw [hentries] at hget
    obtain ⟨_, _, rfl⟩ := clusterEntry_some.mp hget
    obtain ⟨chks', s', hrun, hs', hother⟩ := getCheckCluster_runs hs c
      (nodesOf t (c :: checkPath) false) chks fun n hn => by
        rw [Tree.mem_iff, hsame n c hnew, ← Tree.mem_iff]
        exact (mem_nodesOf.mp hn).1
    refine ⟨chks', s', hrun, hs', fun n d hd => ?_⟩
    rw [List.map_append, List.mem_append, not_or] at hd
    rw [hother n d (by simpa using hd.2), hsame n d hd.1]
  obtain ⟨chks, t', hrun, _⟩ := hloop
  refine ⟨chks, t', ?_⟩
  unfold getCheck
  rw [ok_bind]
  exact ⟨cls, t, orReturn_ok.mpr hcls, hrun⟩

/-! ## logic_check_add -/

theorem validName_seqName (k : Nat) : ValidName (seqName k) := by
  refine ⟨by simp [seqName, redisPrefix], fun h => ?_⟩
  have hdigits := Text.sequenceDigits_all_isDigit k
  rw [List.all_eq_true] at hdigits
  rcases List.mem_append.mp h with h | h
  · simp [redisPrefix] at h
  · exact absurd (hdigits _ h) (by decide)

/-- A create of a sequence node succeeds as long as the number fits its ten digits, and takes one
number. -/
theorem createCheck_runs (ht : Tended t) {c addr : Str} (valid : ValidName addr) (code : Nat)
    (hc : c :: checkPath ∈ t) (room : t.counter (c :: checkPath) + 1 ≤ 10 ^ 10) :
    ∃ t', Ok serve (do
        let _ ← orReturn (createNode (redisPrefix :: c :: checkPath) .sequence addr) code) t () t' ∧
      Round c 1 t t' ∧ ∀ n d, n :: d :: errPath ∈ t' ↔ n :: d :: errPath ∈ t := by
  have hfresh : seqName (t.counter (c :: checkPath)) :: c :: checkPath ∉ t := by
    intro hmem
    obtain ⟨k, hk, hless, _⟩ := ht.names _ c hmem
    have heq := seqName_injective hk
    omega
  have hcreate : ∃ t', t.create (redisPrefix :: c :: checkPath) (dataOf addr) .sequence =
      .ok (seqName (t.counter (c :: checkPath)) :: c :: checkPath, t') :=
    Tree.create_of_fresh (validName_seqName _) hc (fun _ => room) hfresh
  obtain ⟨t', hcreate⟩ := hcreate
  obtain ⟨_, hcreated⟩ := Tree.create_ok hcreate
  have hcounter : ∀ d, t'.counter (d :: checkPath) =
      t.counter (d :: checkPath) + if d = c then 1 else 0 := by
    intro d
    rw [hcreated.counter, if_neg (by simp)]
    by_cases hd : d = c
    · subst hd
      simp
    · simp [hd]
  have hgrown := (createCheck_ok hcreate).grown
  refine ⟨t', create_unit.mpr ⟨_, hcreate⟩, ⟨ht.createdCheck valid hcreated, hgrown.mem hc, ?_,
    fun d hd => ?_⟩, fun n d => ?_⟩
  · rw [hcounter, if_pos rfl]
  · refine SameCluster.of_grown hd hgrown (fun q node hmade => ?_) ?_
    · obtain ⟨⟨k, rfl⟩, _⟩ := hmade
      exact inCluster_node _ c _
    · rw [hcounter, if_neg hd, Nat.add_zero]
  · rw [hcreated.mem_iff]
    exact or_iff_right fun heq => by simp [errPath, checkPath] at heq

/-- The node of a cluster is created where it is missing, and no other cluster is touched. -/
theorem addBranch_runs (missing : Bool) {c base : Str} (valid : ValidName c)
    (hbase : [base] ∈ t) (hnew : missing = true → [c, base] ∉ t) :
    ∃ t', Ok serve (addBranch missing [c, base]) t () t' ∧
      t'.counter (c :: checkPath) = t.counter (c :: checkPath) ∧
      ∀ d, d ≠ c → SameCluster d t t' := by
  unfold addBranch
  by_cases hmissing : missing = true
  · obtain ⟨t', hcreate⟩ : ∃ t', t.create [c, base] (dataOf []) .persistent = .ok ([c, base], t') :=
      Tree.create_of_fresh valid hbase (fun h => by cases h) (hnew hmissing)
    obtain ⟨_, hcreated⟩ := Tree.create_ok hcreate
    have hcounter : ∀ d, t'.counter (d :: checkPath) = t.counter (d :: checkPath) := by
      intro d
      rw [hcreated.counter]
      split
      · next heq => rw [heq, Tree.counter_of_not_mem hcreated.fresh]
      · rw [if_neg (by simp [checkPath])]
    refine ⟨t', ?_, hcounter c, fun d hd => ?_⟩
    · rw [if_pos hmissing]
      exact create_unit.mpr ⟨_, hcreate⟩
    · refine SameCluster.of_grown hd (Grown.of_created hcreated) (fun q node hmade => ?_) (hcounter d)
      rw [hmade.1]
      exact inCluster_branch c base
  · refine ⟨t, ?_, rfl, fun _ _ => ⟨fun _ _ => rfl, rfl⟩⟩
    rw [if_neg hmissing]
    exact ok_pure.mpr ⟨rfl, rfl⟩

/-- For one cluster `logic_check_add` takes one number for each address at most. -/
theorem checkAddNodes_runs (ht : Tended t) {c : Str} {addrs : Addrs} (tmp : Option StrMap)
    (tmpErr : Option Addrs) (valid : ∀ a ∈ addrs, ValidName a) (hc : c :: checkPath ∈ t)
    (room : t.counter (c :: checkPath) + addrs.size ≤ 10 ^ 10) :
    ∃ t', Ok serve (addrs.toList.forM (checkAddNode tmp tmpErr c)) t () t' ∧
      Round c addrs.size t t' := by
  have hsize : addrs.size = 1 * addrs.toList.length := by
    rw [Std.ExtTreeSet.length_toList, Nat.one_mul]
  rw [hsize] at room ⊢
  refine forM_rounds_runs 1 (fun _ _ => True) (Ordered.nodup_toList addrs) ht hc room
    (fun _ _ => trivial) ?_
  intro addr haddr s hs hmem hroom _
  have hvalid := valid addr (Std.ExtTreeSet.mem_toList.mp haddr)
  unfold checkAddNode
  by_cases hnew : isNew tmp tmpErr addr = true
  · obtain ⟨s', hrun, hround, _⟩ := createCheck_runs hs hvalid 2 hmem hroom
    refine ⟨s', ?_, hround, fun _ _ _ _ => trivial⟩
    rw [if_pos hnew]
    exact hrun
  · refine ⟨s, ?_, Round.refl hs hmem 1, fun _ _ _ _ => trivial⟩
    rw [if_neg hnew]
    exact ok_pure.mpr ⟨rfl, rfl⟩

/-- One cluster of `logic_check_add`: what was read of it decides which of its two nodes are
created. -/
theorem checkAddCluster_runs (ht : Tended t) {errs : Clusters} {chks : Checks} {c : Str}
    {addrs : Addrs} (valid : ∀ a ∈ addrs, ValidName a) (name : ValidName c) (herr : errPath ∈ t)
    (hcheck : checkPath ∈ t) (newError : errs[c]? = none → c :: errPath ∉ t)
    (newCheck : chks[c]? = none ↔ c :: checkPath ∉ t)
    (room : t.counter (c :: checkPath) + addrs.size ≤ 10 ^ 10) :
    ∃ t', Ok serve (checkAddCluster errs chks (c, addrs)) t () t' ∧ Round c addrs.size t t' := by
  obtain ⟨t₁, hrun₁, hcounter₁, hothers₁⟩ := addBranch_runs errs[c]?.isNone name herr fun h =>
    newError (Option.isNone_iff_eq_none.mp h)
  obtain ⟨hgrown₁, _, _⟩ := addBranch_ok (fun d => by simp [checkPath]) hrun₁
  have ht₁ := (tended_ok tends_addBranch hrun₁ ht).1
  have hstill : c :: checkPath ∈ t₁ → c :: checkPath ∈ t := by
    intro hmem
    obtain ⟨node, hget⟩ := Tree.mem_iff.mp hmem
    rcases hgrown₁.origin _ _ hget with hget | ⟨_, hq, _⟩
    · exact Tree.mem_of_get hget
    · simp [checkPath] at hq
  obtain ⟨t₂, hrun₂, hcounter₂, hothers₂⟩ :=
    addBranch_runs chks[c]?.isNone name (hgrown₁.mem hcheck) fun h =>
      mt hstill (newCheck.mp (Option.isNone_iff_eq_none.mp h))
  obtain ⟨hgrown₂, hmade₂, _⟩ := addBranch_ok (fun d => by simp [checkPath]) hrun₂
  have ht₂ := (tended_ok tends_addBranch hrun₂ ht₁).1
  have hc : c :: checkPath ∈ t₂ := by
    by_cases hnone : chks[c]? = none
    · exact hmade₂ (Option.isNone_iff_eq_none.mpr hnone)
    · exact hgrown₂.mem (hgrown₁.mem (not_not.mp (mt newCheck.mpr hnone)))
  have hcounter : t₂.counter (c :: checkPath) = t.counter (c :: checkPath) :=
    hcounter₂.trans hcounter₁
  obtain ⟨t', hrun, hround⟩ :=
    checkAddNodes_runs ht₂ chks[c]? errs[c]? valid hc (by rwa [hcounter])
  refine ⟨t', ?_, hround.tended, hround.branch, by rw [← hcounter]; exact hround.counter,
    fun d hd => ((hothers₁ d hd).trans (hothers₂ d hd)).trans (hround.others d hd)⟩
  unfold checkAddCluster
  rw [ok_bind]
  refine ⟨(), t₁, hrun₁, ?_⟩
  rw [ok_bind]
  exact ⟨(), t₂, hrun₂, hrun⟩

/-- `logic_check_add` ends well where its tables tell what is there, and takes one number at most
for each configured address. -/
theorem logicCheckAdd_runs (ht : Tended t) {cfgs errs : Clusters} {chks : Checks}
    (valid : ValidClusters cfgs) (names : ∀ c ∈ cfgs, ValidName c) (herr : errPath ∈ t)
    (hcheck : checkPath ∈ t) (newError : ∀ c : Str, errs[c]? = none → c :: errPath ∉ t)
    (newCheck : ∀ c : Str, chks[c]? = none ↔ c :: checkPath ∉ t)
    (room : ∀ (c : Str) (addrs : Addrs), cfgs[c]? = some addrs →
      t.counter (c :: checkPath) + addrs.size ≤ 10 ^ 10) :
    ∃ t', Ok serve (logicCheckAdd cfgs errs chks) t () t' ∧
      ∀ (c : Str) (addrs : Addrs), cfgs[c]? = some addrs →
        t'.counter (c :: checkPath) ≤ t.counter (c :: checkPath) + addrs.size := by
  have hloop : ∃ t', Ok serve (cfgs.toList.forM (checkAddCluster errs chks)) t () t' ∧
      (Tended t' ∧ errPath ∈ t' ∧ checkPath ∈ t') ∧ ∀ entry ∈ cfgs.toList,
        t'.counter (entry.1 :: checkPath) ≤ t.counter (entry.1 :: checkPath) + entry.2.size := by
    refine forM_clusters_runs Prod.fst (fun s => Tended s ∧ errPath ∈ s ∧ checkPath ∈ s)
      (fun entry s => s.counter (entry.1 :: checkPath) ≤
        t.counter (entry.1 :: checkPath) + entry.2.size) (Ordered.nodup_keys cfgs)
      ⟨ht, herr, hcheck⟩ ?_ ?_
    · intro entry s s' hdone hsame
      rwa [hsame.counter]
    · intro entry hentry s hinv hsame
      obtain ⟨c, addrs⟩ := entry
      obtain ⟨hs, herr, hcheck⟩ := hinv
      have hget := Std.ExtTreeMap.mem_toList_iff_getElem?_eq_some.mp hentry
      have hname : ValidName c := names c (Ordered.mem_iff_getElem?.mpr ⟨addrs, hget⟩)
      have hroom : s.counter (c :: checkPath) + addrs.size ≤ 10 ^ 10 := by
        rw [hsame.counter]
        exact room c addrs hget
      obtain ⟨s', hrun, hround⟩ := checkAddCluster_runs hs (valid c addrs hget) hname herr hcheck
        (fun hnone => mt (hsame.mem_iff [] _).mp (newError c hnone))
        ((newCheck c).trans (not_congr (hsame.mem_iff [] _)).symm) hroom
      obtain ⟨hgrown, _, _⟩ := checkAddCluster_ok hrun
      exact ⟨s', hrun, ⟨hround.tended, hgrown.mem herr, hgrown.mem hcheck⟩,
        by rw [← hsame.counter]; exact hround.counter, hround.others⟩
  obtain ⟨t', hrun, _, hdone⟩ := hloop
  refine ⟨t', hrun, fun c addrs hget => ?_⟩
  exact hdone (c, addrs) (Std.ExtTreeMap.mem_toList_iff_getElem?_eq_some.mpr hget)

/-! ## logic_error_rm and logic_check_rm -/

theorem deleteIf_runs {c : Prop} [Decidable c] (name : Str) {path : Path} (code : Nat)
    (present : c → name :: path ∈ t) (leaf : c → ∀ m, m :: name :: path ∉ t) :
    ∃ t', Ok serve (if c then orReturn (deleteNode (name :: path)) code else return ()) t () t' := by
  by_cases hc : c
  · obtain ⟨t', hrun, _⟩ := deleteNode_runs (present hc) (leaf hc)
    exact ⟨t', by rw [if_pos hc]; exact orReturn_ok.mpr hrun⟩
  · exact ⟨t, by rw [if_neg hc]; exact ok_pure.mpr ⟨rfl, rfl⟩⟩

/-- The nodes to drop are in the branch, and if the branch goes, nothing else is. -/
structure Droppable {β : Type} (t : Tree) (xs : List β) (name : β → Str) (drop : β → Prop)
    (whole : Prop) (c base : Str) : Prop where
  nodup : (xs.map name).Nodup
  present : ∀ x ∈ xs, drop x → name x :: [c, base] ∈ t
  leaf : ∀ m n, m :: n :: [c, base] ∉ t
  emptied : whole → [c, base] ∈ t ∧ ∀ m, m :: [c, base] ∈ t → ∃ x ∈ xs, drop x ∧ m = name x

/-- The loop that both removal passes have: the children that are to go, and then the cluster if it
goes as a whole. -/
theorem rmCluster_runs {β : Type} {xs : List β} {name : β → Str} {drop : β → Prop}
    [DecidablePred drop] {whole : Prop} [Decidable whole] {c base : Str}
    (h : Droppable t xs name drop whole c base) :
    ∃ t', Ok serve (do
        xs.forM fun x => if drop x then orReturn (deleteNode (name x :: [c, base])) 2 else return ()
        if whole then orReturn (deleteNode [c, base]) 1 else return ()) t () t' := by
  have hloop : ∃ s, Ok serve (xs.forM fun x =>
        if drop x then orReturn (deleteNode (name x :: [c, base])) 2 else return ()) t () s ∧
      t.Pruned s fun q => ∃ x ∈ xs, drop x ∧ q = name x :: [c, base] := by
    refine ok_forM_total (fun visited s =>
      t.Pruned s fun q => ∃ x ∈ visited, drop x ∧ q = name x :: [c, base]) ?_ ?_
    · exact (Tree.Pruned.refl t).congr fun q => by simp
    · intro visited x rest hsplit s hpruned
      have hx : name x ∉ visited.map name := by
        intro hmem
        have hnodup := h.nodup
        rw [hsplit, List.map_append, List.map_cons, List.nodup_append] at hnodup
        exact hnodup.2.2 _ hmem _ List.mem_cons_self rfl
      obtain ⟨s', hrun⟩ := deleteIf_runs (t := s) (c := drop x) (name x) 2
        (fun hdrop => hpruned.stays (h.present x (by simp [hsplit]) hdrop) fun ⟨y, hy, _, heq⟩ =>
          hx ((List.cons.inj heq).1 ▸ List.mem_map_of_mem hy))
        fun _ m hm => h.leaf m (name x) (hpruned.sub hm)
      refine ⟨s', hrun, (hpruned.trans (deleteIf_pruned hrun)).congr fun q => ?_⟩
      simp [or_and_right, exists_or]
  obtain ⟨s, hrun, hpruned⟩ := hloop
  have hwhole : whole → [c, base] ∈ s := fun hw =>
    hpruned.stays (h.emptied hw).1 fun ⟨_, _, _, heq⟩ => by simp at heq
  have hleaf : whole → ∀ m, m :: [c, base] ∉ s := by
    intro hw m hm
    obtain ⟨x, hx, hdrop, rfl⟩ := (h.emptied hw).2 m (hpruned.sub hm)
    exact hpruned.gone _ ⟨x, hx, hdrop, rfl⟩ hm
  obtain ⟨t', hlast⟩ := deleteIf_runs c 1 hwhole hleaf
  exact ⟨t', ok_bind.mpr ⟨(), s, hrun, hlast⟩⟩

/-- What another cluster loses does not matter here. -/
theorem Droppable.congr {β : Type} {xs : List β} {name : β → Str} {drop : β → Prop} {whole : Prop}
    {c base : Str} (h : Droppable t xs name drop whole c base) (same : SameCluster c t s) :
    Droppable s xs name drop whole c base where
  nodup := h.nodup
  present x hx hdrop := (same.mem_iff [name x] base).mpr (h.present x hx hdrop)
  leaf m n := mt (same.mem_iff [m, n] base).mp (h.leaf m n)
  emptied hw := by
    refine ⟨(same.mem_iff [] base).mpr (h.emptied hw).1, fun m hm => ?_⟩
    exact (h.emptied hw).2 m ((same.mem_iff [m] base).mp hm)

theorem errorRemoved_inside {cfgs : Clusters} {c : Str} {nodes : Addrs} {q : Path}
    (h : ErrorRemoved cfgs c nodes q) : InCluster c q := by
  rcases h with ⟨addr, _, _, rfl⟩ | ⟨_, rfl⟩
  · exact inCluster_node addr c _
  · exact inCluster_branch c _

theorem checkRemoved_inside {cfgs : Clusters} {c : Str} {rdis : StrMap} {q : Path}
    (h : CheckRemoved cfgs c rdis q) : InCluster c q := by
  rcases h with ⟨_, node, _, _, rfl⟩ | ⟨_, rfl⟩
  · exact inCluster_node node c _
  · exact inCluster_branch c _

/-- `logic_error_rm` ends well where its table is what `get_error` reads. -/
theorem logicErrorRm_runs {cfgs errs : Clusters} (ht : Tended t)
    (read : ∀ (c : Str) (nodes : Addrs), errs[c]? = some nodes →
      c :: errPath ∈ t ∧ ∀ a, a ∈ nodes ↔ a :: c :: errPath ∈ t) :
    ∃ t', Ok serve (logicErrorRm cfgs errs) t () t' := by
  have hloop : ∃ t', Ok serve (errs.toList.forM (errorRmCluster cfgs)) t () t' ∧ True ∧
      ∀ entry ∈ errs.toList, True := by
    refine forM_clusters_runs Prod.fst (fun _ => True) (fun _ _ => True) (Ordered.nodup_keys errs)
      trivial (fun _ _ _ _ _ => trivial) ?_
    intro entry hentry s _ hsame
    obtain ⟨c, nodes⟩ := entry
    obtain ⟨hbranch, hnodes⟩ := read c nodes (Std.ExtTreeMap.mem_toList_iff_getElem?_eq_some.mp hentry)
    have hdrop : Droppable t nodes.toList id (fun addr => notConfigured cfgs[c]? addr = true)
        (cfgs[c]?.isNone = true) c "error".toList := by
      constructor
      · rw [List.map_id]
        exact Ordered.nodup_toList nodes
      · intro addr haddr _
        exact (hnodes addr).mp (Std.ExtTreeSet.mem_toList.mp haddr)
      · exact fun m n => ht.errorLeaf m n c
      · intro hnone
        refine ⟨hbranch, fun m hm => ?_⟩
        refine ⟨m, Std.ExtTreeSet.mem_toList.mpr ((hnodes m).mpr hm), ?_, rfl⟩
        rw [Option.isNone_iff_eq_none.mp hnone]
        rfl
    obtain ⟨s', hrun⟩ := rmCluster_runs (hdrop.congr hsame)
    exact ⟨s', hrun, trivial, trivial, fun d hd =>
      SameCluster.of_pruned hd (errorRmCluster_ok hrun) fun q => errorRemoved_inside⟩
  obtain ⟨t', hrun, _⟩ := hloop
  exact ⟨t', hrun⟩

/-- `logic_check_rm` ends well where every name in its table is a node with that address, and a
cluster that goes is named as a whole. -/
theorem logicCheckRm_runs {cfgs : Clusters} {chks : Checks} (ht : Tended t)
    (read : ∀ (c : Str) (rdis : StrMap), chks[c]? = some rdis → c :: checkPath ∈ t ∧
      ∀ a n : Str, rdis[a]? = some n → HasData t (n :: c :: checkPath) a)
    (dropped : ∀ (c : Str) (rdis : StrMap), chks[c]? = some rdis → cfgs[c]? = none →
      ∀ n, n :: c :: checkPath ∈ t → ∃ a : Str, rdis[a]? = some n) :
    ∃ t', Ok serve (logicCheckRm cfgs chks) t () t' := by
  have hloop : ∃ t', Ok serve (chks.toList.forM (checkRmCluster cfgs)) t () t' ∧ True ∧
      ∀ entry ∈ chks.toList, True := by
    refine forM_clusters_runs Prod.fst (fun _ => True) (fun _ _ => True) (Ordered.nodup_keys chks)
      trivial (fun _ _ _ _ _ => trivial) ?_
    intro entry hentry s _ hsame
    obtain ⟨c, rdis⟩ := entry
    have hget := Std.ExtTreeMap.mem_toList_iff_getElem?_eq_some.mp hentry
    obtain ⟨hbranch, hnodes⟩ := read c rdis hget
    have hpair : ∀ pair ∈ rdis.toList, HasData t (pair.2 :: c :: checkPath) pair.1 := by
      intro pair hpair
      exact hnodes pair.1 pair.2 (Std.ExtTreeMap.mem_toList_iff_getElem?_eq_some.mp hpair)
    have hdrop : Droppable t rdis.toList Prod.snd (fun pair => notConfigured cfgs[c]? pair.1 = true)
        (cfgs[c]?.isNone = true) c "check".toList := by
      constructor
      · refine List.Nodup.map_on (fun x hx y hy heq => ?_) (Ordered.nodup_keys rdis).of_map
        have hy' := hpair y hy
        rw [← heq] at hy'
        exact Prod.ext ((hpair x hx).unique hy') heq
      · exact fun pair hmem _ => (hpair pair hmem).mem
      · exact fun m n => ht.checkLeaf m n c
      · intro hnone
        rw [Option.isNone_iff_eq_none] at hnone
        refine ⟨hbranch, fun m hm => ?_⟩
        obtain ⟨a, ha⟩ := dropped c rdis hget hnone m hm
        refine ⟨(a, m), Std.ExtTreeMap.mem_toList_iff_getElem?_eq_some.mpr ha, ?_, rfl⟩
        rw [hnone]
        rfl
    obtain ⟨s', hrun⟩ := rmCluster_runs (hdrop.congr hsame)
    exact ⟨s', hrun, trivial, trivial, fun d hd =>
      SameCluster.of_pruned hd (checkRmCluster_ok hrun) fun q => checkRemoved_inside⟩
  obtain ⟨t', hrun, _⟩ := hloop
  exact ⟨t', hrun⟩

/-! ## check_error -/

/-- One address of `check_error`: it moves under `check` if it answers, and no other error node
goes. -/
theorem checkErrorNode_runs {cfgs : StrMap} (ht : Tended t) {c addr : Str}
    (hc : c :: checkPath ∈ t) (room : t.counter (c :: checkPath) + 1 ≤ 10 ^ 10)
    (here : addr :: c :: errPath ∈ t) :
    ∃ t', Ok serve (checkErrorNode cfgs c addr) t () t' ∧ Round c 1 t t' ∧
      ∀ other ≠ addr, other :: c :: errPath ∈ t → other :: c :: errPath ∈ t' := by
  unfold checkErrorNode
  by_cases hans : addr ∈ cfgs
  · obtain ⟨s, hdelete, hdeleted⟩ := deleteNode_runs here fun m => ht.errorLeaf m addr c
    have hpruned := hdeleted.pruned
    have hkeep : ∀ q, q ≠ addr :: c :: errPath → q ∈ t → q ∈ s := fun q hq hmem =>
      hpruned.stays hmem hq
    have hcounter : s.counter (c :: checkPath) = t.counter (c :: checkPath) :=
      (hpruned.kept _ (by simp [errPath, checkPath])).2
    obtain ⟨t', hcreate, hround, herrors⟩ := createCheck_runs (ht.deleted hdeleted)
      (Tree.validName_of_mem here) 3 (hkeep _ (by simp [errPath, checkPath]) hc) (by rwa [hcounter])
    refine ⟨t', ?_, ⟨hround.tended, hround.branch, by rw [← hcounter]; exact hround.counter,
      fun d hd => ?_⟩, fun other hother hmem => ?_⟩
    · rw [if_pos hans, ok_bind]
      exact ⟨(), s, orReturn_ok.mpr hdelete, hcreate⟩
    · refine (SameCluster.of_pruned hd hpruned fun q hq => ?_).trans (hround.others d hd)
      rw [hq]
      exact inCluster_node addr c _
    · exact (herrors other c).mpr (hkeep _ (fun heq => hother (List.cons.inj heq).1) hmem)
  · refine ⟨t, ?_, Round.refl ht hc 1, fun _ _ h => h⟩
    rw [if_neg hans]
    exact ok_pure.mpr ⟨rfl, rfl⟩

/-- `check_error` ends well where every cluster with error nodes has its check branch. -/
theorem checkError_runs (cfgs : StrMap) (ht : Tended t) (herr : errPath ∈ t)
    (branches : ∀ c, c :: errPath ∈ t → c :: checkPath ∈ t)
    (room : ∀ c, c :: errPath ∈ t →
      t.counter (c :: checkPath) + (nodesOf t (c :: errPath) false).size ≤ 10 ^ 10) :
    ∃ t', Ok serve (checkError cfgs) t () t' := by
  obtain ⟨errs, herrs⟩ := getClusterNode_runs false herr
  have hentries := (getClusterNode_ok.mp herrs).2.2
  have hloop : ∃ t', Ok serve (errs.toList.forM fun entry =>
      entry.2.toList.forM (checkErrorNode cfgs entry.1)) t () t' ∧ Tended t' ∧
        ∀ entry ∈ errs.toList, True := by
    refine forM_clusters_runs Prod.fst Tended (fun _ _ => True) (Ordered.nodup_keys errs) ht
      (fun _ _ _ _ _ => trivial) ?_
    intro entry hentry s hs hsame
    obtain ⟨c, nodes⟩ := entry
    have hget := Std.ExtTreeMap.mem_toList_iff_getElem?_eq_some.mp hentry
    rw [hentries] at hget
    obtain ⟨hbranch, _, rfl⟩ := clusterEntry_some.mp hget
    have hroom := room c hbranch
    rw [← hsame.counter, ← Std.ExtTreeSet.length_toList, ← Nat.one_mul (List.length _)] at hroom
    have hcluster : ∃ s', Ok serve ((nodesOf t (c :: errPath) false).toList.forM
        (checkErrorNode cfgs c)) s () s' ∧
          Round c (1 * (nodesOf t (c :: errPath) false).toList.length) s s' := by
      refine forM_rounds_runs 1 (fun addr s => addr :: c :: errPath ∈ s) (Ordered.nodup_toList _) hs
        ((hsame.mem_iff [] _).mpr (branches c hbranch)) hroom (fun addr haddr => ?_) ?_
      · rw [Std.ExtTreeSet.mem_toList, mem_nodesOf] at haddr
        exact (hsame.mem_iff [addr] _).mpr haddr.1
      · intro addr _ s hs hc hroom here
        obtain ⟨s', hrun, hround, hothers⟩ := checkErrorNode_runs hs hc hroom here
        exact ⟨s', hrun, hround, fun other _ => hothers other⟩
    obtain ⟨s', hrun, hround⟩ := hcluster
    exact ⟨s', hrun, hround.tended, trivial, hround.others⟩
  obtain ⟨t', hrun, _⟩ := hloop
  unfold checkError
  exact ⟨t', ok_bind.mpr ⟨errs, t, orReturn_ok.mpr herrs, hrun⟩⟩

/-! ## check_check -/

/-- On numbered nodes the map of `get_check` names the nodes that it leaves. -/
theorem read_named (nodes : ControllerNodes t) {chks : Checks} {c : Str} {rdis : StrMap}
    (h : CheckRead t checkPath (fun c => c :: checkPath ∈ t) chks s) (hc : chks[c]? = some rdis)
    (a n : Str) : rdis[a]? = some n ↔ HasData s (n :: c :: checkPath) a := by
  have hcluster := h.clusters c rdis hc
  have named : ∀ m, rdis[a]? = some m → Survives t (c :: checkPath) m ∧
      HasData t (m :: c :: checkPath) a := by
    intro m hm
    obtain ⟨hmem, hidx, hdata⟩ := hcluster.names a m hm
    refine ⟨⟨hidx, fun earlier d hless hidx' hd hmd => ?_⟩, hdata⟩
    obtain rfl := hmd.unique hdata
    have hle := (hcluster.least d m earlier hm hd.mem hidx' hd).2 hless
    obtain ⟨j, rfl, _, hj⟩ := nodes m c hmem
    obtain ⟨k, rfl, _, hk⟩ := nodes earlier c hd.mem
    rw [compare_seqName hk hj, Nat.compare_eq_lt] at hless
    rw [cutIdx_seqName hj, cutIdx_seqName hk] at hle
    omega
  constructor
  · intro hn
    obtain ⟨hsurvive, hdata⟩ := named n hn
    exact (HasData.congr (h.mem hdata.mem hsurvive)).mpr hdata
  · intro hn
    obtain ⟨hmem, hsurvive⟩ := h.survives hn.mem
    have hdata := (HasData.congr (h.mem hmem hsurvive)).mp hn
    obtain ⟨m, hm⟩ := Ordered.mem_iff_getElem?.mp (hcluster.covers n a hmem hsurvive.1 hdata)
    obtain ⟨hmsurvive, hmdata⟩ := named m hm
    rw [hm, hmsurvive.unique hsurvive hmdata hdata]

/-- One address of `check_check`. This is the create that can fail: an address that does not answer
must not have an error node already. -/
theorem checkCheckNode_runs {cfgs : StrMap} (ht : Tended t) {c addr node : Str}
    (hc : c :: checkPath ∈ t) (valid : ValidName addr) (herr : c :: errPath ∈ t)
    (free : addr ∉ cfgs → addr :: c :: errPath ∉ t) (here : node :: c :: checkPath ∈ t) :
    ∃ t', Ok serve (checkCheckNode cfgs c (addr, node)) t () t' ∧ Round c 0 t t' ∧
      (∀ q, q ≠ node :: c :: checkPath → q ∈ t → q ∈ t') ∧
      ∀ other ≠ addr, other :: c :: errPath ∈ t' → other :: c :: errPath ∈ t := by
  unfold checkCheckNode
  by_cases hans : addr ∈ cfgs
  · refine ⟨t, ?_, Round.refl ht hc 0, fun _ _ h => h, fun _ _ h => h⟩
    rw [if_pos hans]
    exact ok_pure.mpr ⟨rfl, rfl⟩
  · obtain ⟨s, hcreate⟩ : ∃ s, t.create (addr :: c :: errPath) (dataOf []) .persistent =
        .ok (addr :: c :: errPath, s) :=
      Tree.create_of_fresh valid herr (fun h => by cases h) (free hans)
    obtain ⟨_, hcreated⟩ := Tree.create_ok hcreate
    have hs : Tended s := ht.created plain_errorCluster hcreated
    have hgrown := Grown.of_created hcreated
    obtain ⟨t', hdelete, hdeleted⟩ := deleteNode_runs (hgrown.mem here) fun m => hs.checkLeaf m node c
    have hpruned := hdeleted.pruned
    have hcounter : ∀ d, t'.counter (d :: checkPath) = t.counter (d :: checkPath) := by
      intro d
      rw [(hpruned.kept _ (by simp)).2, hcreated.counter, if_neg (by simp [checkPath, errPath]),
        if_neg (by simp [checkPath, errPath])]
    have hsame : ∀ d, d ≠ c → SameCluster d t s := by
      intro d hd
      refine SameCluster.of_grown hd hgrown (fun q z hmade => ?_) ?_
      · rw [hmade.1]
        exact inCluster_node _ c _
      · rw [← hcounter d, (hpruned.kept _ (by simp)).2]
    refine ⟨t', ?_, ⟨hs.deleted hdeleted, hpruned.stays (hgrown.mem hc) (by simp),
      Nat.le_of_eq (hcounter c), fun d hd => ?_⟩, fun q hq hmem => ?_, fun other hother hmem => ?_⟩
    · rw [if_neg hans, Path.slash_name valid.2, ok_bind]
      exact ⟨_, s, orReturn_ok.mpr (createNode_ok.mpr hcreate), orReturn_ok.mpr hdelete⟩
    · refine (hsame d hd).trans (SameCluster.of_pruned hd hpruned fun q hq => ?_)
      rw [hq]
      exact inCluster_node node c _
    · exact hpruned.stays (hgrown.mem hmem) hq
    · refine ((hcreated.mem_iff _).mp (hpruned.sub hmem)).resolve_left fun heq => ?_
      exact hother (List.cons.inj heq).1

/-- The pass runs to its end if no address that it moves is in error already. -/
theorem checkCheck_runs (cfgs : StrMap) (ht : Tended t) (hcheck : checkPath ∈ t)
    (branches : ∀ c, c :: checkPath ∈ t → c :: errPath ∈ t)
    (free : ∀ c n a, HasData t (n :: c :: checkPath) a → a ∉ cfgs → a :: c :: errPath ∉ t) :
    ∃ t', Ok serve (checkCheck cfgs) t () t' := by
  obtain ⟨chks, s, hread⟩ := getCheck_runs ht hcheck
  have hs := (tended_ok tends_getCheck hread ht).1
  obtain ⟨_, hchecks⟩ := getCheck_ok hread
  have herror : ∀ a c, a :: c :: errPath ∈ s ↔ a :: c :: errPath ∈ t := fun a c =>
    hchecks.mem_outside fun n d heq => by simp [errPath, checkPath] at heq
  have hloop : ∃ t', Ok serve (chks.toList.forM fun entry =>
      entry.2.toList.forM (checkCheckNode cfgs entry.1)) s () t' ∧ Tended t' ∧
        ∀ entry ∈ chks.toList, True := by
    refine forM_clusters_runs Prod.fst Tended (fun _ _ => True) (Ordered.nodup_keys chks) hs
      (fun _ _ _ _ _ => trivial) ?_
    intro entry hentry s₁ hs₁ hsame
    obtain ⟨c, rdis⟩ := entry
    have hget := Std.ExtTreeMap.mem_toList_iff_getElem?_eq_some.mp hentry
    have hbranch : c :: checkPath ∈ t :=
      (hchecks.keys c).mp (Ordered.mem_iff_getElem?.mpr ⟨rdis, hget⟩)
    have hc : c :: checkPath ∈ s₁ :=
      (hsame.mem_iff [] _).mpr ((hchecks.mem_outside fun n d heq => by simp [checkPath] at heq).mpr hbranch)
    have herr : c :: errPath ∈ s₁ := (hsame.mem_iff [] _).mpr
      ((hchecks.mem_outside fun n d heq => by simp [checkPath] at heq).mpr (branches c hbranch))
    have hpair : ∀ pair ∈ rdis.toList, rdis[pair.1]? = some pair.2 ∧
        HasData s (pair.2 :: c :: checkPath) pair.1 := by
      intro pair hmem
      have hrdis := Std.ExtTreeMap.mem_toList_iff_getElem?_eq_some.mp hmem
      exact ⟨hrdis, (read_named ht.names hchecks hget pair.1 pair.2).mp hrdis⟩
    have hdistinct : ∀ x ∈ rdis.toList, ∀ y ∈ rdis.toList, y ≠ x → y.1 ≠ x.1 ∧ y.2 ≠ x.2 := by
      intro x hx y hy hne
      refine ⟨fun heq => hne (Prod.ext heq ?_), fun heq => hne (Prod.ext ?_ heq)⟩
      · have hsecond := (hpair y hy).1
        rw [heq, (hpair x hx).1] at hsecond
        exact (Option.some.inj hsecond).symm
      · have hdata := (hpair y hy).2
        rw [heq] at hdata
        exact hdata.unique (hpair x hx).2
    have hcluster : ∃ s', Ok serve (rdis.toList.forM (checkCheckNode cfgs c)) s₁ () s' ∧
        Round c (0 * rdis.toList.length) s₁ s' := by
      refine forM_rounds_runs 0 (fun pair s => c :: errPath ∈ s ∧
        (pair.1 ∉ cfgs → pair.1 :: c :: errPath ∉ s) ∧ pair.2 :: c :: checkPath ∈ s)
        (Ordered.nodup_keys rdis).of_map hs₁ hc (Nat.le_refl _) ?_ ?_
      · intro pair hmem
        have hdata := (hpair pair hmem).2
        refine ⟨herr, fun hsick herror₁ => ?_, (hsame.mem_iff [pair.2] _).mpr hdata.mem⟩
        have herror₀ := (herror _ _).mp ((hsame.mem_iff [pair.1] _).mp herror₁)
        obtain ⟨z, hz, hd⟩ := hdata
        exact free c pair.2 pair.1 ⟨z, hchecks.sub hz, hd⟩ hsick herror₀
      · intro pair hmem s₂ hs₂ hc₂ _ hready
        obtain ⟨herr₂, hfree, hhere⟩ := hready
        obtain ⟨d, hd, hvalid⟩ := hs.data pair.2 c (hpair pair hmem).2.mem
        rw [hd.unique (hpair pair hmem).2] at hvalid
        obtain ⟨s', hrun, hround, hkeep, hsub⟩ :=
          checkCheckNode_runs hs₂ hc₂ hvalid herr₂ hfree hhere
        refine ⟨s', hrun, hround, fun y hy hne hready => ?_⟩
        obtain ⟨hfirst, hsecond⟩ := hdistinct pair hmem y hy hne
        refine ⟨hkeep _ (by simp [errPath, checkPath]) hready.1,
          fun hsick => mt (hsub y.1 hfirst) (hready.2.1 hsick), ?_⟩
        exact hkeep _ (fun heq => hsecond (List.cons.inj heq).1) hready.2.2
    obtain ⟨s', hrun, hround⟩ := hcluster
    exact ⟨s', hrun, hround.tended, trivial, hround.others⟩
  obtain ⟨t', hrun, _⟩ := hloop
  unfold checkCheck
  exact ⟨t', ok_bind.mpr ⟨chks, s, orReturn_ok.mpr hread, hrun⟩⟩

/-! ## gen_legal_redis -/

/-- No exit of `gen_legal_redis` is taken while the redis of a cluster are gone through: all of them
answered, and none has a command yet. -/
theorem slaveofCmds_total {cfgs : StrMap} (master : Str) (first : Bool) (cmds : StrMap)
    {seqs : List (Str × Str)} (answered : ∀ entry ∈ seqs, entry.1 ∈ cfgs)
    (nodup : (seqs.map Prod.fst).Nodup) (new : ∀ a ∈ seqs.map Prod.fst, a ∉ cmds) :
    ∃ cmds', slaveofCmds cfgs master first cmds seqs = .ok cmds' ∧
      ∀ a ∈ cmds', a ∈ cmds ∨ a ∈ seqs.map Prod.fst := by
  induction seqs generalizing first cmds with
  | nil => exact ⟨cmds, rfl, fun _ h => Or.inl h⟩
  | cons entry seqs ih =>
    obtain ⟨rds, seq⟩ := entry
    rw [List.map_cons, List.nodup_cons] at nodup
    obtain ⟨cfg, hcfg⟩ := Ordered.mem_iff_getElem?.mp (answered (rds, seq) (by simp))
    have hrest : ∀ entry ∈ seqs, entry.1 ∈ cfgs := fun entry h => answered entry (by simp [h])
    have hnew : ∀ a ∈ seqs.map Prod.fst, a ∉ cmds := fun a h => new a (List.mem_cons_of_mem _ h)
    rw [slaveofCmds, hcfg]
    dsimp only
    by_cases hsame : cfg = if first then [] else master
    · obtain ⟨cmds', hrun, hkeys⟩ := ih false cmds hrest nodup.2 hnew
      refine ⟨cmds', by rw [if_pos hsame]; exact hrun, fun a ha => ?_⟩
      exact (hkeys a ha).imp_right (List.mem_cons_of_mem _)
    · rw [if_neg hsame, if_neg (new rds (by simp))]
      obtain ⟨cmds', hrun, hkeys⟩ := ih false _ hrest nodup.2 fun a ha hmem => by
        rcases Ordered.mem_insert_map.mp hmem with rfl | hmem
        · exact nodup.1 ha
        · exact hnew a ha hmem
      refine ⟨cmds', hrun, fun a ha => ?_⟩
      rcases hkeys a ha with hmem | hmem
      · rcases Ordered.mem_insert_map.mp hmem with rfl | hmem
        · exact Or.inr (by simp)
        · exact Or.inl hmem
      · exact Or.inr (List.mem_cons_of_mem _ hmem)

/-- A cluster is listed if its checked addresses answer and have no command yet, and an
address in error stands by when none is checked. -/
theorem genCluster_total {cfgs : StrMap} {errs : Clusters} (legal : Legal) {cluster : Str}
    {rds : StrMap} (answered : ∀ a ∈ rds, a ∈ cfgs) (new : ∀ a ∈ rds, a ∉ legal.cmds)
    (standby : (∀ a, a ∉ rds) → ∃ nodes, errs[cluster]? = some nodes ∧ nodes.toList ≠ []) :
    ∃ legal', genCluster cfgs errs legal (cluster, rds) = .ok legal' ∧
      ∀ a ∈ legal'.cmds, a ∈ legal.cmds ∨ a ∈ rds := by
  have hmem : ∀ entry ∈ sortRedis rds, entry.1 ∈ rds := fun entry h =>
    Ordered.mem_iff_getElem?.mpr ⟨entry.2, mem_sortRedis.mp h⟩
  unfold genCluster
  cases hsort : sortRedis rds with
  | nil =>
    obtain ⟨nodes, herrs, hne⟩ := standby fun a ha => by
      obtain ⟨n, hn⟩ := Ordered.mem_iff_getElem?.mp ha
      have hentry := mem_sortRedis.mpr (show rds[((a, n) : Str × Str).1]? = some n from hn)
      rw [hsort] at hentry
      cases hentry
    cases hnodes : nodes.toList with
    | nil => exact absurd hnodes hne
    | cons addr rest =>
      simp only [herrs, Option.map_some, hnodes]
      exact ⟨_, rfl, fun a ha => Or.inl ha⟩
  | cons entry seqs =>
    obtain ⟨master, seq⟩ := entry
    rw [hsort] at hmem
    have hkeys : ((sortRedis rds).map Prod.fst).Nodup :=
      ((sortRedis_perm rds).map Prod.fst).nodup_iff.mpr (Ordered.nodup_keys rds)
    rw [hsort] at hkeys
    have hlisted : ∀ a ∈ ((master, seq) :: seqs).map Prod.fst, a ∈ rds := by
      intro a ha
      obtain ⟨entry, hentry, rfl⟩ := List.mem_map.mp ha
      exact hmem entry hentry
    obtain ⟨cmds, hrun, hcmds⟩ := slaveofCmds_total master true legal.cmds
      (fun entry h => answered _ (hmem entry h)) hkeys fun a ha => new a (hlisted a ha)
    dsimp only
    rw [hrun]
    exact ⟨_, rfl, fun a ha => (hcmds a ha).imp_right (hlisted a)⟩

/-- The loop of `gen_legal_redis` comes to its end where all checked addresses answer, every one is
in one cluster, and a cluster without checked addresses has an error node. -/
theorem genClusters_total {cfgs : StrMap} {errs : Clusters} {chks : Checks}
    (answered : ∀ (c : Str) (rds : StrMap), chks[c]? = some rds → ∀ a ∈ rds, a ∈ cfgs)
    (single : ∀ (c d : Str) (rds rds' : StrMap) (a : Str), chks[c]? = some rds →
      chks[d]? = some rds' → a ∈ rds → a ∈ rds' → c = d)
    (standby : ∀ (c : Str) (rds : StrMap), chks[c]? = some rds → (∀ a, a ∉ rds) →
      ∃ nodes, errs[c]? = some nodes ∧ nodes.toList ≠ []) :
    ∃ legal, chks.toList.foldlM (genCluster cfgs errs) ⟨∅, ∅⟩ = .ok legal := by
  refine foldlM_except_total (fun visited (legal : Legal) => ∀ a ∈ legal.cmds,
    ∃ c ∈ visited.map Prod.fst, ∃ rds, chks[c]? = some rds ∧ a ∈ rds) (by simp) ?_
  intro visited entry rest hsplit legal hcmds
  obtain ⟨c, rds⟩ := entry
  obtain ⟨hget, hnew⟩ := Ordered.visiting hsplit
  obtain ⟨legal', hrun, hnext⟩ := genCluster_total legal (answered c rds hget)
    (fun a ha hmem => by
      obtain ⟨d, hd, rds', hget', ha'⟩ := hcmds a hmem
      obtain rfl := single c d rds rds' a hget hget' ha ha'
      exact hnew hd)
    (standby c rds hget)
  refine ⟨legal', hrun, fun a ha => ?_⟩
  rcases hnext a ha with hmem | hmem
  · obtain ⟨d, hd, hrest⟩ := hcmds a hmem
    exact ⟨d, by rw [List.map_append]; exact List.mem_append_left _ hd, hrest⟩
  · exact ⟨c, by simp, rds, hget, hmem⟩

/-- Children of `legal_nodes` that are there can be removed, and nothing else goes. -/
theorem rmLegals_runs (ht : Tended t) (nodes : Addrs) (present : ∀ n ∈ nodes, n :: nodePath ∈ t) :
    ∃ t', Ok serve (nodes.toList.forM rmLegal) t () t' ∧
      t.Pruned t' fun q => ∃ n ∈ nodes.toList, q = n :: nodePath := by
  refine ok_forM_total (fun visited s => t.Pruned s fun q => ∃ n ∈ visited, q = n :: nodePath) ?_ ?_
  · exact (Tree.Pruned.refl t).congr fun q => by simp
  · intro visited n rest hsplit s hpruned
    have hmem : n :: nodePath ∈ s := by
      apply hpruned.stays (present n (Ordered.visiting_set hsplit).1)
      intro hvisited
      obtain ⟨m, hm, heq⟩ := hvisited
      cases heq
      exact Ordered.not_visited hsplit hm
    obtain ⟨s', hrun, hdeleted⟩ :=
      deleteNode_runs hmem fun m hm => ht.legalLeaf m n (hpruned.sub hm)
    refine ⟨s', orReturn_ok.mpr hrun, (hpruned.trans hdeleted.pruned).congr fun q => ?_⟩
    simp [or_and_right, exists_or]

/-- Children of `legal_nodes` that are not there can be created. -/
theorem addLegals_runs (hpath : nodePath ∈ t) (nodes : Addrs) (valid : ∀ n ∈ nodes, ValidName n)
    (new : ∀ n ∈ nodes, n :: nodePath ∉ t) :
    ∃ t', Ok serve (nodes.toList.forM addLegal) t () t' := by
  have hloop : ∃ t', Ok serve (nodes.toList.forM addLegal) t () t' ∧ nodePath ∈ t' ∧
      ∀ n, n :: nodePath ∈ t' → n ∈ nodes.toList ∨ n :: nodePath ∈ t := by
    refine ok_forM_total (fun visited s => nodePath ∈ s ∧
      ∀ n, n :: nodePath ∈ s → n ∈ visited ∨ n :: nodePath ∈ t) ⟨hpath, fun _ => Or.inr⟩ ?_
    intro visited n rest hsplit s hinv
    obtain ⟨hs, hnodes⟩ := hinv
    have hn : n ∈ nodes := (Ordered.visiting_set hsplit).1
    have hfresh : n :: nodePath ∉ s := by
      intro hmem
      rcases hnodes n hmem with hvisited | hold
      · exact Ordered.not_visited hsplit hvisited
      · exact new n hn hold
    obtain ⟨s', hcreate⟩ : ∃ s', s.create (n :: nodePath) (dataOf []) .persistent =
        .ok (n :: nodePath, s') :=
      Tree.create_of_fresh (valid n hn) hs (fun h => by cases h) hfresh
    have hrun : Ok serve (addLegal n) s () s' := by
      unfold addLegal
      rw [Path.slash_name (valid n hn).2]
      exact create_unit.mpr ⟨_, hcreate⟩
    obtain ⟨_, hkeep, hadded⟩ := addLegal_ok hrun
    obtain ⟨_, honly⟩ := hadded (valid n hn).2
    refine ⟨s', hrun, hkeep _ hs, fun m hm => ?_⟩
    rcases honly m hm with rfl | hold
    · exact Or.inl (by simp)
    · exact (hnodes m hold).imp_left fun h => by simp [h]
  obtain ⟨t', hrun, _⟩ := hloop
  exact ⟨t', hrun⟩

theorem legalNode_ne_nil (idx : Int) (list : List Str) : legalNode idx list ≠ [] := by
  have fold : ∀ cls : Str, cls ≠ [] → list.foldl (fun cls addr => cls ++ ';' :: addr) cls ≠ [] := by
    induction list with
    | nil => exact fun _ h => h
    | cons addr list ih =>
      intro cls _
      exact ih _ (by simp)
  exact fold _ (Text.decimal_ne_nil idx)

/-- What is published is a name that ZooKeeper takes. -/
theorem validName_legalSet {lists : Std.ExtTreeMap Str (List Str)} (h : ValidLists lists)
    {node : Str} (hnode : node ∈ legalSet lists) : ValidName node := by
  refine ⟨?_, slash_not_mem_legalSet h node hnode⟩
  obtain ⟨c, list, _, rfl⟩ := mem_legalSet.mp hnode
  exact legalNode_ne_nil _ _

/-- `legal_cmp` ends well on a tended tree, as it creates only what is not there. -/
theorem legalCmp_runs (ht : Tended t) (hpath : nodePath ∈ t)
    {lists : Std.ExtTreeMap Str (List Str)} (valid : ValidLists lists) (numbered : Numbered lists) :
    ∃ t', Ok serve (legalCmp lists) t () t' := by
  obtain ⟨s, hrms, hpruned⟩ := rmLegals_runs ht
    ((nodesOf t nodePath false).filter (· ∉ legalSet lists)) fun n hn => (mem_nodesOf.mp (mem_filter_addrs.mp hn).1).1
  obtain ⟨t', hadds⟩ := addLegals_runs (hpruned.stays hpath (by simp))
    ((legalSet lists).filter (· ∉ nodesOf t nodePath false))
    (fun n hn => validName_legalSet valid (mem_filter_addrs.mp hn).1) fun n hn hmem => by
      have hold := (mem_filter_addrs.mp hn).2
      rw [decide_eq_true_eq, mem_nodesOf] at hold
      exact hold ⟨hpruned.sub hmem, by simp⟩
  refine ⟨t', ?_⟩
  unfold legalCmp
  rw [ok_bind]
  refine ⟨nodesOf t nodePath false, t, orReturn_ok.mpr (getNodes_ok.mpr ⟨hpath, rfl, rfl⟩), ?_⟩
  rw [ok_bind]
  refine ⟨legalSet lists, t, ?_, ok_bind.mpr ⟨(), s, hrms, hadds⟩⟩
  rw [foldlM_addLegalNode, if_neg (numbered_iff.mp numbered)]
  exact ok_pure.mpr ⟨rfl, rfl⟩

/-- After the membership passes `gen_legal_redis` ends well, whatever the redis replicate. -/
theorem genLegalRedis_runs (ht : Tended t) (base : ∀ q ∈ basePaths, q ∈ t) {cfgs : Clusters}
    {answers : StrMap} (partition : Partition cfgs answers t) (single : SingleHome cfgs)
    (numbered : ∀ c ∈ cfgs, cutIdx clusterPrefix c ≠ -1)
    (populated : ∀ (c : Str) (addrs : Addrs), cfgs[c]? = some addrs → ∃ a, a ∈ addrs) :
    ∃ legal t', Ok serve (genLegalRedis answers) t legal t' := by
  obtain ⟨chks, s, hread⟩ := getCheck_runs ht (base checkPath (by simp [basePaths]))
  obtain ⟨hs, hvalidChecks⟩ := tended_ok tends_getCheck hread ht
  obtain ⟨_, hchecks⟩ := getCheck_ok hread
  obtain ⟨errs, herrs⟩ := getClusterNode_runs false
    ((hchecks.mem_outside fun _ _ h => by simp [errPath, checkPath] at h).mpr (base errPath (by simp [basePaths])))
  have hvalidErrors := (tended_ok tends_getClusterNode herrs hs).2
  have hentries := (getClusterNode_ok.mp herrs).2.2
  -- a checked address is configured in its cluster, and answers
  have checked : ∀ (c : Str) (rds : StrMap), chks[c]? = some rds → ∀ a ∈ rds,
      ∃ addrs, cfgs[c]? = some addrs ∧ a ∈ addrs ∧ a ∈ answers := by
    intro c rds hget a ha
    obtain ⟨n, hn⟩ := Ordered.mem_iff_getElem?.mp ha
    have hdata := ((hchecks.clusters c rds hget).names a n hn).2.2
    have hc : c ∈ cfgs := (partition.checkClusters c).mp (Tree.mem_parent hdata.mem)
    obtain ⟨addrs, haddrs⟩ := Ordered.mem_iff_getElem?.mp hc
    obtain ⟨b, hb, hmem, hans⟩ := partition.checkData c addrs haddrs n hdata.mem
    rw [hb.unique hdata] at hmem hans
    exact ⟨addrs, haddrs, hmem, hans⟩
  have hclusters : ∀ c, c ∈ chks ↔ c ∈ cfgs := fun c =>
    (hchecks.keys c).trans (partition.checkClusters c)
  have hlists : ∃ legal, chks.toList.foldlM (genCluster answers errs) ⟨∅, ∅⟩ = .ok legal := by
    apply genClusters_total
    · intro c rds hget a ha
      obtain ⟨_, _, _, hans⟩ := checked c rds hget a ha
      exact hans
    · intro c d rds rds' a hc hd ha ha'
      obtain ⟨addrs, haddrs, hmem, _⟩ := checked c rds hc a ha
      obtain ⟨addrs', haddrs', hmem', _⟩ := checked d rds' hd a ha'
      exact single c d addrs addrs' a haddrs haddrs' hmem hmem'
    · intro c rds hget hnone
      have hc := (hclusters c).mp (Ordered.mem_iff_getElem?.mpr ⟨rds, hget⟩)
      obtain ⟨addrs, haddrs⟩ := Ordered.mem_iff_getElem?.mp hc
      obtain ⟨a, ha⟩ := populated c addrs haddrs
      have hsick : a ∉ answers := by
        intro hans
        obtain ⟨n, hn, _⟩ := partition.checkUnique c addrs haddrs a ha hans
        exact hnone a ((hchecks.clusters c rds hget).covers n a hn.mem (ht.names.has_idx hn.mem) hn)
      have herror : a :: c :: errPath ∈ s :=
        (hchecks.mem_outside fun n d heq => by simp [errPath, checkPath] at heq).mpr
          ((partition.errorNodes c addrs haddrs a).mpr ⟨ha, hsick⟩)
      refine ⟨nodesOf s (c :: errPath) false, ?_, fun hnil => ?_⟩
      · rw [hentries]
        exact clusterEntry_some.mpr ⟨Tree.mem_parent herror, by simp, rfl⟩
      · have hmem : a ∈ nodesOf s (c :: errPath) false := mem_nodesOf.mpr ⟨herror, by simp⟩
        rw [← Std.ExtTreeSet.mem_toList, hnil] at hmem
        cases hmem
  obtain ⟨legal, hlegal⟩ := hlists
  have hlisted := genClusters_ok hlegal
  have hnumbered : Numbered legal.clusterLegalRedis := fun c hc =>
    numbered c ((hclusters c).mp ((hlisted.keys c).mp hc))
  obtain ⟨t', hcmp⟩ := legalCmp_runs hs
    ((hchecks.mem_outside fun _ _ h => by simp [nodePath, checkPath] at h).mpr
      (base nodePath (by simp [basePaths])))
    (validLists hvalidErrors hvalidChecks hlisted) hnumbered
  refine ⟨legal, t', ?_⟩
  unfold genLegalRedis
  rw [ok_bind]
  refine ⟨chks, s, orReturn_ok.mpr hread, ?_⟩
  rw [ok_bind]
  refine ⟨errs, s, orReturn_ok.mpr herrs, ?_⟩
  rw [ok_bind]
  refine ⟨legal, s, ok_liftExcept.mpr ⟨hlegal, rfl⟩, ?_⟩
  rw [ok_bind]
  exact ⟨(), t', orReturn_ok.mpr hcmp, ok_pure.mpr ⟨rfl, rfl⟩⟩

end RedisCluster.Guarantees
