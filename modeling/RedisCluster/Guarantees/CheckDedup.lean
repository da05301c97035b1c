import RedisCluster.Source.CtrlCalls

/-!
# One check node for an address

`get_check` reads the check nodes of a cluster in the order of their names and leaves one of those
with the same address. Its map should name the node that is left, which should be the oldest. It
deletes the node it reads last, also where that is the older one: the iterator into the map already
sees the new name.

Names that ZooKeeper gives come in the order of their numbers, so this takes a name that was written
by hand.
-/

set_option autoImplicit false

namespace RedisCluster.Guarantees
open Library Source Routine

/-- What `get_check` is to leave: the map and the nodes agree, and an address keeps its
oldest node. -/
structure Deduplicated (t : Tree) (path : Path) (chks : Checks) (t' : Tree) : Prop where
  clusters : ∀ c, c ∈ chks ↔ c :: path ∈ t
  named : ∀ (c : Str) (rdis : StrMap) (addr n : Str), chks[c]? = some rdis →
    rdis[addr]? = some n → HasData t' (n :: c :: path) addr
  appears : ∀ (c : Str) (rdis : StrMap) (n : Str), chks[c]? = some rdis →
    n :: c :: path ∈ t' → ∃ addr : Str, rdis[addr]? = some n
  oldest : ∀ c n m addr, n :: c :: path ∈ t' → HasData t (n :: c :: path) addr →
    HasData t (m :: c :: path) addr → cutIdx redisPrefix m ≠ -1 →
      cutIdx redisPrefix n ≤ cutIdx redisPrefix m

/-- The first name of an address that has a number has the smallest one. -/
def OldestFirst (t : Tree) (path : Path) : Prop :=
  ∀ c n m addr, Survives t (c :: path) n → HasData t (n :: c :: path) addr →
    HasData t (m :: c :: path) addr → cutIdx redisPrefix m ≠ -1 →
      cutIdx redisPrefix n ≤ cutIdx redisPrefix m

section Read
variable {t t' : Tree} {path : Path} {chks : Checks} {c : Str} {rdis : StrMap}

/-- Where the first name is the oldest, the map names the node that is left. -/
theorem named_survives (ordered : OldestFirst t path)
    (h : ClusterRead t (c :: path) (fun n => n :: c :: path ∈ t) rdis t') {addr n : Str}
    (hn : rdis[addr]? = some n) : Survives t (c :: path) n := by
  obtain ⟨_, hidx, hdata⟩ := h.names addr n hn
  obtain ⟨m, hm, hsurvives, hmdata⟩ := h.survivor addr (Ordered.mem_iff_getElem?.mpr ⟨n, hn⟩)
  cases hcompare : compare m n with
  | eq =>
    obtain rfl := Std.LawfulEqOrd.compare_eq_iff_eq.mp hcompare
    exact hsurvives
  | lt =>
    -- the map has changed its name for the address to a smaller number
    have hless := (h.least addr n m hn hm hsurvives.1 hmdata).2 hcompare
    have hle := ordered c m n addr hsurvives hmdata hdata hidx
    omega
  | gt =>
    have hless : compare n m = .lt := by
      rw [Std.OrientedOrd.eq_swap, hcompare]
      rfl
    exact absurd hmdata (hsurvives.2 n addr hless hidx hdata)

theorem dedup_of_ordered (ordered : OldestFirst t path)
    (h : CheckRead t path (fun c => c :: path ∈ t) chks t') : Deduplicated t path chks t' where
  clusters := h.keys
  named := by
    intro c rdis addr n hc hn
    have hcluster := h.clusters c rdis hc
    obtain ⟨hmem, _, hdata⟩ := hcluster.names addr n hn
    exact (HasData.congr (hcluster.kept n hmem (named_survives ordered hcluster hn))).mpr hdata
  appears := by
    intro c rdis n hc hn
    have hcluster := h.clusters c rdis hc
    obtain ⟨hold, hsurvives⟩ := h.survives hn
    obtain ⟨addr, hdata⟩ := hcluster.data n hold
    obtain ⟨m, hm⟩ := Ordered.mem_iff_getElem?.mp (hcluster.covers n addr hold hsurvives.1 hdata)
    have hmsurvives := named_survives ordered hcluster hm
    obtain rfl := hmsurvives.unique hsurvives (hcluster.names addr m hm).2.2 hdata
    exact ⟨addr, hm⟩
  oldest := by
    intro c n m addr hn hdata hmdata hidx
    exact ordered c n m addr (h.survives hn).2 hdata hmdata hidx

theorem ordered_of_dedup (h : CheckRead t path (fun c => c :: path ∈ t) chks t')
    (dedup : Deduplicated t path chks t') : OldestFirst t path := by
  intro c n m addr hsurvives hdata hmdata hidx
  have hmem : n :: c :: path ∈ t := hdata.mem
  obtain ⟨rdis, hc⟩ := Ordered.mem_iff_getElem?.mp ((h.keys c).mpr (Tree.mem_parent hmem))
  have hkept := (HasData.congr ((h.clusters c rdis hc).kept n hmem hsurvives)).mpr hdata
  exact dedup.oldest c n m addr hkept.mem hdata hmdata hidx

end Read

/-- A successful `get_check` leaves the oldest node of every address, and names it, exactly where
the first name of every address is the oldest. Names come in the order of a `set`, so this is about
names with different spellings of their numbers. A `get_check` that fails on the way is not covered.
-/
theorem check_dedup_iff (t t' : Tree) (path : Path) (chks : Checks)
    (run : Ok ZkCall.serve (getCheck path) t chks t') :
    Deduplicated t path chks t' ↔ OldestFirst t path := by
  obtain ⟨_, hread⟩ := getCheck_ok run
  exact ⟨ordered_of_dedup hread, fun ordered => dedup_of_ordered ordered hread⟩

/-- Two nodes of one address. -/
def twiceChecked (first second : String) : Tree :=
  Tree.empty.plant [(checkPath, none), ("cluster1".toList :: checkPath, none),
    (first.toList :: "cluster1".toList :: checkPath, some "1.0.0.1:80".toList),
    (second.toList :: "cluster1".toList :: checkPath, some "1.0.0.1:80".toList)]

theorem check_dedup_iff_example : ∃ chks t',
    Ok ZkCall.serve (getCheck checkPath) (twiceChecked "r9" "r90") chks t' ∧
      (Deduplicated (twiceChecked "r9" "r90") checkPath chks t' ↔
        OldestFirst (twiceChecked "r9" "r90") checkPath) := by
  have hends : endsWith ZkCall.serve (getCheck checkPath) (twiceChecked "r9" "r90")
      (fun _ _ => true) = true := by
    decide +kernel
  obtain ⟨chks, t', hrun, _⟩ := endsWith_iff.mp hends
  exact ⟨chks, t', hrun, check_dedup_iff _ t' checkPath chks hrun⟩

/-- `r10` comes before `r9`: the map then names `r9`, and `r10` is left. -/
theorem check_dedup_fails : ∃ chks t',
    Ok ZkCall.serve (getCheck checkPath) (twiceChecked "r10" "r9") chks t' ∧
      ¬ Deduplicated (twiceChecked "r10" "r9") checkPath chks t' := by
  have hends : endsWith ZkCall.serve (getCheck checkPath) (twiceChecked "r10" "r9") (fun chks t' =>
      (chks["cluster1".toList]?.any fun rdis => rdis["1.0.0.1:80".toList]? = some "r9".toList) &&
        decide ("r9".toList :: "cluster1".toList :: checkPath ∉ t')) = true := by
    decide +kernel
  obtain ⟨chks, t', hrun, htest⟩ := endsWith_iff.mp hends
  rw [Bool.and_eq_true, Option.any_eq_true, decide_eq_true_eq] at htest
  obtain ⟨⟨rdis, hc, hn⟩, hgone⟩ := htest
  refine ⟨chks, t', hrun, fun dedup => hgone ?_⟩
  exact (dedup.named _ rdis _ _ hc (of_decide_eq_true hn)).mem

end RedisCluster.Guarantees
