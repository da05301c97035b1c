import RedisCluster.Guarantees.Addresses
import RedisCluster.Guarantees.Completion
import RedisCluster.Source.Replication

/-!
# The replication star

The commands of `gen_legal_redis` make every cluster a star: the address with the least
check node is a master, and every other checked address is its slave, whatever the redis
replicated before. A redis that is already right gets no command.
-/

set_option autoImplicit false

namespace RedisCluster.Guarantees
open Library Routine Source

/-! ## What check_redis reads -/

/-- Only a redis that was asked replies, and a valid reply tells what that redis reports. -/
structure Reports (net : Network) (upstreams : Upstreams) : Prop where
  asked : ∀ n cmds a, a ∈ net n cmds → a ∈ cmds
  honest : ∀ n cmds a rv s, (net n cmds)[a]? = some rv → slaveofReply rv = some s →
    s = ipPort (upstreams a)

/-- The configurations are those of redis, under the texts that stand for them. -/
def Surveyed (cfgs : StrMap) (upstreams : Upstreams) : Prop :=
  ∀ addr cfg, cfgs[addr]? = some cfg → ∃ a, strIpv4Int64 addr = some a ∧
    addr = int64StrIpv4 a ∧ cfg = ipPort (upstreams a)

section Survey
variable {net : Network} {upstreams : Upstreams} {addrs : Addrs} {cfgs : StrMap}

/-- Every address that is asked is that of a text. -/
theorem mem_configCommands {a : UInt64} (h : a ∈ configCommands addrs) :
    ∃ addr, strIpv4Int64 addr = some a := by
  revert h
  unfold configCommands
  refine List.foldlRecOn (motive := fun cmds => a ∈ cmds → ∃ addr, strIpv4Int64 addr = some a) _ _
    (by simp) ?_
  intro cmds hcmds addr _
  cases hread : strIpv4Int64 addr with
  | none => exact hcmds
  | some ipv4 =>
    intro ha
    rcases Ordered.mem_insert_map.mp ha with rfl | hold
    · exact ⟨addr, hread⟩
    · exact hcmds hold

/-- One attempt adds what redis report. -/
theorem surveyed_attempt (reports : Reports net upstreams) (n : Nat) (h : Surveyed cfgs upstreams) :
    Surveyed ((net n (configCommands addrs)).toList.foldl (fun cfgs (ipv4, rv) =>
      match slaveofReply rv with
      | some slaveof => cfgs.insert (int64StrIpv4 ipv4) slaveof
      | none => cfgs) cfgs) upstreams := by
  refine List.foldlRecOn (motive := fun cfgs => Surveyed cfgs upstreams) _ _ h ?_
  rintro cfgs hcfgs ⟨a, rv⟩ hentry
  have hget := Std.ExtTreeMap.mem_toList_iff_getElem?_eq_some.mp hentry
  dsimp only
  cases hreply : slaveofReply rv with
  | none => exact hcfgs
  | some s =>
    intro addr cfg hcfg
    dsimp only at hcfg
    rw [Ordered.getElem?_insert] at hcfg
    split at hcfg
    · next heq =>
      cases hcfg
      obtain ⟨text, htext⟩ :=
        mem_configCommands (reports.asked _ _ a (Ordered.mem_iff_getElem?.mpr ⟨rv, hget⟩))
      exact ⟨a, heq ▸ strIpv4Int64_int64StrIpv4 (port_of_strIpv4Int64 htext), heq,
        reports.honest _ _ a rv _ hget hreply⟩
    · exact hcfgs addr cfg hcfg

theorem surveyed_checkRedis (reports : Reports net upstreams) (tries : Nat) (addrs : Addrs)
    (h : Surveyed cfgs upstreams) : Surveyed (checkRedis net tries addrs cfgs) upstreams := by
  induction tries generalizing addrs cfgs with
  | zero => exact surveyed_attempt reports 1 h
  | succ tries ih =>
    have hattempt := @surveyed_attempt net upstreams addrs cfgs reports (tries + 2) h
    rw [checkRedis]
    dsimp only
    split
    · exact hattempt
    · exact ih _ hattempt

end Survey

/-! ## The commands of a cluster -/

/-- The address with the least check node. -/
def Leader (rds : StrMap) (master : Str) : Prop :=
  ∃ seq, rds[master]? = some seq ∧
    ∀ (a n : Str), rds[a]? = some n → a ≠ master → compare seq n = .lt

/-- The upstream that a checked address should report. -/
def wanted (master a : Str) : Str := if a = master then [] else master

/-- The command that makes it so. -/
def remedy (master a : Str) : Str := if a = master then "NO:ONE".toList else master

/-- The address is checked, reports another upstream than it should, and gets the command. -/
def Commanded (cfgs rds : StrMap) (a cmd : Str) : Prop :=
  ∃ master, Leader rds master ∧ a ∈ rds ∧ cfgs[a]? ≠ some (wanted master a) ∧
    cmd = remedy master a

theorem Leader.unique {rds : StrMap} {m m' : Str} (h : Leader rds m) (h' : Leader rds m') :
    m = m' := by
  obtain ⟨seq, hm, hleast⟩ := h
  obtain ⟨seq', hm', hleast'⟩ := h'
  by_contra hne
  have hlt := hleast m' seq' hm' (Ne.symm hne)
  have hgt := hleast' m seq hm hne
  rw [Std.OrientedOrd.eq_swap, hgt] at hlt
  cases hlt

/-- Different addresses have different check nodes. -/
def NamesApart (rds : StrMap) : Prop :=
  ∀ a b n : Str, rds[a]? = some n → rds[b]? = some n → a = b

/-- The head of the sorted list is the leader. -/
theorem leader_of_sort {rds : StrMap} (apart : NamesApart rds) {master seq : Str}
    {seqs : List (Str × Str)} (h : sortRedis rds = (master, seq) :: seqs) : Leader rds master := by
  have hmaster : rds[master]? = some seq :=
    mem_sortRedis.mp (show (master, seq) ∈ sortRedis rds by simp [h])
  refine ⟨seq, hmaster, fun a n ha hne => ?_⟩
  have hentry : ((a, n) : Str × Str) ∈ sortRedis rds := mem_sortRedis.mpr ha
  have hle := sortRedis_head h hentry
  dsimp only at hle
  cases hcmp : compare seq n with
  | lt => rfl
  | eq => exact absurd (apart a master n ha (Std.LawfulEqOrd.eq_of_compare hcmp ▸ hmaster)) hne
  | gt => rw [hcmp] at hle; cases hle

section Commands
variable {cfgs cmds cmds' rds : StrMap} {master : Str}

/-- One round of the loop adds a command, or finds none missing. -/
theorem slaveofCmds_cons {first : Bool} {addr seq : Str} {seqs : List (Str × Str)}
    (h : slaveofCmds cfgs master first cmds ((addr, seq) :: seqs) = .ok cmds') :
    ∃ cmds₁, slaveofCmds cfgs master false cmds₁ seqs = .ok cmds' ∧
      ∀ a : Str, cmds₁[a]? =
        if a = addr ∧ cfgs[a]? ≠ some (if first then [] else master)
        then some (if first then "NO:ONE".toList else master) else cmds[a]? := by
  rw [slaveofCmds] at h
  cases hcfg : cfgs[addr]? with
  | none => rw [hcfg] at h; cases h
  | some cfg =>
    rw [hcfg] at h
    dsimp only at h
    by_cases hsame : cfg = if first then [] else master
    · rw [if_pos hsame] at h
      refine ⟨cmds, h, fun a => ?_⟩
      rw [if_neg]
      rintro ⟨rfl, hne⟩
      exact hne (hcfg.trans (congrArg some hsame))
    · rw [if_neg hsame] at h
      split at h
      · cases h
      · refine ⟨_, h, fun a => ?_⟩
        rw [Ordered.getElem?_insert]
        by_cases ha : a = addr
        · have hne : cfgs[a]? ≠ some (if first then [] else master) := fun heq =>
            hsame (Option.some.inj (hcfg.symm.trans (ha ▸ heq)))
          rw [if_pos ha, if_pos (And.intro ha hne)]
        · rw [if_neg ha, if_neg fun hand => ha hand.1]

/-- The slaves get the address of the master, unless they have it. -/
theorem slaveofCmds_slaves {seqs : List (Str × Str)} (nodup : (seqs.map Prod.fst).Nodup)
    (h : slaveofCmds cfgs master false cmds seqs = .ok cmds') (a : Str) :
    cmds'[a]? = if a ∈ seqs.map Prod.fst ∧ cfgs[a]? ≠ some master then some master
      else cmds[a]? := by
  induction seqs generalizing cmds with
  | nil =>
    cases h
    simp
  | cons entry seqs ih =>
    obtain ⟨addr, seq⟩ := entry
    rw [List.map_cons, List.nodup_cons] at nodup
    obtain ⟨cmds₁, hrest, hstep⟩ := slaveofCmds_cons h
    rw [ih nodup.2 hrest, hstep a]
    simp only [List.map_cons, List.mem_cons, Bool.false_eq_true, if_false]
    by_cases ha : a = addr
    · subst ha
      simp [nodup.1]
    · rw [if_neg (fun hand => ha hand.1 : ¬ (a = addr ∧ cfgs[a]? ≠ some master))]
      exact if_congr (by simp [ha]) rfl rfl

/-- All commands of a cluster that has a master. -/
theorem slaveofCmds_star {seq : Str} {seqs : List (Str × Str)}
    (nodup : (((master, seq) :: seqs).map Prod.fst).Nodup)
    (h : slaveofCmds cfgs master true cmds ((master, seq) :: seqs) = .ok cmds') (a : Str) :
    cmds'[a]? =
      if a ∈ ((master, seq) :: seqs).map Prod.fst ∧ cfgs[a]? ≠ some (wanted master a)
      then some (remedy master a) else cmds[a]? := by
  rw [List.map_cons, List.nodup_cons] at nodup
  obtain ⟨cmds₁, hrest, hstep⟩ := slaveofCmds_cons h
  rw [slaveofCmds_slaves nodup.2 hrest, hstep a, wanted, remedy]
  simp only [List.map_cons, List.mem_cons, if_true]
  by_cases ha : a = master
  · subst ha
    rw [if_neg fun hand => nodup.1 hand.1, if_pos rfl, if_pos rfl]
    exact if_congr (and_congr_left' (iff_of_true rfl (Or.inl rfl))) rfl rfl
  · rw [if_neg ha, if_neg ha, if_neg (fun hand => ha hand.1 : ¬ (a = master ∧ cfgs[a]? ≠ some []))]
    exact if_congr (by simp [ha]) rfl rfl

theorem mem_sorted {a : Str} : a ∈ (sortRedis rds).map Prod.fst ↔ a ∈ rds := by
  rw [List.mem_map, Ordered.mem_iff_getElem?]
  constructor
  · rintro ⟨⟨b, n⟩, hentry, rfl⟩
    exact ⟨n, mem_sortRedis.mp hentry⟩
  · rintro ⟨n, hn⟩
    exact ⟨(a, n), mem_sortRedis.mpr hn, rfl⟩

/-- A cluster adds the commands that its addresses need. -/
theorem genCluster_cmds {errs : Clusters} {legal legal' : Legal} {c : Str}
    (apart : NamesApart rds) (h : genCluster cfgs errs legal (c, rds) = .ok legal')
    (new : ∀ a ∈ rds, a ∉ legal.cmds) (a cmd : Str) :
    legal'.cmds[a]? = some cmd ↔ Commanded cfgs rds a cmd ∨ legal.cmds[a]? = some cmd := by
  unfold genCluster at h
  dsimp only at h
  cases hsort : sortRedis rds with
  | nil =>
    have hnone : ∀ b, b ∉ rds := fun b hb => by
      have hmem := mem_sorted.mpr hb
      rw [hsort] at hmem
      cases hmem
    have hcmds : legal'.cmds = legal.cmds := by
      rw [hsort] at h
      dsimp only at h
      split at h
      · cases h
        rfl
      · cases h
    rw [hcmds, or_iff_right]
    rintro ⟨_, _, ha, _⟩
    exact hnone a ha
  | cons entry seqs =>
    obtain ⟨master, seq⟩ := entry
    rw [hsort] at h
    dsimp only at h
    have hleader := leader_of_sort apart hsort
    have hkeys : ((sortRedis rds).map Prod.fst).Nodup :=
      ((sortRedis_perm rds).map Prod.fst).nodup_iff.mpr (Ordered.nodup_keys rds)
    cases hrun : slaveofCmds cfgs master true legal.cmds ((master, seq) :: seqs) with
    | error e => rw [hrun] at h; cases h
    | ok cmds =>
      rw [hrun] at h
      cases h
      dsimp only
      rw [hsort] at hkeys
      have hlisted : a ∈ ((master, seq) :: seqs).map Prod.fst ↔ a ∈ rds := by
        rw [← hsort, mem_sorted]
      rw [slaveofCmds_star hkeys hrun a]
      by_cases hneeded : a ∈ rds ∧ cfgs[a]? ≠ some (wanted master a)
      · rw [if_pos ⟨hlisted.mpr hneeded.1, hneeded.2⟩, Option.some.injEq]
        constructor
        · rintro rfl
          exact Or.inl ⟨master, hleader, hneeded.1, hneeded.2, rfl⟩
        · rintro (⟨master', hleader', _, _, rfl⟩ | hold)
          · rw [hleader.unique hleader']
          · exact absurd (Ordered.mem_iff_getElem?.mpr ⟨cmd, hold⟩) (new a hneeded.1)
      · rw [if_neg fun hand => hneeded ⟨hlisted.mp hand.1, hand.2⟩, or_iff_right]
        rintro ⟨master', hleader', ha, hne, _⟩
        rw [hleader'.unique hleader] at hne
        exact hneeded ⟨ha, hne⟩

/-- No address is checked in two clusters. -/
def Apart (chks : Checks) : Prop :=
  ∀ (c d : Str) (rds rds' : StrMap) (a : Str), chks[c]? = some rds → chks[d]? = some rds' →
    a ∈ rds → a ∈ rds' → c = d

/-- After some clusters, the commands are those their addresses need. -/
def CommandsOf (cfgs : StrMap) (chks : Checks) (visited : List (Str × StrMap)) (cmds : StrMap) :
    Prop :=
  ∀ a cmd : Str, cmds[a]? = some cmd ↔
    ∃ c ∈ visited.map Prod.fst, ∃ rds, chks[c]? = some rds ∧ Commanded cfgs rds a cmd

theorem CommandsOf.new {chks : Checks} {visited rest : List (Str × StrMap)} {c : Str}
    (h : CommandsOf cfgs chks visited cmds) (apart : Apart chks)
    (split : chks.toList = visited ++ (c, rds) :: rest) : ∀ a ∈ rds, a ∉ cmds := by
  obtain ⟨hget, hnew⟩ := Ordered.visiting split
  intro a ha hmem
  obtain ⟨cmd, hcmd⟩ := Ordered.mem_iff_getElem?.mp hmem
  obtain ⟨d, hd, rds', hget', _, _, ha', _⟩ := (h a cmd).mp hcmd
  obtain rfl := apart c d rds rds' a hget hget' ha ha'
  exact hnew hd

theorem genClusters_commands {errs : Clusters} {chks : Checks} {legal : Legal}
    {visited rest : List (Str × StrMap)} (apart : Apart chks)
    (names : ∀ (c : Str) (rds : StrMap), chks[c]? = some rds → NamesApart rds)
    (split : chks.toList = visited ++ rest)
    (h : visited.foldlM (genCluster cfgs errs) ⟨∅, ∅⟩ = .ok legal) :
    CommandsOf cfgs chks visited legal.cmds := by
  refine foldlM_except_ok (fun visited legal => CommandsOf cfgs chks visited legal.cmds) h
    (fun a cmd => by simp) ?_
  rintro done ⟨c, rds⟩ others hsplit acc acc' hstep hinv a cmd
  have hwhole : chks.toList = done ++ (c, rds) :: (others ++ rest) := by
    rw [split, hsplit, List.append_assoc, List.cons_append]
  obtain ⟨hget, _⟩ := Ordered.visiting hwhole
  rw [genCluster_cmds (names c rds hget) hstep (hinv.new apart hwhole) a cmd, hinv a cmd]
  simp only [List.map_append, List.mem_append, List.map_cons, List.map_nil, List.mem_singleton]
  constructor
  · rintro (hcmd | ⟨d, hd, hrest⟩)
    · exact ⟨c, Or.inr rfl, rds, hget, hcmd⟩
    · exact ⟨d, Or.inl hd, hrest⟩
  · rintro ⟨d, hd | rfl, rds', hget', hcmd⟩
    · exact Or.inr ⟨d, hd, rds', hget', hcmd⟩
    · rw [hget] at hget'
      cases hget'
      exact Or.inl hcmd

end Commands

/-! ## What a redis does with a command -/

theorem ipPort_eq_nil {upstream : Str} (h : ipPort upstream = []) : upstream = [] := by
  unfold ipPort at h
  split at h
  · assumption
  · split at h
    · cases h
    · simp at h

/-- The address comes back with a colon for the blank. -/
theorem ipPort_blank {ip port : Str} (hip : ' ' ∉ ip) (hport : ' ' ∉ port) :
    ipPort (ip ++ ' ' :: port) = ip ++ ':' :: port := by
  have kept : ∀ text : Str, ' ' ∉ text → ∀ ch ∈ text, decide (ch ≠ ' ') = true := by
    intro text htext ch hch
    rw [decide_eq_true_eq]
    rintro rfl
    exact htext hch
  have hreverse : (ip ++ ' ' :: port).reverse = port.reverse ++ ' ' :: ip.reverse := by simp
  unfold ipPort
  rw [if_neg (by simp), if_neg (by simp), hreverse,
    List.takeWhile_append_of_pos (kept ip hip),
    List.takeWhile_append_of_pos (kept port.reverse (by simpa using hport))]
  simp

theorem slaveof_slaveof (args : List Str) (old : Str) :
    slaveof args (slaveof args old) = slaveof args old := by
  rcases args with _ | ⟨_, _ | ⟨_, _ | ⟨_, _ | _⟩⟩⟩ <;> rfl

/-- After the command the redis reports what it should. -/
theorem remedied {m : UInt64} (hport : (int64Ipv4 m).2 ≠ 0) (a : Str) :
    ∃ args, slaveofArgs (remedy (int64StrIpv4 m) a) = some args ∧
      ∀ old, ipPort (slaveof args old) = wanted (int64StrIpv4 m) a := by
  have hread := strIpv4_int64StrIpv4 hport
  unfold remedy wanted
  by_cases ha : a = int64StrIpv4 m
  · rw [if_pos ha, if_pos ha]
    exact ⟨_, rfl, fun _ => rfl⟩
  · have hmaster : int64StrIpv4 m ≠ "NO:ONE".toList := by
      intro heq
      rw [heq] at hread
      cases hread.symm.trans (by decide : strIpv4 "NO:ONE".toList = none)
    rw [if_neg ha, if_neg ha, slaveofArgs, if_neg hmaster, hread]
    refine ⟨_, rfl, fun old => ?_⟩
    have hone : Text.decimal (int64Ipv4 m).2 ≠ "ONE".toList := by
      intro heq
      refine Text.not_mem_decimal (c := 'O') (int64Ipv4 m).2 (by decide) (by decide) ?_
      rw [heq]
      decide
    rw [slaveof, if_neg fun hand => hone hand.2]
    refine ipPort_blank ?_ (Text.not_mem_decimal _ (by decide) (by decide))
    rw [int64Ipv4]
    exact not_mem_inetNtop _ (by decide) (by decide) (by decide)

/-! ## do_slaveof_cmd -/

/-- Every address is one that stands for a redis. -/
def Canonical (cmds : StrMap) : Prop :=
  ∀ addr ∈ cmds, ∃ a, strIpv4Int64 addr = some a ∧ addr = int64StrIpv4 a

section Rounds
variable {net : Network} {before : Upstreams} {cmds : StrMap}

theorem slaveofEntry_some {entry : Str × Str} {a : UInt64} {args : List Str} :
    slaveofEntry entry = some (a, args) ↔
      strIpv4Int64 entry.1 = some a ∧ slaveofArgs entry.2 = some args := by
  unfold slaveofEntry
  simp [Option.bind_eq_some_iff]

theorem slaveofCommands_get (canonical : Canonical cmds) (a : UInt64) (args : List Str) :
    (slaveofCommands cmds)[a]? = some args ↔ ∃ addr cmd : Str, cmds[addr]? = some cmd ∧
      strIpv4Int64 addr = some a ∧ slaveofArgs cmd = some args := by
  have apart : ∀ e ∈ cmds.toList, ∀ e' ∈ cmds.toList, ∀ a args args',
      slaveofEntry e = some (a, args) → slaveofEntry e' = some (a, args') → args = args' := by
    rintro ⟨addr, cmd⟩ he ⟨addr', cmd'⟩ he' b args args' hargs hargs'
    rw [Std.ExtTreeMap.mem_toList_iff_getElem?_eq_some] at he he'
    obtain ⟨hread, hvalue⟩ := slaveofEntry_some.mp hargs
    obtain ⟨hread', hvalue'⟩ := slaveofEntry_some.mp hargs'
    obtain ⟨b', hb, rfl⟩ := canonical addr (Ordered.mem_iff_getElem?.mpr ⟨cmd, he⟩)
    obtain ⟨b'', hb', rfl⟩ := canonical addr' (Ordered.mem_iff_getElem?.mpr ⟨cmd', he'⟩)
    obtain rfl := Option.some.inj (hb.symm.trans hread)
    obtain rfl := Option.some.inj (hb'.symm.trans hread')
    obtain rfl := Option.some.inj (he.symm.trans he')
    exact Option.some.inj (hvalue.symm.trans hvalue')
  unfold slaveofCommands
  refine (Ordered.getElem?_foldl_insert (fun _ _ _ _ h => by rw [h]) (fun _ _ h => by rw [h])
    apart).trans ?_
  constructor
  · rintro (⟨⟨addr, cmd⟩, hentry, hargs⟩ | ⟨_, hnone⟩)
    · obtain ⟨hread, hargs⟩ := slaveofEntry_some.mp hargs
      exact ⟨addr, cmd, Std.ExtTreeMap.mem_toList_iff_getElem?_eq_some.mp hentry, hread, hargs⟩
    · simp at hnone
  · rintro ⟨addr, cmd, hcmd, hread, hargs⟩
    exact Or.inl ⟨(addr, cmd), Std.ExtTreeMap.mem_toList_iff_getElem?_eq_some.mpr hcmd,
      slaveofEntry_some.mpr ⟨hread, hargs⟩⟩

/-- Every round is part of the first. -/
theorem round_sub (tries : Nat) (canonical : Canonical cmds) {round : Commands}
    (hround : round ∈ doSlaveofCmd net tries cmds) {a : UInt64} {args : List Str}
    (h : round[a]? = some args) : (slaveofCommands cmds)[a]? = some args := by
  induction tries generalizing cmds with
  | zero =>
    rw [doSlaveofCmd] at hround
    dsimp only at hround
    split at hround
    · cases hround
    · obtain rfl := List.mem_singleton.mp hround
      exact h
  | succ tries ih =>
    rw [doSlaveofCmd] at hround
    dsimp only at hround
    split at hround
    · cases hround
    · rcases List.mem_cons.mp hround with rfl | hround
      · exact h
      · split at hround
        · cases hround
        · have kept : ∀ addr cmd : Str, (cmds.filter fun addr _ =>
              addr ∉ okAddrs (net (tries + 1 + 1) (slaveofCommands cmds)))[addr]? = some cmd →
              cmds[addr]? = some cmd := by
            intro addr cmd hcmd
            rw [Std.ExtTreeMap.getElem?_filter'] at hcmd
            exact (Option.filter_eq_some_iff.mp hcmd).1
          have hsub : Canonical (cmds.filter fun addr _ =>
              addr ∉ okAddrs (net (tries + 1 + 1) (slaveofCommands cmds))) := by
            intro addr haddr
            obtain ⟨cmd, hcmd⟩ := Ordered.mem_iff_getElem?.mp haddr
            exact canonical addr (Ordered.mem_iff_getElem?.mpr ⟨cmd, kept addr cmd hcmd⟩)
          obtain ⟨addr, cmd, hcmd, hrest⟩ := (slaveofCommands_get hsub a args).mp (ih hsub hround)
          exact (slaveofCommands_get canonical a args).mpr ⟨addr, cmd, kept addr cmd hcmd, hrest⟩

/-- The first round, unless there is nothing to send. -/
theorem rounds_cases (net : Network) (tries : Nat) (cmds : StrMap) :
    (doSlaveofCmd net tries cmds = [] ∧ ∀ a, a ∉ slaveofCommands cmds) ∨
      ∃ others, doSlaveofCmd net tries cmds = slaveofCommands cmds :: others := by
  cases hempty : (slaveofCommands cmds).isEmpty with
  | true =>
    refine Or.inl ⟨?_, fun a => by simp [Std.ExtTreeMap.isEmpty_iff.mp hempty]⟩
    cases tries <;> rw [doSlaveofCmd] <;> exact if_pos hempty
  | false =>
    cases tries with
    | zero => exact Or.inr ⟨[], by rw [doSlaveofCmd]; simp [hempty]⟩
    | succ tries => exact Or.inr ⟨_, by rw [doSlaveofCmd]; simp only [hempty]; rfl⟩

theorem doSlaveofCmd_empty (net : Network) (tries : Nat) : doSlaveofCmd net tries ∅ = [] := by
  have hentries : (∅ : StrMap).toList = [] := by
    refine List.eq_nil_iff_forall_not_mem.mpr fun entry hentry => ?_
    have hget := Std.ExtTreeMap.mem_toList_iff_getElem?_eq_some.mp hentry
    simp at hget
  have hempty : slaveofCommands ∅ = ∅ := by
    rw [slaveofCommands, hentries, List.foldl_nil]
  cases tries with
  | zero =>
    rw [doSlaveofCmd, hempty]
    exact if_pos Std.ExtTreeMap.isEmpty_empty
  | succ tries =>
    rw [doSlaveofCmd, hempty]
    exact if_pos Std.ExtTreeMap.isEmpty_empty

/-- A round that repeats commands changes nothing. -/
theorem obeyed_again {first : Commands} {rounds : List Commands}
    (sub : ∀ round ∈ rounds, ∀ (a : UInt64) (args : List Str), round[a]? = some args →
      first[a]? = some args) :
    rounds.foldl obeyed (obeyed before first) = obeyed before first := by
  induction rounds with
  | nil => rfl
  | cons round rounds ih =>
    have hround : obeyed (obeyed before first) round = obeyed before first := by
      funext a
      rw [obeyed]
      cases hargs : round[a]? with
      | none => rfl
      | some args =>
        have hfirst := sub round (by simp) a args hargs
        simp only [obeyed, hfirst, slaveof_slaveof]
    rw [List.foldl_cons, hround]
    exact ih fun r hr => sub r (List.mem_cons_of_mem _ hr)

theorem foldl_obeyed (tries : Nat) (canonical : Canonical cmds) :
    (doSlaveofCmd net tries cmds).foldl obeyed before = obeyed before (slaveofCommands cmds) := by
  rcases rounds_cases net tries cmds with ⟨hnil, hnone⟩ | ⟨others, hcons⟩
  · rw [hnil, List.foldl_nil]
    funext a
    rw [obeyed, Ordered.not_mem_iff_getElem?.mp (hnone a)]
  · rw [hcons, List.foldl_cons]
    refine obeyed_again fun round hround a args hargs => ?_
    exact round_sub tries canonical (hcons ▸ List.mem_cons_of_mem _ hround) hargs

theorem mem_rounds (tries : Nat) (canonical : Canonical cmds) (a : UInt64) :
    (∃ round ∈ doSlaveofCmd net tries cmds, a ∈ round) ↔ a ∈ slaveofCommands cmds := by
  constructor
  · rintro ⟨round, hround, ha⟩
    obtain ⟨args, hargs⟩ := Ordered.mem_iff_getElem?.mp ha
    exact Ordered.mem_iff_getElem?.mpr ⟨args, round_sub tries canonical hround hargs⟩
  · intro ha
    rcases rounds_cases net tries cmds with ⟨_, hnone⟩ | ⟨others, hcons⟩
    · exact absurd ha (hnone a)
    · exact ⟨_, hcons ▸ List.mem_cons_self, ha⟩

end Rounds

/-! ## The star -/

/-- The least check node's address has no upstream, and the other checked addresses are its
slaves. -/
structure Star (rds : StrMap) (upstreams : Upstreams) (master : Str) : Prop where
  leader : Leader rds master
  top : ∃ a, strIpv4Int64 master = some a ∧ upstreams a = []
  slaves : ∀ addr ∈ rds, addr ≠ master →
    ∃ a, strIpv4Int64 addr = some a ∧ ipPort (upstreams a) = master

section Star
variable {t s t' : Tree} {cfgs : StrMap} {chks : Checks} {before : Upstreams} {legal : Legal}

/-- The addresses of a cluster have different check nodes, as a node has one address. -/
theorem namesApart_of_read (read : Ok ZkCall.serve (getCheck checkPath) t chks s) (c : Str)
    (rds : StrMap) (h : chks[c]? = some rds) : NamesApart rds := by
  have hcluster := (getCheck_ok read).2.clusters c rds h
  intro a b n ha hb
  exact (hcluster.names a n ha).2.2.unique (hcluster.names b n hb).2.2

/-- The commands of a run that ends well are those of all the clusters that were read. -/
theorem genLegalRedis_commands (read : Ok ZkCall.serve (getCheck checkPath) t chks s)
    (apart : Apart chks) (run : Ok ZkCall.serve (genLegalRedis cfgs) t legal t') (a cmd : Str) :
    legal.cmds[a]? = some cmd ↔
      ∃ (c : Str) (rds : StrMap), chks[c]? = some rds ∧ Commanded cfgs rds a cmd := by
  obtain ⟨chks', errs, s', hread, _, hfold, _⟩ := genLegalRedis_steps run
  obtain ⟨rfl, rfl⟩ := hread.unique read
  rw [genClusters_commands apart (namesApart_of_read read) (List.append_nil _).symm hfold a cmd]
  constructor
  · rintro ⟨c, _, hrest⟩
    exact ⟨c, hrest⟩
  · rintro ⟨c, rds, hget, hcmd⟩
    refine ⟨c, ?_, rds, hget, hcmd⟩
    exact List.mem_map.mpr ⟨(c, rds), Std.ExtTreeMap.mem_toList_iff_getElem?_eq_some.mpr hget, rfl⟩

/-- A cluster with checked addresses has a leader. -/
theorem exists_leader {rds : StrMap} (apart : NamesApart rds) {a : Str} (ha : a ∈ rds) :
    ∃ master, Leader rds master := by
  cases hsort : sortRedis rds with
  | nil =>
    have hmem := mem_sorted.mpr ha
    rw [hsort] at hmem
    cases hmem
  | cons entry seqs => exact ⟨entry.1, leader_of_sort apart hsort⟩

theorem Leader.mem {rds : StrMap} {master : Str} (h : Leader rds master) : master ∈ rds := by
  obtain ⟨seq, hmaster, _⟩ := h
  exact Ordered.mem_iff_getElem?.mpr ⟨seq, hmaster⟩

/-- The commands for what was read, when every checked address answered. -/
structure Instructed (cfgs : StrMap) (chks : Checks) (before : Upstreams) (cmds : StrMap) :
    Prop where
  apart : Apart chks
  surveyed : Surveyed cfgs before
  answered : ∀ (c : Str) (rds : StrMap), chks[c]? = some rds → ∀ a ∈ rds, a ∈ cfgs
  commands : ∀ a cmd : Str, cmds[a]? = some cmd ↔
    ∃ (c : Str) (rds : StrMap), chks[c]? = some rds ∧ Commanded cfgs rds a cmd

namespace Instructed
variable {cmds rds : StrMap} {c addr master : Str}

/-- A checked address stands for a redis, and its configuration is what that redis reports. -/
theorem redis (h : Instructed cfgs chks before cmds) (hget : chks[c]? = some rds)
    (ha : addr ∈ rds) : ∃ a, strIpv4Int64 addr = some a ∧ addr = int64StrIpv4 a ∧
      cfgs[addr]? = some (ipPort (before a)) := by
  obtain ⟨cfg, hcfg⟩ := Ordered.mem_iff_getElem?.mp (h.answered c rds hget addr ha)
  obtain ⟨a, hread, haddr, rfl⟩ := h.surveyed addr cfg hcfg
  exact ⟨a, hread, haddr, hcfg⟩

theorem canonical (h : Instructed cfgs chks before cmds) : Canonical cmds := by
  intro addr haddr
  obtain ⟨cmd, hcmd⟩ := Ordered.mem_iff_getElem?.mp haddr
  obtain ⟨c, rds, hget, _, _, ha, _⟩ := (h.commands addr cmd).mp hcmd
  obtain ⟨a, hread, htext, _⟩ := h.redis hget ha
  exact ⟨a, hread, htext⟩

theorem remedied (h : Instructed cfgs chks before cmds) (hget : chks[c]? = some rds)
    (leader : Leader rds master) (addr : Str) :
    ∃ args, slaveofArgs (remedy master addr) = some args ∧
      ∀ old, ipPort (slaveof args old) = wanted master addr := by
  obtain ⟨m, hread, rfl, _⟩ := h.redis hget leader.mem
  exact Guarantees.remedied (port_of_strIpv4Int64 hread) addr

/-- A redis gets a command exactly when it is checked and reports another upstream. -/
theorem mem_commands (h : Instructed cfgs chks before cmds) (a : UInt64) :
    a ∈ slaveofCommands cmds ↔ ∃ (c : Str) (rds : StrMap) (master addr : Str),
      chks[c]? = some rds ∧ Leader rds master ∧ addr ∈ rds ∧ strIpv4Int64 addr = some a ∧
        ipPort (before a) ≠ wanted master addr := by
  rw [Ordered.mem_iff_getElem?]
  constructor
  · rintro ⟨args, hargs⟩
    obtain ⟨addr, cmd, hcmd, hread, _⟩ := (slaveofCommands_get h.canonical a args).mp hargs
    obtain ⟨c, rds, hget, master, hleader, ha, hne, _⟩ := (h.commands addr cmd).mp hcmd
    obtain ⟨b, hb, _, hcfg⟩ := h.redis hget ha
    obtain rfl := Option.some.inj (hb.symm.trans hread)
    exact ⟨c, rds, master, addr, hget, hleader, ha, hread,
      fun heq => hne (hcfg.trans (congrArg some heq))⟩
  · rintro ⟨c, rds, master, addr, hget, hleader, ha, hread, hne⟩
    obtain ⟨b, hb, _, hcfg⟩ := h.redis hget ha
    obtain rfl := Option.some.inj (hb.symm.trans hread)
    obtain ⟨args, hargs, _⟩ := h.remedied hget hleader addr
    have hcmd : cmds[addr]? = some (remedy master addr) := (h.commands _ _).mpr
      ⟨c, rds, hget, master, hleader, ha, fun heq => hne (Option.some.inj (hcfg.symm.trans heq)), rfl⟩
    exact ⟨args, (slaveofCommands_get h.canonical b args).mpr ⟨addr, _, hcmd, hread, hargs⟩⟩

/-- Afterwards every checked redis reports what it should. -/
theorem settled (h : Instructed cfgs chks before cmds) (hget : chks[c]? = some rds)
    (leader : Leader rds master) {a : UInt64} (ha : addr ∈ rds) (hread : strIpv4Int64 addr = some a) :
    ipPort (obeyed before (slaveofCommands cmds) a) = wanted master addr := by
  rw [obeyed]
  cases hargs : (slaveofCommands cmds)[a]? with
  | none =>
    dsimp only
    by_contra hne
    have hmem := (h.mem_commands a).mpr ⟨c, rds, master, addr, hget, leader, ha, hread, hne⟩
    exact Ordered.not_mem_iff_getElem?.mpr hargs hmem
  | some args =>
    dsimp only
    obtain ⟨addr', cmd, hcmd, hread', hvalue⟩ := (slaveofCommands_get h.canonical a args).mp hargs
    obtain ⟨d, rds', hget', master', hleader', ha', _, rfl⟩ := (h.commands addr' cmd).mp hcmd
    obtain ⟨b, hb, htext, _⟩ := h.redis hget ha
    obtain ⟨b', hb', htext', _⟩ := h.redis hget' ha'
    obtain rfl := Option.some.inj (hb.symm.trans hread)
    obtain rfl := Option.some.inj (hb'.symm.trans hread')
    obtain rfl := htext.trans htext'.symm
    obtain rfl := h.apart c d rds rds' addr hget hget' ha ha'
    obtain rfl := Option.some.inj (hget.symm.trans hget')
    obtain rfl := leader.unique hleader'
    obtain ⟨args', hargs', hreports⟩ := h.remedied hget leader addr
    obtain rfl := Option.some.inj (hargs'.symm.trans hvalue)
    exact hreports _

theorem star (h : Instructed cfgs chks before cmds) (hget : chks[c]? = some rds)
    (leader : Leader rds master) : Star rds (obeyed before (slaveofCommands cmds)) master where
  leader := leader
  top := by
    obtain ⟨m, hread, _, _⟩ := h.redis hget leader.mem
    have hnone := h.settled hget leader leader.mem hread
    rw [wanted, if_pos rfl] at hnone
    exact ⟨m, hread, ipPort_eq_nil hnone⟩
  slaves := by
    intro addr ha hne
    obtain ⟨a, hread, _, _⟩ := h.redis hget ha
    have hmaster := h.settled hget leader ha hread
    rw [wanted, if_neg hne] at hmaster
    exact ⟨a, hread, hmaster⟩

end Instructed

end Star

/-- An iteration on a cluster with checked addresses goes through: none of them is missing
from what answered, and none has a command already. -/
theorem genCluster_goes_on {cfgs : StrMap} {errs : Clusters} {chks : Checks} {legal : Legal}
    {visited rest : List (Str × StrMap)} {c : Str} {rds : StrMap} (apart : Apart chks)
    (names : ∀ (c : Str) (rds : StrMap), chks[c]? = some rds → NamesApart rds)
    (answered : ∀ a ∈ rds, a ∈ cfgs) (split : chks.toList = visited ++ (c, rds) :: rest)
    (before : visited.foldlM (genCluster cfgs errs) ⟨∅, ∅⟩ = .ok legal) (some : ∃ a, a ∈ rds) :
    ∃ legal', genCluster cfgs errs legal (c, rds) = .ok legal' := by
  have hcommands := genClusters_commands apart names split before
  obtain ⟨legal', hstep, _⟩ := genCluster_total legal answered (hcommands.new apart split)
    fun hnone => some.elim fun a ha => absurd ha (hnone a)
  exact ⟨legal', hstep⟩

/-- No cluster with checked addresses ends the loop of `gen_legal_redis`, whatever the redis
replicate. Once its commands are obeyed every such cluster is a star, and a command went just to the
checked redis that reported another upstream. All checked addresses answer and stand for different
redis; a command that is not obeyed, or a redis that does not tell its upstream, is not covered. -/
theorem replication_star (net net' : Network) (tries tries' : Nat) (addrs : Addrs)
    (before : Upstreams) (t s : Tree) (chks : Checks) (reports : Reports net before)
    (read : Ok ZkCall.serve (getCheck checkPath) t chks s) (apart : Apart chks)
    (answered : ∀ (c : Str) (rds : StrMap), chks[c]? = some rds →
      ∀ a ∈ rds, a ∈ checkRedis net tries addrs ∅) :
    (∀ (errs : Clusters) (visited rest : List (Str × StrMap)) (c : Str) (rds : StrMap)
        (legal : Legal), chks.toList = visited ++ (c, rds) :: rest →
      visited.foldlM (genCluster (checkRedis net tries addrs ∅) errs) ⟨∅, ∅⟩ = .ok legal →
      (∃ a, a ∈ rds) →
        ∃ legal', genCluster (checkRedis net tries addrs ∅) errs legal (c, rds) = .ok legal') ∧
    ∀ (legal : Legal) (t' : Tree),
      Ok ZkCall.serve (genLegalRedis (checkRedis net tries addrs ∅)) t legal t' →
        (∀ (c : Str) (rds : StrMap), chks[c]? = some rds → (∃ a, a ∈ rds) →
          ∃ master,
            Star rds ((doSlaveofCmd net' tries' legal.cmds).foldl obeyed before) master) ∧
        ∀ a : UInt64, (∃ round ∈ doSlaveofCmd net' tries' legal.cmds, a ∈ round) ↔
          ∃ (c : Str) (rds : StrMap) (master addr : Str), chks[c]? = some rds ∧
            Leader rds master ∧ addr ∈ rds ∧ strIpv4Int64 addr = some a ∧
              ipPort (before a) ≠ wanted master addr := by
  have names := namesApart_of_read read
  refine ⟨fun errs visited rest c rds legal split hbefore hsome => ?_, fun legal t' run => ?_⟩
  · obtain ⟨hget, _⟩ := Ordered.visiting split
    exact genCluster_goes_on apart names (answered c rds hget) split hbefore hsome
  · have instructed : Instructed (checkRedis net tries addrs ∅) chks before legal.cmds :=
      ⟨apart, surveyed_checkRedis reports tries addrs (fun addr cfg h => by simp at h), answered,
        genLegalRedis_commands read apart run⟩
    refine ⟨fun c rds hget hsome => ?_, fun a => ?_⟩
    · obtain ⟨a, ha⟩ := hsome
      obtain ⟨master, hleader⟩ := exists_leader (names c rds hget) ha
      rw [foldl_obeyed tries' instructed.canonical]
      exact ⟨master, instructed.star hget hleader⟩
    · rw [mem_rounds tries' instructed.canonical, instructed.mem_commands]

/-! Two checked addresses that are slaves, the first of the second. -/

/-- Every redis answers, with its upstream. -/
def reporting (upstreams : Upstreams) : Network := fun _ cmds =>
  cmds.map fun ipv4 _ => .mk .array 0 []
    [.mk .string 0 "slaveof".toList [], .mk .string 0 (upstreams ipv4) []]

theorem reports_reporting (upstreams : Upstreams) : Reports (reporting upstreams) upstreams where
  asked := by
    intro n cmds a ha
    simpa [reporting] using ha
  honest := by
    intro n cmds a rv slaveof hrv hreply
    unfold reporting at hrv
    rw [Std.ExtTreeMap.getElem?_map] at hrv
    obtain ⟨args, _, rfl⟩ := Option.map_eq_some_iff.mp hrv
    exact (Option.some.inj hreply).symm

def crossedUpstreams : Upstreams := fun ipv4 =>
  if ipv4 = ipv4Int64 "1.0.0.1".toList 80 then "1.0.0.2 80".toList else "1.0.0.9 6379".toList

def crossedTree : Tree :=
  Tree.empty.plant [(checkPath, none), ("cluster1".toList :: checkPath, none),
    ("r0000000000".toList :: "cluster1".toList :: checkPath, some "1.0.0.1:80".toList),
    ("r0000000001".toList :: "cluster1".toList :: checkPath, some "1.0.0.2:80".toList),
    (errPath, none), (nodePath, none)]

def crossedAddrs : Addrs := .ofList ["1.0.0.1:80".toList, "1.0.0.2:80".toList]

theorem replication_star_example : ∃ chks s legal t',
    Ok ZkCall.serve (getCheck checkPath) crossedTree chks s ∧
    Ok ZkCall.serve (genLegalRedis (checkRedis (reporting crossedUpstreams) 2 crossedAddrs ∅)) crossedTree
      legal t' ∧
    ∃ rds master, chks["cluster1".toList]? = some rds ∧
      Star rds ((doSlaveofCmd (reporting crossedUpstreams) 2 legal.cmds).foldl obeyed
        crossedUpstreams) master := by
  have hread : endsWith ZkCall.serve (getCheck checkPath) crossedTree (fun chks _ =>
      decide (chks.keys = ["cluster1".toList]) && chks.toList.all fun entry =>
        decide (entry.2.keys = ["1.0.0.1:80".toList, "1.0.0.2:80".toList])) = true := by
    decide +kernel
  have hends : endsWith ZkCall.serve (genLegalRedis (checkRedis (reporting crossedUpstreams) 2
      crossedAddrs ∅)) crossedTree (fun _ _ => true) = true := by
    decide +kernel
  have hanswered : ∀ a ∈ ["1.0.0.1:80".toList, "1.0.0.2:80".toList],
      a ∈ checkRedis (reporting crossedUpstreams) 2 crossedAddrs ∅ := by
    decide +kernel
  obtain ⟨chks, s, hread, hchks⟩ := endsWith_iff.mp hread
  obtain ⟨legal, t', hrun, _⟩ := endsWith_iff.mp hends
  rw [Bool.and_eq_true, decide_eq_true_eq, List.all_eq_true] at hchks
  have only : ∀ (c : Str) (rds : StrMap), chks[c]? = some rds →
      c = "cluster1".toList ∧ ∀ a, a ∈ rds ↔ a ∈ ["1.0.0.1:80".toList, "1.0.0.2:80".toList] := by
    intro c rds hget
    have hc : c ∈ chks.keys := Std.ExtTreeMap.mem_keys.mpr (Ordered.mem_iff_getElem?.mpr ⟨rds, hget⟩)
    have hkeys := hchks.2 (c, rds) (Std.ExtTreeMap.mem_toList_iff_getElem?_eq_some.mpr hget)
    rw [decide_eq_true_eq] at hkeys
    refine ⟨List.mem_singleton.mp (hchks.1 ▸ hc), fun a => ?_⟩
    rw [← hkeys, Std.ExtTreeMap.mem_keys]
  have hcluster : "cluster1".toList ∈ chks :=
    Std.ExtTreeMap.mem_keys.mp (hchks.1 ▸ List.mem_singleton.mpr rfl)
  obtain ⟨rds, hrds⟩ := Ordered.mem_iff_getElem?.mp hcluster
  obtain ⟨_, hstars⟩ := replication_star (reporting crossedUpstreams) (reporting crossedUpstreams)
    2 2 crossedAddrs crossedUpstreams crossedTree s chks (reports_reporting _) hread
    (fun c d rds rds' a hc hd _ _ => (only c rds hc).1.trans (only d rds' hd).1.symm)
    (fun c rds hc a ha => hanswered a (((only c rds hc).2 a).mp ha))
  obtain ⟨master, hstar⟩ := (hstars legal t' hrun).1 _ rds hrds
    ⟨"1.0.0.1:80".toList, ((only _ rds hrds).2 _).mpr (by simp)⟩
  exact ⟨chks, s, legal, t', hread, hrun, rds, master, hrds, hstar⟩

end RedisCluster.Guarantees
