import RedisCluster.Guarantees.SweptSessions

/-!
# A sweep removes what is due

The two loops of `timeout_rm.lua` and its range delete look at one interval of scores. They
take the user and the connection from the name of a session, so they hit that session and its
index entry, and nothing else.
-/

set_option autoImplicit false

namespace RedisCluster.Guarantees
open Library Source

/-! ## The second loop -/

section Loop
variable {s : Keyspace} {names : List Str}

/-- Only the index of a user in one of the names changes. -/
theorem hashes_dropped (named : ∀ m ∈ names, Named m) {k : Str}
    (other : ∀ uid lc, '.' ∉ uid → klc uid lc ∈ names → k ≠ kuid uid) :
    (dropped s names).hashes k = s.hashes k := by
  induction names generalizing s with
  | nil => rfl
  | cons name names ih =>
    obtain ⟨uid, lc, hdot, rfl⟩ := named name (by simp)
    rw [dropped_cons hdot, ih fun m hm => named m (List.mem_cons_of_mem _ hm)]
    · exact Keyspace.hashes_hdel_of_ne (other uid lc hdot (by simp))
    · exact fun uid' lc' hdot' hmem => other uid' lc' hdot' (List.mem_cons_of_mem _ hmem)

/-- Every entry that is there is reported, by the first of the names that is its session's. -/
theorem sweepReports_complete (named : ∀ m ∈ names, Named m) {uid lc tv : Str} (hdot : '.' ∉ uid)
    (hname : klc uid lc ∈ names) (hlabel : s.hget (kuid uid) lc = some tv) :
    (uid, lc, tv) ∈ sweepReports s names := by
  induction names generalizing s with
  | nil => cases hname
  | cons name names ih =>
    obtain ⟨uid', lc', hdot', rfl⟩ := named name (by simp)
    rw [sweepReports_cons hdot', List.mem_append]
    by_cases hsame : uid = uid' ∧ lc = lc'
    · obtain ⟨rfl, rfl⟩ := hsame
      rw [hlabel]
      exact Or.inl (by simp)
    · right
      apply ih fun m hm => named m (List.mem_cons_of_mem _ hm)
      · rcases List.mem_cons.mp hname with heq | hmem
        · exact absurd (klc_injective hdot hdot' heq) hsame
        · exact hmem
      · -- The name before it took another entry.
        by_cases huid : uid = uid'
        · subst huid
          rw [Keyspace.hget_hdel, if_neg fun hlc => hsame ⟨rfl, hlc⟩, hlabel]
        · rw [Keyspace.hget_congr (Keyspace.hashes_hdel_of_ne fun h => huid (kuid_injective h)), hlabel]

end Loop

/-! ## What a sweep leaves and what it says -/

/-- The sessions that are due are gone with their index entries; all else is as it was. -/
structure SweptExactly (s s' : Keyspace) (st : Int) : Prop where
  now : s'.now = s.now
  pending : ∀ m, s'.zscore dlyCk m = (s.zscore dlyCk m).filter fun stamp => st < stamp
  removed : ∀ uid lc, Due s st (sessionKey uid lc) →
    s'.has (sessionKey uid lc) = false ∧ labelOf s' uid lc = none
  labels : ∀ uid f, (∀ lc, Due s st (sessionKey uid lc) → f ≠ Text.decimal lc) →
    s'.hget (indexKey uid) f = s.hget (indexKey uid) f
  stamps : ∀ uid, s'.has (indexKey uid) → s'.expiry (indexKey uid) = s.expiry (indexKey uid)
  frame : ∀ k, (∀ uid lc, Due s st (sessionKey uid lc) → k ≠ sessionKey uid lc ∧ k ≠ indexKey uid) →
    s'.hashes k = s.hashes k
  sets : ∀ z, z ≠ dlyCk → s'.zsets z = s.zsets z

/-- The sessions that are due and had an entry, each once and with it. -/
structure ReportsDue (s : Keyspace) (st : Int) (reports : List (Int × Int × Str)) : Prop where
  once : (reports.map fun report => (report.1, report.2.1)).Nodup
  exactly : ∀ uid lc tv, (uid, lc, tv) ∈ reports ↔
    Due s st (sessionKey uid lc) ∧ labelOf s uid lc = some tv

section Sweep
variable {s : Keyspace} (names : SessionNames s)

include names in
/-- The sessions that go are not the index of a user. -/
theorem hashes_dels_index (st uid : Int) :
    ((dueNames s st).foldl Keyspace.del s).hashes (indexKey uid) = s.hashes (indexKey uid) := by
  rw [Keyspace.hashes_dels, if_neg]
  intro hmem
  obtain ⟨stamp, hstamp, _⟩ := mem_dueNames.mp hmem
  obtain ⟨uid', lc, heq⟩ := names _ stamp hstamp
  exact kuid_ne_klc _ _ _ heq

include names in
theorem swept_exactly (st : Int) : SweptExactly s (swept s st) st := by
  have named := dueNames_named names.named st
  have effect := swept_effect names.named st
  obtain ⟨_, hzsets, _⟩ := dropped_frame (s := (dueNames s st).foldl Keyspace.del s) named
  constructor
  · exact effect.now
  · exact effect.pending
  · intro uid lc due
    constructor
    · exact Keyspace.not_has_iff.mpr (effect.removed _ _ due)
    · apply Keyspace.not_mem_fields_iff.mp
      intro hmem
      exact ((effect.index _ _ (decimal_no_dot uid)).mp hmem).2 due
  · intro uid f hother
    by_cases hf : f ∈ (swept s st).fields (indexKey uid)
    · exact effect.labels _ _ (decimal_no_dot uid) hf
    · rw [Keyspace.not_mem_fields_iff.mp hf]
      symm
      apply Keyspace.not_mem_fields_iff.mp
      intro hold
      refine hf ((effect.index _ _ (decimal_no_dot uid)).mpr ⟨hold, ?_⟩)
      rintro ⟨stamp, hstamp, hle⟩
      obtain ⟨uid', lc, heq⟩ := names _ stamp hstamp
      obtain ⟨huid, rfl⟩ := klc_injective (decimal_no_dot uid) (decimal_no_dot uid') heq
      obtain rfl := Text.decimal_injective huid
      exact hother lc ⟨stamp, hstamp, hle⟩ rfl
  · intro uid hhas
    obtain ⟨f, hf⟩ := Keyspace.exists_mem_of_has hhas
    exact effect.stamps _ f (decimal_no_dot uid) hf
  · intro k hother
    change (dropped _ _).hashes k = _
    rw [hashes_dropped named, Keyspace.hashes_dels, if_neg]
    · intro hmem
      obtain ⟨stamp, hstamp, hle⟩ := mem_dueNames.mp hmem
      obtain ⟨uid, lc, heq⟩ := names _ stamp hstamp
      exact (hother uid lc (heq ▸ ⟨stamp, hstamp, hle⟩)).1 heq
    · intro uid lc hdot hmem
      obtain ⟨stamp, hstamp, hle⟩ := mem_dueNames.mp hmem
      obtain ⟨uid', lc', heq⟩ := names _ stamp hstamp
      rw [(klc_injective hdot (decimal_no_dot uid') heq).1]
      exact (hother uid' lc' (heq ▸ ⟨stamp, hstamp, hle⟩)).2
  · intro z hz
    exact (Keyspace.zsets_setZset_of_ne hz).trans
      ((congrFun hzsets z).trans (congrFun Keyspace.zsets_dels z))

include names in
theorem sweep_reports (st cn : Int) : ∃ reports, ReportsDue s st reports ∧
    reportsOf s (.timeoutRm st cn) = reports.map printed := by
  have named := dueNames_named names.named st
  have hdecimal : ∀ report ∈ reportsOf s (.timeoutRm st cn), ∃ uid lc,
      report.1 = Text.decimal uid ∧ report.2.1 = Text.decimal lc := by
    intro report hreport
    obtain ⟨hdot, hname, _⟩ := mem_sweepReports named hreport
    obtain ⟨stamp, hstamp, _⟩ := mem_dueNames.mp hname
    obtain ⟨uid, lc, heq⟩ := names _ stamp hstamp
    exact ⟨uid, lc, klc_injective hdot (decimal_no_dot uid) heq⟩
  obtain ⟨reports, honce, heq, hmem⟩ := printed_reports (sweepReports_nodup named) hdecimal
  refine ⟨reports, ⟨honce, fun uid lc tv => ?_⟩, heq⟩
  rw [hmem]
  have hsame : labelOf ((dueNames s st).foldl Keyspace.del s) uid lc = labelOf s uid lc :=
    Keyspace.hget_congr (hashes_dels_index names st uid)
  constructor
  · intro h
    obtain ⟨_, hname, hlabel⟩ := mem_sweepReports named h
    exact ⟨mem_dueNames.mp hname, hsame.symm.trans hlabel⟩
  · rintro ⟨due, hlabel⟩
    exact sweepReports_complete named (decimal_no_dot uid) (mem_dueNames.mpr due) (hsame.trans hlabel)

include names in
/-- A sweep removes exactly the sessions that are due, and answers with the users and entries of
those that were in the index. A client that reads the numbers exactly has these. The pending
removals are assumed to be names of sessions, as after any run of the scripts. -/
theorem sweep_exact (st cn : Int) :
    SweptExactly s (runScript (timeoutRm [Text.decimal st, Text.decimal cn]) s).2 st ∧
    ∃ reports, ReportsDue s st reports ∧
      (runScript (timeoutRm [Text.decimal st, Text.decimal cn]) s).1 =
        .array (reports.flatMap fun report => [.number report.1, .bulk report.2.2]) ∧
      ((∀ report ∈ reports, double report.1 = report.1) →
        replyPairs (redisrvsAddAll (reports.flatMap fun report =>
            [.number report.1, .bulk report.2.2])) =
          reports.map fun report => (report.1, report.2.2)) := by
  obtain ⟨reports, hreports, heq⟩ := sweep_reports names st cn
  rw [sweep_reply (dueNames_named names.named st)]
  refine ⟨swept_exactly names st, reports, hreports, ?_, ?_⟩
  · rw [heq, List.flatMap_map]
    simp only [printed, toNumber_decimal]
    rfl
  · intro exactly
    have hpairs : (reports.flatMap fun report => [.number report.1, .bulk report.2.2]) =
        pairsReply (reports.map fun report => (report.1, report.2.2)) := by
      rw [pairsReply, List.flatMap_map]
      apply List.flatMap_congr
      intro report hreport
      rw [RedisReply.number, exactly report hreport]
    rw [hpairs]
    exact (replyPairs_pairsReply _).2

end Sweep

theorem sweep_exact_example :
    SweptExactly (runSessions (exampleSession 7 2 40))
      (runScript (timeoutRm [Text.decimal 41, Text.decimal 0]) (runSessions (exampleSession 7 2 40))).2 41 :=
  (sweep_exact (sessionNames_runSessions _) 41 0).1

end RedisCluster.Guarantees
