import RedisCluster.Library.Ordered
import RedisCluster.Library.Run
import RedisCluster.Source.CallTimeStat

/-!
# The two statistics of calls

`stat2` counts every call for its type. `stat` counts the first call of a key under the smallest
key, which is the key itself only where no smaller one is there already.
-/

set_option autoImplicit false

namespace RedisCluster.Guarantees
open Library Source

/-! ## What should be counted -/

def sampleType : StatEvent → Option ReqType
  | .sample type _ _ => some type
  | .output => none

def sampled (es : List StatEvent) : List ReqType := es.filterMap sampleType

def ownStep (t : ReqType) (st : StatT) : StatEvent → StatT
  | .sample type tm istmout => if type = t then st.add tm istmout else st
  | .output => .zero

/-- What the samples of a type since the last output come to. -/
def ownStat (es : List StatEvent) (t : ReqType) : StatT := es.foldl (ownStep t) .zero

/-- Both statistics have counted every sample under its own key, and their outputs have reported
the same for every key. -/
structure Agree (es : List StatEvent) : Prop where
  own : ∀ t, ((runStat es).stat.sts[vStsKey t]?).getD .zero = ownStat es t
  own2 : ∀ t, (runStat2 es).stat.vSts t = ownStat es t
  reports : ∀ key : Str, (runStat es).outputs.map (fun reports => reports.filter (·.key = key)) =
    (runStat2 es).outputs.map (fun reports => reports.filter (·.key = key))

/-- A type that is sampled for the first time has a smaller key than all types before it. -/
def Descends (pre : List StatEvent) (e : StatEvent) : Prop :=
  ∀ t, sampleType e = some t → t ∉ sampled pre → ∀ t' ∈ sampled pre, compare (vStsKey t) (vStsKey t') = .lt

section Own
variable {es : List StatEvent} {e : StatEvent} {t : ReqType}

theorem vStsKey_injective : Function.Injective vStsKey := by
  intro t t' h
  cases t <;> cases t' <;> first | rfl | exact absurd h (by decide)

theorem ownStat_snoc : ownStat (es ++ [e]) t = ownStep t (ownStat es t) e := List.foldl_concat ..

theorem mem_sampled_snoc : t ∈ sampled (es ++ [e]) ↔ t ∈ sampled es ∨ sampleType e = some t := by
  rw [sampled, List.filterMap_append, List.mem_append, sampled]
  apply or_congr_right
  cases h : sampleType e with
  | none => simp [h]
  | some t' => simp [h, eq_comm]

theorem ownStat_no_calls (h : (ownStat es t).calls = 0) : ownStat es t = .zero := by
  induction es using List.reverseRecOn with
  | nil => rfl
  | append_singleton es e ih =>
    rw [ownStat_snoc] at h ⊢
    cases e with
    | output => rfl
    | sample type tm istmout =>
      rw [ownStep] at h ⊢
      split at h
      · cases h
      · next hne =>
        rw [if_neg hne]
        exact ih h

theorem cleared_ownStat : CallTimeStat.cleared (ownStat es t) = .zero := by
  unfold CallTimeStat.cleared
  split
  · rfl
  · next h => exact ownStat_no_calls (Nat.eq_zero_of_not_pos h)

end Own

/-! ## Samples -/

section Sample
variable {c : CallTimeStat} {key k : Str} {tm : NNRat} {istmout : Bool} {st : StatT}

theorem sts_stat_old (h : key ∈ c.sts) : (c.stat key tm istmout).sts[k]? =
    if k = key then (c.sts[key]?).map fun st => st.add tm istmout else c.sts[k]? := by
  rw [CallTimeStat.stat, if_pos h]
  exact Ordered.getElem?_modify

/-- The sample goes where `begin` points. -/
theorem sts_stat_new (h : key ∉ c.sts) {first : Str} (least : (c.sts.insert key .zero).minKey? = some first) :
    (c.stat key tm istmout).sts[k]? = if k = first then
      ((c.sts.insert key .zero)[first]?).map fun st => st.add tm istmout
    else (c.sts.insert key .zero)[k]? := by
  rw [CallTimeStat.stat, if_neg h]
  simp only [least]
  exact Ordered.getElem?_modify

theorem exists_least (c : CallTimeStat) (key : Str) : ∃ first, (c.sts.insert key .zero).minKey? = some first := by
  rw [← Option.isSome_iff_exists]
  exact Std.ExtTreeMap.isSome_minKey?_insert

theorem mem_sts_stat : k ∈ (c.stat key tm istmout).sts ↔ k = key ∨ k ∈ c.sts := by
  by_cases h : key ∈ c.sts
  · have hsame : (c.stat key tm istmout).sts = c.sts.modify key fun st => st.add tm istmout := by
      rw [CallTimeStat.stat, if_pos h]
    rw [hsame, Std.ExtTreeMap.mem_modify]
    refine (or_iff_right_of_imp ?_).symm
    rintro rfl
    exact h
  · obtain ⟨first, least⟩ := exists_least c key
    have hsame : (c.stat key tm istmout).sts =
        (c.sts.insert key .zero).modify first fun st => st.add tm istmout := by
      rw [CallTimeStat.stat, if_neg h]
      simp only [least]
    rw [hsame, Std.ExtTreeMap.mem_modify, Ordered.mem_insert_map]

theorem least_iff (h : key ∉ c.sts) : (c.sts.insert key .zero).minKey? = some key ↔
    ∀ k ∈ c.sts, compare key k = .lt := by
  rw [Std.ExtTreeMap.minKey?_eq_some_iff_mem_and_forall]
  constructor
  · rintro ⟨_, hle⟩ k hk
    rcases Ordering.isLE_iff_eq_lt_or_eq_eq.mp (hle k (Ordered.mem_insert_map.mpr (Or.inr hk))) with hlt | heq
    · exact hlt
    · rw [Std.LawfulEqCmp.compare_eq_iff_eq] at heq
      exact absurd (heq ▸ hk) h
  · intro hlt
    refine ⟨Ordered.mem_insert_map.mpr (Or.inl rfl), fun k hk => ?_⟩
    rcases Ordered.mem_insert_map.mp hk with rfl | hold
    · rw [Std.ReflOrd.compare_self]
      rfl
    · exact Ordering.isLE_of_eq_lt (hlt k hold)

/-- A key that is there, or is the smallest, gets its own sample. -/
theorem getD_stat (own : key ∈ c.sts ∨ ∀ k ∈ c.sts, compare key k = .lt) :
    ((c.stat key tm istmout).sts[k]?).getD .zero =
      if k = key then ((c.sts[key]?).getD .zero).add tm istmout else (c.sts[k]?).getD .zero := by
  by_cases h : key ∈ c.sts
  · rw [sts_stat_old h]
    obtain ⟨st, hst⟩ := Ordered.mem_iff_getElem?.mp h
    split
    · rw [hst, Option.map_some, Option.getD_some, Option.getD_some]
    · rfl
  · have least := (least_iff h).mpr (own.resolve_left h)
    rw [sts_stat_new h least, Ordered.getElem?_insert, Ordered.getElem?_insert, if_pos rfl,
      Ordered.not_mem_iff_getElem?.mp h]
    split
    · rfl
    · rfl

/-- Another new key gets nothing. -/
theorem getD_stat_lost (h : key ∉ c.sts) (lost : ¬ ∀ k ∈ c.sts, compare key k = .lt) :
    ((c.stat key tm istmout).sts[key]?).getD .zero = .zero := by
  obtain ⟨first, least⟩ := exists_least c key
  have hne : key ≠ first := by
    rintro rfl
    exact lost ((least_iff h).mp least)
  rw [sts_stat_new h least, if_neg hne, Ordered.getElem?_insert, if_pos rfl, Option.getD_some]

theorem vSts_stat2 (type t : ReqType) : (c.stat2 type.num tm istmout).vSts t =
    if type = t then (c.vSts t).add tm istmout else c.vSts t := by
  have hguard : ¬ type.num > reqCount := by cases type <;> decide
  have hnum : t.num = type.num ↔ type = t := by
    cases type <;> cases t <;> decide
  rw [CallTimeStat.stat2, if_neg hguard]
  exact if_congr hnum rfl rfl

end Sample

/-! ## Outputs -/

section Output
variable {c : CallTimeStat} {key : Str}

theorem report_key {st : StatT} {r : StatReport} (h : CallTimeStat.report key st = some r) : r.key = key := by
  unfold CallTimeStat.report at h
  split at h
  · cases h
    rfl
  · cases h

/-- The reports for one key are those of the entries that have it. -/
theorem filter_reports {ε : Type} {es : List ε} {name : ε → Str} {st : ε → StatT} :
    (es.filterMap fun e => CallTimeStat.report (name e) (st e)).filter (·.key = key) =
      (es.filter fun e => name e = key).filterMap fun e => CallTimeStat.report (name e) (st e) := by
  rw [List.filter_filterMap, List.filterMap_filter]
  apply List.filterMap_congr
  intro e _
  cases hreport : CallTimeStat.report (name e) (st e) with
  | none => simp
  | some r => simp [Option.filter_some, report_key hreport]

theorem show_reports : c.show.1.filter (·.key = key) =
    ((c.sts[key]?).bind fun st => CallTimeStat.report key st).toList := by
  rw [CallTimeStat.show, filter_reports, Ordered.filter_toList]
  cases c.sts[key]? with
  | none => rfl
  | some st =>
    cases hreport : CallTimeStat.report key st <;> simp [hreport]

theorem show2_reports (t : ReqType) : c.show2.1.filter (·.key = vStsKey t) =
    (CallTimeStat.report (vStsKey t) (c.vSts t)).toList := by
  have hone : (ReqType.all.filter fun t' => vStsKey t' = vStsKey t) = [t] := by
    cases t <;> decide
  rw [CallTimeStat.show2, filter_reports, hone]
  cases hreport : CallTimeStat.report (vStsKey t) (c.vSts t) <;> simp [hreport]

theorem show2_no_reports (h : ∀ t, key ≠ vStsKey t) : c.show2.1.filter (·.key = key) = [] := by
  have hnone : (ReqType.all.filter fun t => vStsKey t = key) = [] := by
    rw [List.filter_eq_nil_iff]
    intro t _ heq
    exact h t (of_decide_eq_true heq).symm
  rw [CallTimeStat.show2, filter_reports, hnone, List.filterMap_nil]

end Output

/-! ## Runs -/

section Run
variable {pre es : List StatEvent} {e : StatEvent} {t : ReqType} {tm : NNRat} {istmout : Bool}

/-- The map has the keys of the types that were sampled. -/
theorem mem_sts {k : Str} : k ∈ (runStat es).stat.sts ↔ ∃ t ∈ sampled es, k = vStsKey t := by
  induction es using List.reverseRecOn with
  | nil => simp [runStat, CallTimeStat.empty, sampled]
  | append_singleton es e ih =>
    rw [runStat_snoc]
    cases e with
    | output =>
      rw [statStep, CallTimeStat.show, Std.ExtTreeMap.mem_map, ih]
      simp only [mem_sampled_snoc, sampleType, reduceCtorEq, or_false]
    | sample type tm istmout =>
      rw [statStep, mem_sts_stat, ih]
      simp only [mem_sampled_snoc, sampleType, Option.some.injEq, or_and_right, exists_or,
        exists_eq_left']
      exact or_comm

theorem key_mem_sts : vStsKey t ∈ (runStat es).stat.sts ↔ t ∈ sampled es := by
  rw [mem_sts]
  constructor
  · rintro ⟨t', ht', heq⟩
    rwa [vStsKey_injective heq]
  · exact fun ht => ⟨t, ht, rfl⟩

theorem agree_nil : Agree [] where
  own _ := by rw [runStat, List.foldl_nil, CallTimeStat.empty, Std.ExtTreeMap.getElem?_empty]; rfl
  own2 _ := rfl
  reports _ := rfl

/-- A sample that should go under a smaller key goes there, not under its own. -/
theorem descends_of_agree (h : Agree (pre ++ [e])) : Descends pre e := by
  intro t hsample hnew
  by_contra hnot
  cases e with
  | output => cases hsample
  | sample type tm istmout =>
    cases hsample
    have hkey : vStsKey t ∉ (runStat pre).stat.sts := key_mem_sts.not.mpr hnew
    have hlost : ¬ ∀ k ∈ (runStat pre).stat.sts, compare (vStsKey t) k = .lt :=
      fun hall => hnot fun t' ht' => hall _ (key_mem_sts.mpr ht')
    have hown := h.own t
    rw [runStat_snoc, statStep, getD_stat_lost hkey hlost, ownStat_snoc, ownStep, if_pos rfl] at hown
    have hcalls := congrArg StatT.calls hown
    exact absurd hcalls (Nat.zero_ne_add_one _)

theorem agree_sample (h : Agree pre) {type : ReqType} (descends : Descends pre (.sample type tm istmout)) :
    Agree (pre ++ [.sample type tm istmout]) where
  own t := by
    have hkey : vStsKey type ∈ (runStat pre).stat.sts ∨
        ∀ k ∈ (runStat pre).stat.sts, compare (vStsKey type) k = .lt := by
      by_cases hsampled : type ∈ sampled pre
      · exact Or.inl (key_mem_sts.mpr hsampled)
      · right
        intro k hk
        obtain ⟨t', ht', rfl⟩ := mem_sts.mp hk
        exact descends type rfl hsampled t' ht'
    rw [runStat_snoc, statStep, getD_stat hkey, ownStat_snoc, ownStep, h.own, h.own]
    by_cases htype : type = t
    · rw [if_pos htype, if_pos (congrArg vStsKey htype.symm), htype]
    · rw [if_neg htype, if_neg fun heq => htype (vStsKey_injective heq).symm]
  own2 t := by
    rw [runStat2_snoc, stat2Step, vSts_stat2, ownStat_snoc, ownStep, h.own2]
  reports key := by
    rw [runStat_snoc, runStat2_snoc]
    exact h.reports key

/-- An output reports the same counters for every key, and clears them. -/
theorem agree_output (h : Agree pre) : Agree (pre ++ [.output]) where
  own t := by
    rw [runStat_snoc, statStep, ownStat_snoc, ownStep, CallTimeStat.show, Std.ExtTreeMap.getElem?_map]
    have hown := h.own t
    cases hget : (runStat pre).stat.sts[vStsKey t]? with
    | none => rfl
    | some st =>
      rw [hget, Option.getD_some] at hown
      rw [Option.map_some, Option.getD_some, hown, cleared_ownStat]
  own2 t := by
    rw [runStat2_snoc, stat2Step, ownStat_snoc, ownStep, CallTimeStat.show2]
    dsimp only
    rw [h.own2, cleared_ownStat]
  reports key := by
    have hsame : (runStat pre).stat.show.1.filter (·.key = key) =
        (runStat2 pre).stat.show2.1.filter (·.key = key) := by
      by_cases hkey : ∃ t, key = vStsKey t
      · obtain ⟨t, rfl⟩ := hkey
        rw [show_reports, show2_reports, h.own2]
        have hown := h.own t
        cases hget : (runStat pre).stat.sts[vStsKey t]? with
        | none =>
          rw [hget, Option.getD_none] at hown
          rw [← hown]
          rfl
        | some st =>
          rw [hget, Option.getD_some] at hown
          rw [hown, Option.bind_some]
      · rw [not_exists] at hkey
        have hnone : key ∉ (runStat pre).stat.sts := by
          rw [mem_sts]
          rintro ⟨t, _, heq⟩
          exact hkey t heq
        rw [show_reports, show2_no_reports hkey, Ordered.not_mem_iff_getElem?.mp hnone]
        rfl
    rw [runStat_snoc, runStat2_snoc, statStep, stat2Step, List.map_append, List.map_append,
      h.reports key, List.map_cons, List.map_cons, hsame]

end Run

/-- The statistics agree all along a run exactly if no type that is sampled for the first time comes
behind the key of a type before it. Both get the same samples and are read out together; what a
callback does with the report is left out. -/
theorem call_times_agree_iff (es : List StatEvent) : (∀ pre post, es = pre ++ post → Agree pre) ↔
    ∀ pre e post, es = pre ++ e :: post → Descends pre e := by
  refine always_iff agree_nil fun pre e _ _ h => ⟨descends_of_agree, fun descends => ?_⟩
  cases e with
  | output => exact agree_output h
  | sample type tm istmout => exact agree_sample h descends

/-- A `fin`, then the first `upidx`, which is counted under the key of `fin`. -/
theorem upidx_counted_as_fin :
    ¬ ∀ pre post, [.sample .fin 1 false, .sample .upidx 1 false] = pre ++ post → Agree pre := by
  intro h
  have hagree := h [.sample .fin 1 false, .sample .upidx 1 false] [] rfl
  have hdescends := @descends_of_agree [.sample .fin 1 false] (.sample .upidx 1 false) hagree
  exact absurd (hdescends .upidx rfl (by decide) .fin (by decide)) (by decide)

end RedisCluster.Guarantees
