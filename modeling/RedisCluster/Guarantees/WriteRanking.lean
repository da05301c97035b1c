import Mathlib.Data.Finset.Card
import RedisCluster.Guarantees.SyncAsync

/-!
# The write ranking

Every script of a request counts its user in `RANK_W`. The first time that there are more than
1000 users the ranks from 0 to `cn-1000` are removed, both included, so that 999 users are left.
-/

set_option autoImplicit false

namespace RedisCluster.Guarantees
open Library Source

/-! ## Who is counted -/

/-- The user whom the event counts. -/
def writer : SessionEvent → Option Str
  | .request uid r => if r.accepted then some (Text.decimal uid) else none
  | _ => none

/-- The users that a run has counted. -/
def writers (es : List SessionEvent) : Finset Str := (es.filterMap writer).toFinset

/-- The store before the ranking is trimmed. -/
def counted (s : Keyspace) (e : SessionEvent) : Keyspace := (writer e).elim s (s.zincrby rankW 1)

/-- Members are dropped only where there are more than 1000, and then the lowest ones of them,
down to exactly 1000. -/
def DropsLowest (before after : Keyspace) : Prop :=
  ∀ m ∈ before.zsets rankW, m ∉ after.zsets rankW →
    1000 < before.zcard rankW ∧ after.zcard rankW = 1000 ∧
      ∀ kept ∈ after.zsets rankW, [m, kept].Sublist ((before.ranked rankW).map Prod.fst)

/-- The ranking has its 1000 members at every point of the run. -/
structure RankTrimmed (es : List SessionEvent) : Prop where
  bounded : ∀ run, run <+: es → (runSessions run).zcard rankW ≤ 1000
  drops : ∀ run e, run ++ [e] <+: es → DropsLowest (counted (runSessions run) e) (runSessions (run ++ [e]))
  full : ∀ run, run <+: es → 1000 ≤ (writers run).card → 1000 ≤ (runSessions run).zcard rankW

theorem writers_snoc (es : List SessionEvent) (e : SessionEvent) :
    writers (es ++ [e]) = (writer e).elim (writers es) fun uid => insert uid (writers es) := by
  unfold writers
  rw [List.filterMap_append]
  ext m
  cases h : writer e with
  | none => simp [h]
  | some uid => simp [h]

/-! ## One event -/

section Step
variable {s : Keyspace} {z : Str}

theorem zsets_dropSessions (names : List Str) (ofl : List RedisReply) (s : Keyspace) :
    (dropSessions names ofl s).2.zsets = s.zsets := by
  induction names generalizing ofl s with
  | nil => rfl
  | cons name names ih =>
    rw [dropSessions]
    cases Text.cutAt '.' (name.drop 2) with
    | none => rfl
    | some cut =>
      dsimp only
      rw [Script.bind_ok (Script.ask_apply _), Script.bind_ok (Script.call_apply _)]
      cases s.hget (kuid cut.1) cut.2 with
      | none => exact ih _ _
      | some tv => exact ih _ _

/-- The removal touches no sorted set but the one it removes from. -/
theorem zsets_timeoutRm (keys : List Str) (hz : z ≠ dlyCk) :
    (runScript (timeoutRm keys) s).2.zsets z = s.zsets z := by
  have hsnd : (runScript (timeoutRm keys) s).2 = (timeoutRm keys s).2 := by
    unfold runScript
    cases timeoutRm keys s with
    | mk result s' => cases result <;> rfl
  rw [hsnd]
  unfold timeoutRm
  split
  · next st _ =>
    cases toNumber st with
    | none => rfl
    | some st =>
      dsimp only
      rw [Script.bind_ok (Script.ask_apply _), Script.bind_ok (Script.call_apply _)]
      have hdrop := zsets_dropSessions ((s.zrangebyscore dlyCk st).map Prod.fst) []
        (((s.zrangebyscore dlyCk st).map Prod.fst).foldl Keyspace.del s)
      rw [Keyspace.zsets_dels] at hdrop
      cases hrun : dropSessions ((s.zrangebyscore dlyCk st).map Prod.fst) []
          (((s.zrangebyscore dlyCk st).map Prod.fst).foldl Keyspace.del s) with
      | mk result s' =>
        rw [hrun] at hdrop
        cases result with
        | error error =>
          rw [Script.bind_error hrun]
          exact congrFun hdrop z
        | ok ofl =>
          rw [Script.bind_ok hrun, Script.bind_ok (Script.call_apply _)]
          exact (Keyspace.zsets_setZset_of_ne hz).trans (congrFun hdrop z)
  · rfl

/-- An event counts its user and trims, or it leaves the ranking alone. -/
theorem rank_step (s : Keyspace) (e : SessionEvent) : (sessionStep s e).zsets rankW =
    (writer e).elim (s.zsets rankW) fun uid => (written s uid).zsets rankW := by
  cases e with
  | elapse d => rfl
  | timeoutRm st cn => exact zsets_timeoutRm _ dlyCk_ne_rankW.symm
  | request uid r =>
    rw [sessionStep, writer]
    by_cases accepted : r.accepted = true
    · obtain ⟨_, s', hsame, hwritten⟩ := request_writes uid accepted s
      rw [if_pos accepted, if_pos accepted, Option.elim_some, ← written_rank_congr _ hsame]
      exact hwritten
    · rw [if_neg accepted, if_neg accepted, Option.elim_none]

/-- A trimmed ranking is one short. -/
theorem zcard_written (s : Keyspace) (uid : Str) : (written s uid).zcard rankW =
    if (s.zincrby rankW 1 uid).zcard rankW ≤ 1000 then (s.zincrby rankW 1 uid).zcard rankW else 999 := by
  unfold written
  dsimp only
  split
  · next hmany =>
    rw [if_neg (Nat.not_le.mpr hmany), Keyspace.zcard_zremrangebyrank]
    omega
  · next hfew => rw [if_pos (Nat.not_lt.mp hfew)]

/-- Up to 1000 users nothing is trimmed. -/
theorem step_few {e : SessionEvent} (few : (counted s e).zcard rankW ≤ 1000) :
    (sessionStep s e).zsets rankW = (counted s e).zsets rankW := by
  rw [rank_step]
  unfold counted at few ⊢
  cases hwriter : writer e with
  | none => rfl
  | some uid =>
    rw [hwriter, Option.elim_some] at few
    have hsame : written s uid = s.zincrby rankW 1 uid := if_neg (Nat.not_lt.mpr few)
    rw [Option.elim_some, Option.elim_some, hsame]

theorem step_many {e : SessionEvent} {uid : Str} (hwriter : writer e = some uid)
    (many : 1000 < (counted s e).zcard rankW) : (sessionStep s e).zcard rankW = 999 := by
  rw [counted, hwriter, Option.elim_some] at many
  rw [Keyspace.zcard, rank_step, hwriter, Option.elim_some, ← Keyspace.zcard, zcard_written,
    if_neg (Nat.not_le.mpr many)]

end Step

/-! ## Runs -/

section Run
variable {es run : List SessionEvent} {e : SessionEvent}

theorem zcard_eq_card {s : Keyspace} {z : Str} {users : Finset Str}
    (same : ∀ m, m ∈ s.zsets z ↔ m ∈ users) : s.zcard z = users.card := by
  have husers : users = ((s.zsets z).toList.map Prod.fst).toFinset := by
    ext m
    rw [List.mem_toFinset, Std.ExtTreeMap.map_fst_toList_eq_keys, Std.ExtTreeMap.mem_keys, same]
  rw [husers, List.toFinset_card_of_nodup (Ordered.nodup_keys _), List.length_map,
    Std.ExtTreeMap.length_toList, Keyspace.zcard]

theorem writers_mono (h : run <+: es) : writers run ⊆ writers es := by
  obtain ⟨rest, rfl⟩ := h
  unfold writers
  rw [List.filterMap_append, List.toFinset_append]
  exact Finset.subset_union_left

theorem mem_counted_of {s : Keyspace} (same : ∀ m, m ∈ s.zsets rankW ↔ m ∈ writers run) (m : Str) :
    m ∈ (counted s e).zsets rankW ↔ m ∈ writers (run ++ [e]) := by
  rw [writers_snoc, counted]
  cases writer e with
  | none => exact same m
  | some uid =>
    rw [Option.elim_some, Option.elim_some, Keyspace.zincrby, Keyspace.mem_zadd, Finset.mem_insert, same]

/-- Up to 1000 users the ranking has all that were counted. -/
theorem mem_rank (few : (writers run).card ≤ 1000) (m : Str) :
    m ∈ (runSessions run).zsets rankW ↔ m ∈ writers run := by
  induction run using List.reverseRecOn generalizing m with
  | nil => simp [runSessions, Keyspace.empty, writers]
  | append_singleton run e ih =>
    have hbefore := ih ((Finset.card_le_card (writers_mono (List.prefix_append run [e]))).trans few)
    have hcounted : ∀ m, m ∈ (counted (runSessions run) e).zsets rankW ↔ m ∈ writers (run ++ [e]) :=
      mem_counted_of hbefore
    rw [runSessions_snoc, step_few (by rwa [zcard_eq_card hcounted]), hcounted]

theorem zcard_rank (few : (writers run).card ≤ 1000) :
    (runSessions run).zcard rankW = (writers run).card :=
  zcard_eq_card (mem_rank few)

theorem zcard_counted (few : (writers run).card ≤ 1000) :
    (counted (runSessions run) e).zcard rankW = (writers (run ++ [e])).card :=
  zcard_eq_card (mem_counted_of (mem_rank few))

/-- A run that has counted more than 1000 users has once counted one more than 1000. -/
theorem exists_overflow (many : 1000 < (writers es).card) :
    ∃ run e uid, run ++ [e] <+: es ∧ writer e = some uid ∧ (writers run).card = 1000 ∧
      (writers (run ++ [e])).card = 1001 := by
  induction es using List.reverseRecOn with
  | nil =>
    rw [show writers [] = ∅ from rfl, Finset.card_empty] at many
    omega
  | append_singleton es e ih =>
    by_cases hbefore : 1000 < (writers es).card
    · obtain ⟨run, e', uid, hprefix, hrest⟩ := ih hbefore
      exact ⟨run, e', uid, hprefix.trans (List.prefix_append es [e]), hrest⟩
    · have hsnoc := writers_snoc es e
      cases hwriter : writer e with
      | none =>
        rw [hwriter, Option.elim_none] at hsnoc
        rw [hsnoc] at many
        omega
      | some uid =>
        rw [hwriter, Option.elim_some] at hsnoc
        have hinsert := Finset.card_insert_le uid (writers es)
        rw [← hsnoc] at hinsert
        exact ⟨es, e, uid, List.prefix_rfl, hwriter, by omega, by omega⟩

/-- Then one user too many is removed. -/
theorem not_trimmed_of_many (many : 1000 < (writers es).card) : ¬ RankTrimmed es := by
  intro h
  obtain ⟨run, e, uid, hprefix, hwriter, hbefore, hafter⟩ := exists_overflow many
  have hfull := h.full (run ++ [e]) hprefix (by omega)
  rw [runSessions_snoc, step_many hwriter] at hfull
  · omega
  · rw [zcard_counted (by omega)]
    omega

end Run

/-- The ranking is trimmed as it should be exactly as long as it need not be trimmed: with more than
a thousand users the bound of the range, which is inclusive, takes one too many. -/
theorem rank_trimmed_iff (es : List SessionEvent) : RankTrimmed es ↔ (writers es).card ≤ 1000 := by
  constructor
  · intro h
    by_contra many
    exact not_trimmed_of_many (Nat.not_le.mp many) h
  · intro few
    have hfew : ∀ run, run <+: es → (writers run).card ≤ 1000 :=
      fun run hprefix => (Finset.card_le_card (writers_mono hprefix)).trans few
    refine ⟨?_, ?_, ?_⟩
    · intro run hprefix
      rw [zcard_rank (hfew run hprefix)]
      exact hfew run hprefix
    · intro run e hprefix m hbefore hafter
      have hrun := hfew run ((List.prefix_append run [e]).trans hprefix)
      rw [mem_counted_of (mem_rank hrun)] at hbefore
      exact absurd ((mem_rank (hfew _ hprefix) m).mpr hbefore) hafter
    · intro run hprefix hmany
      rwa [zcard_rank (hfew run hprefix)]

/-- `fin` of 1001 users. -/
def manyWriters : List SessionEvent :=
  (List.range 1001).map fun n : Nat => .request n (.fin ⟨⟨1, ⟨1, 0⟩, ['g']⟩⟩)

/-- With the 1001st user two are removed. -/
theorem many_writers_overtrimmed : ¬ RankTrimmed manyWriters := by
  apply not_trimmed_of_many
  have hwriters : ∀ ns : List Nat, (ns.map fun n : Nat => SessionEvent.request n
      (.fin ⟨⟨1, ⟨1, 0⟩, ['g']⟩⟩)).filterMap writer =
        ns.map fun n : Nat => Text.decimal n := by
    intro ns
    rw [List.filterMap_map, ← List.filterMap_eq_map]
    rfl
  have hinjective : Function.Injective fun n : Nat => Text.decimal n :=
    fun _ _ h => Int.ofNat.inj (Text.decimal_injective h)
  rw [writers, manyWriters, hwriters, List.toFinset_card_of_nodup (List.nodup_range.map hinjective), List.length_map,
    List.length_range]
  exact Nat.lt_succ_self 1000

end RedisCluster.Guarantees
