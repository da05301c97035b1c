import Mathlib.Algebra.Ring.Int.Defs
import Mathlib.Data.Int.Order.Basic
import RedisCluster.Guarantees.Requests

/-!
# Asynchronous requests complete exactly once

Over any run, a request has made of its replies and of the ticks what gathering them
until a deadline makes of them, and its callback has been told so.
-/

set_option autoImplicit false

namespace RedisCluster.Guarantees
open Library Source

/-! ## Runs -/

section Runs
variable {τ : Type} [LinearOrder τ]

/-- What a request gathers from an event. -/
def seen (ptr : Nat) : AsyncEvent τ → Option (Gather.Event UInt64 RedisReply τ)
  | .cmdAsync _ => none
  | .reply _ call addr r => if call = ptr then some (.answer addr r) else none
  | .tick stamp => some (.tick stamp)

variable [Add τ] {s s' : EventState τ} {requests : AsyncRequests τ}

/-- The request of a call is what these events make of it. -/
def Followed (requests : AsyncRequests τ) (ptr : Nat) (call : AsyncCall τ)
    (past : List (Gather.Event UInt64 RedisReply τ)) : Prop :=
  ∃ q, requests ptr = some q ∧ q.call = call ∧
    Gather.Runs (sentTo call) (deadline call) past q.replies

theorem init_simulates (idx : UInt64) :
    Simulates (.init idx : EventState τ) fun _ => none where
  represents ptr q hq := nomatch hq
  allocated ptr := by simp [EventState.init]
  slots cf := Or.inl rfl
  owner p hp := nomatch hp
  apart ptr q ptr' q' hq := nomatch hq
  once := List.nodup_nil
  entries := Multimap.distinct_empty
  logged inv hinv := nomatch hinv

theorem Followed.other {ptr other : Nat} {call : AsyncCall τ}
    {past : List (Gather.Event UInt64 RedisReply τ)} (h : Followed requests ptr call past)
    (hne : ptr ≠ other) (q : Option (AsyncRequest τ)) :
    Followed (Function.update requests other q) ptr call past := by
  obtain ⟨r, hr, hrest⟩ := h
  exact ⟨r, by rw [Function.update_of_ne hne, hr], hrest⟩

variable [Sub τ] [Zero τ]

/-- Whatever may happen has a result, and every request makes of it what it sees. -/
theorem Simulates.step (sim : Simulates s requests) {e : AsyncEvent τ} (enabled : Enabled s e) :
    ∃ s' requests', eventStep s e = some s' ∧ Simulates s' requests' ∧
      ∀ ptr call past, Followed requests ptr call past →
        Followed requests' ptr call (past ++ (seen ptr e).toList) := by
  cases e with
  | cmdAsync c =>
    obtain ⟨hne, hcb, free⟩ := enabled
    refine ⟨_, _, rfl, sim.call hne hcb free, ?_⟩
    intro ptr call past followed
    have hptr : ptr ≠ s.allocs := by
      rintro rfl
      obtain ⟨q, hq, _⟩ := followed
      rw [sim.fresh] at hq
      cases hq
    rw [seen, Option.toList_none, List.append_nil]
    exact followed.other hptr _
  | reply now call addr r =>
    obtain ⟨p, hp, rfl, rfl⟩ := enabled
    obtain ⟨s', q, hq, haddr, hstep, sim', _⟩ := sim.reply hp now r
    refine ⟨s', _, hstep, sim', ?_⟩
    intro ptr call past followed
    rw [seen]
    split
    · next heq =>
      subst heq
      obtain ⟨q', hq', rfl, hruns⟩ := followed
      rw [hq] at hq'
      cases hq'
      exact ⟨_, Function.update_self .., rfl, hruns.answer haddr r⟩
    · next hne =>
      rw [Option.toList_none, List.append_nil]
      exact followed.other (Ne.symm hne) _
  | tick stamp =>
    obtain ⟨s', hstep, sim'⟩ := sim.tick stamp
    refine ⟨s', _, hstep, sim', ?_⟩
    rintro ptr call past ⟨q, hq, rfl, hruns⟩
    exact ⟨q.tick stamp, by rw [tickAll, hq]; rfl, rfl, hruns.tick stamp⟩

theorem Simulates.run {es : List (AsyncEvent τ)} (sim : Simulates s requests)
    (run : runEvents s es = some s') : ∃ requests', Simulates s' requests' ∧
      ∀ ptr call past, Followed requests ptr call past →
        Followed requests' ptr call (past ++ es.filterMap (seen ptr)) := by
  induction es generalizing s requests with
  | nil =>
    cases run
    refine ⟨requests, sim, ?_⟩
    intro ptr call past followed
    rwa [List.filterMap_nil, List.append_nil]
  | cons e es ih =>
    rw [runEvents] at run
    split at run
    · next enabled =>
      obtain ⟨s₁, requests₁, hstep, sim₁, hfollow₁⟩ := sim.step enabled
      rw [hstep] at run
      obtain ⟨requests', sim', hfollow⟩ := ih sim₁ run
      refine ⟨requests', sim', ?_⟩
      intro ptr call past followed
      have hall := hfollow ptr call _ (hfollow₁ ptr call past followed)
      cases hseen : seen ptr e with
      | none => simpa [hseen] using hall
      | some seen => simpa [hseen] using hall
    · cases run

end Runs

/-! ## Completion -/

section Completion
variable {τ : Type}

theorem seen_answer {ptr : Nat} {e : AsyncEvent τ} {addr : UInt64} {r : Option RedisReply} :
    seen ptr e = some (.answer addr r) ↔ ∃ now, e = .reply now ptr addr r := by
  cases e with
  | cmdAsync c => simp [seen]
  | tick stamp => simp [seen]
  | reply now call addr' r' =>
    by_cases heq : call = ptr <;> simp [seen, heq]

theorem seen_tick {ptr : Nat} {e : AsyncEvent τ} {stamp : τ} :
    seen ptr e = some (.tick stamp) ↔ e = .tick stamp := by
  cases e with
  | cmdAsync c => simp [seen]
  | tick other => simp [seen]
  | reply now call addr r =>
    by_cases heq : call = ptr <;> simp [seen, heq]

/-- The reply of every command that the call sent is there, be it `NULL`. -/
def AllReplied (ptr : Nat) (call : AsyncCall τ) (es : List (AsyncEvent τ)) : Prop :=
  ∀ addr ∈ sentTo call, ∃ now r, AsyncEvent.reply now ptr addr r ∈ es

theorem allIn_seen {ptr : Nat} {call : AsyncCall τ} {es : List (AsyncEvent τ)} :
    Gather.AllIn (sentTo call) (es.filterMap (seen ptr)) ↔ AllReplied ptr call es := by
  apply forall₂_congr
  intro addr _
  simp only [List.mem_filterMap, seen_answer]
  constructor
  · rintro ⟨r, _, he, now, rfl⟩
    exact ⟨now, r, he⟩
  · rintro ⟨now, r, he⟩
    exact ⟨r, _, he, now, rfl⟩

variable [LinearOrder τ] [Add τ]

/-- A tick after the call's deadline is there. -/
def Overdue (call : AsyncCall τ) (es : List (AsyncEvent τ)) : Prop :=
  ∃ stamp, AsyncEvent.tick stamp ∈ es ∧ deadline call < stamp

section Seen
variable {ptr : Nat} {call : AsyncCall τ} {es : List (AsyncEvent τ)}

theorem late_seen : Gather.Late (deadline call) (es.filterMap (seen ptr)) ↔ Overdue call es := by
  apply exists_congr
  intro stamp
  simp only [List.mem_filterMap, seen_tick, exists_eq_right]

theorem inTime_seen : Gather.InTime (sentTo call) (deadline call) (es.filterMap (seen ptr)) ↔
    ∃ pre, pre <+: es ∧ AllReplied ptr call pre ∧ ¬ Overdue call pre := by
  constructor
  · rintro ⟨past, hpast, hall⟩
    obtain ⟨pre, hpre, rfl⟩ := List.prefix_filterMap_iff.mp hpast
    rw [allIn_seen, late_seen] at hall
    exact ⟨pre, hpre, hall⟩
  · rintro ⟨pre, hpre, hall⟩
    refine ⟨_, hpre.filterMap (seen ptr), ?_⟩
    rwa [allIn_seen, late_seen]

theorem heard_seen {addr : UInt64} {r : RedisReply} :
    Gather.Heard (sentTo call) (deadline call) (es.filterMap (seen ptr)) addr r ↔
      ∃ pre now, pre ++ [.reply now ptr addr (some r)] <+: es ∧ ¬ AllReplied ptr call pre ∧
        ¬ Overdue call pre := by
  constructor
  · rintro ⟨past, hpast, hopen⟩
    obtain ⟨upto, hupto, hsplit⟩ := List.prefix_filterMap_iff.mp hpast
    obtain ⟨pre, rest, rfl, rfl, hrest⟩ := List.filterMap_eq_append_iff.mp hsplit.symm
    obtain ⟨skipped, e, tail, rfl, hskipped, he, _⟩ := List.filterMap_eq_cons_iff.mp hrest
    obtain ⟨now, rfl⟩ := seen_answer.mp he
    -- The events between the ones that the request sees are none of its.
    have hpre : (pre ++ skipped).filterMap (seen ptr) = pre.filterMap (seen ptr) := by
      rw [List.filterMap_append, List.filterMap_eq_nil_iff.mpr hskipped, List.append_nil]
    refine ⟨pre ++ skipped, now, ?_, ?_⟩
    · refine List.IsPrefix.trans ⟨tail, ?_⟩ hupto
      simp
    · rwa [← hpre, allIn_seen, late_seen] at hopen
  · rintro ⟨pre, now, hpre, hopen⟩
    refine ⟨pre.filterMap (seen ptr), ?_, ?_⟩
    · have hprefix := hpre.filterMap (seen ptr)
      simpa [seen] using hprefix
    · rwa [allIn_seen, late_seen]

end Seen

/-- What the callback of a call is owed, after the events that followed the call. -/
structure CompletesOnce (s : EventState τ) (ptr : Nat) (call : AsyncCall τ)
    (after : List (AsyncEvent τ)) : Prop where
  once : (invocations s ptr).length ≤ 1
  invoked : invocations s ptr ≠ [] ↔ AllReplied ptr call after ∨ Overdue call after
  caller : ∀ inv ∈ invocations s ptr, inv.key = call.key ∧ inv.data = call.data
  istmout : ∀ inv ∈ invocations s ptr, inv.istmout = false ↔
    ∃ pre, pre <+: after ∧ AllReplied ptr call pre ∧ ¬ Overdue call pre
  rvs : ∀ inv ∈ invocations s ptr, ∀ addr rv, inv.rv[addr]? = some rv ↔
    ∃ pre now r, pre ++ [.reply now ptr addr (some r)] <+: after ∧
      ¬ AllReplied ptr call pre ∧ ¬ Overdue call pre ∧ rv = redisrvsAdd r .fresh

/-- The log has what the request has come to. -/
theorem Represents.completes {s : EventState τ} {ptr : Nat} {q : AsyncRequest τ}
    {after : List (AsyncEvent τ)} (rep : Represents s ptr q)
    (runs : Gather.Runs (sentTo q.call) (deadline q.call) (after.filterMap (seen ptr)) q.replies) :
    CompletesOnce s ptr q.call after := by
  have hnodup := sentTo_nodup q.call
  have hopen := runs.open_iff hnodup
  rw [allIn_seen, late_seen, ← not_or] at hopen
  cases hout : q.replies.outcome with
  | none =>
    have hnone := (rep.running hout).2
    have hwaits := hopen.mp hout
    constructor
    · simp [hnone]
    · simp [hnone, hwaits]
    · simp [hnone]
    · simp [hnone]
    · simp [hnone]
  | some istmout =>
    obtain ⟨inv, hinv, told⟩ := rep.ended istmout hout
    have hover : AllReplied ptr q.call after ∨ Overdue q.call after := by
      by_contra hwaits
      rw [hopen.mpr hwaits] at hout
      cases hout
    rw [hout] at hopen
    constructor
    · simp [hinv]
    · simp [hinv, hover]
    · rw [hinv, List.forall_mem_singleton]
      exact ⟨told.key, told.data⟩
    · rw [hinv, List.forall_mem_singleton, told.istmout, ← inTime_seen, ← runs.inTime_iff hnodup,
        hout, Option.some_inj]
    · rw [hinv, List.forall_mem_singleton]
      intro addr rv
      simp only [told.rv addr, Option.map_eq_some_iff, runs.got_iff hnodup, heard_seen]
      constructor
      · rintro ⟨r, ⟨pre, now, hpre, hall, hlate⟩, rfl⟩
        exact ⟨pre, now, r, hpre, hall, hlate, rfl⟩
      · rintro ⟨pre, now, r, hpre, hall, hlate, rfl⟩
        exact ⟨r, ⟨pre, now, hpre, hall, hlate⟩, rfl⟩

variable [Sub τ] [Zero τ]

/-- A reply to a call whose callback was invoked changes nothing. -/
theorem Simulates.late_reply {s s' : EventState τ} {requests : AsyncRequests τ}
    (sim : Simulates s requests) {now : τ} {ptr : Nat} {addr : UInt64} {r : Option RedisReply}
    (run : runEvents s [.reply now ptr addr r] = some s') (ended : invocations s ptr ≠ []) :
    s' = { s with pending := s'.pending } := by
  rw [runEvents] at run
  split at run
  · next enabled =>
    obtain ⟨p, hp, rfl, rfl⟩ := enabled
    obtain ⟨s₁, q, hq, _, hstep, _, hsame⟩ := sim.reply hp now r
    rw [hstep] at run
    cases run
    apply hsame
    intro hout
    exact ended ((sim.represents p.call q hq).running hout).2
  · cases run

/-- Whatever happens after a call, its callback is invoked once, when the last reply is there or a
tick comes after the deadline, and with the replies so far; and the code goes on whatever happens
next. The slot that the call takes is assumed to be free (`Enabled`): without this
`attributed_iff_timely` says when it fails. A callback that never returns, and a tick that never
comes, are outside of the model. -/
theorem async_completes_once {idx : UInt64} {before after : List (AsyncEvent τ)}
    {call : AsyncCall τ} {s₀ s : EventState τ} (start : runEvents (.init idx) before = some s₀)
    (run : runEvents s₀ (.cmdAsync call :: after) = some s) :
    CompletesOnce s s₀.allocs call after ∧
      (∀ now addr r s', runEvents s [.reply now s₀.allocs addr r] = some s' →
        invocations s s₀.allocs ≠ [] → s' = { s with pending := s'.pending }) ∧
      ∀ e, Enabled s e → (eventStep s e).isSome := by
  obtain ⟨requests₀, sim₀, _⟩ := (init_simulates idx).run start
  rw [runEvents] at run
  split at run
  · next enabled =>
    obtain ⟨hne, hcb, free⟩ := enabled
    have sim₁ := sim₀.call hne hcb free
    obtain ⟨requests, sim, hfollow⟩ := sim₁.run run
    have hissued : Followed (Function.update requests₀ s₀.allocs (some (.issue s₀ call)))
        s₀.allocs call [] := ⟨_, Function.update_self .., rfl, .start⟩
    obtain ⟨q, hq, rfl, hruns⟩ := hfollow _ _ _ hissued
    rw [List.nil_append] at hruns
    refine ⟨(sim.represents _ q hq).completes hruns, ?_, ?_⟩
    · intro now addr r s' hreply hover
      exact sim.late_reply hreply hover
    · intro e he
      obtain ⟨s', _, hstep, _⟩ := sim.step he
      rw [hstep]
      rfl
  · cases run

end Completion

/-! ## An example

Two of three addresses are connected. One answers in time, the other after a tick that
is late.
-/

def exampleCall : AsyncCall Int where
  key := 7
  data := 0
  callback := true
  addrCmd := (((∅ : Commands).insert 1 []).insert 2 []).insert 3 []
  callStamp := 10
  timeout := 5
  ctxs addr := if addr = 3 then none else some ⟨1, false⟩

def exampleReply : RedisReply := .mk .integer 1 none []

theorem async_completes_once_example : ∃ s, runEvents (.init 0)
      [.cmdAsync exampleCall, .reply 11 0 2 (some exampleReply), .tick 15, .tick 16,
        .reply 17 0 1 none] = some s ∧
    CompletesOnce s 0 exampleCall [.reply 11 0 2 (some exampleReply), .tick 15, .tick 16,
      .reply 17 0 1 none] := by
  have hruns : (runEvents (.init 0) [.cmdAsync exampleCall,
      .reply 11 0 2 (some exampleReply), .tick 15, .tick 16, .reply 17 0 1 none]).isSome := by
    decide +kernel
  obtain ⟨s, hs⟩ := Option.isSome_iff_exists.mp hruns
  have hnone : runEvents (.init 0) ([] : List (AsyncEvent Int)) = some (.init 0) := rfl
  exact ⟨s, hs, (async_completes_once hnone hs).1⟩

end RedisCluster.Guarantees
