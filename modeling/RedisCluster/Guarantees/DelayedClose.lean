import Mathlib.Data.List.Induction
import RedisCluster.Guarantees.Sessions

/-!
# The delay sweep removes what was asked to be removed

A session is among the pending removals only as long as the last thing that happened to
it is a `fin_delay` that had its gate.
-/

set_option autoImplicit false

namespace RedisCluster.Guarantees
open Library Source

/-- A `syn`, `upidx` or `fin` that runs on the session. -/
def Settles (uid lc : Int) (e : SessionEvent) : Prop :=
  ∃ r, e = .request uid r ∧ r.head.logicConn = lc ∧ settles r = true

/-- A `fin_delay` on the session that comes after these events and has its gate. -/
def Matches (es : List SessionEvent) (uid lc : Int) (e : SessionEvent) : Prop :=
  ∃ proto, e = .request uid (.finDelay proto) ∧ proto.head.logicConn = lc ∧
    GateIs (runSessions es) (Text.decimal uid) (Text.decimal lc) proto.head.sublayerIndex

/-- The last event that settles or matches is a match, with this delay. -/
def Asked (es : List SessionEvent) (uid lc delay : Int) : Prop :=
  ∃ pre proto post, es = pre ++ .request uid (.finDelay proto) :: post ∧
    Matches pre uid lc (.request uid (.finDelay proto)) ∧ proto.expire = delay ∧
    (∀ e ∈ post, ¬ Settles uid lc e) ∧
    ∀ mid e rest, post = mid ++ e :: rest →
      ¬ Matches (pre ++ .request uid (.finDelay proto) :: mid) uid lc e

theorem Asked.snoc {es : List SessionEvent} {uid lc delay : Int} {e : SessionEvent}
    (asked : Asked es uid lc delay) (hsettles : ¬ Settles uid lc e)
    (hmatches : ¬ Matches es uid lc e) : Asked (es ++ [e]) uid lc delay := by
  obtain ⟨pre, proto, post, rfl, hmatch, hdelay, hnone, hlast⟩ := asked
  refine ⟨pre, proto, post ++ [e], by simp, hmatch, hdelay, ?_, ?_⟩
  · intro e' he'
    rcases List.mem_append.mp he' with he' | he'
    · exact hnone e' he'
    · rw [List.mem_singleton.mp he']
      exact hsettles
  · intro mid e' rest heq
    rcases List.eq_nil_or_concat rest with rfl | ⟨rest', last, rfl⟩
    · obtain ⟨rfl, hlast⟩ := List.append_inj' heq rfl
      cases hlast
      exact hmatches
    · have hsplit : post ++ [e] = (mid ++ e' :: rest') ++ [last] := by simpa using heq
      obtain ⟨hpost, _⟩ := List.append_inj' hsplit rfl
      exact hlast mid e' rest' hpost

theorem Matches.asked {es : List SessionEvent} {uid : Int} {proto : ProtoFinDelay}
    (h : Matches es uid proto.head.logicConn (.request uid (.finDelay proto))) :
    Asked (es ++ [.request uid (.finDelay proto)]) uid proto.head.logicConn proto.expire :=
  ⟨es, proto, [], rfl, h, rfl, by simp, by simp⟩

theorem not_matches_of_settles {es : List SessionEvent} {uid uid' lc : Int} {r : Request}
    (h : settles r = true) : ¬ Matches es uid lc (.request uid' r) := by
  rintro ⟨proto, heq, _⟩
  cases heq
  cases h

/-- What is not a request neither settles nor matches. -/
theorem Asked.snoc_other {es : List SessionEvent} {uid lc delay : Int} {e : SessionEvent}
    (asked : Asked es uid lc delay) (other : ∀ uid r, e ≠ .request uid r) :
    Asked (es ++ [e]) uid lc delay := by
  apply asked.snoc
  · rintro ⟨r, heq, _⟩
    exact other _ _ heq
  · rintro ⟨proto, heq, _⟩
    exact other _ _ heq

/-- Every pending removal is of a session that was asked for, with its stamp. -/
def AllAsked (es : List SessionEvent) (s : Keyspace) : Prop :=
  ∀ m stamp, s.zscore dlyCk m = some stamp → ∃ uid lc, m = sessionKey uid lc ∧ Asked es uid lc stamp

/-- A request that settles a session ends what was asked for it alone. -/
theorem AllAsked.settled {es : List SessionEvent} {s s' : Keyspace} {uid : Int} {r : Request}
    (h : AllAsked es s) (hsettles : settles r = true) (pending : ∀ m, s'.zscore dlyCk m =
      if m = sessionKey uid r.head.logicConn then none else s.zscore dlyCk m) :
    AllAsked (es ++ [.request uid r]) s' := by
  intro m stamp hm
  rw [pending] at hm
  split at hm
  · cases hm
  · next hne =>
    obtain ⟨uid', lc, rfl, asked⟩ := h m stamp hm
    refine ⟨uid', lc, rfl, asked.snoc ?_ (not_matches_of_settles hsettles)⟩
    rintro ⟨r', heq, hlc, _⟩
    cases heq
    exact hne (congrArg (sessionKey uid) hlc.symm)

theorem pending_asked (es : List SessionEvent) : AllAsked es (runSessions es) := by
  induction es using List.reverseRecOn with
  | nil =>
    intro m stamp h
    simp [runSessions, Keyspace.zscore, Keyspace.empty] at h
  | append_singleton es e ih =>
    have named : ∀ m stamp, (runSessions es).zscore dlyCk m = some stamp → Named m := by
      intro m stamp h
      obtain ⟨uid, lc, rfl, _⟩ := ih m stamp h
      exact ⟨_, _, decimal_no_dot uid, rfl⟩
    intro m stamp h
    rw [runSessions_snoc] at h
    cases sessionStep_effect named e with
    | synced opened effect => exact ih.settled (settles_of_opens opened) effect.pending m stamp h
    | @closed uid proto effect =>
      have hsettles : settles (.fin proto) = true := rfl
      exact ih.settled hsettles effect.pending m stamp h
    | @delayed uid proto gate effect =>
      rw [effect.pending] at h
      split at h
      · next heq =>
        cases h
        exact ⟨uid, proto.head.logicConn, heq, Matches.asked ⟨proto, rfl, rfl, gate⟩⟩
      · next hne =>
        obtain ⟨uid', lc, rfl, asked⟩ := ih m stamp h
        refine ⟨uid', lc, rfl, asked.snoc ?_ ?_⟩
        · rintro ⟨r, heq, _, hsettles⟩
          cases heq
          cases hsettles
        · rintro ⟨proto', heq, hlc, _⟩
          cases heq
          exact hne (congrArg (sessionKey uid) hlc.symm)
    | @passed uid proto gate effect =>
      rw [effect.pending] at h
      obtain ⟨uid', lc, rfl, asked⟩ := ih m stamp h
      refine ⟨uid', lc, rfl, asked.snoc ?_ ?_⟩
      · rintro ⟨r, heq, _, hsettles⟩
        cases heq
        cases hsettles
      · rintro ⟨proto', heq, rfl, hgate⟩
        cases heq
        exact gate hgate
    | @refused uid r unsettled other effect =>
      rw [effect.pending] at h
      obtain ⟨uid', lc, rfl, asked⟩ := ih m stamp h
      refine ⟨uid', lc, rfl, asked.snoc ?_ ?_⟩
      · rintro ⟨r', heq, _, hsettles⟩
        cases heq
        rw [unsettled] at hsettles
        cases hsettles
      · rintro ⟨proto, heq, _⟩
        cases heq
        exact other proto rfl
    | swept effect =>
      rw [effect.pending, Option.filter_eq_some_iff] at h
      obtain ⟨uid, lc, rfl, asked⟩ := ih m stamp h.1
      exact ⟨uid, lc, rfl, asked.snoc_other fun uid r heq => by cases heq⟩
    | elapsed effect =>
      rw [effect] at h
      obtain ⟨uid, lc, rfl, asked⟩ := ih m stamp h
      exact ⟨uid, lc, rfl, asked.snoc_other fun uid r heq => by cases heq⟩

theorem pending_named (es : List SessionEvent) (m : Str) (stamp : Int)
    (h : (runSessions es).zscore dlyCk m = some stamp) : Named m := by
  obtain ⟨uid, lc, rfl, _⟩ := pending_asked es m stamp h
  exact ⟨_, _, decimal_no_dot uid, rfl⟩

/-- A session that the sweep removes was asked to be removed by a `fin_delay` that had its gate,
from a stamp that is not later, and nothing has happened to it since. The run is any one from an
empty store. That a session is swept once it is due is `sweep_exact`. -/
theorem sweep_was_asked {es : List SessionEvent} {uid lc st cn : Int}
    (before : (runSessions es).has (sessionKey uid lc))
    (after : (runSessions (es ++ [.timeoutRm st cn])).has (sessionKey uid lc) = false) :
    ∃ delay, delay ≤ st ∧ Asked es uid lc delay := by
  rw [runSessions_snoc] at after
  cases sessionStep_effect (pending_named es) (.timeoutRm st cn) with
  | swept effect =>
    by_cases due : Due (runSessions es) st (sessionKey uid lc)
    · obtain ⟨delay, hdelay, hle⟩ := due
      obtain ⟨uid', lc', heq, asked⟩ := pending_asked es _ _ hdelay
      obtain ⟨rfl, rfl⟩ := sessionKey_inj.mp heq
      exact ⟨delay, hle, asked⟩
    · rw [Keyspace.has, sessionKey, effect.kept _ _ due] at after
      rw [Keyspace.has, sessionKey, after] at before
      cases before

/-- A session that is opened with a gate and closed from the same gate. -/
def exampleSession (uid lc delay : Int) : List SessionEvent :=
  [.request uid (.syn ⟨⟨lc, ⟨1, 0⟩, ['g']⟩, 0, 100, ['v'], []⟩),
    .request uid (.finDelay ⟨⟨lc, ⟨1, 0⟩, ['g']⟩, delay⟩)]

theorem sweep_was_asked_example :
    (runSessions (exampleSession 7 2 40)).has (sessionKey 7 2) ∧
      (runSessions (exampleSession 7 2 40 ++ [.timeoutRm 41 0])).has (sessionKey 7 2) = false ∧
      ∃ delay, delay ≤ 41 ∧ Asked (exampleSession 7 2 40) 7 2 delay := by
  have hbefore : (runSessions (exampleSession 7 2 40)).has (sessionKey 7 2) := by decide +kernel
  have hafter : (runSessions (exampleSession 7 2 40 ++ [.timeoutRm 41 0])).has
      (sessionKey 7 2) = false := by decide +kernel
  exact ⟨hbefore, hafter, sweep_was_asked hbefore hafter⟩

end RedisCluster.Guarantees
