import RedisCluster.Guarantees.LossyRuns
import RedisCluster.Guarantees.ReadYourWrites

/-!
# The service with its asynchronous hooks

`g_lc` has its requests made asynchronously, and their callbacks run later, in any order. A redis
that does not know the script of a request loses it. The callback notes this, and the next request
of the same type has the script loaded before it. Here the redis run at once what they are sent.
-/

set_option autoImplicit false

namespace RedisCluster.Guarantees
open Library Source

/-! ## What a redis knows -/

section Cache
variable {dir : ScriptDir} {r : Redis} {sha : Str} {file : LuaFile} {keys argv : List Str}

theorem learn_cached (h : r.cached sha = true) : (r.learn dir file).cached sha = true := by
  change Function.update r.cached (dir.sha1 file) true sha = true
  rw [Function.update_apply]
  split
  · rfl
  · exact h

theorem ran_cached_self : (r.ran dir file keys argv).cached (dir.sha1 file) = true :=
  Function.update_self ..

/-- No command makes a redis forget a script. -/
theorem exec_cached (args : List Str) (h : r.cached sha = true) : (r.exec dir args).2.cached sha = true := by
  unfold Redis.exec
  cases redisOrder dir r.cached args with
  | run file keys argv => exact learn_cached h
  | load file => exact learn_cached h
  | refuse error => exact h

end Cache

section Known
variable {plan : Nat → CmdRound} {oc oc' : OnlineCtrl} {w w' : World} {addr : UInt64} {type : ReqType}

/-- A redis does not forget. -/
theorem KnownAt.mono (h : KnownAt oc w addr type)
    (keeps : ∀ sha, (w.servers addr).cached sha = true → (w'.servers addr).cached sha = true) :
    KnownAt oc w' addr type := h.imp_left (keeps _)

theorem afterLookup_cached (prompt : Prompt plan) (oc : OnlineCtrl) (type : ReqType) {sha : Str}
    (h : (w.servers addr).cached sha = true) :
    ((afterLookup plan oc type w).servers addr).cached sha = true := by
  unfold afterLookup
  dsimp only
  split
  · rw [prompt.servers]
    split
    · exact exec_cached _ h
    · exact h
  · exact h

/-- What was noted is loaded, and what is noted for another type stays so. -/
theorem KnownAt.afterLookup (prompt : Prompt plan) (h : KnownAt oc w addr type) (other : ReqType) :
    KnownAt (looked oc other) (afterLookup plan oc other w) addr type := by
  have hdir := (looked_same oc other).1
  by_cases hsame : type = other
  · subst hsame
    left
    rw [hdir]
    exact (afterLookup_server prompt oc type w addr).2.mpr h
  · rcases h with hcached | hnoted
    · left
      rw [hdir]
      exact afterLookup_cached prompt oc other hcached
    · right
      have hscripts : (looked oc other).scripts type = oc.scripts type := by
        unfold looked
        split
        · exact Function.update_of_ne hsame _ _
        · rfl
      rw [hscripts]
      exact hnoted

/-- Noting a script does not touch the table or the directory. -/
theorem checkScriptLoad_table (oc : OnlineCtrl) (type : ReqType) (rv : RedisRvs) :
    SameTable oc (checkScriptLoad oc type rv) := by
  unfold checkScriptLoad
  split
  · split <;> exact ⟨rfl, rfl, rfl⟩
  · exact .refl oc

/-- A callback only adds to what is noted. -/
theorem KnownAt.checkScriptLoad (h : KnownAt oc w addr type) (other : ReqType) (rv : RedisRvs) :
    KnownAt (checkScriptLoad oc other rv) w addr type := by
  rcases h with hcached | hnoted
  · left
    rw [(checkScriptLoad_table oc other rv).dir]
    exact hcached
  · right
    unfold Source.checkScriptLoad
    split
    · next addr' tmp _ =>
      split
      · rw [OnlineCtrl.setScript]
        dsimp only
        rw [Function.update_apply]
        split
        · next heq =>
          rw [← heq]
          exact ⟨rfl, Ordered.mem_insert.mpr (Or.inr hnoted.2)⟩
        · exact hnoted
      · exact hnoted
    · exact hnoted

end Known

/-! ## One request -/

section Request
variable {plan : Nat → CmdRound} (prompt : Prompt plan) {oc : OnlineCtrl} {uid : Int} {r : Request}
  {w : World} {addr : UInt64}

end Request

/-! ## Runs -/

/-- What happens to the service: what happens with synchronous calls too, and the callbacks. -/
inductive AsyncServiceEvent where
  | service (e : ServiceEvent)
  /-- The event thread runs one of the callbacks whose replies are there. -/
  | callback (k : Nat)

/-- This redis is sent a request of this type. -/
def AsksAt (oc : OnlineCtrl) (parse : ParseFromString) (addr : UInt64) (type : ReqType)
    (e : AsyncServiceEvent) : Prop :=
  ∃ now sublayerIndex pro uid r, e = .service (.message now sublayerIndex pro) ∧
    messageRequest parse now sublayerIndex pro = some (uid, r) ∧ r.accepted = true ∧ r.type = type ∧
      Reaches oc uid r addr

section Step
variable {plan : Nat → CmdRound} (prompt : Prompt plan) (rounds : Nat) (parse : ParseFromString)
  (s : OnlineService World)

end Step

section Runs
variable {plan : Nat → CmdRound} (prompt : Prompt plan) (rounds : Nat) (parse : ParseFromString)

theorem AsksAt.same {oc oc' : OnlineCtrl} (table : SameTable oc oc') {addr : UInt64} {type : ReqType}
    {e : AsyncServiceEvent} (h : AsksAt oc parse addr type e) : AsksAt oc' parse addr type e := by
  obtain ⟨now, sublayerIndex, pro, uid, r, heq, hfound, haccepted, htype, hreaches⟩ := h
  exact ⟨now, sublayerIndex, pro, uid, r, heq, hfound, haccepted, htype, (table.reaches uid r addr).mpr hreaches⟩

end Runs

end RedisCluster.Guarantees
