import RedisCluster.Library.Run
import RedisCluster.Guarantees.DelayedClose
import RedisCluster.Guarantees.SessionFields

/-!
# One session at a time

A session of a user is a machine of its own: its requests, the sweeps and the time say what is
stored of it, whatever happens to the other sessions in between.
-/

set_option autoImplicit false

namespace RedisCluster.Guarantees
open Library Source

/-! ## The machine -/

/-- What users of a session know of it. -/
structure Session where
  fields : Str → Option Str
  expireAt : Nat
  /-- The time from which a sweep removes it. -/
  due : Option Int

/-- The machine: its time, and the session while there is one. -/
structure SessionState where
  now : Nat
  session : Option Session

namespace SessionState

def init : SessionState := ⟨0, none⟩

def field (m : SessionState) (f : Str) : Option Str := m.session.bind fun session => session.fields f

/-- `syn` and `upidx` write their own fields and then those of the request. The version is
that of the first one. -/
def opened (m : SessionState) (head : ProtoGbHead) (cliType : Int) (cliVer : Str) (argv : List Str) :
    Session where
  fields f := (extValue argv f).or ((reserved (Text.decimal head.idx.sendIdx) head.sublayerIndex
    (Text.decimal cliType) f).or
      (if f = "CV".toList then some ((m.field "CV".toList).getD cliVer) else m.field f))
  expireAt := m.now + 1000 * lifetime cliType
  due := none

end SessionState

/-- A `fin_delay` of another gate is too late. -/
def Session.delay (session : Session) (proto : ProtoFinDelay) : Session :=
  if session.fields "GATE".toList = some proto.head.sublayerIndex then
    { session with
      fields := Function.update session.fields "GATE".toList (some [])
      due := some proto.expire }
  else session

def SessionState.asked (m : SessionState) : Request → Option Session
  | .syn proto => some (m.opened proto.head proto.cliType proto.cliVer proto.data)
  | .upidx proto => some (m.opened proto.head proto.cliType proto.cliVer [])
  | .fin _ => none
  | .finDelay proto => m.session.map fun session => session.delay proto

/-- The requests that a session gets. -/
def Own (uid lc uid' : Int) (r : Request) : Prop := uid' = uid ∧ r.head.logicConn = lc ∧ r.accepted = true

instance (uid lc uid' : Int) (r : Request) : Decidable (Own uid lc uid' r) :=
  inferInstanceAs (Decidable (_ ∧ _ ∧ _))

/-- One event. Sweeps and time concern every session, a request only its own. -/
def sessionMachine (uid lc : Int) (m : SessionState) : SessionEvent → SessionState
  | .request uid' r => if Own uid lc uid' r then { m with session := m.asked r } else m
  | .timeoutRm st _ =>
    { m with session := m.session.filter fun session => session.due.all fun due => st < due }
  | .elapse d =>
    ⟨m.now + d, m.session.filter fun session => m.now + d ≤ session.expireAt⟩

/-- What the machine has after a run. -/
def sessionAfter (uid lc : Int) (es : List SessionEvent) : SessionState :=
  es.foldl (sessionMachine uid lc) .init

theorem sessionAfter_snoc (uid lc : Int) (es : List SessionEvent) (e : SessionEvent) :
    sessionAfter uid lc (es ++ [e]) = sessionMachine uid lc (sessionAfter uid lc es) e :=
  List.foldl_concat ..

/-! ## What is stored -/

/-- The store has the session as the machine has it: all fields, the stamp of its end and its place
among the pending removals. -/
structure SessionStored (s : Keyspace) (uid lc : Int) (session : Session) : Prop where
  fields : ∀ f, s.hget (sessionKey uid lc) f = session.fields f
  expireAt : s.expiry (sessionKey uid lc) = some session.expireAt
  due : s.zscore dlyCk (sessionKey uid lc) = session.due

/-- What is left of a session that is gone may still be among the pending removals. -/
structure Stores (s : Keyspace) (uid lc : Int) (m : SessionState) : Prop where
  now : s.now = m.now
  gone : m.session = none → s.has (sessionKey uid lc) = false
  there : ∀ session, m.session = some session → SessionStored s uid lc session

section Stored
variable {s s' : Keyspace} {uid lc : Int} {m : SessionState} {session : Session}

theorem SessionStored.has (h : SessionStored s uid lc session) : s.has (sessionKey uid lc) = true := by
  by_contra habsent
  have hnone := Keyspace.expiry_of_not_has (Bool.eq_false_iff.mpr habsent)
  rw [h.expireAt] at hnone
  cases hnone

theorem SessionStored.frame (h : SessionStored s uid lc session)
    (hashes : s'.hashes (sessionKey uid lc) = s.hashes (sessionKey uid lc))
    (pending : s'.zscore dlyCk (sessionKey uid lc) = s.zscore dlyCk (sessionKey uid lc)) :
    SessionStored s' uid lc session where
  fields f := by rw [Keyspace.hget_congr hashes, h.fields]
  expireAt := by rw [Keyspace.expiry_congr hashes, h.expireAt]
  due := by rw [pending, h.due]

/-- What does not touch the session does not matter to it. -/
theorem Stores.frame (h : Stores s uid lc m) (now : s'.now = s.now)
    (hashes : s'.hashes (sessionKey uid lc) = s.hashes (sessionKey uid lc))
    (pending : s'.zscore dlyCk (sessionKey uid lc) = s.zscore dlyCk (sessionKey uid lc)) :
    Stores s' uid lc m where
  now := now.trans h.now
  gone hnone := by
    rw [Keyspace.not_has_iff, hashes, ← Keyspace.not_has_iff]
    exact h.gone hnone
  there session hsome := (h.there session hsome).frame hashes pending

theorem Stores.field (h : Stores s uid lc m) (f : Str) : s.hget (sessionKey uid lc) f = m.field f := by
  unfold SessionState.field
  cases hsession : m.session with
  | none =>
    have habsent := Keyspace.not_has_iff.mp (h.gone hsession)
    rw [Keyspace.hget, Keyspace.fields, habsent]
    rfl
  | some session => exact (h.there session hsession).fields f

theorem Stores.has_iff (h : Stores s uid lc m) :
    s.has (sessionKey uid lc) = true ↔ ∃ session, m.session = some session := by
  cases hsession : m.session with
  | none => simp [h.gone hsession]
  | some session => simp [(h.there session hsession).has]

end Stored

/-! ## Steps -/

section Steps
variable {s s' : Keyspace} {uid lc uid' : Int} {m : SessionState}

theorem expiry_synced {uid lc sid gate ct cv : Str} {argv : List Str} {ep : Nat} :
    (synced s uid lc sid gate ct cv argv ep).expiry (klc uid lc) = some (s.now + 1000 * ep) := by
  have hhashes : (synced s uid lc sid gate ct cv argv ep).hashes (klc uid lc) =
      ((enrolled s uid lc sid gate ct cv argv).expire (klc uid lc) ep).hashes (klc uid lc) := by
    unfold synced
    rw [hashes_written]
    exact hashes_prolonged (kuid_ne_klc uid uid lc).symm
  rw [Keyspace.expiry_congr hhashes, Keyspace.expiry_expire enrolled_has, now_enrolled]

/-- `syn` and `upidx` open the session as the machine says. -/
theorem Stores.synced (h : Stores s uid lc m) {head : ProtoGbHead} (hlc : head.logicConn = lc)
    (expire cliType : Int) (cliVer : Str) {argv : List Str} (even : argv.length % 2 = 0) :
    Stores (runScript (syn (Text.decimal uid :: (head.keys ++
        [Text.decimal expire, Text.decimal cliType, cliVer])) argv) s).2 uid lc
      { m with session := some (m.opened head cliType cliVer argv) } := by
  subst hlc
  have heffect := syn_effect s uid head expire cliType cliVer even
  refine ⟨heffect.now.trans h.now, by simp, fun session hsession => ?_⟩
  obtain rfl := Option.some_inj.mp hsession
  refine ⟨fun f => ?_, ?_, ?_⟩
  · rw [hget_syn s uid head expire cliType cliVer even, h.field, h.field]
    rfl
  · rw [syn_store s uid head expire cliType cliVer even, sessionKey, expiry_synced, h.now]
    rfl
  · exact (heffect.pending _).trans (if_pos rfl)

/-- `fin` takes it away. -/
theorem Stores.closed (h : Stores s uid lc m)
    (effect : Closed s s' (Text.decimal uid) (Text.decimal lc)) :
    Stores s' uid lc { m with session := none } where
  now := effect.now.trans h.now
  gone _ := Keyspace.not_has_iff.mpr effect.session
  there session hsession := by cases hsession

/-- `fin_delay` clears the gate and leaves the other fields. -/
theorem hget_delayed {uid lc : Str} {delay : Int} {f : Str} :
    (delayed s uid lc delay).hget (klc uid lc) f =
      if f = "GATE".toList then some [] else s.hget (klc uid lc) f := by
  unfold delayed
  rw [Keyspace.hget_hset]
  rfl

theorem Stores.finDelay (h : Stores s uid lc m) {proto : ProtoFinDelay}
    (hlc : proto.head.logicConn = lc) :
    Stores (sessionStep s (.request uid (.finDelay proto))) uid lc
      { m with session := m.session.map fun session => session.delay proto } := by
  subst hlc
  have hgate := h.field "GATE".toList
  by_cases gate : GateIs s (Text.decimal uid) (Text.decimal proto.head.logicConn)
      proto.head.sublayerIndex
  · have hrun := runScript_ok (@finDelay_apply_match _ _ (Text.decimal proto.head.idx.sendIdx)
      (Text.decimal proto.head.idx.recvIdx) _ _ _ (toNumber_decimal proto.expire) _ gate)
    have hstep : sessionStep s (.request uid (.finDelay proto)) =
        delayed (written s (Text.decimal uid)) (Text.decimal uid) (Text.decimal proto.head.logicConn)
          proto.expire := congrArg Prod.snd hrun
    have heffect := delayed_effect gate proto.expire
    obtain ⟨session, hsession⟩ := h.has_iff.mp heffect.session.2
    have hstored := h.there session hsession
    have hmatch : session.fields "GATE".toList = some proto.head.sublayerIndex :=
      (hstored.fields _).symm.trans gate
    rw [hstep, hsession, Option.map_some, Session.delay, if_pos hmatch]
    refine ⟨heffect.now.trans h.now, by simp, fun session' hsession' => ?_⟩
    obtain rfl := Option.some_inj.mp hsession'
    refine ⟨fun f => ?_, ?_, ?_⟩
    · change _ = Function.update session.fields "GATE".toList (some []) f
      rw [sessionKey, hget_delayed, hget_written, Function.update_apply]
      split
      · rfl
      · exact hstored.fields f
    · exact heffect.stamp.trans hstored.expireAt
    · exact (heffect.pending _).trans (if_pos rfl)
  · have hrun := runScript_ok (@finDelay_apply_other _ _ (Text.decimal proto.head.idx.sendIdx)
      (Text.decimal proto.head.idx.recvIdx) _ (Text.decimal proto.expire) _ gate)
    have hstep : sessionStep s (.request uid (.finDelay proto)) = written s (Text.decimal uid) :=
      congrArg Prod.snd hrun
    have hsame : m.session.map (fun session => session.delay proto) = m.session := by
      cases hsession : m.session with
      | none => rfl
      | some session =>
        rw [Option.map_some, Session.delay, if_neg]
        intro hmatch
        exact gate (((h.there session hsession).fields _).trans hmatch)
    have hidle := idle_written s (Text.decimal uid)
    rw [hstep, hsame]
    exact h.frame hidle.now (hidle.frame _) (hidle.pending _)

/-- The requests of other sessions leave it alone, and so do those that are refused. -/
theorem Stores.other (h : Stores s uid lc m) {r : Request}
    (effect : Effect s s' (.request uid' r)) (other : ¬ (uid' = uid ∧ r.head.logicConn = lc)) :
    Stores s' uid lc m := by
  have hkey : sessionKey uid lc ≠ sessionKey uid' r.head.logicConn := by
    intro heq
    obtain ⟨rfl, rfl⟩ := sessionKey_inj.mp heq
    exact other ⟨rfl, rfl⟩
  have hindex : sessionKey uid lc ≠ indexKey uid' := (kuid_ne_klc _ _ _).symm
  cases effect with
  | synced opened effect =>
    exact h.frame effect.now (effect.frame _ hindex hkey) ((effect.pending _).trans (if_neg hkey))
  | closed effect =>
    exact h.frame effect.now (effect.frame _ hindex hkey) ((effect.pending _).trans (if_neg hkey))
  | delayed gate effect =>
    exact h.frame effect.now (effect.frame _ hkey) ((effect.pending _).trans (if_neg hkey))
  | passed gate effect => exact h.frame effect.now (effect.frame _) (effect.pending _)
  | refused unsettled _ effect => exact h.frame effect.now (effect.frame _) (effect.pending _)

/-- A sweep takes it away if its stamp is due. -/
theorem Stores.swept (h : Stores s uid lc m) {st : Int} (effect : TimedOut s s' st) :
    Stores s' uid lc
      { m with session := m.session.filter fun session => session.due.all fun due => st < due } := by
  have hpending := effect.pending (sessionKey uid lc)
  cases hsession : m.session with
  | none =>
    refine ⟨effect.now.trans h.now, fun _ => ?_, by simp⟩
    have habsent := Keyspace.not_has_iff.mp (h.gone hsession)
    by_cases hdue : Due s st (sessionKey uid lc)
    · exact Keyspace.not_has_iff.mpr (effect.removed _ _ hdue)
    · exact Keyspace.not_has_iff.mpr ((effect.kept _ _ hdue).trans habsent)
  | some session =>
    have hstored := h.there session hsession
    rw [hstored.due] at hpending
    by_cases hkeep : session.due.all (fun due => decide (st < due)) = true
    · have hdue : ¬ Due s st (sessionKey uid lc) := by
        rintro ⟨stamp, hstamp, hle⟩
        rw [hstored.due] at hstamp
        rw [hstamp, Option.all_some, decide_eq_true_eq] at hkeep
        omega
      have hsame : session.due.filter (fun due => decide (st < due)) = session.due := by
        cases hd : session.due with
        | none => rfl
        | some due =>
          rw [hd, Option.all_some] at hkeep
          rw [Option.filter_some, if_pos hkeep]
      rw [Option.filter_some, if_pos hkeep, ← hsession]
      exact h.frame effect.now (effect.kept _ _ hdue) (by rw [hpending, hsame, hstored.due])
    · rw [Option.filter_some, if_neg hkeep]
      refine ⟨effect.now.trans h.now, fun _ => ?_, by simp⟩
      cases hd : session.due with
      | none => simp [hd] at hkeep
      | some due =>
        rw [hd, Option.all_some, decide_eq_true_eq] at hkeep
        exact Keyspace.not_has_iff.mpr
          (effect.removed _ _ ⟨due, hstored.due.trans hd, by omega⟩)

/-- Time takes it away at its end. -/
theorem Stores.elapsed (h : Stores s uid lc m) (d : Nat) :
    Stores (s.elapse d) uid lc
      ⟨m.now + d, m.session.filter fun session => m.now + d ≤ session.expireAt⟩ := by
  have hnow : (s.elapse d).now = m.now + d := congrArg (· + d) h.now
  cases hsession : m.session with
  | none =>
    refine ⟨hnow, fun _ => ?_, by simp⟩
    rw [Keyspace.not_has_iff, Keyspace.hashes_elapse, Keyspace.not_has_iff.mp (h.gone hsession)]
    rfl
  | some session =>
    have hstored := h.there session hsession
    obtain ⟨hash, hhash⟩ := Option.isSome_iff_exists.mp hstored.has
    have hexpire := hstored.expireAt
    rw [Keyspace.expiry, hhash, Option.bind_some] at hexpire
    by_cases hkeep : m.now + d ≤ session.expireAt
    · have hsame : (s.elapse d).hashes (sessionKey uid lc) = s.hashes (sessionKey uid lc) := by
        rw [hhash, Keyspace.elapse_some]
        refine ⟨hhash, fun stamp hstamp => ?_⟩
        rw [hexpire] at hstamp
        cases hstamp
        rw [h.now]
        exact hkeep
      rw [Option.filter_some, if_pos (decide_eq_true hkeep)]
      refine ⟨hnow, by simp, fun session' hsession' => ?_⟩
      obtain rfl := Option.some_inj.mp hsession'
      exact hstored.frame hsame rfl
    · rw [Option.filter_some, if_neg (by simpa using hkeep)]
      refine ⟨hnow, fun _ => ?_, by simp⟩
      rw [Keyspace.not_has_iff, Option.eq_none_iff_forall_ne_some]
      intro hash' hsome
      obtain ⟨hhash', hstamp⟩ := Keyspace.elapse_some.mp hsome
      rw [hhash] at hhash'
      cases hhash'
      have hle := hstamp _ hexpire
      rw [h.now] at hle
      exact hkeep hle

/-- One event on the store is one event of the machine, one case for each kind of event. -/
theorem Stores.step (h : Stores s uid lc m)
    (named : ∀ n stamp, s.zscore dlyCk n = some stamp → Named n) (e : SessionEvent) :
    Stores (sessionStep s e) uid lc (sessionMachine uid lc m e) := by
  have heffect := sessionStep_effect named e
  cases e with
  | elapse d => exact h.elapsed d
  | timeoutRm st cn =>
    cases heffect with
    | swept effect => exact h.swept effect
  | request uid' r =>
    by_cases hown : Own uid lc uid' r
    · rw [sessionMachine, if_pos hown]
      obtain ⟨rfl, hlc, haccepted⟩ := hown
      cases r with
      | syn proto =>
        rw [sessionStep, if_pos haccepted]
        exact h.synced hlc proto.expire proto.cliType proto.cliVer (decide_eq_true_eq.mp haccepted)
      | upidx proto => exact h.synced hlc proto.expire proto.cliType proto.cliVer rfl
      | fin proto =>
        cases heffect with
        | synced opened effect => cases opened
        | closed effect => exact h.closed (hlc ▸ effect)
        | refused unsettled _ _ => cases unsettled
      | finDelay proto => exact h.finDelay hlc
    · rw [sessionMachine, if_neg hown]
      by_cases haccepted : r.accepted = true
      · exact h.other heffect fun hother => hown ⟨hother.1, hother.2, haccepted⟩
      · rw [sessionStep, if_neg haccepted]
        exact h

end Steps

/-- By induction on the run, with `Stores.step`. -/
theorem Stores.run {uid lc : Int} {es : List SessionEvent} {m : SessionState}
    (h : Stores (runSessions es) uid lc m) (es' : List SessionEvent) :
    Stores (runSessions (es ++ es')) uid lc (es'.foldl (sessionMachine uid lc) m) := by
  induction es' using List.reverseRecOn with
  | nil =>
    rw [List.append_nil]
    exact h
  | append_singleton es' e ih =>
    rw [← List.append_assoc, runSessions_snoc, List.foldl_concat]
    exact ih.step (pending_named (es ++ es')) e

theorem stores_empty (uid lc : Int) : Stores (runSessions []) uid lc .init :=
  ⟨rfl, fun _ => rfl, fun session hsession => by cases hsession⟩

theorem stores_after (uid lc : Int) (es : List SessionEvent) :
    Stores (runSessions es) uid lc (sessionAfter uid lc es) :=
  (stores_empty uid lc).run es

/-- What a run leaves of a session is what its machine has: every field, when it expires and when it
is to be swept. The run starts from an empty store; entries of the pending removals whose session is
gone are not compared. -/
theorem store_refines_machines (es : List SessionEvent) (uid lc : Int) :
    (∀ f, (runSessions es).hget (sessionKey uid lc) f = (sessionAfter uid lc es).field f) ∧
    (runSessions es).expiry (sessionKey uid lc) =
      (sessionAfter uid lc es).session.map Session.expireAt ∧
    ((runSessions es).has (sessionKey uid lc) = true →
      (runSessions es).zscore dlyCk (sessionKey uid lc) =
        (sessionAfter uid lc es).session.bind Session.due) := by
  have h := stores_after uid lc es
  refine ⟨h.field, ?_, fun hhas => ?_⟩
  · cases hsession : (sessionAfter uid lc es).session with
    | none => exact Keyspace.expiry_of_not_has (h.gone hsession)
    | some session => exact (h.there session hsession).expireAt
  · obtain ⟨session, hsession⟩ := h.has_iff.mp hhas
    rw [hsession]
    exact (h.there session hsession).due

/-! ## Other sessions -/

/-- The events that a session notices. -/
def concerns (uid lc : Int) : SessionEvent → Bool
  | .request uid' r => Own uid lc uid' r
  | .timeoutRm _ _ => true
  | .elapse _ => true

section Independent
variable {uid lc : Int} {es : List SessionEvent}

theorem sessionMachine_unconcerned {m : SessionState} {e : SessionEvent}
    (h : concerns uid lc e = false) : sessionMachine uid lc m e = m := by
  cases e with
  | request uid' r => exact if_neg (of_decide_eq_false h)
  | timeoutRm st cn => cases h
  | elapse d => cases h

/-- Events of other sessions are steps in which the machine stands still. -/
theorem sessionAfter_filter :
    sessionAfter uid lc (es.filter (concerns uid lc)) = sessionAfter uid lc es := by
  induction es using List.reverseRecOn with
  | nil => rfl
  | append_singleton es e ih =>
    rw [List.filter_append, sessionAfter_snoc]
    by_cases h : concerns uid lc e = true
    · rw [List.filter_cons_of_pos h, List.filter_nil, sessionAfter_snoc, ih]
    · have hfalse := Bool.eq_false_iff.mpr h
      rw [List.filter_cons_of_neg h, List.filter_nil, List.append_nil, ih,
        sessionMachine_unconcerned hfalse]

/-- Two stores that have one session have one hash for it. -/
theorem SessionStored.hashes_eq {s s' : Keyspace} {session : Session}
    (h : SessionStored s uid lc session) (h' : SessionStored s' uid lc session) :
    s.hashes (sessionKey uid lc) = s'.hashes (sessionKey uid lc) := by
  obtain ⟨hash, hhash⟩ := Option.isSome_iff_exists.mp h.has
  obtain ⟨hash', hhash'⟩ := Option.isSome_iff_exists.mp h'.has
  have hexpire : hash.expireAt = hash'.expireAt := by
    have heq := h.expireAt.trans h'.expireAt.symm
    rw [Keyspace.expiry, Keyspace.expiry, hhash, hhash'] at heq
    exact heq
  have hfields : hash.fields = hash'.fields := by
    apply Std.ExtTreeMap.ext_getElem?
    intro f
    have heq := (h.fields f).trans (h'.fields f).symm
    rw [Keyspace.hget, Keyspace.hget, Keyspace.fields, Keyspace.fields, hhash, hhash'] at heq
    exact heq
  rw [hhash, hhash']
  cases hash
  cases hash'
  cases hexpire
  cases hfields
  rfl

end Independent

/-- A session is stored as if it were the only one: requests of other sessions can be taken out of
the run, sweeps and passing time cannot. -/
theorem sessions_independent (es : List SessionEvent) (uid lc : Int) :
    (runSessions es).hashes (sessionKey uid lc) =
      (runSessions (es.filter (concerns uid lc))).hashes (sessionKey uid lc) := by
  have h := stores_after uid lc es
  have halone := stores_after uid lc (es.filter (concerns uid lc))
  rw [sessionAfter_filter] at halone
  cases hsession : (sessionAfter uid lc es).session with
  | none =>
    rw [Keyspace.not_has_iff.mp (h.gone hsession), Keyspace.not_has_iff.mp (halone.gone hsession)]
  | some session => exact (h.there session hsession).hashes_eq (halone.there session hsession)

/-! ## When a session is there -/

def timeOf : SessionEvent → Nat
  | .elapse d => d
  | _ => 0

/-- The time that passes in a run. -/
def elapsedIn : List SessionEvent → Nat
  | [] => 0
  | e :: es => timeOf e + elapsedIn es

/-- The client type of a request that opens the session or renews it. -/
def renews : Request → Option Int
  | .syn proto => some proto.cliType
  | .upidx proto => some proto.cliType
  | _ => none

/-- The time of the lease has not run out after these events, and no sweep among them has come
for a delayed close. -/
structure Lasts (opening : List SessionEvent) (uid lc ct : Int) (post : List SessionEvent) : Prop where
  lease : elapsedIn post ≤ 1000 * lifetime ct
  unswept : ∀ mid st cn rest delay, post = mid ++ .timeoutRm st cn :: rest →
    Asked (opening ++ mid) uid lc delay → st < delay

section Alive
variable {es opening post : List SessionEvent} {uid lc ct : Int} {e : SessionEvent} {r : Request}
  {m : SessionState} {session : Session}

theorem elapsedIn_append (es es' : List SessionEvent) :
    elapsedIn (es ++ es') = elapsedIn es + elapsedIn es' := by
  induction es with
  | nil => simp [elapsedIn]
  | cons e es ih => simp only [List.cons_append, elapsedIn, ih, Nat.add_assoc]

theorem elapsedIn_snoc : elapsedIn (es ++ [e]) = elapsedIn es + timeOf e :=
  elapsedIn_append es [e]

theorem now_sessionAfter : (sessionAfter uid lc es).now = elapsedIn es := by
  induction es using List.reverseRecOn with
  | nil => rfl
  | append_singleton es e ih =>
    rw [sessionAfter_snoc, elapsedIn_snoc, ← ih]
    cases e with
    | request uid' r =>
      by_cases hown : Own uid lc uid' r
      · rw [sessionMachine, if_pos hown]
        rfl
      · rw [sessionMachine, if_neg hown]
        rfl
    | timeoutRm st cn => rfl
    | elapse d => rfl

/-- What was asked for is what the last match says. -/
theorem asked_snoc_iff {delay : Int} : Asked (es ++ [e]) uid lc delay ↔
    (∃ proto, e = .request uid (.finDelay proto) ∧ Matches es uid lc e ∧ proto.expire = delay) ∨
      (¬ Settles uid lc e ∧ ¬ Matches es uid lc e ∧ Asked es uid lc delay) := by
  constructor
  · rintro ⟨pre, proto, post, heq, hmatch, hdelay, hnone, hlast⟩
    rcases snoc_split.mp heq with ⟨rfl, rfl, rfl⟩ | ⟨post', rfl, rfl⟩
    · exact Or.inl ⟨proto, rfl, hmatch, hdelay⟩
    · refine Or.inr ⟨hnone e (by simp), hlast post' e [] rfl, pre, proto, post', rfl, hmatch, hdelay,
        fun e' he' => hnone e' (List.mem_append_left _ he'), fun mid e' rest hpost => ?_⟩
      exact hlast mid e' (rest ++ [e]) (by simp [hpost])
  · rintro (⟨proto, rfl, hmatch, rfl⟩ | ⟨hsettles, hmatches, asked⟩)
    · obtain ⟨proto', heq, rfl, hgate⟩ := hmatch
      cases heq
      exact Matches.asked ⟨proto, rfl, rfl, hgate⟩
    · exact asked.snoc hsettles hmatches

theorem asked_snoc_same (hsettles : ¬ Settles uid lc e) (hmatches : ¬ Matches es uid lc e) (delay : Int) :
    Asked (es ++ [e]) uid lc delay ↔ Asked es uid lc delay := by
  rw [asked_snoc_iff]
  constructor
  · rintro (⟨_, _, hmatch, _⟩ | ⟨_, _, asked⟩)
    · exact absurd hmatch hmatches
    · exact asked
  · exact fun asked => Or.inr ⟨hsettles, hmatches, asked⟩

/-- A match is a `fin_delay` whose gate the machine has. -/
theorem matches_iff (hsession : (sessionAfter uid lc es).session = some session)
    {proto : ProtoFinDelay} : Matches es uid lc (.request uid (.finDelay proto)) ↔
      proto.head.logicConn = lc ∧ session.fields "GATE".toList = some proto.head.sublayerIndex := by
  have hstored := (stores_after uid lc es).there session hsession
  rw [← hstored.fields]
  constructor
  · rintro ⟨proto', heq, hlc, hgate⟩
    cases heq
    exact ⟨hlc, hgate⟩
  · rintro ⟨hlc, hgate⟩
    exact ⟨proto, rfl, hlc, hgate⟩

/-- A session that is there until then, or until a sweep for what was asked. -/
structure Dated (es : List SessionEvent) (uid lc : Int) (session : Session) (limit : Nat) : Prop where
  there : (sessionAfter uid lc es).session = some session
  expireAt : session.expireAt = limit
  time : elapsedIn es ≤ limit
  due : ∀ delay, session.due = some delay ↔ Asked es uid lc delay

/-- A sweep that comes for the session. -/
def SweptBy (es : List SessionEvent) (uid lc : Int) (e : SessionEvent) : Prop :=
  ∃ st cn delay, e = .timeoutRm st cn ∧ Asked es uid lc delay ∧ delay ≤ st

/-- What settles a session takes back the delay that was asked for. -/
theorem not_asked_of_settles (h : Settles uid lc e) (delay : Int) : ¬ Asked (es ++ [e]) uid lc delay := by
  rw [asked_snoc_iff]
  rintro (⟨proto, rfl, _⟩ | ⟨hnot, _⟩)
  · obtain ⟨r, heq, _, hsettles⟩ := h
    cases heq
    cases hsettles
  · exact hnot h

theorem settles_of_renews (own : Own uid lc uid r) (h : renews r = some ct) :
    Settles uid lc (.request uid r) := by
  obtain ⟨_, hlc, haccepted⟩ := own
  refine ⟨r, rfl, hlc, ?_⟩
  cases r with
  | syn proto => exact haccepted
  | upidx proto => rfl
  | fin proto => cases h
  | finDelay proto => cases h

theorem Dated.renewed (own : Own uid lc uid r) (h : renews r = some ct) :
    ∃ session, Dated (es ++ [.request uid r]) uid lc session (elapsedIn es + 1000 * lifetime ct) := by
  have hnone := @not_asked_of_settles es uid lc _ (settles_of_renews own h)
  have hnow := @now_sessionAfter es uid lc
  have hafter : (sessionAfter uid lc (es ++ [.request uid r])).session =
      (sessionAfter uid lc es).asked r := by
    rw [sessionAfter_snoc, sessionMachine, if_pos own]
  cases r with
  | syn proto =>
    cases h
    refine ⟨_, hafter, ?_, by rw [elapsedIn_snoc]; exact Nat.le_add_right _ _,
      fun delay => iff_of_false (by simp [SessionState.opened]) (hnone delay)⟩
    rw [← hnow]
    rfl
  | upidx proto =>
    cases h
    refine ⟨_, hafter, ?_, by rw [elapsedIn_snoc]; exact Nat.le_add_right _ _,
      fun delay => iff_of_false (by simp [SessionState.opened]) (hnone delay)⟩
    rw [← hnow]
    rfl
  | fin proto => cases h
  | finDelay proto => cases h

/-- The machine has not moved, and nothing was asked for. -/
theorem Dated.same {limit : Nat} (h : Dated es uid lc session limit)
    (hsettles : ¬ Settles uid lc e) (hmatches : ¬ Matches es uid lc e)
    (after : (sessionAfter uid lc (es ++ [e])).session = some session)
    (time : elapsedIn (es ++ [e]) ≤ limit) : Dated (es ++ [e]) uid lc session limit where
  there := after
  expireAt := h.expireAt
  time := time
  due delay := (h.due delay).trans (asked_snoc_same hsettles hmatches delay).symm

/-- A delayed close does not move the end of the session. -/
theorem Dated.finDelay {limit : Nat} (h : Dated es uid lc session limit) (proto : ProtoFinDelay)
    (hlc : proto.head.logicConn = lc) :
    Dated (es ++ [.request uid (.finDelay proto)]) uid lc (session.delay proto) limit := by
  have hsettles : ¬ Settles uid lc (.request uid (.finDelay proto)) := by
    rintro ⟨r, heq, _, hsettles⟩
    cases heq
    cases hsettles
  have hafter : (sessionAfter uid lc (es ++ [.request uid (.finDelay proto)])).session =
      some (session.delay proto) := by
    have hown : Own uid lc uid (.finDelay proto) := ⟨rfl, hlc, rfl⟩
    rw [sessionAfter_snoc, sessionMachine, if_pos hown]
    change (sessionAfter uid lc es).session.map _ = _
    rw [h.there, Option.map_some]
  have htime : elapsedIn (es ++ [.request uid (.finDelay proto)]) ≤ limit := by
    rw [elapsedIn_snoc]
    exact h.time
  have hiff := @matches_iff es uid lc session h.there proto
  by_cases hgate : session.fields "GATE".toList = some proto.head.sublayerIndex
  · have hdelay : session.delay proto = { session with
        fields := Function.update session.fields "GATE".toList (some [])
        due := some proto.expire } := if_pos hgate
    refine ⟨hafter, ?_, htime, fun delay => ?_⟩
    · rw [hdelay]
      exact h.expireAt
    · rw [hdelay, asked_snoc_iff]
      constructor
      · rintro hdue
        exact Or.inl ⟨proto, rfl, hiff.mpr ⟨hlc, hgate⟩, Option.some_inj.mp hdue⟩
      · rintro (⟨proto', heq, _, rfl⟩ | ⟨_, hnot, _⟩)
        · cases heq
          rfl
        · exact absurd (hiff.mpr ⟨hlc, hgate⟩) hnot
  · have hdelay : session.delay proto = session := if_neg hgate
    rw [hdelay] at hafter ⊢
    exact h.same hsettles (fun hmatch => hgate (hiff.mp hmatch).2) hafter htime

/-- What does not settle the session leaves it, unless its time has come. -/
theorem Dated.step {limit : Nat} (h : Dated es uid lc session limit)
    (hsettles : ¬ Settles uid lc e) :
    ((∃ session', Dated (es ++ [e]) uid lc session' limit) ∧ ¬ SweptBy es uid lc e) ∨
      ((sessionAfter uid lc (es ++ [e])).session = none ∧
        (SweptBy es uid lc e ∨ limit < elapsedIn (es ++ [e]))) := by
  cases e with
  | request uid' r =>
    refine Or.inl ⟨?_, by rintro ⟨_, _, _, heq, _⟩; cases heq⟩
    by_cases hown : Own uid lc uid' r
    · obtain ⟨rfl, hlc, haccepted⟩ := hown
      cases r with
      | finDelay proto => exact ⟨_, h.finDelay proto hlc⟩
      | syn proto => exact absurd ⟨_, rfl, hlc, haccepted⟩ hsettles
      | fin proto => exact absurd ⟨_, rfl, hlc, rfl⟩ hsettles
      | upidx proto => exact absurd ⟨_, rfl, hlc, rfl⟩ hsettles
    · refine ⟨session, h.same hsettles ?_ ?_ ?_⟩
      · rintro ⟨proto, heq, hlc, _⟩
        cases heq
        exact hown ⟨rfl, hlc, rfl⟩
      · rw [sessionAfter_snoc, sessionMachine, if_neg hown]
        exact h.there
      · rw [elapsedIn_snoc]
        exact h.time
  | timeoutRm st cn =>
    have hmatches : ¬ Matches es uid lc (.timeoutRm st cn) := by
      rintro ⟨_, heq, _⟩
      cases heq
    have hafter : (sessionAfter uid lc (es ++ [.timeoutRm st cn])).session =
        (some session).filter fun session => session.due.all fun due => st < due := by
      rw [sessionAfter_snoc, ← h.there]
      rfl
    by_cases hswept : SweptBy es uid lc (.timeoutRm st cn)
    · refine Or.inr ⟨?_, Or.inl hswept⟩
      obtain ⟨st', cn', delay, heq, asked, hle⟩ := hswept
      cases heq
      have hdue := (h.due delay).mpr asked
      rw [hafter, Option.filter_some, if_neg]
      simpa [hdue] using hle
    · refine Or.inl ⟨⟨session, h.same hsettles hmatches ?_ ?_⟩, hswept⟩
      · rw [hafter, Option.filter_some, if_pos]
        cases hdue : session.due with
        | none => rfl
        | some delay =>
          rw [Option.all_some, decide_eq_true_eq]
          by_contra hle
          exact hswept ⟨st, cn, delay, rfl, (h.due delay).mp hdue, by omega⟩
      · rw [elapsedIn_snoc]
        exact h.time
  | elapse d =>
    have hmatches : ¬ Matches es uid lc (.elapse d) := by
      rintro ⟨_, heq, _⟩
      cases heq
    have htime := @elapsedIn_snoc es (.elapse d)
    have hafter : (sessionAfter uid lc (es ++ [.elapse d])).session =
        (some session).filter fun session => elapsedIn es + d ≤ session.expireAt := by
      rw [sessionAfter_snoc, ← h.there, ← @now_sessionAfter es uid lc]
      rfl
    by_cases hle : elapsedIn es + d ≤ limit
    · refine Or.inl ⟨⟨session, h.same hsettles hmatches ?_ (htime ▸ hle)⟩, ?_⟩
      · rw [hafter, Option.filter_some, if_pos]
        rw [h.expireAt]
        exact decide_eq_true hle
      · rintro ⟨_, _, _, heq, _⟩
        cases heq
    · refine Or.inr ⟨?_, Or.inr ?_⟩
      · rw [hafter, Option.filter_some, if_neg]
        rw [h.expireAt]
        simpa using hle
      · rw [htime]
        exact Nat.lt_of_not_le hle

/-- A session that is gone comes back by an opening or a renewal only. -/
theorem gone_stays (gone : (sessionAfter uid lc es).session = none) (hsettles : ¬ Settles uid lc e) :
    (sessionAfter uid lc (es ++ [e])).session = none := by
  rw [sessionAfter_snoc]
  cases e with
  | timeoutRm st cn =>
    change (sessionAfter uid lc es).session.filter _ = none
    rw [gone, Option.filter_none]
  | elapse d =>
    change (sessionAfter uid lc es).session.filter _ = none
    rw [gone, Option.filter_none]
  | request uid' r =>
    by_cases hown : Own uid lc uid' r
    · rw [sessionMachine, if_pos hown]
      obtain ⟨rfl, hlc, haccepted⟩ := hown
      cases r with
      | finDelay proto =>
        change (sessionAfter uid' lc es).session.map _ = none
        rw [gone, Option.map_none]
      | fin proto => rfl
      | syn proto => exact absurd ⟨_, rfl, hlc, haccepted⟩ hsettles
      | upidx proto => exact absurd ⟨_, rfl, hlc, rfl⟩ hsettles
    · rw [sessionMachine, if_neg hown]
      exact gone

theorem lasts_snoc : Lasts opening uid lc ct (post ++ [e]) ↔
    Lasts opening uid lc ct post ∧ elapsedIn (post ++ [e]) ≤ 1000 * lifetime ct ∧
      ¬ SweptBy (opening ++ post) uid lc e := by
  constructor
  · intro h
    refine ⟨⟨?_, fun mid st cn rest delay hpost => ?_⟩, h.lease, ?_⟩
    · have hle := h.lease
      rw [elapsedIn_snoc] at hle
      omega
    · exact h.unswept mid st cn (rest ++ [e]) delay (by simp [hpost])
    · rintro ⟨st, cn, delay, rfl, asked, hle⟩
      have hlt := h.unswept post st cn [] delay rfl asked
      omega
  · rintro ⟨h, hlease, hswept⟩
    refine ⟨hlease, fun mid st cn rest delay hpost asked => ?_⟩
    rcases snoc_split.mp hpost with ⟨rfl, rfl, rfl⟩ | ⟨rest', rfl, rfl⟩
    · by_contra hle
      exact hswept ⟨st, cn, delay, rfl, asked, by omega⟩
    · exact h.unswept mid st cn rest' delay rfl asked

/-- From a renewal on the session is there exactly as long as its lease. -/
theorem lasts_after (own : Own uid lc uid r) (renewed : renews r = some ct)
    (last : ∀ e ∈ post, ¬ Settles uid lc e) :
    ((∃ session, Dated (es ++ [.request uid r] ++ post) uid lc session
        (elapsedIn es + 1000 * lifetime ct)) ∧ Lasts (es ++ [.request uid r]) uid lc ct post) ∨
      ((sessionAfter uid lc (es ++ [.request uid r] ++ post)).session = none ∧
        ¬ Lasts (es ++ [.request uid r]) uid lc ct post) := by
  induction post using List.reverseRecOn with
  | nil =>
    refine Or.inl ⟨?_, Nat.zero_le _, fun mid st cn rest delay hnil => by simp at hnil⟩
    rw [List.append_nil]
    exact Dated.renewed own renewed
  | append_singleton post e ih =>
    have hlast := last e (by simp)
    have htime : elapsedIn (es ++ [.request uid r] ++ (post ++ [e])) =
        elapsedIn es + elapsedIn (post ++ [e]) := by
      rw [elapsedIn_append, elapsedIn_snoc]
      rfl
    rw [lasts_snoc, ← List.append_assoc]
    rcases ih fun e' he' => last e' (List.mem_append_left _ he') with ⟨⟨session, h⟩, hlasts⟩ | ⟨hgone, hnot⟩
    · rcases h.step hlast with ⟨⟨session', h'⟩, hswept⟩ | ⟨hgone, hend⟩
      · refine Or.inl ⟨⟨session', h'⟩, hlasts, ?_, hswept⟩
        have hle := h'.time
        rw [List.append_assoc, htime] at hle
        omega
      · refine Or.inr ⟨hgone, ?_⟩
        rintro ⟨_, hle, hswept⟩
        rcases hend with hswept' | hlt
        · exact hswept hswept'
        · rw [List.append_assoc, htime] at hlt
          omega
    · exact Or.inr ⟨gone_stays hgone hlast, fun h => hnot h.1⟩

/-- A session that is there was opened, and what came since has not settled it. -/
theorem opened_before (there : (sessionAfter uid lc es).session ≠ none) :
    ∃ pre r post ct, es = pre ++ [.request uid r] ++ post ∧ Own uid lc uid r ∧ renews r = some ct ∧
      ∀ e ∈ post, ¬ Settles uid lc e := by
  induction es using List.reverseRecOn with
  | nil => exact absurd rfl there
  | append_singleton es e ih =>
    by_cases hsettles : Settles uid lc e
    · obtain ⟨r, rfl, hlc, hsettles⟩ := hsettles
      have hown : ∀ ct, renews r = some ct → r.accepted = true → ∃ pre r' post ct',
          es ++ [.request uid r] = pre ++ [.request uid r'] ++ post ∧ Own uid lc uid r' ∧
            renews r' = some ct' ∧ ∀ e ∈ post, ¬ Settles uid lc e :=
        fun ct hct haccepted => ⟨es, r, [], ct, by simp, ⟨rfl, hlc, haccepted⟩, hct, by simp⟩
      cases r with
      | syn proto => exact hown proto.cliType rfl hsettles
      | upidx proto => exact hown proto.cliType rfl rfl
      | finDelay proto => cases hsettles
      | fin proto =>
        have hfin : Own uid lc uid (.fin proto) := ⟨rfl, hlc, rfl⟩
        rw [sessionAfter_snoc, sessionMachine, if_pos hfin] at there
        exact absurd rfl there
    · have hbefore : (sessionAfter uid lc es).session ≠ none := fun hgone =>
        there (gone_stays hgone hsettles)
      obtain ⟨pre, r, post, ct, rfl, own, renewed, last⟩ := ih hbefore
      refine ⟨pre, r, post ++ [e], ct, by simp, own, renewed, fun e' he' => ?_⟩
      rcases List.mem_append.mp he' with he' | he'
      · exact last e' he'
      · rw [List.mem_singleton.mp he']
        exact hsettles

end Alive

/-- A session is there exactly if its last opening or renewal is not longer ago than the lifetime
of its client type, no `fin` has come since, and no sweep at a time that its last `fin_delay` of
the right gate had asked for. -/
theorem session_there_iff (es : List SessionEvent) (uid lc : Int) :
    (runSessions es).has (sessionKey uid lc) = true ↔
      ∃ pre r post ct, es = pre ++ [.request uid r] ++ post ∧ Own uid lc uid r ∧ renews r = some ct ∧
        (∀ e ∈ post, ¬ Settles uid lc e) ∧ Lasts (pre ++ [.request uid r]) uid lc ct post := by
  rw [(stores_after uid lc es).has_iff]
  constructor
  · rintro ⟨session, hsession⟩
    have there : (sessionAfter uid lc es).session ≠ none := by
      rw [hsession]
      simp
    obtain ⟨pre, r, post, ct, rfl, own, renewed, last⟩ := opened_before there
    rcases @lasts_after pre post uid lc ct r own renewed last with ⟨_, hlasts⟩ | ⟨hgone, _⟩
    · exact ⟨pre, r, post, ct, rfl, own, renewed, last, hlasts⟩
    · exact absurd hgone there
  · rintro ⟨pre, r, post, ct, rfl, own, renewed, last, hlasts⟩
    rcases @lasts_after pre post uid lc ct r own renewed last with ⟨⟨session, h⟩, _⟩ | ⟨_, hnot⟩
    · exact ⟨session, h.there⟩
    · exact absurd hlasts hnot

end RedisCluster.Guarantees
