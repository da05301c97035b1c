import RedisCluster.Library.Ordered
import RedisCluster.Source.ConnectionTable

/-!
# Connections

`ctxs_` and the contexts agree all along: an address maps to the context that was attached for it,
until the cleanup hook of this context takes it out. So `insert` never finds an address and `clear`
always does, in whatever order connections fail, come about and go away.

What hiredis does with sockets is left out. It frees a context only after its cleanup hook, and it
calls back for a context only while it has it.
-/

set_option autoImplicit false

namespace RedisCluster.Guarantees
open Library Source ConnState

/-! ## The invariant -/

/-- A context between `redisLibevAttach` and `redisLibevCleanup`. -/
structure Attached (c : Nat) (ac : AsyncContext) (e : LibevEvents) : Prop where
  record : ac.evData = some e
  own : e.context = c
  uncleaned : ac.cleaned = false
  peer : (ac.ip, ac.port) = int64Ipv4 e.addr
  established : e.status = 1 ↔ ac.reported = some redisOk
  owed : ∀ a ∈ ac.pending, a = e.addr

/-- `ctxs_` -/
abbrev CtxTable := Std.ExtTreeMap UInt64 Nat

/-- A context failed at once, it is attached and in the table, or the hook has run. -/
inductive Stage (ctxs : CtxTable) (c : Nat) (ac : AsyncContext) : Prop
  | failed (record : ac.evData = none) (hook : ac.evCleanup = false) (callback : ac.onConnect = false)
      (owed : ac.pending = [])
  | attached (e : LibevEvents) (live : Attached c ac e) (table : ctxs[e.addr]? = some c)
  | cleaned (record : ac.evData = none) (done : ac.cleaned = true) (owed : ac.pending = [])

/-- The command went to a context for its address, with `connect_cb` told of success. -/
def WellIssued (i : Issue) : Prop :=
  ∃ e, i.context.evData = some e ∧ e.addr = i.addr ∧
    (i.context.ip, i.context.port) = int64Ipv4 i.addr ∧ i.context.reported = some redisOk

structure TableOk (s : ConnState) : Prop where
  fresh : ∀ c, s.allocs ≤ c → s.contexts c = none
  stage : ∀ c ac, s.contexts c = some ac → Stage s.ctxs c ac
  mapped : ∀ a c, s.ctxs[a]? = some c → ∃ ac e, s.contexts c = some ac ∧ Attached c ac e ∧ e.addr = a
  issued : ∀ i ∈ s.issued, WellIssued i

section Table
variable {s : ConnState} {c c' : Nat} {ac ac' : AsyncContext} {e e' : LibevEvents} {a : UInt64}

theorem Attached.unique (live : Attached c ac e) (record : ac.evData = some e') : e' = e := by
  rw [live.record] at record
  exact (Option.some_inj.mp record).symm

/-- What happens to other addresses does not matter to a context. -/
theorem Stage.mono {ctxs ctxs' : CtxTable} (h : Stage ctxs c ac)
    (keeps : ∀ a : UInt64, ctxs[a]? = some c → ctxs'[a]? = some c) : Stage ctxs' c ac := by
  cases h with
  | failed record hook callback owed => exact .failed record hook callback owed
  | attached e live table => exact .attached e live (keeps e.addr table)
  | cleaned record done owed => exact .cleaned record done owed

/-- A record is there from the attach to the cleanup only. -/
theorem TableOk.attached (h : TableOk s) (here : s.contexts c = some ac) (record : ac.evData = some e) :
    Attached c ac e ∧ s.ctxs[e.addr]? = some c := by
  cases h.stage c ac here with
  | failed gone _ _ _ =>
    rw [gone] at record
    cases record
  | attached e' live table =>
    obtain rfl := live.unique record
    exact ⟨live, table⟩
  | cleaned gone _ _ =>
    rw [gone] at record
    cases record

theorem TableOk.init : TableOk .init where
  fresh _ _ := rfl
  stage c ac here := by cases here
  mapped a c hget := by simp [ConnState.init] at hget
  issued i hi := by cases hi

theorem TableOk.live (h : TableOk s) (here : s.contexts c = some ac) : c < s.allocs := by
  by_contra hnot
  rw [h.fresh c (Nat.le_of_not_lt hnot)] at here
  cases here

/-- The table says of a context what its record says. -/
theorem TableOk.mapped_addr (h : TableOk s) (hget : s.ctxs[a]? = some c) (here : s.contexts c = some ac) :
    ∃ e, Attached c ac e ∧ e.addr = a := by
  obtain ⟨ac₁, e, here₁, live, haddr⟩ := h.mapped a c hget
  rw [here] at here₁
  obtain rfl := Option.some_inj.mp here₁
  exact ⟨e, live, haddr⟩

/-- A step is about one context: the table and the other contexts agree on what it leaves alone. -/
theorem TableOk.put (h : TableOk s) {ctxs : CtxTable} {now : Option AsyncContext} {allocs : Nat}
    (grow : s.allocs ≤ allocs) (below : c < allocs) (stage : ∀ ac, now = some ac → Stage ctxs c ac)
    (others : ∀ (a : UInt64) (c' : Nat), c' ≠ c → (ctxs[a]? = some c' ↔ s.ctxs[a]? = some c'))
    (mapped : ∀ a : UInt64, ctxs[a]? = some c → ∃ ac e, now = some ac ∧ Attached c ac e ∧ e.addr = a) :
    TableOk ⟨ctxs, Function.update s.contexts c now, allocs, s.issued⟩ where
  fresh c' hc' := by
    dsimp only
    rw [Function.update_apply, if_neg (Nat.ne_of_gt (Nat.lt_of_lt_of_le below hc'))]
    exact h.fresh c' (grow.trans hc')
  stage c' ac here := by
    dsimp only at here
    rw [Function.update_apply] at here
    split at here
    · next hc =>
      subst hc
      exact stage ac here
    · next hc => exact (h.stage c' ac here).mono fun a hget => (others a c' hc).mpr hget
  mapped a c' hget := by
    dsimp only
    rw [Function.update_apply]
    split
    · next hc =>
      subst hc
      exact mapped a hget
    · next hc => exact h.mapped a c' ((others a c' hc).mp hget)
  issued := h.issued

/-! ## What a callback changes -/

/-- An attached context may change, but for the address of its record. -/
theorem TableOk.update (h : TableOk s) (here : s.contexts c = some ac) (record : ac.evData = some e)
    (live' : Attached c ac' e') (same : e'.addr = e.addr) : TableOk (s.setContext c (some ac')) := by
  obtain ⟨live, table⟩ := h.attached here record
  refine h.put (Nat.le_refl _) (h.live here) ?_ (fun _ _ _ => Iff.rfl) ?_
  · intro ac₁ heq
    obtain rfl := Option.some_inj.mp heq
    exact .attached e' live' (by rw [same, table])
  · intro a hget
    obtain ⟨e₁, live₁, haddr⟩ := h.mapped_addr hget here
    obtain rfl := live.unique live₁.record
    exact ⟨ac', e', rfl, live', same.trans haddr⟩

theorem TableOk.connected (h : TableOk s) {status : Int} (may : ConnEnabled s (.connected c status)) :
    ∃ s', connStep s (.connected c status) = some s' ∧ TableOk s' := by
  obtain ⟨ac, here, callback, unreported, uncleaned⟩ := may
  have hstep : connStep s (.connected c status) =
      (s.setContext c (some { ac with reported := some status })).connectCb c status := by
    simp [connStep, here]
  rw [hstep]
  cases h.stage c ac here with
  | failed _ _ unset _ =>
    rw [unset] at callback
    cases callback
  | cleaned _ done _ =>
    rw [uncleaned] at done
    cases done
  | attached e live _ =>
    by_cases hok : status = redisOk
    · subst hok
      refine ⟨_, connectCb_success setContext_self live.record, ?_⟩
      rw [setContext_setContext]
      exact h.update here live.record
        ⟨rfl, live.own, live.uncleaned, live.peer, iff_of_true rfl rfl, live.owed⟩ rfl
    · refine ⟨_, connectCb_failure hok, h.update here live.record
        ⟨live.record, live.own, live.uncleaned, live.peer, ?_, live.owed⟩ rfl⟩
      -- no other status was reported before, so the record is not established
      rw [live.established, unreported, Option.some_inj]
      exact iff_of_false (fun heq => Option.some_ne_none _ heq.symm) hok

/-- What comes back is filed under the address that the command was for. -/
theorem TableOk.replyAddr (h : TableOk s) (here : s.contexts c = some ac) (owed : a ∈ ac.pending) :
    s.replyAddr c = some a := by
  cases h.stage c ac here with
  | failed _ _ _ none =>
    rw [none] at owed
    cases owed
  | cleaned _ _ none =>
    rw [none] at owed
    cases owed
  | attached e live _ =>
    simp [ConnState.replyAddr, here, live.record, live.owed a owed]

theorem TableOk.reply (h : TableOk s) {r : Option RedisReply} (may : ConnEnabled s (.reply c r)) :
    ∃ s', connStep s (.reply c r) = some s' ∧ TableOk s' := by
  obtain ⟨ac, here, owing⟩ := may
  obtain ⟨a, rest, hpending⟩ := List.exists_cons_of_ne_nil owing
  have haddr : s.replyAddr c = some a := h.replyAddr here (by rw [hpending]; exact List.mem_cons_self)
  refine ⟨s.setContext c (some { ac with pending := ac.pending.tail }), ?_, ?_⟩
  · cases r with
    | none => simp [connStep, here]
    | some r => simp [connStep, here, haddr]
  · cases h.stage c ac here with
    | failed _ _ _ none => exact absurd none owing
    | cleaned _ _ none => exact absurd none owing
    | attached e live _ =>
      exact h.update here live.record ⟨live.record, live.own, live.uncleaned, live.peer, live.established,
        fun a ha => live.owed a (List.mem_of_mem_tail ha)⟩ rfl

/-- The hook finds its address in the table, and leaves the other addresses there. -/
theorem TableOk.cleanup (h : TableOk s) (may : ConnEnabled s (.cleanup c)) :
    ∃ s', connStep s (.cleanup c) = some s' ∧ TableOk s' := by
  obtain ⟨ac, here, hook, uncleaned, owed⟩ := may
  cases h.stage c ac here with
  | failed _ unset _ _ =>
    rw [unset] at hook
    cases hook
  | cleaned _ done _ =>
    rw [uncleaned] at done
    cases done
  | attached e live table =>
    have hstep : connStep s (.cleanup c) =
        (s.setContext c (some { ac with cleaned := true })).redisLibevCleanup e := by
      simp [connStep, here, live.record]
    have hmem : e.addr ∈ s.ctxs := Ordered.mem_iff_getElem?.mpr ⟨c, table⟩
    obtain rfl := live.own
    rw [hstep, redisLibevCleanup_eq setContext_self hmem, setContext_setContext, setContext_ctxs]
    refine ⟨_, rfl, h.put (Nat.le_refl _) (h.live here) ?_ ?_ ?_⟩
    · intro ac' heq
      obtain rfl := Option.some_inj.mp heq
      exact .cleaned rfl rfl owed
    · intro a c' hne
      rw [Ordered.getElem?_erase]
      split
      · next ha =>
        rw [ha, table, Option.some_inj]
        exact iff_of_false (Option.some_ne_none _).symm (Ne.symm hne)
      · exact Iff.rfl
    · intro a hget
      rw [Ordered.getElem?_erase] at hget
      split at hget
      · cases hget
      · next hne =>
        obtain ⟨e₁, live₁, haddr⟩ := h.mapped_addr hget here
        rw [live.unique live₁.record] at haddr
        exact absurd haddr.symm hne

theorem TableOk.free (h : TableOk s) (may : ConnEnabled s (.free c)) :
    ∃ s', connStep s (.free c) = some s' ∧ TableOk s' := by
  obtain ⟨ac, here, done⟩ := may
  refine ⟨_, rfl, h.put (Nat.le_refl _) (h.live here) ?_ (fun _ _ _ => Iff.rfl) ?_⟩
  · intro ac' heq
    cases heq
  · intro a hget
    obtain ⟨e, live, _⟩ := h.mapped_addr hget here
    rw [live.uncleaned] at done
    cases done

/-! ## What a command changes -/

theorem attached_new : Attached c (newContext c a false) ⟨c, a, 0⟩ where
  record := rfl
  own := rfl
  uncleaned := rfl
  peer := by rw [newContext]
  established := by simp [newContext]
  owed b hb := by cases hb

/-- Only an address that is not in the table gets a context. -/
theorem TableOk.connect (h : TableOk s) (absent : a ∉ s.ctxs) (err : Bool) :
    ∃ s', s.connect a err = some s' ∧ TableOk s' := by
  refine ⟨_, connect_eq absent err, h.put (Nat.le_succ _) (Nat.lt_succ_self _) ?_ ?_ ?_⟩
  · intro ac heq
    obtain rfl := Option.some_inj.mp heq
    cases err with
    | true => exact .failed rfl rfl rfl rfl
    | false =>
      exact .attached ⟨s.allocs, a, 0⟩ attached_new (Ordered.getElem?_insert.trans (if_pos rfl))
  · intro b c' hne
    cases err with
    | true => exact Iff.rfl
    | false =>
      rw [if_neg Bool.false_ne_true, Ordered.getElem?_insert]
      split
      · next hb =>
        rw [hb, Ordered.not_mem_iff_getElem?.mp absent, Option.some_inj]
        exact iff_of_false (Ne.symm hne) (Option.some_ne_none _).symm
      · exact Iff.rfl
  · intro b hget
    have hold : s.ctxs[b]? ≠ some s.allocs := by
      intro hget
      obtain ⟨ac, _, here, _⟩ := h.mapped b s.allocs hget
      exact Nat.lt_irrefl _ (h.live here)
    cases err with
    | true => exact absurd hget hold
    | false =>
      rw [if_neg Bool.false_ne_true, Ordered.getElem?_insert] at hget
      split at hget
      · next hb => exact ⟨_, _, rfl, attached_new, hb.symm⟩
      · exact absurd hget hold

theorem TableOk.command (h : TableOk s) (here : s.contexts c = some ac) (live : Attached c ac e)
    (haddr : e.addr = a) (ready : e.status = 1) (refused : Bool) :
    TableOk (s.redisAsyncCommandArgv c ac a refused) := by
  have live' : Attached c { ac with pending := if refused then ac.pending else ac.pending ++ [a] } e := by
    refine ⟨live.record, live.own, live.uncleaned, live.peer, live.established, fun b hb => ?_⟩
    dsimp only at hb
    split at hb
    · exact live.owed b hb
    · rcases List.mem_append.mp hb with hold | hnew
      · exact live.owed b hold
      · rw [List.mem_singleton.mp hnew, haddr]
  have hnext := h.update here live.record live' rfl
  refine ⟨hnext.fresh, hnext.stage, hnext.mapped, fun i hi => ?_⟩
  rcases List.mem_append.mp hi with hold | hnew
  · exact h.issued i hold
  · rw [List.mem_singleton.mp hnew]
    exact ⟨e, live.record, haddr, by rw [live.peer, haddr], live.established.mp ready⟩

/-- A command is issued only where the table has an established context for its address. -/
theorem TableOk.sendTo (h : TableOk s) (hiredis : UInt64 → HiredisAnswer) (entry : UInt64 × List Str) :
    ∃ s', s.sendTo hiredis entry = some s' ∧ TableOk s' := by
  unfold ConnState.sendTo ConnState.lookup
  by_cases hlong : entry.2.length ≥ argvMaxLen
  · rw [if_pos hlong]
    exact ⟨s, rfl, h⟩
  · rw [if_neg hlong]
    cases hget : s.ctxs[entry.1]? with
    | none => exact h.connect (Ordered.not_mem_iff_getElem?.mpr hget) _
    | some c =>
      obtain ⟨ac, e, here, live, haddr⟩ := h.mapped entry.1 c hget
      by_cases hready : e.status = 1
      · refine ⟨_, ?_, h.command here live haddr hready (hiredis entry.1).refuses⟩
        simp [here, live.record, hready]
      · refine ⟨s, ?_, h⟩
        simp [here, live.record, hready]

theorem TableOk.sendLoop (h : TableOk s) (hiredis : UInt64 → HiredisAnswer)
    (entries : List (UInt64 × List Str)) :
    ∃ s', entries.foldlM (ConnState.sendTo hiredis) s = some s' ∧ TableOk s' := by
  induction entries generalizing s with
  | nil => exact ⟨s, rfl, h⟩
  | cons entry entries ih =>
    obtain ⟨s₁, hsend, hok⟩ := h.sendTo hiredis entry
    obtain ⟨s', hloop, hok'⟩ := ih hok
    refine ⟨s', ?_, hok'⟩
    rw [List.foldlM_cons, hsend]
    exact hloop

theorem TableOk.cmd (h : TableOk s) (addrCmd : Commands) (hiredis : UInt64 → HiredisAnswer) :
    ∃ s', s.cmd addrCmd hiredis = some s' ∧ TableOk s' := by
  unfold ConnState.cmd
  split
  · exact ⟨s, rfl, h⟩
  · exact h.sendLoop hiredis addrCmd.toList

/-! ## Steps and runs -/

theorem TableOk.step (h : TableOk s) {event : ConnEvent} (may : ConnEnabled s event) :
    ∃ s', connStep s event = some s' ∧ TableOk s' := by
  cases event with
  | cmd addrCmd hiredis => exact h.cmd addrCmd hiredis
  | cmdAsync addrCmd hiredis => exact h.cmd addrCmd hiredis
  | connected c status => exact h.connected may
  | reply c r => exact h.reply may
  | cleanup c => exact h.cleanup may
  | disconnected c status => exact ⟨s, rfl, h⟩
  | free c => exact h.free may

theorem tableOk {es : List ConnEvent} (run : ConnRun .init es s) : TableOk s := by
  refine Run.invariant (P := fun _ s => TableOk s) .init ?_ run
  intro es s₁ event s₂ h may next
  obtain ⟨s', hstep, hok⟩ := h.step may
  rw [next] at hstep
  obtain rfl := Option.some_inj.mp hstep
  exact hok

end Table

/-! ## Replies and commands -/

section Commands
variable {s s' : ConnState} {es : List ConnEvent} {hiredis : UInt64 → HiredisAnswer}

/-- What the loop over the addresses of a call finds for each. -/
def connections (s : ConnState) (hiredis : UInt64 → HiredisAnswer) (a : UInt64) : Option Connection := do
  let c ← s.lookup a
  let ac ← s.contexts c
  let rd ← ac.evData
  return ⟨rd.status, (hiredis a).refuses⟩

/-- The addresses whose commands hiredis has taken. -/
def taken (s : ConnState) : List UInt64 := (s.issued.filter fun i => !i.refused).map Issue.addr

/-- A new context is nobody else's. -/
theorem TableOk.connect_others (h : TableOk s) {a b : UInt64} (absent : a ∉ s.ctxs) {err : Bool}
    (hconnect : s.connect a err = some s') (hne : b ≠ a) :
    connections s' hiredis b = connections s hiredis b := by
  rw [connect_eq absent] at hconnect
  obtain rfl := Option.some_inj.mp hconnect
  have hlookup : (if err then s.ctxs else s.ctxs.insert a s.allocs)[b]? = s.ctxs[b]? := by
    split
    · rfl
    · rw [Ordered.getElem?_insert, if_neg hne]
  unfold connections lookup
  dsimp only
  rw [hlookup]
  cases hget : s.ctxs[b]? with
  | none => rfl
  | some c =>
    obtain ⟨ac, e, here, _⟩ := h.mapped b c hget
    rw [Option.bind_eq_bind, Option.bind_some, Option.bind_eq_bind, Option.bind_some,
      setContext_contexts, if_neg (Nat.ne_of_lt (h.live here))]

/-- hiredis keeps the record when it takes a command. -/
theorem connections_command {c : Nat} {ac : AsyncContext} (here : s.contexts c = some ac)
    (a b : UInt64) (refused : Bool) :
    connections (s.redisAsyncCommandArgv c ac a refused) hiredis b = connections s hiredis b := by
  unfold connections redisAsyncCommandArgv lookup
  dsimp only
  rw [setContext_ctxs]
  cases s.ctxs[b]? with
  | none => rfl
  | some c' =>
    rw [Option.bind_eq_bind, Option.bind_some, Option.bind_eq_bind, Option.bind_some,
      setContext_contexts]
    split
    · next hc =>
      subst hc
      rw [here]
      rfl
    · rfl

/-- One address of a call: what is sent, and that nothing changes for the other addresses. -/
theorem TableOk.sendTo_taken (h : TableOk s) {entry : UInt64 × List Str}
    (hsend : s.sendTo hiredis entry = some s') :
    taken s' = taken s ++ (if sends (connections s hiredis) entry then [entry.1] else []) ∧
      ∀ a, a ≠ entry.1 → connections s' hiredis a = connections s hiredis a := by
  unfold ConnState.sendTo at hsend
  unfold sends
  by_cases hlong : entry.2.length ≥ argvMaxLen
  · rw [if_pos hlong] at hsend ⊢
    obtain rfl := Option.some_inj.mp hsend
    exact ⟨(List.append_nil _).symm, fun _ _ => rfl⟩
  · rw [if_neg hlong] at hsend ⊢
    cases hget : s.lookup entry.1 with
    | none =>
      rw [hget] at hsend
      have absent : entry.1 ∉ s.ctxs := Ordered.not_mem_iff_getElem?.mpr hget
      refine ⟨?_, fun a ha => h.connect_others absent hsend ha⟩
      rw [connect_eq absent] at hsend
      obtain rfl := Option.some_inj.mp hsend
      simp [connections, hget, taken, setContext]
    | some c =>
      obtain ⟨ac, e, here, live, _⟩ := h.mapped entry.1 c hget
      have hfound : connections s hiredis entry.1 = some ⟨e.status, (hiredis entry.1).refuses⟩ := by
        simp [connections, hget, here, live.record]
      rw [hget] at hsend
      rw [hfound]
      dsimp only at hsend ⊢
      rw [here, Option.bind_eq_bind, Option.bind_some, live.record, Option.bind_eq_bind, Option.bind_some] at hsend
      by_cases hready : e.status = 1
      · rw [if_pos hready] at hsend
        obtain rfl := Option.some_inj.mp hsend
        refine ⟨?_, fun a _ => connections_command here entry.1 a _⟩
        cases hrefuses : (hiredis entry.1).refuses with
        | true => simp [taken, redisAsyncCommandArgv]
        | false => simp [taken, redisAsyncCommandArgv, hready]
      · rw [if_neg hready] at hsend
        obtain rfl := Option.some_inj.mp hsend
        simp [hready]

/-- The calls send what the model of requests lets them send over these connections. -/
theorem TableOk.sendLoop_taken (h : TableOk s) {entries : List (UInt64 × List Str)}
    (nodup : (entries.map Prod.fst).Nodup)
    (hloop : entries.foldlM (ConnState.sendTo hiredis) s = some s') :
    taken s' = taken s ++ (entries.filter (sends (connections s hiredis))).map Prod.fst := by
  induction entries generalizing s with
  | nil =>
    obtain rfl := Option.some_inj.mp hloop
    simp
  | cons entry entries ih =>
    rw [List.map_cons, List.nodup_cons] at nodup
    obtain ⟨s₁, hsend, hok⟩ := h.sendTo hiredis entry
    rw [List.foldlM_cons, hsend] at hloop
    obtain ⟨htaken, hsame⟩ := h.sendTo_taken hsend
    have hrest : entries.filter (sends (connections s₁ hiredis)) =
        entries.filter (sends (connections s hiredis)) := by
      refine List.filter_congr fun other hother => ?_
      have hne : other.1 ≠ entry.1 := by
        intro heq
        exact nodup.1 (heq ▸ List.mem_map_of_mem hother)
      rw [sends, sends, hsame other.1 hne]
    rw [ih hok nodup.2 hloop, htaken, hrest, List.filter_cons, List.append_assoc]
    split
    · rfl
    · rfl

theorem cmd_taken (run : ConnRun .init es s) {addrCmd : Commands} (h : s.cmd addrCmd hiredis = some s') :
    taken s' = taken s ++ (addrCmd.toList.filter (sends (connections s hiredis))).map Prod.fst := by
  unfold ConnState.cmd at h
  split at h
  · next hempty =>
    rw [Std.ExtTreeMap.isEmpty_iff] at hempty
    obtain rfl := Option.some_inj.mp h
    simp [hempty]
  · exact (tableOk run).sendLoop_taken (Ordered.nodup_keys addrCmd) h

end Commands

/-! ## Every run -/

/-- No assertion fails whatever may happen next, the table has exactly the attached contexts, one
for an address, and every command went to an established one for its address. The reply to a command
is filed under that address, and a call sends what the model of the calls lets it send over these
connections. -/
structure ConnectionsSound (s : ConnState) : Prop where
  asserted : ∀ event, ConnEnabled s event → ∃ s', connStep s event = some s'
  mapped : ∀ a c, s.ctxs[a]? = some c → ∃ ac e, s.contexts c = some ac ∧ ac.cleaned = false ∧
    ac.evData = some e ∧ e.addr = a
  single : ∀ c ac e, s.contexts c = some ac → ac.evData = some e → s.ctxs[e.addr]? = some c
  issued : ∀ i ∈ s.issued, WellIssued i
  filed : ∀ c ac a, s.contexts c = some ac → a ∈ ac.pending → s.replyAddr c = some a
  sent : ∀ addrCmd hiredis s', s.cmd addrCmd hiredis = some s' →
    taken s' = taken s ++ (addrCmd.toList.filter (sends (connections s hiredis))).map Prod.fst

/-- However lookups, connections, callbacks and cleanups follow one another, no assertion on the
table fails, its entries are the contexts that are attached, and a command goes out on the context
of its address. Nothing is said of the order in which hiredis calls back, beyond what `ConnEnabled`
says. -/
theorem connection_table_sound (es : List ConnEvent) (s : ConnState) (run : ConnRun .init es s) :
    ConnectionsSound s := by
  have hok := tableOk run
  refine ⟨?_, ?_, ?_, hok.issued, fun _ _ _ => hok.replyAddr, fun _ _ _ => cmd_taken run⟩
  · intro event may
    obtain ⟨s', hstep, _⟩ := hok.step may
    exact ⟨s', hstep⟩
  · intro a c hget
    obtain ⟨ac, e, here, live, haddr⟩ := hok.mapped a c hget
    exact ⟨ac, e, here, live.uncleaned, live.record, haddr⟩
  · intro c ac e here record
    exact (hok.attached here record).2

def getCommand : Commands := (∅ : Commands).insert 7 ["GET".toList]

/-- The first context fails at once; the second is established, serves a command and goes away. -/
def servedOnce : List ConnEvent :=
  [.cmd getCommand fun _ => ⟨true, false⟩, .cmd getCommand fun _ => ⟨false, false⟩, .connected 1 redisOk,
    .cmd getCommand fun _ => ⟨false, false⟩, .reply 1 none, .cleanup 1, .free 1]

theorem served_once_sound : ∃ s, ConnRun .init servedOnce s ∧ s.issued.length = 1 ∧ ConnectionsSound s := by
  have failed : ConnRun .init ([] ++ [.cmd getCommand fun _ => ⟨true, false⟩]) _ := .snoc .nil trivial rfl
  have attached : ConnRun .init (_ ++ [.cmd getCommand fun _ => ⟨false, false⟩]) _ := failed.snoc trivial rfl
  have established : ConnRun .init (_ ++ [.connected 1 redisOk]) _ :=
    attached.snoc ⟨_, rfl, rfl, rfl, rfl⟩ rfl
  have served : ConnRun .init (_ ++ [.cmd getCommand fun _ => ⟨false, false⟩]) _ :=
    established.snoc trivial rfl
  have replied : ConnRun .init (_ ++ [.reply 1 none]) _ := served.snoc ⟨_, rfl, List.cons_ne_nil 7 []⟩ rfl
  have cleaned : ConnRun .init (_ ++ [.cleanup 1]) _ := replied.snoc ⟨_, rfl, rfl, rfl, rfl⟩ rfl
  have run : ConnRun .init servedOnce _ := cleaned.snoc ⟨_, rfl, rfl⟩ rfl
  exact ⟨_, run, rfl, connection_table_sound servedOnce _ run⟩

end RedisCluster.Guarantees
