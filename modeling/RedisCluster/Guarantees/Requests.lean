import Mathlib.Data.List.Nodup
import Mathlib.Tactic.Push
import RedisCluster.Library.Gather
import RedisCluster.Library.Ordered
import RedisCluster.Source.RedisEvent

/-!
# The requests behind the slots

The state of `RedisEvent` is what the requests make of it: each request gathers its
replies by itself, and the slots, the deadline entries, the blocks and the log say how
far every request is. Every step of the code is a step of the requests.
-/

set_option autoImplicit false

namespace RedisCluster.Guarantees
open Library Source

/-! ## Requests -/

section AsyncRequests
variable {τ : Type} [LinearOrder τ]

/-- The addresses that a command of the call is sent to. -/
def sentTo (c : AsyncCall τ) : List UInt64 :=
  (c.addrCmd.toList.filter (sends c.ctxs)).map Prod.fst

/-- A call, the slot it took, and its replies so far. -/
structure AsyncRequest (τ : Type) [LinearOrder τ] where
  call : AsyncCall τ
  cf : Slot
  replies : Gather UInt64 RedisReply

/-- The map holds what the replies decode to. -/
def Decoded (rv : RedisRvs) (got : UInt64 → Option RedisReply) : Prop :=
  ∀ addr, rv[addr]? = (got addr).map fun r => redisrvsAdd r .fresh

/-- The invocations of the callback of one call. -/
def invocations (s : EventState τ) (ptr : Nat) : List (Invocation τ) :=
  s.log.filter fun inv => inv.call = ptr

variable [Add τ]

/-- The key of the call's entry in `req_`. -/
def deadline (c : AsyncCall τ) : τ := c.callStamp + c.timeout

/-- The slot counts what is left, and its block can be found by it and by its deadline. -/
structure Live (s : EventState τ) (ptr : Nat) (q : AsyncRequest τ) : Prop where
  slot : s.cfg q.cf = ⟨q.replies.left.length, some ptr⟩
  entry : (deadline q.call, q.cf) ∈ s.req
  block : ∃ arg, s.args ptr = some arg ∧ arg.timeout = deadline q.call ∧ arg.callback = true ∧
    arg.key = q.call.key ∧ arg.data = q.call.data ∧ Decoded arg.rv q.replies.got

/-- What the callback of a call was told. -/
structure Told (inv : Invocation τ) (q : AsyncRequest τ) (istmout : Bool) : Prop where
  istmout : inv.istmout = istmout
  key : inv.key = q.call.key
  data : inv.data = q.call.data
  rv : Decoded inv.rv q.replies.got

/-- The state says how far the request is. -/
structure Represents (s : EventState τ) (ptr : Nat) (q : AsyncRequest τ) : Prop where
  sound : q.replies.Sound
  owed : ∀ addr, addr ∈ q.replies.left ↔ ⟨ptr, addr, q.cf⟩ ∈ s.pending
  running : q.replies.outcome = none → Live s ptr q ∧ invocations s ptr = []
  ended : ∀ istmout, q.replies.outcome = some istmout →
    ∃ inv, invocations s ptr = [inv] ∧ Told inv q istmout

/-- The requests so far, by the numbers of their blocks. -/
abbrev AsyncRequests (τ : Type) [LinearOrder τ] := Nat → Option (AsyncRequest τ)

structure Simulates (s : EventState τ) (requests : AsyncRequests τ) : Prop where
  represents : ∀ ptr q, requests ptr = some q → Represents s ptr q
  allocated : ∀ ptr, (requests ptr).isSome ↔ ptr < s.allocs
  slots : ∀ cf, s.cfg cf = .idle ∨
    ∃ ptr q, requests ptr = some q ∧ q.replies.outcome = none ∧ q.cf = cf
  owner : ∀ p ∈ s.pending, ∃ q, requests p.call = some q ∧ q.cf = p.cf
  apart : ∀ ptr q ptr' q', requests ptr = some q → requests ptr' = some q' →
    q'.replies.outcome = none → q'.cf = q.cf → q.replies.left ≠ [] → ptr = ptr'
  once : s.pending.Nodup
  entries : s.req.Distinct
  logged : ∀ inv ∈ s.log, inv.call < s.allocs

end AsyncRequests

/-! ## Frames -/

section Frames
variable {τ : Type} [LinearOrder τ] {s s' : EventState τ} {requests : AsyncRequests τ} {ptr : Nat}
  {q q' : AsyncRequest τ}

/-- What a step on the request of one block may change. -/
structure OnlyTouches (s s' : EventState τ) (ptr : Nat) (cf : Slot) : Prop where
  pending : ∀ p, p.call ≠ ptr → (p ∈ s'.pending ↔ p ∈ s.pending)
  entries : ∀ e ∈ s.req, e.2 ≠ cf → e ∈ s'.req
  cfg : ∀ i, i ≠ cf → s'.cfg i = s.cfg i
  args : ∀ other, other ≠ ptr → s'.args other = s.args other
  log : ∃ new, s'.log = s.log ++ new ∧ ∀ inv ∈ new, inv.call = ptr

theorem OnlyTouches.invocations {cf : Slot} (touch : OnlyTouches s s' ptr cf) {other : Nat}
    (h : other ≠ ptr) : invocations s' other = invocations s other := by
  obtain ⟨new, hlog, hnew⟩ := touch.log
  have hnone : new.filter (fun inv => inv.call = other) = [] := by
    rw [List.filter_eq_nil_iff]
    intro inv hinv
    simpa [hnew inv hinv] using h.symm
  rw [Guarantees.invocations, hlog, List.filter_append, hnone, List.append_nil]
  rfl

theorem erase_touches (s : EventState τ) (ptr : Nat) (addr : UInt64) (cf : Slot) :
    OnlyTouches s { s with pending := s.pending.erase ⟨ptr, addr, cf⟩ } ptr cf where
  pending p hne := by
    apply List.mem_erase_of_ne
    rintro rfl
    exact hne rfl
  entries e he _ := he
  cfg i _ := rfl
  args other _ := rfl
  log := ⟨[], (List.append_nil _).symm, by simp⟩

variable [Add τ]

/-- A request on another slot stays as it is. -/
theorem Represents.frame {cf : Slot} (h : Represents s ptr q) {other : Nat}
    (touch : OnlyTouches s s' other cf) (hne : ptr ≠ other)
    (hcf : q.replies.outcome = none → q.cf ≠ cf) : Represents s' ptr q where
  sound := h.sound
  owed addr := by
    rw [h.owed addr, touch.pending _ hne]
  running hout := by
    obtain ⟨hlive, hlog⟩ := h.running hout
    refine ⟨⟨?_, touch.entries _ hlive.entry (hcf hout), ?_⟩, ?_⟩
    · rw [touch.cfg _ (hcf hout)]
      exact hlive.slot
    · rw [touch.args _ hne]
      exact hlive.block
    · rw [touch.invocations hne]
      exact hlog
  ended istmout hout := by
    rw [touch.invocations hne]
    exact h.ended istmout hout

/-- A step on one request that still waits for replies. -/
theorem Simulates.advance (sim : Simulates s requests) (hq : requests ptr = some q)
    (hleft : q.replies.left ≠ []) (touch : OnlyTouches s s' ptr q.cf)
    (allocs : s'.allocs = s.allocs) (pending : s'.pending.Sublist s.pending)
    (req : s'.req.entries.Sublist s.req.entries) (hcf : q'.cf = q.cf)
    (hopen : q'.replies.outcome = none → q.replies.outcome = none)
    (hslot : s'.cfg q.cf = .idle ∨ q'.replies.outcome = none) (rep : Represents s' ptr q') :
    Simulates s' (Function.update requests ptr (some q')) := by
  -- A request before the step, with the same slot and openness.
  have hback : ∀ other r, Function.update requests ptr (some q') other = some r →
      ∃ r₀, requests other = some r₀ ∧ r.cf = r₀.cf ∧
        (r.replies.outcome = none → r₀.replies.outcome = none) ∧
        (r₀.replies.left = [] → r.replies.left = [] ∨ other = ptr) := by
    intro other r hr
    rw [Function.update_apply] at hr
    split at hr
    · next heq =>
      cases hr
      exact ⟨q, heq ▸ hq, hcf, hopen, fun _ => Or.inr heq⟩
    · exact ⟨r, hr, rfl, id, Or.inl⟩
  constructor
  · intro other r hr
    by_cases heq : other = ptr
    · subst heq
      rw [Function.update_self] at hr
      cases hr
      exact rep
    · rw [Function.update_of_ne heq] at hr
      apply (sim.represents other r hr).frame touch heq
      intro hout hsame
      exact heq (sim.apart ptr q other r hq hr hout hsame hleft).symm
  · intro other
    rw [allocs, ← sim.allocated other, Function.update_apply]
    split
    · next heq => simp [heq, hq]
    · exact Iff.rfl
  · intro cf
    by_cases heq : cf = q.cf
    · subst heq
      apply hslot.imp_right
      intro hout
      exact ⟨ptr, q', Function.update_self .., hout, hcf⟩
    · rw [touch.cfg cf heq]
      apply (sim.slots cf).imp_right
      rintro ⟨other, r, hr, hout, rfl⟩
      refine ⟨other, r, ?_, hout, rfl⟩
      rw [Function.update_of_ne, hr]
      rintro rfl
      rw [hq] at hr
      cases hr
      exact heq rfl
  · intro p hp
    obtain ⟨r, hr, hsame⟩ := sim.owner p (pending.subset hp)
    by_cases heq : p.call = ptr
    · rw [heq, hq] at hr
      cases hr
      exact ⟨q', by rw [heq, Function.update_self], hcf.trans hsame⟩
    · exact ⟨r, by rw [Function.update_of_ne heq, hr], hsame⟩
  · intro a r b r' hr hr' hout hsame hrest
    obtain ⟨r₀, hr₀, hcf₀, _, hnil⟩ := hback a r hr
    obtain ⟨r₁, hr₁, hcf₁, hout₁, _⟩ := hback b r' hr'
    apply sim.apart a r₀ b r₁ hr₀ hr₁ (hout₁ hout)
    · rw [← hcf₀, ← hcf₁, hsame]
    · intro hnone
      rcases hnil hnone with hnone | rfl
      · exact hrest hnone
      · rw [hq] at hr₀
        cases hr₀
        exact hleft hnone
  · exact sim.once.sublist pending
  · exact sim.entries.sublist req
  · intro inv hinv
    obtain ⟨new, hlog, hnew⟩ := touch.log
    rw [hlog, List.mem_append] at hinv
    rw [allocs]
    rcases hinv with hold | hnow
    · exact sim.logged inv hold
    · rw [hnew inv hnow, ← sim.allocated ptr, hq]
      rfl

/-- The command is not owed any more. -/
theorem owed_erase (rep : Represents s ptr q) (once : s.pending.Nodup) (addr other : UInt64) :
    other ∈ q.replies.left.erase addr ↔
      ⟨ptr, other, q.cf⟩ ∈ s.pending.erase ⟨ptr, addr, q.cf⟩ := by
  rw [rep.sound.nodup.mem_erase_iff, once.mem_erase_iff, rep.owed]
  simp

/-- A request that waits for replies has its slot for itself. -/
theorem Simulates.ended_idle (sim : Simulates s requests) (hq : requests ptr = some q)
    (hleft : q.replies.left ≠ []) {istmout : Bool} (hout : q.replies.outcome = some istmout) :
    s.cfg q.cf = .idle := by
  rcases sim.slots q.cf with hidle | ⟨other, q', hq', hopen, hcf⟩
  · exact hidle
  · obtain rfl := sim.apart ptr q other q' hq hq' hopen hcf hleft
    rw [hq] at hq'
    cases hq'
    rw [hout] at hopen
    cases hopen

end Frames

/-! ## Replies -/

theorem decoded_empty : Decoded ∅ fun _ => none := by
  intro addr
  simp

theorem Decoded.insert {rv : RedisRvs} {got : UInt64 → Option RedisReply} (h : Decoded rv got)
    {addr : UInt64} (fresh : got addr = none) (r : Option RedisReply) :
    Decoded (redisrpRedisrvs2 r rv addr) (Function.update got addr r) := by
  intro other
  cases r with
  | none =>
    have hsame : Function.update got addr none = got := by rw [← fresh, Function.update_eq_self]
    rw [hsame]
    exact h other
  | some r =>
    have hnew : rv[addr]? = none := by
      rw [h addr, fresh]
      rfl
    rw [redisrpRedisrvs2, hnew, Ordered.getElem?_insert, Function.update_apply]
    split
    · rfl
    · exact h other

section Replies
variable {τ : Type} [LinearOrder τ] [Sub τ] {s : EventState τ} {cf : Slot} {ptr : Nat}
  {arg : CmdAsyncArg τ}

theorem cb_ignored (h : s.cfg cf = .idle) (now : τ) (addr : UInt64) (r : Option RedisReply) :
    redisCmdAsyncCb s now addr cf r = some s := by
  simp [redisCmdAsyncCb, h, CFlag.idle]

theorem cb_collected {n : Nat} (hcfg : s.cfg cf = ⟨n, some ptr⟩) (harg : s.args ptr = some arg)
    (hn : 1 < n) (now : τ) (addr : UInt64) (r : Option RedisReply) :
    redisCmdAsyncCb s now addr cf r = some ((s.setCf cf ⟨n - 1, some ptr⟩).setArg ptr
      (some { arg with rv := redisrpRedisrvs2 r arg.rv addr })) := by
  have hzero : n ≠ 0 := by omega
  have hone : (n : Int) - 1 ≠ 0 := by omega
  simp [redisCmdAsyncCb, hcfg, harg, hzero, hone, EventState.setCf, EventState.setArg]

theorem cb_last (hcfg : s.cfg cf = ⟨1, some ptr⟩) (harg : s.args ptr = some arg)
    (hcb : arg.callback = true) (now : τ) (addr : UInt64) (r : Option RedisReply) :
    redisCmdAsyncCb s now addr cf r = some { s with
      cfg := Function.update s.cfg cf .idle
      req := s.req.erase arg.timeout cf
      args := Function.update s.args ptr none
      log := s.log ++ [⟨ptr, redisrpRedisrvs2 r arg.rv addr, now - arg.callStamp, false, arg.key,
        arg.data⟩] } := by
  simp [redisCmdAsyncCb, hcfg, harg, hcb, EventState.setCf, EventState.setArg, EventState.finish,
    CFlag.idle]

end Replies

/-- The commands of a call have one slot, so the first to an address is the only one. -/
theorem find_pending {pending : List Command} {p : Command} (hp : p ∈ pending)
    (same : ∀ p' ∈ pending, p'.call = p.call → p'.cf = p.cf) :
    pending.find? (fun p' => p'.call = p.call ∧ p'.addr = p.addr) = some p := by
  cases hsearch : pending.find? (fun p' => p'.call = p.call ∧ p'.addr = p.addr) with
  | none =>
    have hnone := List.find?_eq_none.mp hsearch p hp
    simp at hnone
  | some p' =>
    have hsame := List.find?_some hsearch
    rw [decide_eq_true_eq] at hsame
    have hcf := same p' (List.mem_of_find?_eq_some hsearch) hsame.1
    obtain ⟨call, addr, cf⟩ := p
    obtain ⟨call', addr', cf'⟩ := p'
    obtain ⟨rfl, rfl⟩ := hsame
    obtain rfl : cf' = cf := hcf
    rfl

section Answers
variable {τ : Type} [LinearOrder τ] [Add τ] {s : EventState τ} {requests : AsyncRequests τ}
  {ptr : Nat} {q : AsyncRequest τ} {arg : CmdAsyncArg τ} {addr : UInt64}

omit [Add τ] in
/-- A request with one more reply. -/
def AsyncRequest.answer (q : AsyncRequest τ) (addr : UInt64) (r : Option RedisReply) : AsyncRequest τ :=
  { q with replies := q.replies.answer addr r }

/-- The reply to a request that has ended. -/
theorem Simulates.reply_ignored (sim : Simulates s requests) (hq : requests ptr = some q)
    (haddr : addr ∈ q.replies.left) {istmout : Bool} (hout : q.replies.outcome = some istmout)
    (r : Option RedisReply) :
    Simulates { s with pending := s.pending.erase ⟨ptr, addr, q.cf⟩ }
      (Function.update requests ptr (some (q.answer addr r))) := by
  have hleft := List.ne_nil_of_mem haddr
  have rep := sim.represents ptr q hq
  have hidle := sim.ended_idle hq hleft hout
  have hanswer := Gather.answer_ended (i := addr) (a := r) hout
  refine sim.advance hq hleft (erase_touches s ptr addr q.cf) rfl List.erase_sublist
    (List.Sublist.refl _) rfl ?_ ?_ ?_
  · simp [AsyncRequest.answer, hanswer]
  · exact Or.inl hidle
  · refine ⟨rep.sound.answer addr r, ?_, ?_, ?_⟩
    · intro other
      rw [AsyncRequest.answer, Gather.answer_left]
      exact owed_erase rep sim.once addr other
    · simp [AsyncRequest.answer, hanswer]
    · intro b hb
      rw [AsyncRequest.answer, hanswer] at hb
      cases hb
      obtain ⟨inv, hinv, told⟩ := rep.ended istmout hout
      refine ⟨inv, hinv, told.istmout, told.key, told.data, ?_⟩
      rw [AsyncRequest.answer, hanswer]
      exact told.rv

/-- A reply to an open request that is not the last. -/
theorem Simulates.reply_collected (sim : Simulates s requests) (hq : requests ptr = some q)
    (haddr : addr ∈ q.replies.left) (hout : q.replies.outcome = none)
    (hmore : q.replies.left.erase addr ≠ [])
    (hlive : arg.timeout = deadline q.call ∧ arg.callback = true ∧ arg.key = q.call.key ∧
      arg.data = q.call.data ∧ Decoded arg.rv q.replies.got) (r : Option RedisReply) :
    Simulates { s with
        cfg := Function.update s.cfg q.cf ⟨q.replies.left.length - 1, some ptr⟩
        args := Function.update s.args ptr
          (some { arg with rv := redisrpRedisrvs2 r arg.rv addr })
        pending := s.pending.erase ⟨ptr, addr, q.cf⟩ }
      (Function.update requests ptr (some (q.answer addr r))) := by
  have hleft := List.ne_nil_of_mem haddr
  have rep := sim.represents ptr q hq
  have herase := erase_touches s ptr addr q.cf
  obtain ⟨live, hnone⟩ := rep.running hout
  obtain ⟨htime, hcb, hkey, hdata, hrv⟩ := hlive
  have hanswer := Gather.answer_open (i := addr) (a := r) hout
  rw [if_neg hmore] at hanswer
  refine sim.advance hq hleft ?_ rfl List.erase_sublist (List.Sublist.refl _) rfl ?_ ?_ ?_
  · exact { herase with
      cfg := fun i hi => Function.update_of_ne hi _ _
      args := fun other hne => Function.update_of_ne hne _ _ }
  · simp [hout]
  · simp [AsyncRequest.answer, hanswer]
  · refine ⟨rep.sound.answer addr r, ?_, ?_, ?_⟩
    · intro other
      rw [AsyncRequest.answer, Gather.answer_left]
      exact owed_erase rep sim.once addr other
    · intro _
      refine ⟨⟨?_, live.entry, _, Function.update_self .., htime, hcb, hkey, hdata, ?_⟩, hnone⟩
      · have hpos := List.length_pos_of_mem haddr
        rw [AsyncRequest.answer, Gather.answer_left, List.length_erase_of_mem haddr]
        simp only [Function.update_self, CFlag.mk.injEq, and_true]
        omega
      · rw [AsyncRequest.answer, hanswer]
        exact hrv.insert (rep.sound.fresh addr haddr) r
    · simp [AsyncRequest.answer, hanswer]

omit [Add τ] in
theorem invocations_first {s' : EventState τ} {inv : Invocation τ} (hnone : invocations s ptr = [])
    (hlog : s'.log = s.log ++ [inv]) (hcall : inv.call = ptr) : invocations s' ptr = [inv] := by
  rw [invocations, hlog, List.filter_append, show s.log.filter _ = [] from hnone]
  simp [hcall]

variable [Sub τ]

/-- The last reply to an open request. -/
theorem Simulates.reply_last (sim : Simulates s requests) (hq : requests ptr = some q)
    (haddr : addr ∈ q.replies.left) (hout : q.replies.outcome = none)
    (hlast : q.replies.left.erase addr = [])
    (hlive : arg.timeout = deadline q.call ∧ arg.callback = true ∧ arg.key = q.call.key ∧
      arg.data = q.call.data ∧ Decoded arg.rv q.replies.got) (now : τ) (r : Option RedisReply) :
    Simulates { s with
        cfg := Function.update s.cfg q.cf .idle
        req := s.req.erase arg.timeout q.cf
        args := Function.update s.args ptr none
        pending := s.pending.erase ⟨ptr, addr, q.cf⟩
        log := s.log ++ [⟨ptr, redisrpRedisrvs2 r arg.rv addr, now - arg.callStamp, false,
          arg.key, arg.data⟩] }
      (Function.update requests ptr (some (q.answer addr r))) := by
  have hleft := List.ne_nil_of_mem haddr
  have rep := sim.represents ptr q hq
  have herase := erase_touches s ptr addr q.cf
  obtain ⟨live, hnone⟩ := rep.running hout
  obtain ⟨htime, hcb, hkey, hdata, hrv⟩ := hlive
  have hanswer := Gather.answer_open (i := addr) (a := r) hout
  rw [if_pos hlast] at hanswer
  refine sim.advance hq hleft ?_ rfl List.erase_sublist List.erase_sublist rfl ?_ ?_ ?_
  · exact { herase with
      entries := fun e he hne => by
        apply sim.entries.mem_erase.mpr
        refine ⟨?_, he⟩
        rintro rfl
        exact hne rfl
      cfg := fun i hi => Function.update_of_ne hi _ _
      args := fun other hne => Function.update_of_ne hne _ _
      log := ⟨_, rfl, by simp⟩ }
  · simp [hout]
  · exact Or.inl (Function.update_self ..)
  · refine ⟨rep.sound.answer addr r, ?_, ?_, ?_⟩
    · intro other
      rw [AsyncRequest.answer, Gather.answer_left]
      exact owed_erase rep sim.once addr other
    · simp [AsyncRequest.answer, hanswer]
    · intro istmout hb
      rw [AsyncRequest.answer, hanswer] at hb
      cases hb
      refine ⟨_, invocations_first hnone rfl rfl, ⟨rfl, hkey, hdata, ?_⟩⟩
      · rw [AsyncRequest.answer, hanswer]
        exact hrv.insert (rep.sound.fresh addr haddr) r

variable [Zero τ]

/-- The reply is taken off; what it does to its request is up to the slot. -/
theorem Simulates.delivered (sim : Simulates s requests) {p : Command} (hp : p ∈ s.pending)
    (now : τ) (r : Option RedisReply) : ∃ q, requests p.call = some q ∧ p.addr ∈ q.replies.left ∧
      q.cf = p.cf ∧ eventStep s (.reply now p.call p.addr r) =
        redisCmdAsyncCb { s with pending := s.pending.erase p } now p.addr p.cf r := by
  obtain ⟨q, hq, hcf⟩ := sim.owner p hp
  have howed := (sim.represents p.call q hq).owed p.addr
  rw [hcf] at howed
  refine ⟨q, hq, howed.mpr hp, hcf, ?_⟩
  have hfind : s.pending.find? (fun p' => p'.call = p.call ∧ p'.addr = p.addr) = some p := by
    refine find_pending hp fun p' hp' hcall => ?_
    obtain ⟨q', hq', hcf'⟩ := sim.owner p' hp'
    rw [hcall, hq] at hq'
    cases hq'
    rw [← hcf, ← hcf']
  rw [eventStep, hfind]
  rfl

/-- A reply is one more answer to its request; it changes nothing after the end. -/
theorem Simulates.reply (sim : Simulates s requests) {p : Command} (hp : p ∈ s.pending)
    (now : τ) (r : Option RedisReply) : ∃ s' q, requests p.call = some q ∧
      p.addr ∈ q.replies.left ∧ eventStep s (.reply now p.call p.addr r) = some s' ∧
      Simulates s' (Function.update requests p.call (some (q.answer p.addr r))) ∧
      (q.replies.outcome ≠ none → s' = { s with pending := s'.pending }) := by
  obtain ⟨q, hq, haddr, hcf, hstep⟩ := sim.delivered hp now r
  obtain ⟨ptr, addr, cf⟩ := p
  simp only at hq haddr hcf hstep ⊢
  subst hcf
  cases hout : q.replies.outcome with
  | some b =>
    have hidle := sim.ended_idle hq (List.ne_nil_of_mem haddr) hout
    have hcb := cb_ignored (s := { s with pending := s.pending.erase ⟨ptr, addr, q.cf⟩ }) hidle now addr r
    exact ⟨_, q, hq, haddr, hstep.trans hcb, sim.reply_ignored hq haddr hout r, fun _ => rfl⟩
  | none =>
    obtain ⟨live, _⟩ := (sim.represents ptr q hq).running hout
    obtain ⟨arg, harg, hlive⟩ := live.block
    have hlength := List.length_erase_of_mem haddr
    by_cases hlast : q.replies.left.erase addr = []
    · rw [hlast, List.length_nil] at hlength
      have hpos := List.length_pos_of_mem haddr
      have hone : q.replies.left.length = 1 := by omega
      have hslot := live.slot
      rw [hone] at hslot
      have hcb := cb_last (s := { s with pending := s.pending.erase ⟨ptr, addr, q.cf⟩ })
        hslot harg hlive.2.1 now addr r
      exact ⟨_, q, hq, haddr, hstep.trans hcb, sim.reply_last hq haddr hout hlast hlive now r,
        fun h => absurd hout h⟩
    · have hmore := List.length_pos_of_ne_nil hlast
      have hcb := cb_collected (s := { s with pending := s.pending.erase ⟨ptr, addr, q.cf⟩ })
        live.slot harg (by omega) now addr r
      exact ⟨_, q, hq, haddr, hstep.trans hcb, sim.reply_collected hq haddr hout hlast hlive r,
        fun h => absurd hout h⟩

end Answers

/-! ## Ticks -/

section Ticks
variable {τ : Type} [LinearOrder τ] [Sub τ] {s : EventState τ} {cf : Slot} {ptr : Nat}
  {arg : CmdAsyncArg τ}

theorem timeoutEntry_idle (h : s.cfg cf = .idle) (stamp : τ) : timeoutEntry s stamp cf = some s := by
  simp [timeoutEntry, h, CFlag.idle]

theorem timeoutEntry_busy {f : Int} (hcfg : s.cfg cf = ⟨f, some ptr⟩) (hf : f ≠ 0)
    (harg : s.args ptr = some arg) (hcb : arg.callback = true) (stamp : τ) :
    timeoutEntry s stamp cf = some { s with
      cfg := Function.update s.cfg cf .idle
      args := Function.update s.args ptr none
      log := s.log ++ [⟨ptr, arg.rv, stamp - arg.callStamp, true, arg.key, arg.data⟩] } := by
  simp [timeoutEntry, hcfg, hf, harg, hcb, EventState.setCf, EventState.setArg, EventState.finish]

variable [Add τ] {requests : AsyncRequests τ} {q : AsyncRequest τ}

omit [Sub τ] in
/-- A request after a tick. -/
def AsyncRequest.tick (stamp : τ) (q : AsyncRequest τ) : AsyncRequest τ :=
  { q with replies := q.replies.tick (deadline q.call) stamp }

omit [Sub τ] in
def tickAll (stamp : τ) (requests : AsyncRequests τ) : AsyncRequests τ :=
  fun ptr => (requests ptr).map (AsyncRequest.tick stamp)

omit [Sub τ] in
theorem AsyncRequest.tick_tick (stamp : τ) (q : AsyncRequest τ) :
    (q.tick stamp).tick stamp = q.tick stamp := by
  have hsame : (q.replies.tick (deadline q.call) stamp).tick (deadline q.call) stamp =
      q.replies.tick (deadline q.call) stamp := by
    by_cases hc : q.replies.outcome = none ∧ deadline q.call < stamp
    · rw [Gather.tick_late hc.1 hc.2, Gather.tick_same (Or.inl (by simp))]
    · have hc := Decidable.not_and_iff_or_not.mp hc
      rw [Gather.tick_same hc, Gather.tick_same hc]
  simp only [AsyncRequest.tick, hsame]

omit [Sub τ] in
/-- The tick that is under way has ended this request already. -/
theorem tickAll_update (stamp : τ) (hq : requests ptr = some q) :
    tickAll stamp (Function.update requests ptr (some (q.tick stamp))) =
      tickAll stamp requests := by
  funext other
  rw [tickAll, tickAll, Function.update_apply]
  split
  · next heq =>
    rw [heq, hq]
    exact congrArg some (q.tick_tick stamp)
  · rfl

omit [Sub τ] in
/-- The entry of a slot that nothing uses goes. -/
theorem Simulates.dropped (sim : Simulates s requests) {first : τ × Slot} {rest : List (τ × Slot)}
    (hreq : s.req.entries = first :: rest) (hidle : s.cfg first.2 = .idle) :
    Simulates { s with req := s.req.popFront } requests := by
  have rep : ∀ ptr q, requests ptr = some q →
      Represents { s with req := s.req.popFront } ptr q := by
    intro ptr q hq
    have old := sim.represents ptr q hq
    refine ⟨old.sound, old.owed, ?_, old.ended⟩
    intro hout
    obtain ⟨live, hlog⟩ := old.running hout
    refine ⟨⟨live.slot, ?_, live.block⟩, hlog⟩
    rcases (Multimap.mem_front hreq).mp live.entry with heq | hmem
    · rw [← heq, live.slot] at hidle
      simp [CFlag.idle] at hidle
    · exact hmem
  exact { sim with
    represents := rep
    entries := sim.entries.sublist (List.tail_sublist _) }

/-- The entry of a slot in use ends the request of the slot. -/
theorem Simulates.expired (sim : Simulates s requests) (hq : requests ptr = some q)
    (hout : q.replies.outcome = none) {rest : List (τ × Slot)}
    (hreq : s.req.entries = (deadline q.call, q.cf) :: rest)
    (hlive : arg.timeout = deadline q.call ∧ arg.callback = true ∧ arg.key = q.call.key ∧
      arg.data = q.call.data ∧ Decoded arg.rv q.replies.got) {stamp : τ}
    (late : deadline q.call < stamp) :
    Simulates { s with
        req := s.req.popFront
        cfg := Function.update s.cfg q.cf .idle
        args := Function.update s.args ptr none
        log := s.log ++ [⟨ptr, arg.rv, stamp - arg.callStamp, true, arg.key, arg.data⟩] }
      (Function.update requests ptr (some (q.tick stamp))) := by
  have rep := sim.represents ptr q hq
  obtain ⟨live, hnone⟩ := rep.running hout
  obtain ⟨htime, hcb, hkey, hdata, hrv⟩ := hlive
  have htick : (q.tick stamp).replies = { q.replies with outcome := some true } :=
    Gather.tick_late hout late
  refine sim.advance hq (rep.sound.waits hout) ?_ rfl (List.Sublist.refl _)
    (List.tail_sublist _) rfl ?_ ?_ ?_
  · exact {
      pending := fun p _ => Iff.rfl
      entries := fun e he hne => by
        apply ((Multimap.mem_front hreq).mp he).resolve_left
        rintro rfl
        exact hne rfl
      cfg := fun i hi => Function.update_of_ne hi _ _
      args := fun other hne => Function.update_of_ne hne _ _
      log := ⟨_, rfl, by simp⟩ }
  · simp [htick]
  · exact Or.inl (Function.update_self ..)
  · refine ⟨rep.sound.tick _ stamp, ?_, ?_, ?_⟩
    · intro addr
      rw [htick]
      exact rep.owed addr
    · simp [htick]
    · intro istmout hb
      rw [htick] at hb
      cases hb
      refine ⟨_, invocations_first hnone rfl rfl, ⟨rfl, hkey, hdata, ?_⟩⟩
      rw [htick]
      exact hrv

/-- One round of `timeout_callback`. -/
theorem Simulates.round (sim : Simulates s requests) {first : τ × Slot} {rest : List (τ × Slot)}
    (hreq : s.req.entries = first :: rest) {stamp : τ} (late : first.1 < stamp) :
    ∃ s' requests', timeoutEntry { s with req := s.req.popFront } stamp first.2 = some s' ∧
      Simulates s' requests' ∧ tickAll stamp requests' = tickAll stamp requests ∧
      s'.req.entries = rest := by
  have hrest : s.req.popFront.entries = rest := congrArg List.tail hreq
  rcases sim.slots first.2 with hidle | ⟨ptr, q, hq, hout, hcf⟩
  · have hentry := timeoutEntry_idle (s := { s with req := s.req.popFront }) hidle stamp
    exact ⟨_, requests, hentry, sim.dropped hreq hidle, rfl, hrest⟩
  · have rep := sim.represents ptr q hq
    obtain ⟨live, _⟩ := rep.running hout
    obtain ⟨arg, harg, hlive⟩ := live.block
    have hfirst : first ∈ s.req := (Multimap.mem_front hreq).mpr (Or.inl rfl)
    -- The slot has one entry, so the first one is the request's own.
    obtain rfl : first = (deadline q.call, q.cf) := sim.entries.unique hfirst live.entry hcf.symm
    have hcount : (q.replies.left.length : Int) ≠ 0 := by
      have hpos := List.length_pos_of_ne_nil (rep.sound.waits hout)
      omega
    have hentry := timeoutEntry_busy (s := { s with req := s.req.popFront })
      live.slot hcount harg hlive.2.1 stamp
    exact ⟨_, _, hentry, sim.expired hq hout hreq hlive late, tickAll_update stamp hq, hrest⟩

/-- The loop ends the requests that are late; the entries that it leaves are not. -/
theorem Simulates.rounds (stamp : τ) (rounds : Nat) {s : EventState τ} {requests : AsyncRequests τ}
    (sim : Simulates s requests) (hrounds : s.req.entries.length ≤ rounds) :
    ∃ s' requests', timeoutLoop stamp rounds s = some s' ∧ Simulates s' requests' ∧
      tickAll stamp requests' = tickAll stamp requests ∧ ∀ e ∈ s'.req, ¬ e.1 < stamp := by
  induction rounds generalizing s requests with
  | zero =>
    have hnil : s.req.entries = [] := List.eq_nil_of_length_eq_zero (by omega)
    refine ⟨s, requests, rfl, sim, rfl, ?_⟩
    intro e he
    rw [Multimap.mem_def, hnil] at he
    cases he
  | succ rounds ih =>
    cases hreq : s.req.entries with
    | nil =>
      refine ⟨s, requests, ?_, sim, rfl, ?_⟩
      · simp only [timeoutLoop, hreq]
      · intro e he
        rw [Multimap.mem_def, hreq] at he
        cases he
    | cons first rest =>
      by_cases late : first.1 < stamp
      · obtain ⟨s₁, requests₁, hentry, sim₁, hsame₁, hrest⟩ := sim.round hreq late
        rw [hreq, List.length_cons] at hrounds
        obtain ⟨s₂, requests₂, hloop, sim₂, hsame₂, hnot⟩ := ih sim₁ (by rw [hrest]; omega)
        refine ⟨s₂, requests₂, ?_, sim₂, hsame₂.trans hsame₁, hnot⟩
        simp only [timeoutLoop, hreq, if_pos late, hentry]
        exact hloop
      · refine ⟨s, requests, ?_, sim, rfl, ?_⟩
        · simp only [timeoutLoop, hreq, if_neg late]
        · intro e he hlt
          exact late ((Multimap.front_le hreq he).trans_lt hlt)

/-- A tick is a tick of every request. -/
theorem Simulates.tick (sim : Simulates s requests) (stamp : τ) :
    ∃ s', timeoutCallback s stamp = some s' ∧ Simulates s' (tickAll stamp requests) := by
  obtain ⟨s', requests', hloop, sim', hsame, hnot⟩ := sim.rounds stamp _ (Nat.le_refl _)
  refine ⟨s', hloop, ?_⟩
  -- No request is late any more.
  have hdone : tickAll stamp requests' = requests' := by
    funext ptr
    rw [tickAll]
    cases hq : requests' ptr with
    | none => rfl
    | some q =>
      have htick : q.replies.tick (deadline q.call) stamp = q.replies := by
        apply Gather.tick_same
        by_cases hout : q.replies.outcome = none
        · exact Or.inr (hnot _ ((sim'.represents ptr q hq).running hout).1.entry)
        · exact Or.inl hout
      rw [Option.map_some, AsyncRequest.tick, htick]
  rw [← hsame, hdone]
  exact sim'

end Ticks

/-! ## Calls -/

section Calls
variable {τ : Type} [LinearOrder τ] {s s' : EventState τ} {requests : AsyncRequests τ}
  {c : AsyncCall τ}

theorem sendAll_foldl (ctxs : UInt64 → Option Connection) (ptr : Nat) (cf : Slot)
    (l : List (UInt64 × List Str)) (n : Nat) (pending : List Command) :
    l.foldl (sendAll ctxs ptr cf) (n, pending) = (n + ((l.filter (sends ctxs)).map Prod.fst).length,
      pending ++ ((l.filter (sends ctxs)).map Prod.fst).map fun addr => ⟨ptr, addr, cf⟩) := by
  induction l generalizing n pending with
  | nil => simp
  | cons entry l ih =>
    rw [List.foldl_cons, sendAll]
    split
    · next hsends =>
      rw [ih, List.filter_cons_of_pos hsends]
      simp
      omega
    · next hsends =>
      rw [ih, List.filter_cons_of_neg hsends]

omit [LinearOrder τ] in
theorem sentTo_nodup (c : AsyncCall τ) : (sentTo c).Nodup :=
  (Ordered.nodup_keys c.addrCmd).sublist (List.filter_sublist.map Prod.fst)

variable [Add τ] [Zero τ]

theorem cmdAsync_sent (hne : c.addrCmd.isEmpty = false) (hsent : sentTo c ≠ []) :
    cmdAsync s c = { s with
      idx := .ofNat (nextCf s.idx)
      cfg := Function.update s.cfg (nextCf s.idx) ⟨(sentTo c).length, some s.allocs⟩
      req := s.req.insert (deadline c) (nextCf s.idx)
      args := Function.update s.args s.allocs
        (some ⟨∅, c.key, c.data, c.callback, c.callStamp, deadline c⟩)
      allocs := s.allocs + 1
      pending := s.pending ++ (sentTo c).map fun addr => ⟨s.allocs, addr, nextCf s.idx⟩ } := by
  have hpos := List.length_pos_of_ne_nil hsent
  simp only [cmdAsync, hne, Bool.false_eq_true, if_false, sendAll_foldl, Nat.zero_add]
  exact if_pos hpos

theorem cmdAsync_unsent (hne : c.addrCmd.isEmpty = false) (hcb : c.callback = true)
    (hsent : sentTo c = []) :
    cmdAsync s c = { s with
      idx := .ofNat (nextCf s.idx)
      req := s.req.insert (deadline c) (nextCf s.idx)
      args := Function.update s.args s.allocs none
      allocs := s.allocs + 1
      log := s.log ++ [⟨s.allocs, ∅, 0, false, c.key, c.data⟩] } := by
  have hnil : (c.addrCmd.toList.filter (sends c.ctxs)).map Prod.fst = [] := hsent
  simp [cmdAsync, hne, sendAll_foldl, hnil, EventState.finish, EventState.setArg, hcb, deadline]

/-- A new request, on the slot of the next call. -/
def AsyncRequest.issue (s : EventState τ) (c : AsyncCall τ) : AsyncRequest τ :=
  ⟨c, nextCf s.idx, .start (sentTo c)⟩

omit [Zero τ] in
/-- No request that waits for replies is on a free slot. -/
theorem Simulates.free_apart (sim : Simulates s requests) {cf : Slot} (free : SlotFree s cf)
    {ptr : Nat} {q : AsyncRequest τ} (hq : requests ptr = some q) (hleft : q.replies.left ≠ []) :
    q.cf ≠ cf := by
  obtain ⟨addr, haddr⟩ := List.exists_mem_of_ne_nil _ hleft
  have howed := ((sim.represents ptr q hq).owed addr).mp haddr
  exact free.1 _ howed

omit [Zero τ] in
theorem Simulates.free_idle (sim : Simulates s requests) {cf : Slot} (free : SlotFree s cf) :
    s.cfg cf = .idle := by
  rcases sim.slots cf with hidle | ⟨ptr, q, hq, hout, hcf⟩
  · exact hidle
  · exact absurd hcf (sim.free_apart free hq ((sim.represents ptr q hq).sound.waits hout))

omit [Zero τ] in
theorem Simulates.fresh (sim : Simulates s requests) : requests s.allocs = none := by
  rw [← Option.not_isSome_iff_eq_none, sim.allocated]
  exact Nat.lt_irrefl _

omit [Zero τ] in
/-- What every call of `cmd_async` makes of the requests, whatever it could send. -/
theorem Simulates.issue (sim : Simulates s requests) (free : SlotFree s (nextCf s.idx))
    (touch : OnlyTouches s s' s.allocs (nextCf s.idx)) (allocs : s'.allocs = s.allocs + 1)
    (pending : s'.pending =
      s.pending ++ (sentTo c).map fun addr => ⟨s.allocs, addr, nextCf s.idx⟩)
    (req : s'.req = s.req.insert (deadline c) (nextCf s.idx))
    (hslot : s'.cfg (nextCf s.idx) = .idle ∨ sentTo c ≠ [])
    (rep : Represents s' s.allocs (.issue s c)) :
    Simulates s' (Function.update requests s.allocs (some (.issue s c))) := by
  have hold : ∀ p ∈ s.pending, p.call < s.allocs := by
    intro p hp
    obtain ⟨q, hq, _⟩ := sim.owner p hp
    exact (sim.allocated p.call).mp (by rw [hq]; rfl)
  constructor
  · intro other r hr
    by_cases heq : other = s.allocs
    · subst heq
      rw [Function.update_self] at hr
      cases hr
      exact rep
    · rw [Function.update_of_ne heq] at hr
      apply (sim.represents other r hr).frame touch heq
      intro hout
      exact sim.free_apart free hr ((sim.represents other r hr).sound.waits hout)
  · intro other
    have hother := sim.allocated other
    rw [allocs, Function.update_apply]
    split
    · next heq => simp [heq]
    · rw [hother]
      omega
  · intro cf
    by_cases heq : cf = nextCf s.idx
    · subst heq
      apply hslot.imp_right
      intro hsent
      refine ⟨s.allocs, .issue s c, Function.update_self .., ?_, rfl⟩
      simp [AsyncRequest.issue, Gather.start, hsent]
    · rw [touch.cfg cf heq]
      apply (sim.slots cf).imp_right
      rintro ⟨other, r, hr, hout, rfl⟩
      refine ⟨other, r, ?_, hout, rfl⟩
      rw [Function.update_of_ne, hr]
      rintro rfl
      rw [sim.fresh] at hr
      cases hr
  · intro p hp
    rw [pending, List.mem_append, List.mem_map] at hp
    rcases hp with hp | ⟨addr, _, rfl⟩
    · obtain ⟨r, hr, hsame⟩ := sim.owner p hp
      exact ⟨r, by rw [Function.update_of_ne (Nat.ne_of_lt (hold p hp)), hr], hsame⟩
    · exact ⟨.issue s c, Function.update_self .., rfl⟩
  · intro a r b r' hr hr' hout hsame hleft
    rw [Function.update_apply] at hr hr'
    split at hr <;> split at hr'
    · next ha hb => rw [ha, hb]
    · cases hr
      have hwaits := (sim.represents b r' hr').sound.waits hout
      exact absurd hsame (sim.free_apart free hr' hwaits)
    · cases hr'
      exact absurd hsame.symm (sim.free_apart free hr hleft)
    · exact sim.apart a r b r' hr hr' hout hsame hleft
  · rw [pending, List.nodup_append]
    refine ⟨sim.once, ?_, ?_⟩
    · exact (sentTo_nodup c).map fun a b h => (Command.mk.inj h).2.1
    · rintro p hp other hnew rfl
      obtain ⟨addr, _, rfl⟩ := List.mem_map.mp hnew
      exact Nat.lt_irrefl _ (hold _ hp)
  · rw [req]
    exact sim.entries.insert fun e he => free.2 e he
  · intro inv hinv
    obtain ⟨new, hlog, hnew⟩ := touch.log
    rw [hlog, List.mem_append] at hinv
    rw [allocs]
    rcases hinv with hin | hin
    · exact Nat.lt_succ_of_lt (sim.logged inv hin)
    · rw [hnew inv hin]
      exact Nat.lt_succ_self _

omit [Zero τ] in
theorem Simulates.invocations_fresh (sim : Simulates s requests) :
    invocations s s.allocs = [] := by
  rw [invocations, List.filter_eq_nil_iff]
  intro inv hinv
  simpa using Nat.ne_of_lt (sim.logged inv hinv)

omit [Add τ] [Zero τ] in
/-- The commands of a call are the new ones with its number. -/
theorem owed_issue (hold : ∀ p ∈ s.pending, p.call ≠ s.allocs) (addr : UInt64) :
    addr ∈ sentTo c ↔ ⟨s.allocs, addr, nextCf s.idx⟩ ∈ s.pending ++
      (sentTo c).map fun addr => (⟨s.allocs, addr, nextCf s.idx⟩ : Command) := by
  rw [List.mem_append, List.mem_map]
  constructor
  · intro h
    exact Or.inr ⟨addr, h, rfl⟩
  · rintro (h | ⟨other, hother, heq⟩)
    · exact absurd rfl (hold _ h)
    · cases heq
      exact hother

/-- A call of `cmd_async` is one more request. -/
theorem Simulates.call (sim : Simulates s requests) (hne : c.addrCmd.isEmpty = false)
    (hcb : c.callback = true) (free : SlotFree s (nextCf s.idx)) :
    Simulates (cmdAsync s c) (Function.update requests s.allocs (some (.issue s c))) := by
  have hold : ∀ p ∈ s.pending, p.call ≠ s.allocs := by
    intro p hp heq
    obtain ⟨q, hq, _⟩ := sim.owner p hp
    rw [heq, sim.fresh] at hq
    cases hq
  have hnone := sim.invocations_fresh
  have hsound : (Gather.start (sentTo c) : Gather UInt64 RedisReply).Sound :=
    Gather.start_sound (sentTo_nodup c)
  by_cases hsent : sentTo c = []
  · have hstart : (Gather.start (sentTo c) : Gather UInt64 RedisReply).outcome = some false := by
      simp [Gather.start, hsent]
    rw [cmdAsync_unsent hne hcb hsent]
    refine sim.issue free ?_ rfl ?_ rfl (Or.inl (sim.free_idle free)) ?_
    · exact {
        pending := fun p _ => Iff.rfl
        entries := fun e he _ => Multimap.mem_insert.mpr (Or.inr he)
        cfg := fun i _ => rfl
        args := fun other h => Function.update_of_ne h _ _
        log := ⟨_, rfl, by simp⟩ }
    · simp [hsent]
    · refine ⟨hsound, ?_, ?_, ?_⟩
      · intro addr
        have howed := owed_issue (c := c) hold addr
        simpa [hsent, AsyncRequest.issue, Gather.start] using howed
      · simp [AsyncRequest.issue, hstart]
      · intro istmout hout
        rw [AsyncRequest.issue, hstart] at hout
        cases hout
        exact ⟨_, invocations_first hnone rfl rfl, rfl, rfl, rfl, decoded_empty⟩
  · rw [cmdAsync_sent hne hsent]
    refine sim.issue free ?_ rfl rfl rfl (Or.inr hsent) ?_
    · exact {
        pending := fun p hp => by
          rw [List.mem_append, or_iff_left]
          intro hmem
          obtain ⟨addr, _, rfl⟩ := List.mem_map.mp hmem
          exact hp rfl
        entries := fun e he _ => Multimap.mem_insert.mpr (Or.inr he)
        cfg := fun i hi => Function.update_of_ne hi _ _
        args := fun other h => Function.update_of_ne h _ _
        log := ⟨[], (List.append_nil _).symm, by simp⟩ }
    · refine ⟨hsound, owed_issue hold, ?_, ?_⟩
      · intro _
        refine ⟨⟨Function.update_self .., Multimap.mem_insert.mpr (Or.inl rfl), ?_⟩, hnone⟩
        exact ⟨_, Function.update_self .., rfl, hcb, rfl, rfl, decoded_empty⟩
      · simp [AsyncRequest.issue, Gather.start, hsent]

end Calls

end RedisCluster.Guarantees
