import RedisCluster.Guarantees.SlotRing
import RedisCluster.Source.CmdWait

/-!
# What a synchronous call leaves behind

Whatever comes between the steps of `cmd`, its slot is idle or it still waits for replies,
unless its wait ends by itself while replies are missing. A call whose wait ends in time
has all its replies.
-/

set_option autoImplicit false

namespace RedisCluster.Guarantees
open Library Source

variable {τ : Type} [LinearOrder τ]

/-! ## Nothing refers to a call that has not been made -/

/-- Every call that the state refers to has been made. -/
structure Made (s : LoopState τ) : Prop where
  cfg : ∀ i call, (s.ev.cfg i).d = some call → call < s.ev.allocs
  owing : ∀ p ∈ s.syncPending, p.call < s.ev.allocs
  frames : ∀ call, s.frames call ≠ none → call < s.ev.allocs

/-- No slot comes to point to another block. -/
structure Narrows (ev ev' : EventState τ) : Prop where
  allocs : ev'.allocs = ev.allocs
  cfg : ∀ i call, (ev'.cfg i).d = some call → (ev.cfg i).d = some call

namespace Narrows

theorem refl (ev : EventState τ) : Narrows ev ev := ⟨rfl, fun _ _ h => h⟩

theorem trans {ev ev₁ ev₂ : EventState τ} (h : Narrows ev ev₁) (h' : Narrows ev₁ ev₂) :
    Narrows ev ev₂ :=
  ⟨h'.allocs.trans h.allocs, fun i call hd => h.cfg i call (h'.cfg i call hd)⟩

/-- A slot that is cleared or keeps its reference. -/
theorem setCf (ev : EventState τ) (cf : Slot) {flag : CFlag} (h : flag.d = none ∨ flag.d = (ev.cfg cf).d) :
    Narrows ev (ev.setCf cf flag) := by
  refine ⟨rfl, fun i call hd => ?_⟩
  change (Function.update ev.cfg cf flag i).d = some call at hd
  by_cases heq : i = cf
  · subst heq
    rw [Function.update_self] at hd
    rcases h with hnone | hsame
    · rw [hnone] at hd
      cases hd
    · rwa [hsame] at hd
  · rwa [Function.update_of_ne heq] at hd

theorem finish (ev : EventState τ) (ptr : Nat) (arg : CmdAsyncArg τ) (elapsed : τ) (istmout : Bool) :
    Narrows ev (ev.finish ptr arg elapsed istmout) := by
  obtain ⟨_, hallocs, _, _, hcfg, _⟩ := finish_frame ev ptr arg elapsed istmout
  refine ⟨hallocs, fun i call hd => ?_⟩
  rwa [hcfg] at hd

variable [Sub τ]

theorem reply {ev ev' : EventState τ} {now : τ} {addr : UInt64} {cf : Slot} {r : Option RedisReply}
    (h : redisCmdAsyncCb ev now addr cf r = some ev') : Narrows ev ev' := by
  unfold redisCmdAsyncCb at h
  split at h
  · next f ptr hcf =>
    split at h
    · cases h
      exact .refl ev
    · obtain ⟨carg, _, h⟩ := Option.bind_eq_some_iff.mp h
      have hset : Narrows ev (ev.setCf cf (if f - 1 = 0 then .idle else ⟨f - 1, some ptr⟩)) := by
        apply setCf
        split
        · exact Or.inl rfl
        · exact Or.inr (by rw [hcf])
      generalize (if f - 1 = 0 then CFlag.idle else ⟨f - 1, some ptr⟩) = flag at h hset
      dsimp only at h
      split at h
      · cases h
        exact hset.trans ⟨(finish _ _ _ _ _).allocs, (finish _ _ _ _ _).cfg⟩
      · cases h
        exact hset.trans ⟨rfl, fun _ _ h => h⟩
  · cases h
    exact .refl ev

theorem entry {ev ev' : EventState τ} {stamp : τ} {cf : Slot} (h : timeoutEntry ev stamp cf = some ev') :
    Narrows ev ev' := by
  unfold timeoutEntry at h
  split at h
  · split at h
    · cases h
      exact .refl ev
    · obtain ⟨carg, _, h⟩ := Option.bind_eq_some_iff.mp h
      cases h
      exact (setCf ev cf (Or.inl rfl)).trans (finish _ _ _ _ _)
  · cases h
    exact .refl ev

theorem loop {stamp : τ} {rounds : Nat} {ev ev' : EventState τ}
    (h : timeoutLoop stamp rounds ev = some ev') : Narrows ev ev' := by
  induction rounds generalizing ev with
  | zero =>
    cases h
    exact .refl _
  | succ rounds ih =>
    unfold timeoutLoop at h
    split at h
    · cases h
      exact .refl _
    · split at h
      · obtain ⟨ev₁, hentry, h⟩ := Option.bind_eq_some_iff.mp h
        have hrest := (entry hentry).trans (ih h)
        exact ⟨hrest.allocs, hrest.cfg⟩
      · cases h
        exact .refl _

end Narrows

namespace Made

/-- `Made` is kept where references only go away. -/
theorem narrow {s : LoopState τ} (made : Made s) {ev : EventState τ} (h : Narrows s.ev ev) :
    Made { s with ev := ev } where
  cfg i call hd := by
    dsimp only at hd ⊢
    rw [h.allocs]
    exact made.cfg i call (h.cfg i call hd)
  owing p hp := by
    dsimp only
    rw [h.allocs]
    exact made.owing p hp
  frames call hframe := by
    dsimp only
    rw [h.allocs]
    exact made.frames call hframe

theorem keep_frames {s : LoopState τ} (made : Made s) {frames : Nat → Option CmdFrame}
    (h : ∀ call, frames call ≠ none → s.frames call ≠ none) : Made { s with frames := frames } where
  cfg := made.cfg
  owing := made.owing
  frames call hframe := made.frames call (h call hframe)

theorem fewer {s : LoopState τ} (made : Made s) {pending : List Command}
    (h : pending.Sublist s.syncPending) : Made { s with syncPending := pending } where
  cfg := made.cfg
  owing p hp := made.owing p (h.subset hp)
  frames := made.frames

theorem issue [Add τ] {s s' : LoopState τ} {c : LoopCall τ} (made : Made s) (issued : Issued s s' c) :
    Made s' where
  cfg i call hd := by
    rw [issued.allocs]
    rw [issued.cfg] at hd
    split at hd
    · exact Nat.lt_succ_of_lt (made.cfg i call hd)
    · by_cases heq : i = nextCf s.ev.idx
      · rw [heq, Function.update_self] at hd
        cases hd
        exact Nat.lt_succ_self _
      · rw [Function.update_of_ne heq] at hd
        exact Nat.lt_succ_of_lt (made.cfg i call hd)
  owing p hp := by
    rw [issued.allocs]
    have howed := issued.owed false
    dsimp only [Guarantees.owing] at howed
    rw [howed, List.mem_append] at hp
    rcases hp with hold | hnew
    · exact Nat.lt_succ_of_lt (made.owing p hold)
    · split at hnew
      · obtain ⟨addr, _, rfl⟩ := List.mem_map.mp hnew
        exact Nat.lt_succ_self _
      · cases hnew
  frames call hframe := by
    rw [issued.allocs]
    by_cases heq : call = s.ev.allocs
    · rw [heq]
      exact Nat.lt_succ_self _
    · rw [issued.frames call heq] at hframe
      exact Nat.lt_succ_of_lt (made.frames call hframe)

/-- A reply to a command of any `cmd`. -/
theorem reply {s s' : LoopState τ} (made : Made s) {addr : UInt64} {cf : Slot} {r : Option RedisReply}
    (h : redisCmdCb s addr cf r = some s') : Made s' := by
  unfold redisCmdCb at h
  split at h
  · next f ptr hcf =>
    split at h
    · cases h
      exact made
    · obtain ⟨carg, hcarg, h⟩ := Option.bind_eq_some_iff.mp h
      cases h
      have hset : Narrows s.ev (s.ev.setCf cf (if f - 1 = 0 then .idle else ⟨f - 1, some ptr⟩)) := by
        apply Narrows.setCf
        split
        · exact Or.inl rfl
        · exact Or.inr (by rw [hcf])
      refine (made.narrow hset).keep_frames fun call hframe => ?_
      by_cases heq : call = ptr
      · rw [heq, hcarg]
        exact Option.some_ne_none _
      · rwa [Function.update_of_ne heq] at hframe
  · cases h
    exact made

variable [Add τ] [Sub τ] [Zero τ]

theorem step {s s' : LoopState τ} (made : Made s) {e : LoopEvent τ} (enabled : LoopEnabled s e)
    (h : loopStep s e = some s') : Made s' := by
  cases e with
  | cmd c =>
    cases h
    exact made.issue (cmdSend_issued enabled)
  | reply call addr r =>
    obtain ⟨p, _, h⟩ := Option.bind_eq_some_iff.mp h
    exact (made.fewer List.erase_sublist).reply h
  | pass call istmout =>
    obtain ⟨frame, _, h⟩ := Option.bind_eq_some_iff.mp h
    cases h
    refine Made.keep_frames (s := { s with ev := if istmout then s.ev.setCf frame.cf .idle else s.ev })
      (made.narrow ?_) fun other hother => ?_
    · split
      · exact Narrows.setCf s.ev frame.cf (Or.inl rfl)
      · exact .refl s.ev
    · by_cases heq : other = call
      · rw [heq, Function.update_self] at hother
        exact absurd rfl hother
      · rwa [Function.update_of_ne heq] at hother
  | async e =>
    cases e with
    | cmdAsync c =>
      cases h
      exact made.issue (cmdAsync_issued enabled)
    | reply now call addr r =>
      obtain ⟨ev', hev, h⟩ := Option.bind_eq_some_iff.mp h
      cases h
      obtain ⟨p, _, hcb⟩ := Option.bind_eq_some_iff.mp hev
      have hless : Narrows s.ev { s.ev with pending := s.ev.pending.erase p } := ⟨rfl, fun _ _ hd => hd⟩
      exact made.narrow (hless.trans (.reply hcb))
    | tick stamp =>
      obtain ⟨ev', hev, h⟩ := Option.bind_eq_some_iff.mp h
      cases h
      exact made.narrow (.loop hev)

theorem run {idx : UInt64} {es : List (LoopEvent τ)} {s : LoopState τ}
    (run : LoopRun (.init idx) es s) : Made s := by
  refine Run.invariant (P := fun _ s => Made s) ?_ (fun _ _ _ _ made => made.step) run
  exact ⟨(fun _ _ h => nomatch h), (fun _ h => nomatch h), fun _ h => absurd rfl h⟩

end Made

/-! ## Replies that are missing -/

def repliesFor (addr : UInt64) : CmdEvent → Bool
  | .reply a _ => a = addr
  | _ => false

/-- The addresses that the call has sent a command to. -/
def sentBy (c : SyncCall) : List UInt64 := (c.addrCmd.toList.filter (sends c.ctxs)).map Prod.fst

/-- The addresses whose replies are missing after the events. -/
def missing (c : SyncCall) (es : List CmdEvent) : List UInt64 :=
  (sentBy c).filter fun addr => !es.any (repliesFor addr)

section Missing
variable {c : SyncCall} {es : List CmdEvent}

theorem missing_nodup : (missing c es).Nodup :=
  List.Nodup.filter _ ((Ordered.nodup_keys c.addrCmd).sublist (List.filter_sublist.map Prod.fst))

/-- A reply takes its redis off the list of those that are missing. -/
theorem missing_reply {addr : UInt64} {r : Option RedisReply} :
    missing c (es ++ [.reply addr r]) = (missing c es).erase addr := by
  rw [missing_nodup.erase_eq_filter, missing, missing, List.filter_filter]
  apply List.filter_congr
  intro other _
  rw [List.any_append, List.any_cons, List.any_nil, Bool.or_false, Bool.not_or, Bool.and_comm]
  congr 1
  rw [repliesFor, bne_comm, bne, beq_eq_decide]

theorem missing_other {e : CmdEvent} (h : ∀ addr, repliesFor addr e = false) :
    missing c (es ++ [e]) = missing c es := by
  apply List.filter_congr
  intro addr _
  rw [List.any_append, List.any_cons, List.any_nil, h, Bool.or_false, Bool.or_false]

/-- Replies that have come have come for good. -/
theorem missing_append {later : List CmdEvent} (h : missing c es = []) : missing c (es ++ later) = [] := by
  rw [missing, List.filter_eq_nil_iff] at h ⊢
  intro addr haddr hnot
  apply h addr haddr
  rw [Bool.not_eq_true', List.any_append, Bool.or_eq_false_iff] at hnot
  rw [hnot.1]
  rfl

end Missing

/-! ## The call and its slot -/

section Run
variable {c : SyncCall} {es : List CmdEvent} {s s' : CmdState τ}

/-- The wait has ended by itself before the last reply, and `cmd` has gone on. -/
def WokeEarly (c : SyncCall) (es : List CmdEvent) : Prop :=
  ∃ past rest, es = past ++ .pass :: rest ∧ .spurious ∈ past ∧ missing c past ≠ []

/-- What the state says after the events, as long as the slot is only the call's. -/
structure Follows (c : SyncCall) (es : List CmdEvent) (s : CmdState τ) : Prop where
  own : ownCommands s = (missing c es).map fun addr => ⟨s.call, addr, s.cf⟩
  others : ∀ i, i ≠ s.cf → (s.loop.ev.cfg i).d ≠ some s.call
  slot : .reset ∉ es → missing c es ≠ [] → s.loop.ev.cfg s.cf = ⟨(missing c es).length, some s.call⟩
  idle : .reset ∈ es ∨ missing c es = [] → (s.loop.ev.cfg s.cf).d ≠ some s.call
  cleared : .reset ∈ es → s.loop.ev.cfg s.cf = .idle
  carg : s.phase ≠ .returned → missing c es ≠ [] →
    ∃ frame, s.loop.frames s.call = some frame ∧ frame.notified = false
  gone : s.phase = .returned → s.loop.frames s.call = none
  waits : s.phase = .locked ∨ s.phase = .waiting → missing c es ≠ [] ∧ .spurious ∉ es ∧ .reset ∉ es
  woken : s.phase = .woken false → (missing c es = [] ∨ .spurious ∈ es) ∧ .reset ∉ es
  late : s.phase = .woken true ∨ s.phase = .late → .spurious ∉ es ∧ .reset ∉ es
  passed : s.phase = .passed ∨ s.phase = .returned →
    missing c es = [] ∨ .reset ∈ es ∨ WokeEarly c es

/-- Having gone on too early is not undone. -/
theorem WokeEarly.mono {later : List CmdEvent} (h : WokeEarly c es) : WokeEarly c (es ++ later) := by
  obtain ⟨past, rest, rfl, hspurious, hmissing⟩ := h
  exact ⟨past, rest ++ later, by simp, hspurious, hmissing⟩

/-- An event that only takes `cmd` on. -/
theorem Follows.move (h : Follows c es s) {e : CmdEvent} {phase : CmdPhase}
    (hreply : ∀ addr, repliesFor addr e = false) (hreset : e ≠ .reset) (hhere : s.phase ≠ .returned)
    (hthere : phase ≠ .returned)
    (waits : phase = .locked ∨ phase = .waiting → missing c es ≠ [] ∧ .spurious ∉ es ++ [e] ∧ .reset ∉ es)
    (woken : phase = .woken false → (missing c es = [] ∨ .spurious ∈ es ++ [e]) ∧ .reset ∉ es)
    (late : phase = .woken true ∨ phase = .late → .spurious ∉ es ++ [e] ∧ .reset ∉ es)
    (passed : phase = .passed → missing c es = [] ∨ .reset ∈ es ∨ WokeEarly c (es ++ [e])) :
    Follows c (es ++ [e]) { s with phase := phase } := by
  have hmissing : missing c (es ++ [e]) = missing c es := missing_other hreply
  have hresets : .reset ∈ es ++ [e] ↔ .reset ∈ es := by
    rw [List.mem_append, List.mem_singleton, or_iff_left (Ne.symm hreset)]
  constructor
  · rw [hmissing]
    exact h.own
  · exact h.others
  · rw [hmissing, hresets]
    exact h.slot
  · rw [hmissing, hresets]
    exact h.idle
  · rw [hresets]
    exact h.cleared
  · rw [hmissing]
    exact fun _ => h.carg hhere
  · exact fun hreturned => absurd hreturned hthere
  · rw [hmissing, hresets]
    exact waits
  · rw [hmissing, hresets]
    exact woken
  · rw [hresets]
    exact late
  · rw [hmissing, hresets]
    exact fun hphase => passed (hphase.resolve_right hthere)

/-! ### Replies -/

section Reply
variable {addr : UInt64} {r : Option RedisReply}

/-- A command of the call that is still out is one whose reply is missing, and is in the call's
slot. -/
theorem Follows.mem_own (h : Follows c es s) {p : Command} (hp : p ∈ s.loop.syncPending)
    (hcall : p.call = s.call) (haddr : p.addr = addr) : addr ∈ missing c es ∧ p = ⟨s.call, addr, s.cf⟩ := by
  have hown : p ∈ ownCommands s := List.mem_filter.mpr ⟨hp, decide_eq_true hcall⟩
  rw [h.own] at hown
  obtain ⟨other, hother, rfl⟩ := List.mem_map.mp hown
  subst haddr
  exact ⟨hother, rfl⟩

/-- The slot without the reply. -/
def withoutReply (s : CmdState τ) (addr : UInt64) : LoopState τ :=
  { s.loop with syncPending := s.loop.syncPending.erase ⟨s.call, addr, s.cf⟩ }

/-- A reply to the call goes to the callback of the synchronous calls. -/
theorem Follows.reply_eq [Add τ] [Sub τ] [Zero τ] (h : Follows c es s)
    (hp : ∃ p ∈ s.loop.syncPending, p.call = s.call ∧ p.addr = addr) :
    loopStep s.loop (.reply s.call addr r) = redisCmdCb (withoutReply s addr) addr s.cf r := by
  obtain ⟨p, hp, hcall, haddr⟩ := hp
  rw [loopStep]
  cases hfind : s.loop.syncPending.find? (fun p => p.call = s.call ∧ p.addr = addr) with
  | none =>
    have hnone := List.find?_eq_none.mp hfind p hp
    rw [decide_eq_true_eq] at hnone
    exact absurd ⟨hcall, haddr⟩ hnone
  | some p' =>
    have hsame := List.find?_some hfind
    rw [decide_eq_true_eq] at hsame
    obtain ⟨_, rfl⟩ := h.mem_own (List.mem_of_find?_eq_some hfind) hsame.1 hsame.2
    rfl

theorem Follows.own_reply (h : Follows c es s) {phase : CmdPhase} {loop : LoopState τ}
    (hloop : loop.syncPending = (withoutReply s addr).syncPending) :
    ownCommands { s with loop := loop, phase := phase } =
      ((missing c es).erase addr).map fun addr => ⟨s.call, addr, s.cf⟩ := by
  have hinj : Function.Injective fun addr : UInt64 => (⟨s.call, addr, s.cf⟩ : Command) :=
    fun _ _ heq => (Command.mk.inj heq).2.1
  rw [List.map_erase hinj, ← h.own, ownCommands, ownCommands, List.erase_filter, hloop]
  rfl

/-- A reply that comes after the slot has been reset is dropped. -/
theorem Follows.dropped (h : Follows c es s) (hreset : .reset ∈ es)
    (hmem : addr ∈ missing c es) : Follows c (es ++ [.reply addr r])
      { s with loop := withoutReply s addr, phase := s.phase } := by
  have hresets : .reset ∈ es ++ [.reply addr r] := List.mem_append_left _ hreset
  have hsome : missing c es ≠ [] := List.ne_nil_of_mem hmem
  constructor
  · rw [missing_reply]
    exact h.own_reply rfl
  · exact h.others
  · exact fun hno => absurd hresets hno
  · exact fun _ => h.idle (Or.inl hreset)
  · exact fun _ => h.cleared hreset
  · exact fun hphase _ => h.carg hphase hsome
  · exact h.gone
  · exact fun hphase => absurd hreset (h.waits hphase).2.2
  · exact fun hphase => absurd hreset (h.woken hphase).2
  · exact fun hphase => absurd hreset (h.late hphase).2
  · exact fun _ => Or.inr (Or.inl hresets)

/-- A reply that the slot still counts. -/
theorem Follows.counted (h : Follows c es s) (hreset : .reset ∉ es) (hmem : addr ∈ missing c es)
    (hmux : ¬ (s.phase = .locked ∧ s.loop.ev.cfg s.cf = ⟨1, some s.call⟩))
    {frame : CmdFrame} (hframe : s.loop.frames s.call = some frame) (hphase : s.phase ≠ .returned)
    {loop : LoopState τ} (hloop : redisCmdCb (withoutReply s addr) addr s.cf r = some loop) :
    Follows c (es ++ [.reply addr r])
      { s with loop := loop, phase := wake s.phase (loop.frames s.call) } := by
  have hsome : missing c es ≠ [] := List.ne_nil_of_mem hmem
  have hslot := h.slot hreset hsome
  have hnot : frame.notified = false := by
    obtain ⟨frame', hframe', hnot⟩ := h.carg hphase hsome
    rw [hframe] at hframe'
    cases hframe'
    exact hnot
  have hpos := List.length_pos_of_mem hmem
  have hlength := List.length_erase_of_mem hmem
  have hlast : (missing c es).length = 1 ↔ (missing c es).erase addr = [] := by
    rw [← List.length_eq_zero_iff, hlength]
    omega
  rw [cmdCb_counted (s := withoutReply s addr) hslot hframe (by omega)] at hloop
  cases hloop
  have hresets : .reset ∉ es ++ [.reply addr r] := by
    rw [List.mem_append, List.mem_singleton, not_or]
    exact ⟨hreset, CmdEvent.noConfusion⟩
  -- It wakes `cmd` exactly if it is the last one.
  have hwake : ∀ carg : CmdFrame, carg.notified = (frame.notified || (missing c es).length = 1) →
      wake s.phase (some carg) = if s.phase = .waiting ∧ (missing c es).erase addr = []
        then .woken false else s.phase := by
    intro carg hcarg
    have hany : (some carg).any CmdFrame.notified = true ↔ (missing c es).erase addr = [] := by
      rw [Option.any_some, hcarg, hnot, Bool.false_or, decide_eq_true_eq, hlast]
    simp only [wake, hany]
  have hspurious : .spurious ∈ es ++ [.reply addr r] ↔ .spurious ∈ es := by simp
  dsimp only [Function.update_self]
  rw [Function.update_self, hwake _ rfl]
  constructor
  · rw [missing_reply]
    exact h.own_reply rfl
  · exact fun i hi => by
      change (Function.update s.loop.ev.cfg s.cf _ i).d ≠ _
      rw [Function.update_of_ne hi]
      exact h.others i hi
  · intro _ hmore
    rw [missing_reply] at hmore ⊢
    refine (Function.update_self ..).trans ?_
    rw [if_neg (fun hone => hmore (hlast.mp hone)), hlength]
  · intro hdone
    rw [missing_reply, or_iff_right hresets] at hdone
    change (Function.update s.loop.ev.cfg s.cf _ s.cf).d ≠ _
    rw [Function.update_self, if_pos (hlast.mpr hdone)]
    exact (Option.some_ne_none _).symm
  · exact fun hno => absurd hno hresets
  · intro _ hmore
    rw [missing_reply] at hmore
    refine ⟨_, Function.update_self .., ?_⟩
    dsimp only
    rw [hnot, Bool.false_or, decide_eq_false_iff_not]
    exact fun hone => hmore (hlast.mp hone)
  · intro hreturned
    dsimp only at hreturned
    split at hreturned
    · cases hreturned
    · exact absurd hreturned hphase
  · intro hwaits
    dsimp only at hwaits
    rw [missing_reply]
    split at hwaits
    · exact absurd hwaits (by simp)
    · next hmay =>
      obtain ⟨_, hno, _⟩ := h.waits hwaits
      refine ⟨fun hdone => ?_, fun hmem => hno (hspurious.mp hmem), hresets⟩
      rcases hwaits with hlocked | hwaiting
      · rw [hlast.mpr hdone] at hslot
        exact hmux ⟨hlocked, hslot⟩
      · exact hmay ⟨hwaiting, hdone⟩
  · intro hwoken
    dsimp only at hwoken
    rw [missing_reply, hspurious]
    split at hwoken
    · next hdone => exact ⟨Or.inl hdone.2, hresets⟩
    · rcases (h.woken hwoken).1 with hdone | hmem
      · exact absurd hdone hsome
      · exact ⟨Or.inr hmem, hresets⟩
  · intro hlate
    dsimp only at hlate
    rw [hspurious]
    split at hlate
    · exact absurd hlate (by simp)
    · exact ⟨(h.late hlate).1, hresets⟩
  · intro hover
    dsimp only at hover
    split at hover
    · exact absurd hover (by simp)
    · rcases h.passed hover with hdone | hno | hearly
      · exact absurd hdone hsome
      · exact absurd hno hreset
      · exact Or.inr (Or.inr hearly.mono)

variable [Add τ] [Sub τ] [Zero τ]

/-- The callback for a reply that the slot still counts would use a `carg` that is gone. -/
theorem Follows.dangling (h : Follows c es s) (hphase : s.phase = .returned) (hreset : .reset ∉ es)
    (hmem : addr ∈ missing c es) :
    CmdEnabled s (.reply addr r) ∧ cmdStep s (.reply addr r) = none := by
  have hown : (⟨s.call, addr, s.cf⟩ : Command) ∈ ownCommands s := by
    rw [h.own]
    exact List.mem_map_of_mem hmem
  have hp : ∃ p ∈ s.loop.syncPending, p.call = s.call ∧ p.addr = addr :=
    ⟨_, (List.mem_filter.mp hown).1, rfl, rfl⟩
  have hcount : ((missing c es).length : Int) ≠ 0 := by
    have hpos := List.length_pos_of_mem hmem
    omega
  have hslot := h.slot hreset (List.ne_nil_of_mem hmem)
  have hcb : redisCmdCb (withoutReply s addr) addr s.cf r = none := by
    rw [redisCmdCb, show (withoutReply s addr).ev.cfg s.cf = _ from hslot]
    simp only [hcount, if_false, withoutReply, h.gone hphase]
    rfl
  constructor
  · refine ⟨hp, fun hmux => ?_⟩
    rw [hphase] at hmux
    cases hmux.1
  · rw [cmdStep, h.reply_eq hp, hcb]
    rfl

end Reply

/-- `cmd` goes on after the wait. -/
theorem Follows.pass (h : Follows c es s) {istmout : Bool} (hphase : s.phase = .woken istmout) :
    Follows c (es ++ [.pass])
      { s with phase := if s.phase = .woken true then .late else .passed } := by
  have hhere : s.phase ≠ .returned := by
    rw [hphase]
    exact CmdPhase.noConfusion
  cases istmout with
  | true =>
    obtain ⟨hspurious, hreset⟩ := h.late (Or.inl hphase)
    rw [if_pos hphase]
    refine h.move (fun _ => rfl) CmdEvent.noConfusion hhere CmdPhase.noConfusion ?_
      CmdPhase.noConfusion ?_ CmdPhase.noConfusion
    · exact fun hphase => by simp at hphase
    · exact fun _ => ⟨by simpa using hspurious, hreset⟩
  | false =>
    obtain ⟨hdone, hreset⟩ := h.woken hphase
    rw [if_neg (by rw [hphase]; simp)]
    refine h.move (fun _ => rfl) CmdEvent.noConfusion hhere CmdPhase.noConfusion ?_
      CmdPhase.noConfusion ?_ ?_
    · exact fun hphase => by simp at hphase
    · exact fun hphase => by simp at hphase
    · intro _
      by_cases hmissing : missing c es = []
      · exact Or.inl hmissing
      · exact Or.inr (Or.inr ⟨es, [], rfl, hdone.resolve_left hmissing, hmissing⟩)

/-- `cmd` resets its slot when it was late. -/
theorem Follows.reset (h : Follows c es s) (hphase : s.phase = .late) :
    Follows c (es ++ [.reset]) { s with
      loop := { s.loop with ev := s.loop.ev.setCf s.cf .idle }
      phase := .passed } := by
  have hmissing : missing c (es ++ [.reset]) = missing c es := missing_other fun _ => rfl
  have hresets : .reset ∈ es ++ [.reset] := List.mem_concat_self
  constructor
  · rw [hmissing]
    exact h.own
  · intro i hi
    change (Function.update s.loop.ev.cfg s.cf _ i).d ≠ _
    rw [Function.update_of_ne hi]
    exact h.others i hi
  · exact fun hno => absurd hresets hno
  · intro _
    change (Function.update s.loop.ev.cfg s.cf _ s.cf).d ≠ _
    rw [Function.update_self]
    exact (Option.some_ne_none _).symm
  · exact fun _ => Function.update_self ..
  · rw [hmissing]
    refine fun _ => h.carg ?_
    rw [hphase]
    exact CmdPhase.noConfusion
  · exact CmdPhase.noConfusion
  · exact fun hphase => by simp at hphase
  · exact CmdPhase.noConfusion
  · exact fun hphase => by simp at hphase
  · exact fun _ => Or.inr (Or.inl hresets)

/-- `cmd` returns, and its `carg` goes. -/
theorem Follows.ret (h : Follows c es s) (hphase : s.phase = .passed) :
    Follows c (es ++ [.ret]) { s with
      loop := { s.loop with frames := Function.update s.loop.frames s.call none }
      phase := .returned } := by
  have hmissing : missing c (es ++ [.ret]) = missing c es := missing_other fun _ => rfl
  have hresets : .reset ∈ es ++ [.ret] ↔ .reset ∈ es := by simp
  constructor
  · rw [hmissing]
    exact h.own
  · exact h.others
  · rw [hmissing, hresets]
    exact h.slot
  · rw [hmissing, hresets]
    exact h.idle
  · rw [hresets]
    exact h.cleared
  · exact fun hno => absurd rfl hno
  · exact fun _ => Function.update_self ..
  · exact fun hphase => by simp at hphase
  · exact CmdPhase.noConfusion
  · exact fun hphase => by simp at hphase
  · intro _
    rw [hmissing, hresets]
    exact (h.passed (Or.inl hphase)).imp_right (Or.imp_right WokeEarly.mono)

variable [Add τ] [Sub τ] [Zero τ]

/-- A callback that has a result counts its reply, or finds the slot reset. -/
theorem Follows.reply (h : Follows c es s) {addr : UInt64} {r : Option RedisReply}
    (enabled : CmdEnabled s (.reply addr r)) (hstep : cmdStep s (.reply addr r) = some s') :
    Follows c (es ++ [.reply addr r]) s' := by
  obtain ⟨hp, hmux⟩ := enabled
  obtain ⟨p, hmine, hcall, haddr⟩ := hp
  obtain ⟨hmem, _⟩ := h.mem_own hmine hcall haddr
  have hhere : .reset ∉ es → s.phase ≠ .returned := by
    intro hreset hphase
    rw [(h.dangling hphase hreset hmem).2] at hstep
    cases hstep
  obtain ⟨loop, hloop, hstep⟩ := Option.bind_eq_some_iff.mp hstep
  cases hstep
  rw [h.reply_eq ⟨p, hmine, hcall, haddr⟩] at hloop
  by_cases hreset : .reset ∈ es
  · rw [cmdCb_ignored (s := withoutReply s addr) (h.cleared hreset)] at hloop
    cases hloop
    have hwake : wake s.phase ((withoutReply s addr).frames s.call) = s.phase := by
      rw [wake, if_neg]
      exact fun hwaits => (h.waits (Or.inr hwaits.1)).2.2 hreset
    rw [hwake]
    exact h.dropped hreset hmem
  · obtain ⟨frame, hframe, _⟩ := h.carg (hhere hreset) (List.ne_nil_of_mem hmem)
    exact h.counted hreset hmem hmux hframe (hhere hreset) hloop

/-- What one event preserves. -/
theorem Follows.step (h : Follows c es s) {e : CmdEvent} (enabled : CmdEnabled s e)
    (hstep : cmdStep s e = some s') : Follows c (es ++ [e]) s' := by
  cases e with
  | wait =>
    cases hstep
    obtain ⟨hmissing, hspurious, hreset⟩ := h.waits (Or.inl enabled)
    refine h.move (fun _ => rfl) CmdEvent.noConfusion ?_ CmdPhase.noConfusion ?_
      CmdPhase.noConfusion ?_ CmdPhase.noConfusion
    · rw [enabled]
      exact CmdPhase.noConfusion
    · exact fun _ => ⟨hmissing, by simpa using hspurious, hreset⟩
    · exact fun hphase => by simp at hphase
  | timeout =>
    cases hstep
    obtain ⟨_, hspurious, hreset⟩ := h.waits (Or.inr enabled)
    refine h.move (fun _ => rfl) CmdEvent.noConfusion ?_ CmdPhase.noConfusion ?_ ?_ ?_
      CmdPhase.noConfusion
    · rw [enabled]
      exact CmdPhase.noConfusion
    · exact fun hphase => by simp at hphase
    · exact fun hphase => by simp at hphase
    · exact fun _ => ⟨by simpa using hspurious, hreset⟩
  | spurious =>
    cases hstep
    obtain ⟨_, _, hreset⟩ := h.waits (Or.inr enabled)
    refine h.move (fun _ => rfl) CmdEvent.noConfusion ?_ CmdPhase.noConfusion ?_ ?_ ?_
      CmdPhase.noConfusion
    · rw [enabled]
      exact CmdPhase.noConfusion
    · exact fun hphase => by simp at hphase
    · exact fun _ => ⟨Or.inr (by simp), hreset⟩
    · exact fun hphase => by simp at hphase
  | pass =>
    cases hstep
    obtain ⟨_, hphase⟩ := enabled
    exact h.pass hphase
  | reset =>
    cases hstep
    exact h.reset enabled
  | ret =>
    cases hstep
    exact h.ret enabled
  | reply addr r => exact h.reply enabled hstep

end Run

section Start
variable {s₀ : LoopState τ} {c : SyncCall}

theorem missing_nil : missing c [] = sentBy c :=
  List.filter_eq_self.mpr fun _ _ => rfl

/-- Nothing of a call is there before it is made. -/
theorem Made.no_own (made : Made s₀) : (s₀.syncPending.filter fun p => p.call = s₀.ev.allocs) = [] := by
  rw [List.filter_eq_nil_iff]
  intro p hp hcall
  exact absurd (made.owing p hp) (Nat.not_lt.mpr (Nat.le_of_eq (of_decide_eq_true hcall).symm))

theorem Made.no_slot (made : Made s₀) (i : Slot) : (s₀.ev.cfg i).d ≠ some s₀.ev.allocs :=
  fun hd => Nat.lt_irrefl _ (made.cfg i _ hd)

theorem Made.no_frame (made : Made s₀) : s₀.frames s₀.ev.allocs = none := by
  by_contra hframe
  exact Nat.lt_irrefl _ (made.frames _ hframe)

/-- A call that sends nothing is over at once. -/
theorem Follows.nothing (made : Made s₀) (hsent : sentBy c = []) {loop : LoopState τ}
    (hcfg : loop.ev.cfg = s₀.ev.cfg) (hpending : loop.syncPending = s₀.syncPending) :
    Follows c [] ⟨loop, s₀.ev.allocs, nextCf s₀.ev.idx, .passed⟩ := by
  have hmissing : missing c [] = [] := missing_nil.trans hsent
  constructor
  · rw [ownCommands, hmissing, hpending]
    exact made.no_own
  · rw [hcfg]
    exact fun i _ => made.no_slot i
  · exact fun _ hsome => absurd hmissing hsome
  · rw [hcfg]
    exact fun _ => made.no_slot _
  · exact fun hreset => nomatch hreset
  · exact fun _ hsome => absurd hmissing hsome
  · exact CmdPhase.noConfusion
  · exact fun hphase => by simp at hphase
  · exact CmdPhase.noConfusion
  · exact fun hphase => by simp at hphase
  · exact fun _ => Or.inl hmissing

/-- The slot is the call's when the commands have been sent. -/
theorem Follows.start (made : Made s₀) (c : SyncCall) : Follows c [] (cmdEnter s₀ c) := by
  have hphase : ∀ loop carg, cmdSend s₀ c = loop → loop.frames s₀.ev.allocs = carg →
      cmdEnter s₀ c = ⟨loop, s₀.ev.allocs, nextCf s₀.ev.idx, if carg.isSome then .locked else .passed⟩ := by
    rintro loop carg rfl rfl
    rfl
  cases hempty : c.addrCmd.isEmpty with
  | true =>
    have hsend : cmdSend s₀ c = s₀ := by
      rw [cmdSend, if_pos hempty]
    have hsent : sentBy c = [] := by
      rw [← Std.ExtTreeMap.isEmpty_toList, List.isEmpty_iff] at hempty
      rw [sentBy, hempty]
      rfl
    rw [hphase _ _ hsend made.no_frame]
    exact .nothing made hsent rfl rfl
  | false =>
    by_cases hsent : sentBy c = []
    · have hsend := (cmdSend_eq (s := s₀) hempty).trans (if_pos hsent)
      rw [hphase _ _ hsend made.no_frame]
      refine .nothing made hsent rfl ?_
      change s₀.syncPending ++ (sentBy c).map _ = _
      rw [hsent, List.map_nil, List.append_nil]
    · have hsend := (cmdSend_eq (s := s₀) hempty).trans (if_neg hsent)
      rw [hphase _ _ hsend (Function.update_self ..)]
      have hmissing : missing c [] = sentBy c := missing_nil
      constructor
      · rw [ownCommands, hmissing]
        dsimp only
        rw [List.filter_append, made.no_own, List.nil_append]
        refine List.filter_eq_self.mpr fun p hp => ?_
        obtain ⟨addr, _, rfl⟩ := List.mem_map.mp hp
        exact decide_eq_true rfl
      · intro i hi
        change (Function.update s₀.ev.cfg (nextCf s₀.ev.idx) _ i).d ≠ _
        rw [Function.update_of_ne hi]
        exact made.no_slot i
      · rw [hmissing]
        exact fun _ _ => Function.update_self ..
      · rintro (hreset | hnone)
        · cases hreset
        · rw [hmissing] at hnone
          exact absurd hnone hsent
      · exact fun hreset => absurd hreset List.not_mem_nil
      · exact fun _ _ => ⟨_, Function.update_self .., rfl⟩
      · exact CmdPhase.noConfusion
      · rw [hmissing]
        exact fun _ => ⟨hsent, List.not_mem_nil, List.not_mem_nil⟩
      · exact CmdPhase.noConfusion
      · exact fun hphase => by simp at hphase
      · exact fun hphase => by simp at hphase

end Start

/-! ## What the call leaves -/

section Leaves
variable [Add τ] [Sub τ] [Zero τ] {c : SyncCall} {es : List CmdEvent} {s : CmdState τ}

/-- When `cmd` goes on after its wait, its replies are there or its slot has been reset; no
slot refers to `carg` then, and no reply that is still to come writes to it. -/
structure Released (s : CmdState τ) : Prop where
  settled : s.phase = .passed ∨ s.phase = .returned →
    ownCommands s = [] ∨ s.loop.ev.cfg s.cf = .idle
  unreferenced : s.phase = .passed ∨ s.phase = .returned → ∀ i, (s.loop.ev.cfg i).d ≠ some s.call
  unwritten : s.phase = .passed ∨ s.phase = .returned → ∀ addr r, CmdEnabled s (.reply addr r) →
    ∃ loop, loopStep s.loop (.reply s.call addr r) = some loop ∧ loop.frames = s.loop.frames

/-- A wait that ends in time has all replies. -/
def Notified (c : SyncCall) (es : List CmdEvent) : Prop :=
  ∀ past rest, es = past ++ rest → missing c past = [] → .timeout ∉ rest

/-- A call that has returned without going on early has left nothing in its slot. -/
theorem Follows.released (h : Follows c es s) (hearly : ¬ WokeEarly c es) : Released s := by
  have hend : s.phase = .passed ∨ s.phase = .returned → .reset ∈ es ∨ missing c es = [] := by
    intro hphase
    rcases h.passed hphase with hmissing | hreset | hwoke
    · exact Or.inr hmissing
    · exact Or.inl hreset
    · exact absurd hwoke hearly
  constructor
  · intro hphase
    rcases hend hphase with hreset | hmissing
    · exact Or.inr (h.cleared hreset)
    · rw [h.own, hmissing]
      exact Or.inl rfl
  · intro hphase i
    by_cases hi : i = s.cf
    · rw [hi]
      exact h.idle (hend hphase)
    · exact h.others i hi
  · rintro hphase addr r ⟨hp, _⟩
    rw [h.reply_eq hp]
    obtain ⟨p, hp, hcall, haddr⟩ := hp
    obtain ⟨hmem, _⟩ := h.mem_own hp hcall haddr
    have hreset := (hend hphase).resolve_right (List.ne_nil_of_mem hmem)
    exact ⟨_, cmdCb_ignored (s := withoutReply s addr) (h.cleared hreset) addr r, rfl⟩

theorem Follows.run {s₀ : LoopState τ} (made : Made s₀) (run : CmdRun (cmdEnter s₀ c) es s) :
    Follows c es s :=
  Run.invariant (.start made c) (fun _ _ _ _ h enabled step => h.step enabled step) run

/-- The call is notified when its last reply comes, whatever came before. -/
theorem notified {s₀ : LoopState τ} (made : Made s₀) (run : CmdRun (cmdEnter s₀ c) es s) :
    Notified c es := by
  rintro past rest rfl hdone htimeout
  obtain ⟨before, after, rfl⟩ := List.append_of_mem htimeout
  have hsplit : past ++ (before ++ .timeout :: after) = (past ++ before ++ [.timeout]) ++ after := by
    simp
  rw [hsplit] at run
  obtain ⟨s₂, run₂⟩ := run.first
  obtain ⟨s₁, run₁, enabled, _⟩ := run₂.before_last
  exact ((Follows.run made run₁).waits (Or.inr enabled)).1 (missing_append hdone)

/-- `cmd` has gone on with a slot that still refers to its `carg`. -/
theorem not_released {s₀ : LoopState τ} {past : List CmdEvent} (made : Made s₀)
    (run : CmdRun (cmdEnter s₀ c) (past ++ [.pass]) s) (hspurious : .spurious ∈ past)
    (hmissing : missing c past ≠ []) : ¬ Released s := by
  intro released
  obtain ⟨s₁, run₁, ⟨istmout, hphase⟩, hstep⟩ := run.before_last
  have h := Follows.run made run₁
  cases istmout with
  | true => exact (h.late (Or.inl hphase)).1 hspurious
  | false =>
    cases hstep
    have hreset := (h.woken hphase).2
    rcases released.settled (Or.inl (if_neg (by rw [hphase]; simp))) with hnone | hidle
    · have hown := h.own
      rw [show ownCommands s₁ = [] from hnone] at hown
      exact hmissing (List.map_eq_nil_iff.mp hown.symm)
    · have hslot := h.slot hreset hmissing
      rw [show s₁.loop.ev.cfg s₁.cf = .idle from hidle] at hslot
      exact absurd (congrArg CFlag.d hslot) (Option.some_ne_none _).symm

/-- From any state of the loop, a `cmd` leaves nothing behind, whatever happens, exactly if it does
not go on after a wakeup of its own before the last reply. This is about one round of the call; what
is written through a reference that was left behind is not modelled. -/
theorem cmd_released_iff {idx : UInt64} {es₀ : List (LoopEvent τ)} {s₀ : LoopState τ}
    (before : LoopRun (.init idx) es₀ s₀) (run : CmdRun (cmdEnter s₀ c) es s) :
    ((∀ past rest s₁, es = past ++ rest → CmdRun (cmdEnter s₀ c) past s₁ → Released s₁) ∧
      Notified c es) ↔ ¬ WokeEarly c es := by
  have made := Made.run before
  constructor
  · rintro ⟨released, _⟩ ⟨past, rest, rfl, hspurious, hmissing⟩
    have hsplit : past ++ .pass :: rest = (past ++ [.pass]) ++ rest := by simp
    rw [hsplit] at run
    obtain ⟨s₁, run₁⟩ := run.first
    exact not_released made run₁ hspurious hmissing (released _ rest s₁ hsplit run₁)
  · intro hearly
    refine ⟨fun past rest s₁ hes run₁ => ?_, notified made run⟩
    apply (Follows.run made run₁).released
    intro hwoke
    rw [hes] at hearly
    exact hearly hwoke.mono

end Leaves

/-! ### A wait that ends by itself -/

/-- A call with one command, whose connection is ready. -/
def oneCommand : SyncCall where
  rv := ∅
  addrCmd := (∅ : Commands).insert 1 []
  ctxs _ := some ⟨1, false⟩

theorem oneCommand_locked : (cmdEnter (.init 0 : LoopState Int) oneCommand).phase = .locked := by
  decide +kernel

theorem sentBy_oneCommand : sentBy oneCommand = [1] := by decide +kernel

/-- Its wait ends by itself, and the reply comes when it has returned. -/
theorem spurious_wakeup_leaves_reference : ∃ s : CmdState Int,
    CmdRun (cmdEnter (.init 0) oneCommand) [.wait, .spurious, .pass, .ret] s ∧ ¬ Released s ∧
      CmdEnabled s (.reply 1 none) ∧ cmdStep s (.reply 1 none) = none := by
  obtain ⟨s, run, hphase⟩ : ∃ s : CmdState Int,
      CmdRun (cmdEnter (.init 0) oneCommand) [.wait, .spurious, .pass, .ret] s ∧ s.phase = .returned := by
    have hlocked := oneCommand_locked
    generalize cmdEnter (.init 0 : LoopState Int) oneCommand = s₀ at hlocked
    have run₁ : CmdRun s₀ [.wait] { s₀ with phase := .waiting } := Run.nil.snoc hlocked rfl
    have run₂ : CmdRun s₀ [.wait, .spurious] { s₀ with phase := .woken false } := run₁.snoc rfl rfl
    have run₃ : CmdRun s₀ [.wait, .spurious, .pass] { s₀ with phase := .passed } :=
      run₂.snoc ⟨false, rfl⟩ rfl
    exact ⟨_, run₃.snoc (e := CmdEvent.ret) rfl rfl, rfl⟩
  have h := Follows.run (Made.run .nil) run
  have hmissing : missing oneCommand [.wait, .spurious, .pass, .ret] = [1] := by
    rw [missing, sentBy_oneCommand]
    rfl
  have hreset : CmdEvent.reset ∉ [.wait, .spurious, .pass, .ret] := by simp
  refine ⟨s, run, ?_, h.dangling hphase hreset (by rw [hmissing]; exact List.mem_singleton_self _)⟩
  intro released
  have hslot := h.slot hreset (by rw [hmissing]; exact List.cons_ne_nil _ _)
  exact released.unreferenced (Or.inr hphase) _ (congrArg CFlag.d hslot)

/-- A call whose time is up before its reply has come: it resets its slot and returns, and nothing
refers to it any more. -/
theorem cmd_released_iff_example : ∃ s : CmdState Int,
    CmdRun (cmdEnter (.init 0) oneCommand) [.wait, .timeout, .pass, .reset, .ret] s ∧
      s.phase = .returned ∧ ownCommands s ≠ [] ∧
      (∀ past rest (s₁ : CmdState Int), [.wait, .timeout, .pass, .reset, .ret] = past ++ rest →
        CmdRun (cmdEnter (.init 0) oneCommand) past s₁ → Released s₁) ∧
      Notified oneCommand [.wait, .timeout, .pass, .reset, .ret] := by
  obtain ⟨s, run, hphase⟩ : ∃ s : CmdState Int,
      CmdRun (cmdEnter (.init 0) oneCommand) [.wait, .timeout, .pass, .reset, .ret] s ∧
        s.phase = .returned := by
    have hlocked := oneCommand_locked
    generalize cmdEnter (.init 0 : LoopState Int) oneCommand = s₀ at hlocked
    have run₁ : CmdRun s₀ [.wait] { s₀ with phase := .waiting } := Run.nil.snoc hlocked rfl
    have run₂ : CmdRun s₀ [.wait, .timeout] { s₀ with phase := .woken true } := run₁.snoc rfl rfl
    have run₃ : CmdRun s₀ [.wait, .timeout, .pass] { s₀ with phase := .late } :=
      run₂.snoc ⟨true, rfl⟩ rfl
    have run₄ := run₃.snoc (e := CmdEvent.reset) rfl rfl
    exact ⟨_, run₄.snoc (e := CmdEvent.ret) rfl rfl, rfl⟩
  have hown := (Follows.run (Made.run .nil) run).own
  have hmissing : missing oneCommand [.wait, .timeout, .pass, .reset, .ret] = [1] := by
    rw [missing, sentBy_oneCommand]
    rfl
  refine ⟨s, run, hphase, ?_, (cmd_released_iff .nil run).mpr ?_⟩
  · rw [hmissing] at hown
    exact fun hnone => by simp [hnone] at hown
  · rintro ⟨past, rest, hes, hspurious, _⟩
    have hmem : CmdEvent.spurious ∈ [CmdEvent.wait, .timeout, .pass, .reset, .ret] := by
      rw [hes]
      exact List.mem_append_left _ hspurious
    simp at hmem

end RedisCluster.Guarantees
