import Mathlib.Algebra.Ring.Int.Defs
import Mathlib.Data.Int.Order.Basic
import Mathlib.Data.List.Induction
import RedisCluster.Guarantees.SlotUse

/-!
# The ring of slots

Slots come round after `CUR_CALL_NUM` calls. No call shares its slot exactly as long as the
calls that had it before are settled when it is made, and then nothing is attributed to a
wrong call.
-/

set_option autoImplicit false

namespace RedisCluster.Guarantees
open Library Source

variable {τ : Type} [LinearOrder τ] [Add τ] {idx : UInt64} {s s' : LoopState τ} {uses : Uses τ}

/-! ## Calls -/

section Issue
variable {c : LoopCall τ}

/-- A slot is unused exactly if no call uses it. -/
theorem Tracks.unused_iff (tr : Tracks idx s uses) {cf : Slot} : SlotUnused s cf ↔
    ∀ call c u, uses call = some (c, u) → slotOf idx call = cf → ¬ u.Live := by
  constructor
  · rintro ⟨⟨hpending, hreq⟩, hsync, hframes⟩ call c u hcall rfl live
    have hold := tr.tracked _ _ _ hcall
    rcases live with hleft | hholds
    · obtain ⟨addr, haddr⟩ := List.exists_mem_of_ne_nil _ hleft
      have howed := (hold.owed addr).mp haddr
      cases c with
      | sync a => exact hsync _ howed rfl
      | async a => exact hpending _ howed rfl
    · cases c with
      | sync a =>
        obtain ⟨frame, hframe, hcf, _⟩ := hold.frame a rfl hholds
        exact hframes call frame hframe hcf
      | async a => exact hreq _ (hold.entry a rfl hholds) rfl
  · intro hnone
    have howing : ∀ b, ∀ p ∈ owing s b, p.cf ≠ cf := by
      intro b p hp hcf
      obtain ⟨c, u, hcall, _, haddr, hp', _⟩ := tr.find hp
      rw [hp'] at hcf
      exact hnone _ _ _ hcall hcf (Or.inl (List.ne_nil_of_mem haddr))
    refine ⟨⟨howing true, ?_⟩, howing false, ?_⟩
    · intro e he hcf
      obtain ⟨call, a, u, hcall, hholds, rfl⟩ := tr.entries e he
      exact hnone _ _ _ hcall hcf (Or.inr hholds)
    · intro call frame hframe hcf
      obtain ⟨a, u, hcall, hholds⟩ := tr.frames call frame hframe
      obtain ⟨frame', hframe', hcf', _⟩ := (tr.tracked _ _ _ hcall).frame a rfl hholds
      rw [hframe] at hframe'
      cases hframe'
      exact hnone _ _ _ hcall (hcf'.symm.trans hcf) (Or.inr hholds)

theorem Tracks.fresh (tr : Tracks idx s uses) : uses s.ev.allocs = none := by
  rw [← Option.not_isSome_iff_eq_none, tr.allocated]
  exact Nat.lt_irrefl _

/-- The deadline entries with that of the call. -/
def LoopCall.enter (req : Multimap τ Slot) (cf : Slot) : LoopCall τ → Multimap τ Slot
  | .sync _ => req
  | .async a => req.insert (deadline a) cf

/-- What every call makes of the state, whatever it could send. -/
structure Issued (s s' : LoopState τ) (c : LoopCall τ) : Prop where
  idx : s'.ev.idx = .ofNat (nextCf s.ev.idx)
  allocs : s'.ev.allocs = s.ev.allocs + 1
  owed : ∀ b, owing s' b = owing s b ++ if c.isAsync = b then
    c.sentTo.map fun addr => ⟨s.ev.allocs, addr, nextCf s.ev.idx⟩ else []
  req : s'.ev.req = c.enter s.ev.req (nextCf s.ev.idx)
  cfg : s'.ev.cfg = if c.sentTo = [] then s.ev.cfg else
    Function.update s.ev.cfg (nextCf s.ev.idx) ⟨c.sentTo.length, some s.ev.allocs⟩
  args : ∀ other, other ≠ s.ev.allocs → s'.ev.args other = s.ev.args other
  block : ∀ a, c = .async a → c.sentTo ≠ [] →
    ∃ arg, s'.ev.args s.ev.allocs = some arg ∧ arg.timeout = deadline a
  frames : ∀ other, other ≠ s.ev.allocs → s'.frames other = s.frames other
  frame : ∀ a, c = .sync a → c.sentTo ≠ [] → ∃ frame, s'.frames s.ev.allocs = some frame ∧
    frame.cf = nextCf s.ev.idx ∧ frame.notified = false
  noFrame : c.isAsync = true ∨ c.sentTo = [] → s'.frames = s.frames

theorem Tracks.before (tr : Tracks idx s uses) {b : Bool} {p : Command} (hp : p ∈ owing s b) :
    p.call ≠ s.ev.allocs := by
  obtain ⟨c, u, hcall, _⟩ := tr.owner b p hp
  intro heq
  rw [heq, tr.fresh] at hcall
  cases hcall

theorem Issued.mem_owing (issued : Issued s s' c) {b : Bool} {p : Command} (hne : p.call ≠ s.ev.allocs) :
    p ∈ owing s' b ↔ p ∈ owing s b := by
  rw [issued.owed, List.mem_append, or_iff_left]
  intro hmem
  split at hmem
  · obtain ⟨addr, _, rfl⟩ := List.mem_map.mp hmem
    exact hne rfl
  · cases hmem

theorem Issued.mem_req (issued : Issued s s' c) {e : τ × Slot} : e ∈ s'.ev.req ↔
    e ∈ s.ev.req ∨ ∃ a, c = .async a ∧ e = (deadline a, nextCf s.ev.idx) := by
  rw [issued.req]
  cases c with
  | sync a => simp [LoopCall.enter]
  | async a => simp [LoopCall.enter, or_comm]

/-- The call that has just been made. -/
theorem Tracks.tracked_issue (tr : Tracks idx s uses) (issued : Issued s s' c) :
    Tracked s' s.ev.allocs (nextCf s.ev.idx) c (.start c) := by
  constructor
  · exact c.sentTo_nodup
  · intro addr
    rw [issued.owed, if_pos rfl, List.mem_append, List.mem_map]
    constructor
    · exact fun h => Or.inr ⟨addr, h, rfl⟩
    · rintro (h | ⟨other, hother, heq⟩)
      · exact absurd rfl (tr.before h)
      · cases heq
        exact hother
  · exact fun a ha _ => issued.mem_req.mpr (Or.inr ⟨a, ha, rfl⟩)
  · intro a ha hholds
    have hsent : c.sentTo ≠ [] := by
      subst ha
      exact of_decide_eq_true hholds
    obtain ⟨frame, hframe, hcf, hnot⟩ := issued.frame a ha hsent
    refine ⟨frame, hframe, hcf, fun hnotified => ?_⟩
    rw [hnot] at hnotified
    cases hnotified
  · intro running
    have hsent : c.sentTo ≠ [] := running.1
    rw [issued.cfg, if_neg hsent, Function.update_self]
    rfl
  · exact fun running a ha => issued.block a ha running.1

/-- A call that was made before, on another slot if it uses one. -/
theorem Tracked.issue {call : Nat} {cf : Slot} {c₁ : LoopCall τ} {u : Use}
    (h : Tracked s call cf c₁ u) (issued : Issued s s' c) (hne : call ≠ s.ev.allocs)
    (apart : u.Live → cf ≠ nextCf s.ev.idx) : Tracked s' call cf c₁ u where
  nodup := h.nodup
  owed addr := by rw [issued.mem_owing hne, h.owed]
  entry a ha hholds := issued.mem_req.mpr (Or.inl (h.entry a ha hholds))
  frame a ha hholds := by
    rw [issued.frames call hne]
    exact h.frame a ha hholds
  slot running := by
    rw [issued.cfg]
    split
    · exact h.slot running
    · rw [Function.update_of_ne (apart running.live)]
      exact h.slot running
  block running a ha := by
    rw [issued.args call hne]
    exact h.block running a ha

/-- A call on an unused slot is one more call. -/
theorem Tracks.issue (tr : Tracks idx s uses) (unused : SlotUnused s (nextCf s.ev.idx))
    (issued : Issued s s' c) :
    Tracks idx s' (Function.update uses s.ev.allocs (some (c, .start c))) := by
  have hfree := tr.unused_iff.mp unused
  have hlast : slotOf idx s.ev.allocs = nextCf s.ev.idx := tr.next.symm
  have hne : ∀ call c₁ u, uses call = some (c₁, u) → call ≠ s.ev.allocs := by
    rintro call c₁ u hcall rfl
    rw [tr.fresh] at hcall
    cases hcall
  have hkeep : ∀ call c₁ u, uses call = some (c₁, u) →
      Function.update uses s.ev.allocs (some (c, .start c)) call = some (c₁, u) := by
    intro call c₁ u hcall
    rw [Function.update_of_ne (hne call c₁ u hcall), hcall]
  have hcases : ∀ call c₁ u, Function.update uses s.ev.allocs (some (c, .start c)) call = some (c₁, u) →
      call = s.ev.allocs ∧ c₁ = c ∧ u = .start c ∨ uses call = some (c₁, u) := by
    intro call c₁ u h
    by_cases heq : call = s.ev.allocs
    · rw [heq, Function.update_self] at h
      cases h
      exact Or.inl ⟨heq, rfl, rfl⟩
    · rw [Function.update_of_ne heq] at h
      exact Or.inr h
  constructor
  · intro call c₁ u h
    rcases hcases call c₁ u h with ⟨rfl, rfl, rfl⟩ | hcall
    · rw [hlast]
      exact tr.tracked_issue issued
    · exact (tr.tracked call c₁ u hcall).issue issued (hne _ _ _ hcall)
        fun live hsame => hfree call c₁ u hcall hsame live
  · intro call
    rw [issued.allocs]
    by_cases heq : call = s.ev.allocs
    · rw [heq, Function.update_self]
      simp
    · rw [Function.update_of_ne heq, tr.allocated]
      omega
  · rw [issued.idx, issued.allocs, slotOf, hlast]
  · intro b p hp
    by_cases heq : p.call = s.ev.allocs
    · rw [issued.owed, List.mem_append] at hp
      rcases hp with hp | hp
      · exact absurd heq (tr.before hp)
      · split at hp
        · next hb =>
          obtain ⟨addr, _, rfl⟩ := List.mem_map.mp hp
          exact ⟨c, .start c, Function.update_self .., hb, hlast.symm⟩
        · cases hp
    · obtain ⟨c₁, u, hcall, hrest⟩ := tr.owner b p ((issued.mem_owing heq).mp hp)
      exact ⟨c₁, u, hkeep _ _ _ hcall, hrest⟩
  · intro e he
    rcases issued.mem_req.mp he with he | ⟨a, rfl, rfl⟩
    · obtain ⟨call, a, u, hcall, hrest⟩ := tr.entries e he
      exact ⟨call, a, u, hkeep _ _ _ hcall, hrest⟩
    · exact ⟨s.ev.allocs, a, _, Function.update_self .., rfl, by rw [hlast]⟩
  · intro call frame hframe
    by_cases heq : call = s.ev.allocs
    · by_cases hwaits : c.isAsync = true ∨ c.sentTo = []
      · rw [issued.noFrame hwaits] at hframe
        obtain ⟨a', u, hcall, _⟩ := tr.frames call frame hframe
        exact absurd heq (hne _ _ _ hcall)
      · rw [not_or] at hwaits
        cases c with
        | sync a => exact ⟨a, _, by rw [heq, Function.update_self], decide_eq_true hwaits.2⟩
        | async a => exact absurd rfl hwaits.1
    · rw [issued.frames call heq] at hframe
      obtain ⟨a, u, hcall, hholds⟩ := tr.frames call frame hframe
      exact ⟨a, u, hkeep _ _ _ hcall, hholds⟩
  · intro cf
    by_cases hsent : c.sentTo = []
    · rw [issued.cfg, if_pos hsent]
      apply (tr.slots cf).imp_right
      rintro ⟨call, c₁, u, hcall, hrest⟩
      exact ⟨call, c₁, u, hkeep _ _ _ hcall, hrest⟩
    · by_cases heq : cf = nextCf s.ev.idx
      · refine Or.inr ⟨s.ev.allocs, c, _, Function.update_self .., ⟨hsent, ?_⟩, hlast.trans heq.symm⟩
        exact (Bool.or_eq_true ..).mpr (Or.inr (decide_eq_true hsent))
      · rw [issued.cfg, if_neg hsent, Function.update_of_ne heq]
        apply (tr.slots cf).imp_right
        rintro ⟨call, c₁, u, hcall, hrest⟩
        exact ⟨call, c₁, u, hkeep _ _ _ hcall, hrest⟩
  · intro k₁ c₁ u₁ k₂ c₂ u₂ h₁ h₂ live₁ live₂ hsame
    rcases hcases _ _ _ h₁ with ⟨rfl, _⟩ | h₁'
    · rcases hcases _ _ _ h₂ with ⟨rfl, _⟩ | h₂'
      · rfl
      · exact absurd live₂ (hfree _ _ _ h₂' (hsame.symm.trans hlast))
    · rcases hcases _ _ _ h₂ with ⟨rfl, _⟩ | h₂'
      · exact absurd live₁ (hfree _ _ _ h₁' (hsame.trans hlast))
      · exact tr.apart _ _ _ _ _ _ h₁' h₂' live₁ live₂ hsame
  · intro b
    rw [issued.owed, List.nodup_append]
    refine ⟨tr.once b, ?_, ?_⟩
    · split
      · exact c.sentTo_nodup.map fun _ _ h => (Command.mk.inj h).2.1
      · exact List.nodup_nil
    · rintro p hp other hnew rfl
      split at hnew
      · obtain ⟨addr, _, rfl⟩ := List.mem_map.mp hnew
        exact tr.before hp rfl
      · cases hnew
  · rw [issued.req]
    cases c with
    | sync a => exact tr.distinct
    | async a => exact tr.distinct.insert fun e he => unused.1.2 e he

variable [Zero τ]

/-- A call of `cmd_async` that can send nothing, with a callback or without. -/
theorem cmdAsync_idle (ev : EventState τ) {a : AsyncCall τ} (hne : a.addrCmd.isEmpty = false)
    (hsent : sentTo a = []) : (cmdAsync ev a).idx = .ofNat (nextCf ev.idx) ∧
      (cmdAsync ev a).allocs = ev.allocs + 1 ∧ (cmdAsync ev a).pending = ev.pending ∧
      (cmdAsync ev a).req = ev.req.insert (deadline a) (nextCf ev.idx) ∧
      (cmdAsync ev a).cfg = ev.cfg ∧
      ∀ other, other ≠ ev.allocs → (cmdAsync ev a).args other = ev.args other := by
  have hnil : (a.addrCmd.toList.filter (sends a.ctxs)).map Prod.fst = [] := hsent
  let carg : CmdAsyncArg τ := ⟨∅, a.key, a.data, a.callback, a.callStamp, deadline a⟩
  let ev' : EventState τ := { ev.setArg ev.allocs (some carg) with
    idx := .ofNat (nextCf ev.idx), allocs := ev.allocs + 1
    req := ev.req.insert (deadline a) (nextCf ev.idx) }
  have hcall : cmdAsync ev a = ev'.finish ev.allocs carg 0 false := by
    simp only [cmdAsync, hne, Bool.false_eq_true, if_false, sendAll_foldl, hnil, List.length_nil,
      Nat.add_zero, Nat.lt_irrefl, gt_iff_lt, List.map_nil, List.append_nil]
    rfl
  rw [hcall]
  obtain ⟨hidx, hallocs, hpending, hreq, hcfg, hargs⟩ := finish_frame ev' ev.allocs carg 0 false
  refine ⟨hidx, hallocs, hpending, hreq, hcfg, ?_⟩
  intro other hother
  rw [hargs other hother]
  exact Function.update_of_ne hother _ _

theorem cmdAsync_issued {a : AsyncCall τ} (hne : a.addrCmd.isEmpty = false) :
    Issued s { s with ev := cmdAsync s.ev a } (.async a) := by
  by_cases hsent : sentTo a = []
  · obtain ⟨hidx, hallocs, hpending, hreq, hcfg, hargs⟩ := cmdAsync_idle s.ev hne hsent
    constructor
    · exact hidx
    · exact hallocs
    · intro b
      rw [owing_async, LoopCall.sentTo, hsent, hpending]
      cases b <;> simp [owing, LoopCall.isAsync]
    · exact hreq
    · rw [LoopCall.sentTo, if_pos hsent]
      exact hcfg
    · exact hargs
    · exact fun a' ha hsent' => by cases ha; exact absurd hsent hsent'
    · exact fun _ _ => rfl
    · intro _ ha
      cases ha
    · exact fun _ => rfl
  · rw [cmdAsync_sent hne hsent]
    constructor
    · rfl
    · rfl
    · intro b
      cases b <;> simp [owing, LoopCall.isAsync, LoopCall.sentTo]
    · rfl
    · rw [LoopCall.sentTo, if_neg hsent]
    · exact fun other hother => Function.update_of_ne hother _ _
    · intro a' ha _
      cases ha
      exact ⟨_, Function.update_self .., rfl⟩
    · exact fun _ _ => rfl
    · intro _ ha
      cases ha
    · exact fun _ => rfl

omit [Add τ] [Zero τ] in
theorem cmdSend_eq {a : SyncCall} (hne : a.addrCmd.isEmpty = false) :
    cmdSend s a =
      let sent := (LoopCall.sync a : LoopCall τ).sentTo
      let s' := { s with
        ev := { s.ev with idx := .ofNat (nextCf s.ev.idx), allocs := s.ev.allocs + 1 }
        syncPending := s.syncPending ++ sent.map fun addr => ⟨s.ev.allocs, addr, nextCf s.ev.idx⟩ }
      if sent = [] then s' else { s' with
        ev := s'.ev.setCf (nextCf s.ev.idx) ⟨sent.length, some s.ev.allocs⟩
        frames := Function.update s.frames s.ev.allocs (some ⟨a.rv, ∅, nextCf s.ev.idx, false⟩) } := by
  simp only [cmdSend, hne, Bool.false_eq_true, if_false, sendAll_foldl, Nat.zero_add]
  rw [LoopCall.sentTo]
  by_cases hnil : (a.addrCmd.toList.filter (sends a.ctxs)).map Prod.fst = []
  · rw [if_pos hnil, if_neg (by rw [hnil]; exact Nat.lt_irrefl 0)]
  · rw [if_neg hnil, if_pos (List.length_pos_of_ne_nil hnil)]

omit [Zero τ] in
theorem cmdSend_issued {a : SyncCall} (hne : a.addrCmd.isEmpty = false) :
    Issued s (cmdSend s a) (.sync a) := by
  rw [cmdSend_eq hne]
  by_cases hsent : (LoopCall.sync a : LoopCall τ).sentTo = []
  · rw [if_pos hsent, hsent]
    constructor
    · rfl
    · rfl
    · intro b
      rw [hsent]
      cases b <;> simp [owing]
    · rfl
    · rw [if_pos hsent]
    · exact fun _ _ => rfl
    · intro _ ha
      cases ha
    · exact fun _ _ => rfl
    · exact fun _ _ hsome => absurd hsent hsome
    · exact fun _ => rfl
  · rw [if_neg hsent]
    constructor
    · rfl
    · rfl
    · intro b
      cases b <;> simp [owing, LoopCall.isAsync, EventState.setCf]
    · rfl
    · rw [if_neg hsent]
      rfl
    · exact fun _ _ => rfl
    · intro _ ha
      cases ha
    · exact fun other hother => Function.update_of_ne hother _ _
    · intro a' ha _
      cases ha
      exact ⟨_, Function.update_self .., rfl, rfl⟩
    · rintro (hasync | hnil)
      · cases hasync
      · exact absurd hnil hsent

end Issue
/-! ## Runs -/

section History
omit [Add τ]

def callOf : LoopEvent τ → Option (LoopCall τ)
  | .cmd c => some (.sync c)
  | .async (.cmdAsync c) => some (.async c)
  | _ => none

/-- The calls among the events; the numbers of calls count them. -/
def callsIn (es : List (LoopEvent τ)) : List (LoopCall τ) := es.filterMap callOf

/-- The reply to the command that the call sent to the address. -/
def RepliedIn (call : Nat) (addr : UInt64) (es : List (LoopEvent τ)) : Prop :=
  (∃ now r, .async (.reply now call addr r) ∈ es) ∨ ∃ r, .reply call addr r ∈ es

end History

/-- In what has happened since the call, all replies to its commands have come; a `cmd` that
waits has passed its wait, and the deadline of a `cmd_async` that sent nothing is over. -/
def Settled (call : Nat) (c : LoopCall τ) (since : List (LoopEvent τ)) : Prop :=
  (∀ addr ∈ c.sentTo, RepliedIn call addr since) ∧
    match c with
    | .sync _ => c.sentTo ≠ [] → ∃ istmout, .pass call istmout ∈ since
    | .async a => sentTo a = [] → ∃ stamp, .async (.tick stamp) ∈ since ∧ deadline a < stamp

/-- A call is made only when the calls a multiple of `CUR_CALL_NUM` before it are settled. -/
def Timely (es : List (LoopEvent τ)) : Prop :=
  ∀ past e since e' rest c, es = past ++ e :: since ++ e' :: rest → callOf e = some c →
    (callOf e').isSome → (callsIn (e :: since)).length % curCallNum = 0 →
      Settled (callsIn past).length c since

/-! ### What a call has seen -/

section Seen
variable {c : LoopCall τ} {call : Nat} {since : List (LoopEvent τ)}

/-- The use of a call after what has happened since. -/
def useAfter (call : Nat) (c : LoopCall τ) (since : List (LoopEvent τ)) : Use :=
  since.foldl (Use.see call c) (.start c)

theorem useAfter_snoc {e : LoopEvent τ} :
    useAfter call c (since ++ [e]) = (useAfter call c since).see call c e :=
  List.foldl_concat ..

omit [LinearOrder τ] [Add τ] in
theorem repliedIn_snoc {addr : UInt64} {e : LoopEvent τ} : RepliedIn call addr (since ++ [e]) ↔
    RepliedIn call addr since ∨ (∃ now r, e = .async (.reply now call addr r)) ∨
      ∃ r, e = .reply call addr r := by
  simp only [RepliedIn, List.mem_append, List.mem_singleton, exists_or]
  rw [or_or_or_comm]
  simp only [eq_comm]

omit [LinearOrder τ] [Add τ] in
theorem mem_reply_left {u : Use} (nodup : u.left.Nodup) {addr other : UInt64} :
    other ∈ (u.reply c addr).left ↔ other ∈ u.left ∧ other ≠ addr := by
  rw [Use.reply_left, nodup.mem_erase_iff, and_comm]

theorem useAfter_left : (useAfter call c since).left.Nodup ∧
    ∀ addr, addr ∈ (useAfter call c since).left ↔ addr ∈ c.sentTo ∧ ¬ RepliedIn call addr since := by
  induction since using List.reverseRecOn with
  | nil => exact ⟨c.sentTo_nodup, fun addr => by simp [useAfter, Use.start, RepliedIn]⟩
  | append_singleton since e ih =>
    obtain ⟨hnodup, hleft⟩ := ih
    rw [useAfter_snoc]
    have hsame : ∀ u' : Use, u'.left = (useAfter call c since).left →
        (∀ addr, ¬ ((∃ now r, e = .async (.reply now call addr r)) ∨ ∃ r, e = .reply call addr r)) →
        u'.left.Nodup ∧ ∀ addr, addr ∈ u'.left ↔
          addr ∈ c.sentTo ∧ ¬ RepliedIn call addr (since ++ [e]) := by
      intro u' hu' hnone
      rw [hu']
      refine ⟨hnodup, fun addr => ?_⟩
      rw [hleft, repliedIn_snoc, or_iff_left (hnone addr)]
    have hreply : ∀ addr, (∀ other, ((∃ now r, e = .async (.reply now call other r)) ∨
        ∃ r, e = .reply call other r) ↔ other = addr) →
        ((useAfter call c since).reply c addr).left.Nodup ∧
          ∀ other, other ∈ ((useAfter call c since).reply c addr).left ↔
            other ∈ c.sentTo ∧ ¬ RepliedIn call other (since ++ [e]) := by
      intro addr honly
      refine ⟨hnodup.erase addr, fun other => ?_⟩
      rw [mem_reply_left hnodup, hleft, repliedIn_snoc, honly, not_or, and_assoc]
    cases e with
    | cmd a => exact hsame _ rfl (by simp)
    | pass k istmout =>
      refine hsame _ ?_ (by simp)
      simp only [Use.see]
      split <;> rfl
    | reply k addr r =>
      by_cases heq : k = call
      · subst heq
        simp only [Use.see, if_true]
        exact hreply addr (by simp [eq_comm])
      · simp only [Use.see, if_neg heq]
        exact hsame _ rfl (by simp [heq])
    | async e =>
      cases e with
      | cmdAsync a => exact hsame _ rfl (by simp)
      | tick stamp =>
        refine hsame _ ?_ (by simp)
        simp only [Use.see]
        cases c with
        | sync a => rfl
        | async a =>
          simp only [Use.tick]
          split <;> rfl
      | reply now k addr r =>
        by_cases heq : k = call
        · subst heq
          simp only [Use.see, if_true]
          exact hreply addr (by simp [eq_comm])
        · simp only [Use.see, if_neg heq]
          exact hsame _ rfl (by simp [heq])

theorem useAfter_sync {a : SyncCall} : (useAfter call (.sync a : LoopCall τ) since).holds = true ↔
    (LoopCall.sync a : LoopCall τ).sentTo ≠ [] ∧ ∀ istmout, .pass call istmout ∉ since := by
  induction since using List.reverseRecOn with
  | nil => simp [useAfter, Use.start, LoopCall.isAsync]
  | append_singleton since e ih =>
    rw [useAfter_snoc]
    simp only [List.mem_append, List.mem_singleton, not_or, forall_and]
    rw [← and_assoc, ← ih]
    cases e with
    | cmd b => simp [Use.see]
    | pass k istmout =>
      by_cases heq : k = call
      · subst heq
        simp [Use.see, LoopCall.isAsync, Use.release]
      · simp [Use.see, heq, Ne.symm heq]
    | reply k addr r =>
      by_cases heq : k = call
      · simp [Use.see, heq, Use.reply_holds, LoopCall.isAsync]
      · simp [Use.see, heq]
    | async e =>
      cases e with
      | cmdAsync b => simp [Use.see]
      | tick stamp => simp [Use.see, Use.tick]
      | reply now k addr r =>
        by_cases heq : k = call
        · simp [Use.see, heq, Use.reply_holds, LoopCall.isAsync]
        · simp [Use.see, heq]

omit [LinearOrder τ] [Add τ] in
/-- What one more reply leaves of the deadline entry. -/
theorem reply_async {a : AsyncCall τ} {u : Use} {addr : UInt64} {open' : Prop}
    (hnone : sentTo a = [] → u.left = [])
    (h : u.holds = true ↔ open' ∧ (sentTo a = [] ∨ u.left ≠ [])) :
    (u.reply (.async a) addr).holds = true ↔
      open' ∧ (sentTo a = [] ∨ (u.reply (.async a) addr).left ≠ []) := by
  rw [Use.reply_holds, h, Use.reply_left]
  simp only [LoopCall.isAsync, forall_const, ne_eq, List.erase_eq_nil_iff, not_or]
  by_cases hsent : sentTo a = []
  · simp [hsent, hnone hsent]
  · simp [hsent, and_assoc]

theorem useAfter_async {a : AsyncCall τ} : (useAfter call (.async a) since).holds = true ↔
    (∀ stamp, .async (.tick stamp) ∈ since → ¬ deadline a < stamp) ∧
      (sentTo a = [] ∨ (useAfter call (.async a) since).left ≠ []) := by
  induction since using List.reverseRecOn with
  | nil => simp [useAfter, Use.start, LoopCall.isAsync, LoopCall.sentTo, em]
  | append_singleton since e ih =>
    have hnone : sentTo a = [] → (useAfter call (.async a) since).left = [] := by
      intro hsent
      rw [List.eq_nil_iff_forall_not_mem]
      intro addr haddr
      have hmem := ((useAfter_left.2 addr).mp haddr).1
      rw [LoopCall.sentTo, hsent] at hmem
      cases hmem
    rw [useAfter_snoc]
    have hother : (∀ stamp, e ≠ .async (.tick stamp)) →
        ((∀ stamp, .async (.tick stamp) ∈ since ++ [e] → ¬ deadline a < stamp) ↔
          ∀ stamp, .async (.tick stamp) ∈ since → ¬ deadline a < stamp) := by
      intro hne
      apply forall_congr'
      intro stamp
      rw [List.mem_append, List.mem_singleton, or_iff_left (fun h => hne stamp h.symm)]
    cases e with
    | cmd b =>
      rw [hother (by simp)]
      exact ih
    | pass k istmout =>
      rw [hother (by simp)]
      simpa [Use.see, LoopCall.isAsync] using ih
    | reply k addr r =>
      rw [hother (by simp)]
      by_cases heq : k = call
      · simp only [Use.see, if_pos heq]
        exact reply_async hnone ih
      · simp only [Use.see, if_neg heq]
        exact ih
    | async e =>
      cases e with
      | cmdAsync b =>
        rw [hother (by simp)]
        exact ih
      | reply now k addr r =>
        rw [hother (by simp)]
        by_cases heq : k = call
        · simp only [Use.see, if_pos heq]
          exact reply_async hnone ih
        · simp only [Use.see, if_neg heq]
          exact ih
      | tick stamp =>
        have hticks : (∀ other, .async (.tick other) ∈ since ++ [.async (.tick stamp)] →
            ¬ deadline a < other) ↔ (∀ other, .async (.tick other) ∈ since → ¬ deadline a < other) ∧
              ¬ deadline a < stamp := by
          simp only [List.mem_append, List.mem_singleton, or_imp, forall_and, LoopEvent.async.injEq,
            AsyncEvent.tick.injEq, forall_eq]
        rw [hticks]
        simp only [Use.see, Use.tick]
        split
        · next late => simp [Use.release, late]
        · next early => simpa [early] using ih

/-- A call is settled exactly if it does not use its slot any more. -/
theorem not_live_iff : ¬ (useAfter call c since).Live ↔ Settled call c since := by
  have hleft : (useAfter call c since).left = [] ↔ ∀ addr ∈ c.sentTo, RepliedIn call addr since := by
    rw [List.eq_nil_iff_forall_not_mem]
    apply forall_congr'
    intro addr
    rw [useAfter_left.2, not_and, not_not]
  unfold Settled
  rw [Use.Live, not_or, ne_eq, not_not, hleft]
  apply and_congr_right
  intro hall
  cases c with
  | sync a =>
    rw [useAfter_sync, not_and]
    push Not
    exact Iff.rfl
  | async a =>
    rw [useAfter_async, hleft.mpr hall]
    simp only [ne_eq, not_true_eq_false, or_false, not_and]
    constructor
    · intro h hsent
      by_contra hnot
      push Not at hnot
      exact h (fun stamp hstamp => not_lt.mpr (hnot stamp hstamp)) hsent
    · intro h hticks hsent
      obtain ⟨stamp, hstamp, late⟩ := h hsent
      exact hticks stamp hstamp late

end Seen
/-! ### What the calls of a run have seen -/

section Uses
variable {es : List (LoopEvent τ)} {call : Nat} {c : LoopCall τ} {u : Use}

/-- The uses after one more event. -/
def usesStep (st : Uses τ × Nat) (e : LoopEvent τ) : Uses τ × Nat :=
  match callOf e with
  | some c => (Function.update st.1 st.2 (some (c, .start c)), st.2 + 1)
  | none => (fun call => (st.1 call).map fun (c, u) => (c, u.see call c e), st.2)

/-- The uses of all calls after a run, and the number of calls. -/
def usesOf (es : List (LoopEvent τ)) : Uses τ × Nat := es.foldl usesStep (fun _ => none, 0)

theorem usesOf_snoc {e : LoopEvent τ} : usesOf (es ++ [e]) = usesStep (usesOf es) e :=
  List.foldl_concat ..

theorem usesOf_count (es : List (LoopEvent τ)) : (usesOf es).2 = (callsIn es).length := by
  induction es using List.reverseRecOn with
  | nil => rfl
  | append_singleton es e ih =>
    rw [usesOf_snoc, callsIn, List.filterMap_append, usesStep]
    cases hcall : callOf e <;> simp [hcall, ih, callsIn]

theorem usesOf_isSome : ((usesOf es).1 call).isSome ↔ call < (callsIn es).length := by
  induction es using List.reverseRecOn with
  | nil => simp [usesOf, callsIn]
  | append_singleton es e ih =>
    rw [← usesOf_count, usesOf_snoc, usesStep]
    cases callOf e with
    | none =>
      dsimp only
      rw [Option.isSome_map, usesOf_count, ih]
    | some c =>
      dsimp only
      rw [usesOf_count]
      by_cases heq : call = (callsIn es).length
      · rw [heq, Function.update_self]
        simp
      · rw [Function.update_of_ne heq, ih]
        omega

/-- Calls do not change what earlier calls use. -/
theorem see_call {e : LoopEvent τ} {c' : LoopCall τ} (h : callOf e = some c') :
    u.see call c e = u := by
  cases e with
  | cmd a => rfl
  | pass k istmout => cases h
  | reply k addr r => cases h
  | async e =>
    cases e with
    | cmdAsync a => rfl
    | reply now k addr r => cases h
    | tick stamp => cases h

omit [LinearOrder τ] [Add τ] in
theorem callsIn_split (past since : List (LoopEvent τ)) {e : LoopEvent τ} (h : callOf e = some c) :
    (callsIn (past ++ e :: since)).length = (callsIn past).length + (callsIn (e :: since)).length ∧
      0 < (callsIn (e :: since)).length := by
  simp [callsIn, h]

/-- The use of a call is what it has seen since it was made. -/
theorem usesOf_iff : (usesOf es).1 call = some (c, u) ↔ ∃ past e since,
    es = past ++ e :: since ∧ callOf e = some c ∧ (callsIn past).length = call ∧
      u = useAfter call c since := by
  induction es using List.reverseRecOn generalizing c u with
  | nil => simp [usesOf]
  | append_singleton es e ih =>
    rw [usesOf_snoc, usesStep]
    cases hcall : callOf e with
    | none =>
      dsimp only
      rw [Option.map_eq_some_iff]
      constructor
      · rintro ⟨⟨c₀, u₀⟩, hold, heq⟩
        cases heq
        obtain ⟨past, e₀, since, hes, h₀, hpast, rfl⟩ := ih.mp hold
        exact ⟨past, e₀, since ++ [e], by simp [hes], h₀, hpast, useAfter_snoc.symm⟩
      · rintro ⟨past, e₀, since, hsplit, h₀, hpast, rfl⟩
        rcases snoc_split.mp hsplit with ⟨rfl, rfl, rfl⟩ | ⟨since', rfl, hes⟩
        · rw [hcall] at h₀
          cases h₀
        · refine ⟨(c, useAfter call c since'), ih.mpr ⟨past, e₀, since', hes, h₀, hpast, rfl⟩, ?_⟩
          rw [useAfter_snoc]
    | some c' =>
      dsimp only
      rw [usesOf_count]
      by_cases hnew : call = (callsIn es).length
      · rw [hnew, Function.update_self]
        constructor
        · intro heq
          cases heq
          exact ⟨es, e, [], rfl, hcall, rfl, rfl⟩
        · rintro ⟨past, e₀, since, hsplit, h₀, hpast, rfl⟩
          rcases snoc_split.mp hsplit with ⟨rfl, rfl, rfl⟩ | ⟨since', rfl, rfl⟩
          · rw [hcall] at h₀
            cases h₀
            rfl
          · obtain ⟨hcount, hpos⟩ := callsIn_split past since' h₀
            omega
      · rw [Function.update_of_ne hnew, ih]
        constructor
        · rintro ⟨past, e₀, since, rfl, h₀, hpast, rfl⟩
          refine ⟨past, e₀, since ++ [e], by simp, h₀, hpast, ?_⟩
          rw [useAfter_snoc, see_call hcall]
        · rintro ⟨past, e₀, since, hsplit, h₀, hpast, rfl⟩
          rcases snoc_split.mp hsplit with ⟨rfl, rfl, rfl⟩ | ⟨since', rfl, hes⟩
          · exact absurd hpast.symm hnew
          · refine ⟨past, e₀, since', hes, h₀, hpast, ?_⟩
            rw [useAfter_snoc, see_call hcall]

/-- Every call has a block or a frame, numbered in their order. -/
theorem Tracks.count (tr : Tracks idx s (usesOf es).1) : (callsIn es).length = s.ev.allocs := by
  have hiff : ∀ call, call < (callsIn es).length ↔ call < s.ev.allocs :=
    fun call => usesOf_isSome.symm.trans (tr.allocated call)
  exact Nat.le_antisymm (Nat.not_lt.mp fun h => Nat.lt_irrefl _ ((hiff _).mp h))
    (Nat.not_lt.mp fun h => Nat.lt_irrefl _ ((hiff _).mpr h))

/-- The slot of the next call is unused exactly if the calls that had it are settled. -/
theorem Tracks.unused_next (tr : Tracks idx s (usesOf es).1) :
    SlotUnused s (nextCf s.ev.idx) ↔ ∀ past e since c, es = past ++ e :: since → callOf e = some c →
      (callsIn (e :: since)).length % curCallNum = 0 → Settled (callsIn past).length c since := by
  rw [tr.unused_iff, tr.next, ← tr.count]
  constructor
  · intro hnone past e since c hes he hround
    rw [← not_live_iff]
    obtain ⟨hcount, _⟩ := callsIn_split past since he
    refine hnone _ c _ (usesOf_iff.mpr ⟨past, e, since, hes, he, rfl, rfl⟩) ?_
    rw [hes, hcount, slotOf_eq_iff]
    exact hround
  · rintro hsettled call c u hcall hslot
    obtain ⟨past, e, since, hes, he, rfl, rfl⟩ := usesOf_iff.mp hcall
    obtain ⟨hcount, _⟩ := callsIn_split past since he
    rw [not_live_iff]
    apply hsettled past e since c hes he
    rw [hes, hcount, slotOf_eq_iff] at hslot
    exact hslot

end Uses

/-! ### Runs that share no slot -/

section Run
variable {es : List (LoopEvent τ)} {e : LoopEvent τ}

/-- The slot that `get_cf` returns is unused, whenever it is called. -/
def Unshared [Sub τ] [Zero τ] (idx : UInt64) (es : List (LoopEvent τ)) : Prop :=
  ∀ past e rest s, es = past ++ e :: rest → LoopRun (.init idx) past s → (callOf e).isSome →
    SlotUnused s (nextCf s.ev.idx)

theorem timely_nil : Timely ([] : List (LoopEvent τ)) := by
  intro past e since e' rest c hes
  simp at hes

theorem timely_snoc : Timely (es ++ [e]) ↔ Timely es ∧ ((callOf e).isSome →
    ∀ past e₀ since c, es = past ++ e₀ :: since → callOf e₀ = some c →
      (callsIn (e₀ :: since)).length % curCallNum = 0 → Settled (callsIn past).length c since) := by
  constructor
  · intro h
    constructor
    · intro past e₀ since e' rest c hes
      exact h past e₀ since e' (rest ++ [e]) c (by rw [hes]; simp)
    · intro hcall past e₀ since c hes h₀
      exact h past e₀ since e [] c (by rw [hes]) h₀ hcall
  · rintro ⟨hall, hlast⟩ past e₀ since e' rest c hes h₀ hcall
    rcases snoc_split.mp hes with ⟨rfl, hpast, rfl⟩ | ⟨rest', rfl, hpast⟩
    · exact hlast hcall past e₀ since c hpast.symm h₀
    · exact hall past e₀ since e' rest' c hpast h₀ hcall

variable [Sub τ] [Zero τ]

theorem unshared_snoc (run : LoopRun (.init idx) es s) : Unshared idx (es ++ [e]) ↔
    Unshared idx es ∧ ((callOf e).isSome → SlotUnused s (nextCf s.ev.idx)) := by
  constructor
  · intro h
    constructor
    · intro past e₀ rest s₁ hes
      exact h past e₀ (rest ++ [e]) s₁ (by rw [hes]; simp)
    · exact h es e [] s rfl run
  · rintro ⟨hall, hlast⟩ past e₀ rest s₁ hes run₁ hcall
    rcases snoc_split.mp hes with ⟨rfl, rfl, rfl⟩ | ⟨rest', rfl, hpast⟩
    · rw [run.deterministic run₁]
      exact hlast hcall
    · exact hall past e₀ rest' s₁ hpast run₁ hcall

omit [LinearOrder τ] [Add τ] [Sub τ] [Zero τ] in
theorem update_map {call : Nat} {f : Nat → LoopCall τ → Use → Use} {c : LoopCall τ} {u : Use}
    (hcall : uses call = some (c, u)) (hother : ∀ other c u, other ≠ call → f other c u = u) :
    Function.update uses call (some (c, f call c u)) =
      fun other => (uses other).map fun (c, u) => (c, f other c u) := by
  funext other
  by_cases heq : other = call
  · rw [heq, Function.update_self, hcall]
    rfl
  · rw [Function.update_of_ne heq]
    cases uses other with
    | none => rfl
    | some entry =>
      rw [Option.map_some]
      dsimp only
      rw [hother _ _ _ heq]

/-- What one event preserves: the state goes on to say what every call has seen. -/
theorem Tracks.step (tr : Tracks idx s (usesOf es).1) (enabled : LoopEnabled s e)
    (unused : (callOf e).isSome → SlotUnused s (nextCf s.ev.idx)) :
    ∃ s', loopStep s e = some s' ∧ Tracks idx s' (usesOf (es ++ [e])).1 := by
  rw [usesOf_snoc, usesStep]
  have hcount : (usesOf es).2 = s.ev.allocs := (usesOf_count es).trans tr.count
  cases e with
  | cmd c =>
    refine ⟨_, rfl, ?_⟩
    rw [hcount]
    exact tr.issue (unused rfl) (cmdSend_issued enabled)
  | pass call istmout =>
    obtain ⟨s', a, u, hcall, hpass, tr'⟩ := tr.pass enabled
    refine ⟨s', hpass, ?_⟩
    have hsee := update_map (f := fun k c u => u.see k c (.pass call istmout)) hcall
      fun other c u hne => if_neg fun h => hne h.1.symm
    rw [← hsee]
    dsimp only [Use.see]
    rw [if_pos ⟨rfl, rfl⟩]
    exact tr'
  | reply call addr r =>
    obtain ⟨p, hp, rfl, rfl⟩ := enabled
    obtain ⟨s', c, u, hcall, _, hstep, tr'⟩ := tr.sync_reply hp r
    refine ⟨s', hstep, ?_⟩
    have hsee := update_map (f := fun k c u => u.see k c (.reply p.call p.addr r)) hcall
      fun other c u hne => if_neg hne.symm
    rw [← hsee]
    dsimp only [Use.see]
    rw [if_pos rfl]
    exact tr'
  | async e =>
    cases e with
    | cmdAsync c =>
      refine ⟨_, rfl, ?_⟩
      rw [hcount]
      exact tr.issue (unused rfl) (cmdAsync_issued enabled)
    | reply now call addr r =>
      obtain ⟨p, hp, rfl, rfl⟩ := enabled
      obtain ⟨ev', c, u, hcall, _, hstep, tr'⟩ := tr.async_reply hp now r
      refine ⟨{ s with ev := ev' }, by rw [loopStep, hstep]; rfl, ?_⟩
      have hsee := update_map (f := fun k c u => u.see k c (.async (.reply now p.call p.addr r))) hcall
        fun other c u hne => if_neg hne.symm
      rw [← hsee]
      dsimp only [Use.see]
      rw [if_pos rfl]
      exact tr'
    | tick stamp =>
      obtain ⟨ev', htick, tr'⟩ := tr.tick stamp
      exact ⟨{ s with ev := ev' }, by rw [loopStep, eventStep, htick]; rfl, tr'⟩

omit [Sub τ] [Zero τ] in
/-- Before any event there are no calls. -/
theorem Tracks.init (idx : UInt64) :
    Tracks idx (.init idx : LoopState τ) (usesOf ([] : List (LoopEvent τ))).1 where
  tracked _ _ _ h := nomatch h
  allocated call := iff_of_false Bool.false_ne_true (Nat.not_lt_zero call)
  next := rfl
  owner b _ h := by cases b <;> cases h
  entries _ h := nomatch h
  frames _ _ h := nomatch h
  slots _ := Or.inl rfl
  apart _ _ _ _ _ _ h := nomatch h
  once b := by cases b <;> exact List.nodup_nil
  distinct := List.nodup_nil

/-- As long as no slot is shared, the state says what every call has seen. -/
theorem Tracks.run (run : LoopRun (.init idx) es s) (unshared : Unshared idx es) :
    Tracks idx s (usesOf es).1 := by
  induction run with
  | nil => exact .init idx
  | snoc run enabled next ih =>
    obtain ⟨hbefore, hlast⟩ := (unshared_snoc run).mp unshared
    obtain ⟨s₂, hstep, tr⟩ := (ih hbefore).step enabled hlast
    rw [next] at hstep
    cases hstep
    exact tr

/-- No slot is shared exactly if no call comes too early. -/
theorem unshared_iff (run : LoopRun (.init idx) es s) : Unshared idx es ↔ Timely es := by
  induction run with
  | nil => exact iff_of_true (fun past e rest s₁ hes => by simp at hes) timely_nil
  | snoc run enabled next ih =>
    rw [unshared_snoc run, timely_snoc, ih]
    apply and_congr_right
    intro timely
    rw [(Tracks.run run (ih.mpr timely)).unused_next]

/-! ### What replies, deadlines and waits find -/

/-- The slot that a reply, a deadline or a `cmd` comes back to counts nothing, or it counts
for the call that they belong to; and no step uses a block that is gone. -/
structure Attributed (idx : UInt64) (es : List (LoopEvent τ)) (s : LoopState τ) : Prop where
  replies : ∀ b, ∀ p ∈ owing s b, s.ev.cfg p.cf = .idle ∨ (s.ev.cfg p.cf).d = some p.call
  deadlines : ∀ entry ∈ s.ev.req, ∃ past a since, es = past ++ .async (.cmdAsync a) :: since ∧
    entry = (deadline a, slotOf idx (callsIn past).length) ∧
      (s.ev.cfg entry.2 = .idle ∨ (s.ev.cfg entry.2).d = some (callsIn past).length)
  waits : ∀ call frame, s.frames call = some frame →
    s.ev.cfg frame.cf = .idle ∨ (s.ev.cfg frame.cf).d = some call
  results : ∀ e, LoopEnabled s e → (loopStep s e).isSome

omit [Sub τ] [Zero τ] in
theorem Tracks.counts (tr : Tracks idx s uses) {call : Nat} {c : LoopCall τ} {u : Use}
    (hcall : uses call = some (c, u)) (live : u.Live) :
    s.ev.cfg (slotOf idx call) = .idle ∨ (s.ev.cfg (slotOf idx call)).d = some call := by
  by_cases running : u.Running
  · rw [(tr.tracked _ _ _ hcall).slot running]
    exact Or.inr rfl
  · exact Or.inl (tr.idle hcall live running)

theorem Tracks.attributed (tr : Tracks idx s (usesOf es).1) : Attributed idx es s where
  replies b p hp := by
    obtain ⟨c, u, hcall, _, haddr, hp', _⟩ := tr.find hp
    rw [hp']
    exact tr.counts hcall (Or.inl (List.ne_nil_of_mem haddr))
  deadlines entry hentry := by
    obtain ⟨call, a, u, hcall, hholds, rfl⟩ := tr.entries entry hentry
    have hcounts := tr.counts hcall (Or.inr hholds)
    obtain ⟨past, e, since, hes, he, rfl, _⟩ := usesOf_iff.mp hcall
    refine ⟨past, a, since, ?_, rfl, hcounts⟩
    cases e with
    | cmd c => cases he
    | pass call istmout => cases he
    | reply call addr r => cases he
    | async e =>
      cases e with
      | cmdAsync a' =>
        cases he
        exact hes
      | reply now call addr r => cases he
      | tick stamp => cases he
  waits call frame hframe := by
    obtain ⟨a, u, hcall, hholds⟩ := tr.frames call frame hframe
    obtain ⟨frame', hframe', hcf, _⟩ := (tr.tracked _ _ _ hcall).frame a rfl hholds
    rw [hframe] at hframe'
    cases hframe'
    rw [hcf]
    exact tr.counts hcall (Or.inr hholds)
  results e enabled := by
    cases hcall : callOf e with
    | none =>
      obtain ⟨s', hstep, _⟩ := tr.step enabled (by rw [hcall]; exact fun h => Bool.noConfusion h)
      rw [hstep]
      rfl
    | some c =>
      cases e with
      | cmd c => rfl
      | pass call istmout => cases hcall
      | reply call addr r => cases hcall
      | async e =>
        cases e with
        | cmdAsync a => rfl
        | reply now call addr r => cases hcall
        | tick stamp => cases hcall

omit [Add τ] in
theorem unshared_before {past rest : List (LoopEvent τ)} [Add τ] (h : Unshared idx (past ++ rest)) :
    Unshared idx past :=
  fun past' e rest' s hes => h past' e (rest' ++ rest) s (by rw [hes]; simp)

/-- In every run no slot is shared, and every reply, deadline and wait finds its own call, exactly
if every call is made only after those that had its slot are settled. The ring has the 1,000,000
slots of the source. What a wait does that wakes up spuriously is `cmd_released_iff`. -/
theorem attributed_iff_timely (run : LoopRun (.init idx) es s) :
    (Unshared idx es ∧ ∀ past rest s₁, es = past ++ rest → LoopRun (.init idx) past s₁ →
      Attributed idx past s₁) ↔ Timely es := by
  rw [← unshared_iff run]
  constructor
  · exact And.left
  · intro unshared
    refine ⟨unshared, fun past rest s₁ hes run₁ => ?_⟩
    rw [hes] at unshared
    exact (Tracks.run run₁ (unshared_before unshared)).attributed

end Run

/-! ### Once round the ring -/

section Lap
variable {es : List (LoopEvent τ)}

theorem timely_of_short (hshort : (callsIn es).length ≤ curCallNum) : Timely es := by
  intro past e since e' rest c hes he he' hround
  have hsplit : (callsIn es).length = (callsIn past).length + (callsIn (e :: since)).length +
      (callsIn (e' :: rest)).length := by
    simp only [hes, callsIn, List.filterMap_append, List.length_append]
  obtain ⟨c', hc'⟩ := Option.isSome_iff_exists.mp he'
  have hpos := (callsIn_split past since he).2
  have hpos' := (callsIn_split past rest hc').2
  have hlt : (callsIn (e :: since)).length < curCallNum := by omega
  rw [Nat.mod_eq_of_lt hlt] at hround
  omega

variable [Sub τ] [Zero τ]

theorem loopStep_call {e : LoopEvent τ} (hcall : (callOf e).isSome) : ∃ s', loopStep s e = some s' := by
  cases e with
  | cmd c => exact ⟨_, rfl⟩
  | pass call istmout => cases hcall
  | reply call addr r => cases hcall
  | async e =>
    cases e with
    | cmdAsync a => exact ⟨_, rfl⟩
    | reply now call addr r => cases hcall
    | tick stamp => cases hcall

/-- Calls can always be made. -/
theorem calls_run {s₀ : LoopState τ} (hcalls : ∀ e ∈ es, (callOf e).isSome ∧ ∀ s, LoopEnabled s e) :
    ∃ s, LoopRun s₀ es s := by
  induction es using List.reverseRecOn with
  | nil => exact ⟨s₀, .nil⟩
  | append_singleton es e ih =>
    obtain ⟨s, run⟩ := ih fun e he => hcalls e (List.mem_append_left _ he)
    obtain ⟨hcall, enabled⟩ := hcalls e List.mem_concat_self
    obtain ⟨s', hstep⟩ := loopStep_call (s := s) hcall
    exact ⟨s', run.snoc (enabled s) hstep⟩

end Lap

/-- A request to one address, whose connection is ready or missing. -/
def lapCall (ready : Bool) : AsyncCall Int where
  key := 0
  data := 0
  callback := true
  addrCmd := (∅ : Commands).insert 1 []
  callStamp := 0
  timeout := 1
  ctxs _ := if ready then some ⟨1, false⟩ else none

/-- A request, and as many after it as there are other slots, none of which can be sent. -/
def lap : List (LoopEvent Int) :=
  .async (.cmdAsync (lapCall true)) ::
    List.replicate (curCallNum - 1) (.async (.cmdAsync (lapCall false)))

theorem lapCall_enabled (s : LoopState Int) (ready : Bool) :
    LoopEnabled s (.async (.cmdAsync (lapCall ready))) := by
  change ((∅ : Commands).insert 1 []).isEmpty = false
  decide +kernel

theorem sentTo_lapCall : sentTo (lapCall true) = [1] := by decide +kernel

theorem lap_length : (callsIn lap).length = curCallNum := by
  have hquiet : callOf (.async (.cmdAsync (lapCall false))) = some (.async (lapCall false)) := rfl
  have hfirst : callOf (.async (.cmdAsync (lapCall true))) = some (.async (lapCall true)) := rfl
  rw [lap, callsIn, List.filterMap_cons_some hfirst, List.filterMap_replicate_of_some hquiet,
    List.length_cons, List.length_replicate]
  rfl

/-- The next request takes the slot that the reply to the first one comes back with; that
reply would count for the next request, and be stored in its block. -/
theorem lap_shares_slot : ∃ s, LoopRun (.init 0) (lap ++ [.async (.cmdAsync (lapCall true))]) s ∧
    (∃ p ∈ s.ev.pending, p.call = 0 ∧ s.ev.cfg p.cf = ⟨1, some curCallNum⟩) ∧
      ¬ Unshared 0 (lap ++ [.async (.cmdAsync (lapCall true))]) := by
  obtain ⟨s, run⟩ : ∃ s, LoopRun (.init 0) lap s := by
    apply calls_run
    intro e he
    rcases List.mem_cons.mp he with rfl | he
    · exact ⟨rfl, fun s => lapCall_enabled s true⟩
    · rw [List.eq_of_mem_replicate he]
      exact ⟨rfl, fun s => lapCall_enabled s false⟩
  have tr := Tracks.run run ((unshared_iff run).mpr (timely_of_short (Nat.le_of_eq lap_length)))
  have hallocs : s.ev.allocs = curCallNum := tr.count.symm.trans lap_length
  have hslot : nextCf s.ev.idx = slotOf 0 0 := by
    rw [tr.next, hallocs]
    exact ((slotOf_eq_iff 0 0 curCallNum).mpr (Nat.mod_self _)).symm
  have hfirst : (⟨0, 1, slotOf 0 0⟩ : Command) ∈ s.ev.pending := by
    have huse : (usesOf lap).1 0 = some (.async (lapCall true), useAfter 0 (.async (lapCall true))
        (List.replicate (curCallNum - 1) (.async (.cmdAsync (lapCall false))))) :=
      usesOf_iff.mpr ⟨[], _, _, rfl, rfl, rfl, rfl⟩
    refine ((tr.tracked _ _ _ huse).owed 1).mp ((useAfter_left.2 1).mpr ⟨?_, ?_⟩)
    · rw [LoopCall.sentTo, sentTo_lapCall]
      exact List.mem_singleton_self _
    · rintro (⟨now, r, hmem⟩ | ⟨r, hmem⟩)
      · cases List.eq_of_mem_replicate hmem
      · cases List.eq_of_mem_replicate hmem
  have issued : Issued s { s with ev := cmdAsync s.ev (lapCall true) } _ :=
    cmdAsync_issued (lapCall_enabled s true)
  have hrun := run.snoc (lapCall_enabled s true) rfl
  refine ⟨_, hrun, ⟨⟨0, 1, slotOf 0 0⟩, ?_, rfl, ?_⟩, ?_⟩
  · refine (issued.mem_owing (b := true) ?_).mpr hfirst
    rw [hallocs]
    decide
  · change (cmdAsync s.ev (lapCall true)).cfg _ = _
    have hcfg := issued.cfg
    rw [LoopCall.sentTo, sentTo_lapCall, if_neg (List.cons_ne_nil _ _), hslot, hallocs] at hcfg
    rw [hcfg]
    exact Function.update_self ..
  · intro unshared
    obtain ⟨⟨hpending, _⟩, _⟩ := ((unshared_snoc run).mp unshared).2 rfl
    exact hpending _ hfirst hslot.symm

/-- The same calls, and the reply to the first request comes before the others are made. -/
def answeredLap : List (LoopEvent Int) :=
  .async (.cmdAsync (lapCall true)) :: .async (.reply 0 0 1 none) ::
    List.replicate (curCallNum - 1) (.async (.cmdAsync (lapCall false)))

/-- The loop after the first request. -/
def askedState : LoopState Int :=
  ⟨cmdAsync (.init 0) (lapCall true), [], fun _ => none⟩

theorem answeredLap_run : ∃ s, LoopRun (.init 0) (answeredLap ++ [.async (.cmdAsync (lapCall true))]) s := by
  have first : LoopRun (.init 0) [.async (.cmdAsync (lapCall true))] askedState :=
    .one (lapCall_enabled (.init 0) true) rfl
  have owed : LoopEnabled askedState (.async (.reply 0 0 1 none)) :=
    ⟨⟨0, 1, slotOf 0 0⟩, by decide +kernel, rfl, rfl⟩
  obtain ⟨s₁, hreply⟩ : ∃ s₁, loopStep askedState (.async (.reply 0 0 1 none)) = some s₁ :=
    Option.isSome_iff_exists.mp (by decide +kernel)
  have others : ∃ s₂, LoopRun s₁ (List.replicate (curCallNum - 1) (.async (.cmdAsync (lapCall false)))
      ++ [.async (.cmdAsync (lapCall true))]) s₂ := by
    apply calls_run
    intro e he
    rcases List.mem_append.mp he with he | he
    · rw [List.eq_of_mem_replicate he]
      exact ⟨rfl, fun s => lapCall_enabled s false⟩
    · rw [List.mem_singleton.mp he]
      exact ⟨rfl, fun s => lapCall_enabled s true⟩
  obtain ⟨s₂, others⟩ := others
  exact ⟨s₂, (first.snoc owed hreply).trans others⟩

theorem answeredLap_timely : Timely (answeredLap ++ [.async (.cmdAsync (lapCall true))]) := by
  have hcalls : callsIn answeredLap = callsIn lap := rfl
  have hlength : (callsIn answeredLap).length = curCallNum := by
    rw [hcalls]
    exact lap_length
  refine timely_snoc.mpr ⟨timely_of_short (Nat.le_of_eq hlength), ?_⟩
  intro _ past e₀ since c hes hcall hround
  obtain ⟨hsplit, hpos⟩ := callsIn_split past since hcall
  rw [← hes, hlength] at hsplit
  have hall : (callsIn (e₀ :: since)).length = curCallNum := by
    have hdvd := Nat.le_of_dvd hpos (Nat.dvd_of_mod_eq_zero hround)
    omega
  cases past with
  | nil =>
    obtain ⟨rfl, rfl⟩ := List.cons.inj hes
    obtain rfl := Option.some.inj hcall
    refine ⟨fun addr haddr => ?_, fun hnone => ?_⟩
    · rw [LoopCall.sentTo, sentTo_lapCall, List.mem_singleton] at haddr
      rw [haddr]
      exact Or.inl ⟨0, none, List.mem_cons_self⟩
    · rw [sentTo_lapCall] at hnone
      cases hnone
  | cons first past =>
    obtain ⟨rfl, _⟩ := List.cons.inj hes
    have hfirst : 0 < (callsIn (.async (.cmdAsync (lapCall true)) :: past)).length :=
      (callsIn_split [] past rfl).2
    omega

/-- The call after the lap has the slot of the first request, which is answered by then. -/
theorem attributed_iff_timely_example :
    ∃ s, LoopRun (.init 0) (answeredLap ++ [.async (.cmdAsync (lapCall true))]) s ∧
      Unshared 0 (answeredLap ++ [.async (.cmdAsync (lapCall true))]) ∧ ∀ past rest s₁,
        answeredLap ++ [.async (.cmdAsync (lapCall true))] = past ++ rest →
          LoopRun (.init 0) past s₁ → Attributed 0 past s₁ := by
  obtain ⟨s, run⟩ := answeredLap_run
  exact ⟨s, run, (attributed_iff_timely run).mpr answeredLap_timely⟩

end RedisCluster.Guarantees
