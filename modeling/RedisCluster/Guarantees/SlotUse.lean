import RedisCluster.Guarantees.Requests
import RedisCluster.Source.RedisLoop

/-!
# What the calls use their slots for

A call uses its slot as long as replies to its commands are missing, and as long as its
deadline entry is there or it waits. While no two calls use one slot, every reply and every
deadline finds the call that it belongs to.
-/

set_option autoImplicit false

namespace RedisCluster.Guarantees
open Library Source

/-! ## Calls and their slots -/

section Calls
variable {τ : Type}

inductive LoopCall (τ : Type) where
  | sync (c : SyncCall)
  | async (c : AsyncCall τ)

namespace LoopCall

def isAsync : LoopCall τ → Bool
  | .sync _ => false
  | .async _ => true

/-- The addresses that a command of the call is sent to. -/
def sentTo : LoopCall τ → List UInt64
  | .sync c => (c.addrCmd.toList.filter (sends c.ctxs)).map Prod.fst
  | .async c => Guarantees.sentTo c

theorem sentTo_nodup (c : LoopCall τ) : c.sentTo.Nodup := by
  cases c with
  | sync c => exact (Ordered.nodup_keys c.addrCmd).sublist (List.filter_sublist.map Prod.fst)
  | async c => exact Guarantees.sentTo_nodup c

end LoopCall

/-- The slot of the call with this number. -/
def slotOf (idx : UInt64) : Nat → Slot
  | 0 => nextCf idx
  | k + 1 => nextCf (.ofNat (slotOf idx k))

theorem nextCf_ofNat (cf : Slot) : (nextCf (.ofNat cf)).val = (cf.val + 1) % curCallNum := by
  have hlt := cf.isLt
  have hnum : curCallNum = 1000000 := rfl
  have hnext : (UInt64.ofNat cf.val + 1).toNat = cf.val + 1 := by
    rw [UInt64.toNat_add, UInt64.toNat_ofNat']
    simp
    omega
  unfold nextCf
  split
  · next h =>
    rw [hnext] at h
    simp only [hnext]
    exact (Nat.mod_eq_of_lt h).symm
  · next h =>
    rw [hnext] at h
    have heq : cf.val + 1 = curCallNum := by omega
    rw [heq, Nat.mod_self]

/-- The slots come round. -/
theorem slotOf_val (idx : UInt64) (k : Nat) :
    (slotOf idx k).val = ((nextCf idx).val + k) % curCallNum := by
  induction k with
  | zero => exact (Nat.mod_eq_of_lt (nextCf idx).isLt).symm
  | succ k ih => rw [slotOf, nextCf_ofNat, ih, Nat.mod_add_mod, Nat.add_assoc]

theorem slotOf_eq_iff (idx : UInt64) (k n : Nat) :
    slotOf idx k = slotOf idx (k + n) ↔ n % curCallNum = 0 := by
  rw [Fin.ext_iff, slotOf_val, slotOf_val, ← Nat.add_assoc]
  generalize (nextCf idx).val = first
  simp only [curCallNum]
  omega

end Calls

/-! ## What a call uses its slot for -/

/-- The commands without a reply, and whether the call still has its deadline entry or
waits. -/
structure Use where
  left : List UInt64
  holds : Bool

namespace Use

/-- The slot counts the replies of the call. -/
def Running (u : Use) : Prop := u.left ≠ [] ∧ u.holds = true

def Live (u : Use) : Prop := u.left ≠ [] ∨ u.holds = true

theorem Running.live {u : Use} (h : u.Running) : u.Live := Or.inl h.1

def release (u : Use) : Use := ⟨u.left, false⟩

section See
variable {τ : Type} [LinearOrder τ] [Add τ]

omit [LinearOrder τ] [Add τ] in
/-- Every `cmd_async` has a deadline entry; a `cmd` waits only if it sent something. -/
def start (c : LoopCall τ) : Use := ⟨c.sentTo, c.isAsync || c.sentTo ≠ []⟩

omit [LinearOrder τ] [Add τ] in
/-- The last reply takes the deadline entry away. -/
def reply (c : LoopCall τ) (u : Use) (addr : UInt64) : Use :=
  ⟨u.left.erase addr, u.holds && !(c.isAsync && u.left = [addr])⟩

/-- A tick takes the deadline entry away that it is later than. -/
def tick (c : LoopCall τ) (u : Use) (stamp : τ) : Use :=
  match c with
  | .async c => if deadline c < stamp then u.release else u
  | .sync _ => u

/-- What an event does to the use of a call. -/
def see (call : Nat) (c : LoopCall τ) (u : Use) : LoopEvent τ → Use
  | .async (.reply _ k addr _) => if k = call then u.reply c addr else u
  | .reply k addr _ => if k = call then u.reply c addr else u
  | .async (.tick stamp) => u.tick c stamp
  | .pass k _ => if k = call ∧ c.isAsync = false then u.release else u
  | .async (.cmdAsync _) => u
  | .cmd _ => u

end See
end Use

/-! ## What the state says about it -/

section Tracks
variable {τ : Type} [LinearOrder τ]

/-- The commands of synchronous or of asynchronous calls. -/
def owing (s : LoopState τ) : Bool → List Command
  | true => s.ev.pending
  | false => s.syncPending

/-- The calls so far, by their numbers. -/
abbrev Uses (τ : Type) := Nat → Option (LoopCall τ × Use)

variable [Add τ]

/-- The state says what a call still uses its slot for. -/
structure Tracked (s : LoopState τ) (call : Nat) (cf : Slot) (c : LoopCall τ) (u : Use) : Prop where
  nodup : u.left.Nodup
  owed : ∀ addr, addr ∈ u.left ↔ ⟨call, addr, cf⟩ ∈ owing s c.isAsync
  entry : ∀ a, c = .async a → u.holds = true → (deadline a, cf) ∈ s.ev.req
  frame : ∀ a, c = .sync a → u.holds = true → ∃ frame, s.frames call = some frame ∧
    frame.cf = cf ∧ (frame.notified = true → u.left = [])
  slot : u.Running → s.ev.cfg cf = ⟨u.left.length, some call⟩
  block : u.Running → ∀ a, c = .async a → ∃ arg, s.ev.args call = some arg ∧ arg.timeout = deadline a

/-- Every reference to a slot is that of a call, and no two calls use one slot. -/
structure Tracks (idx : UInt64) (s : LoopState τ) (uses : Uses τ) : Prop where
  tracked : ∀ call c u, uses call = some (c, u) → Tracked s call (slotOf idx call) c u
  allocated : ∀ call, (uses call).isSome ↔ call < s.ev.allocs
  next : nextCf s.ev.idx = slotOf idx s.ev.allocs
  owner : ∀ b, ∀ p ∈ owing s b, ∃ c u, uses p.call = some (c, u) ∧ c.isAsync = b ∧
    p.cf = slotOf idx p.call
  entries : ∀ e ∈ s.ev.req, ∃ call a u, uses call = some (.async a, u) ∧ u.holds = true ∧
    e = (deadline a, slotOf idx call)
  frames : ∀ call frame, s.frames call = some frame → ∃ a u, uses call = some (.sync a, u) ∧
    u.holds = true
  slots : ∀ cf, s.ev.cfg cf = .idle ∨
    ∃ call c u, uses call = some (c, u) ∧ u.Running ∧ slotOf idx call = cf
  apart : ∀ call c u call' c' u', uses call = some (c, u) → uses call' = some (c', u') →
    u.Live → u'.Live → slotOf idx call = slotOf idx call' → call = call'
  once : ∀ b, (owing s b).Nodup
  distinct : s.ev.req.Distinct

variable {idx : UInt64} {s s' : LoopState τ} {uses : Uses τ} {call : Nat} {c : LoopCall τ}
  {u u' : Use}

/-- The slot of a call that uses it counts for no other call. -/
theorem Tracks.idle (tr : Tracks idx s uses) (hcall : uses call = some (c, u)) (live : u.Live)
    (stopped : ¬ u.Running) : s.ev.cfg (slotOf idx call) = .idle := by
  rcases tr.slots (slotOf idx call) with hidle | ⟨other, c', u', hother, running, hcf⟩
  · exact hidle
  · obtain rfl := tr.apart _ _ _ _ _ _ hother hcall running.live live hcf
    rw [hcall] at hother
    cases hother
    exact absurd running stopped

/-- What a step on one call may change. -/
structure Touches (s s' : LoopState τ) (call : Nat) (cf : Slot) : Prop where
  idx : s'.ev.idx = s.ev.idx
  allocs : s'.ev.allocs = s.ev.allocs
  owed : ∀ b p, p.call ≠ call → (p ∈ owing s' b ↔ p ∈ owing s b)
  fewer : ∀ b, (owing s' b).Sublist (owing s b)
  entries : ∀ e : τ × Slot, e.2 ≠ cf → (e ∈ s'.ev.req ↔ e ∈ s.ev.req)
  req : s'.ev.req.entries.Sublist s.ev.req.entries
  cfg : ∀ i, i ≠ cf → s'.ev.cfg i = s.ev.cfg i
  args : ∀ other, other ≠ call → s'.ev.args other = s.ev.args other
  frames : ∀ other, other ≠ call → s'.frames other = s.frames other

/-- A call on another slot stays as it is. -/
theorem Tracked.other {cf : Slot} (h : Tracked s call cf c u) {touched : Nat} {cf' : Slot}
    (touch : Touches s s' touched cf') (hne : call ≠ touched) (hcf : u.Live → cf ≠ cf') :
    Tracked s' call cf c u where
  nodup := h.nodup
  owed addr := by rw [h.owed addr, touch.owed _ _ hne]
  entry a ha hholds := by
    rw [touch.entries _ (hcf (Or.inr hholds))]
    exact h.entry a ha hholds
  frame a ha hholds := by
    rw [touch.frames _ hne]
    exact h.frame a ha hholds
  slot running := by
    rw [touch.cfg _ (hcf running.live)]
    exact h.slot running
  block running a ha := by
    rw [touch.args _ hne]
    exact h.block running a ha

/-- A step on one call that uses its slot. -/
theorem Tracks.advance (tr : Tracks idx s uses) (hcall : uses call = some (c, u)) (live : u.Live)
    (touch : Touches s s' call (slotOf idx call)) (live' : u'.Live → u.Live)
    (rep : Tracked s' call (slotOf idx call) c u')
    (hentry : ∀ e ∈ s'.ev.req, e.2 = slotOf idx call → u'.holds = true)
    (hframe : ∀ frame, s'.frames call = some frame → (∃ a, c = .sync a) ∧ u'.holds = true)
    (hslot : s'.ev.cfg (slotOf idx call) = .idle ∨ u'.Running) :
    Tracks idx s' (Function.update uses call (some (c, u'))) := by
  -- Other calls that use a slot use another one.
  have hapart : ∀ other c₁ u₁, uses other = some (c₁, u₁) → other ≠ call → u₁.Live →
      slotOf idx other ≠ slotOf idx call :=
    fun other c₁ u₁ hother hne hlive hsame => hne (tr.apart _ _ _ _ _ _ hother hcall hlive live hsame)
  have hback : ∀ other c₁ u₁, Function.update uses call (some (c, u')) other = some (c₁, u₁) →
      ∃ u₀, uses other = some (c₁, u₀) ∧ (u₁.Live → u₀.Live) := by
    intro other c₁ u₁ h
    by_cases heq : other = call
    · subst heq
      rw [Function.update_self] at h
      cases h
      exact ⟨u, hcall, live'⟩
    · rw [Function.update_of_ne heq] at h
      exact ⟨u₁, h, id⟩
  constructor
  · intro other c₁ u₁ h
    by_cases heq : other = call
    · subst heq
      rw [Function.update_self] at h
      cases h
      exact rep
    · rw [Function.update_of_ne heq] at h
      exact (tr.tracked other c₁ u₁ h).other touch heq (hapart other c₁ u₁ h heq)
  · intro other
    rw [touch.allocs, ← tr.allocated other]
    by_cases heq : other = call
    · subst heq
      rw [Function.update_self, hcall]
      exact Iff.rfl
    · rw [Function.update_of_ne heq]
  · rw [touch.idx, touch.allocs]
    exact tr.next
  · intro b p hp
    obtain ⟨c₁, u₁, h₁, hb, hcf⟩ := tr.owner b p ((touch.fewer b).subset hp)
    by_cases heq : p.call = call
    · rw [heq, hcall] at h₁
      cases h₁
      exact ⟨c, u', by rw [heq, Function.update_self], hb, hcf⟩
    · exact ⟨c₁, u₁, by rw [Function.update_of_ne heq, h₁], hb, hcf⟩
  · intro e he
    obtain ⟨other, a, u₁, h₁, hholds, rfl⟩ := tr.entries e (touch.req.subset he)
    by_cases heq : other = call
    · subst heq
      rw [hcall] at h₁
      cases h₁
      exact ⟨other, a, u', Function.update_self .., hentry _ he rfl, rfl⟩
    · exact ⟨other, a, u₁, by rw [Function.update_of_ne heq, h₁], hholds, rfl⟩
  · intro other frame hother
    by_cases heq : other = call
    · subst heq
      obtain ⟨⟨a, rfl⟩, hholds⟩ := hframe frame hother
      exact ⟨a, u', Function.update_self .., hholds⟩
    · rw [touch.frames other heq] at hother
      obtain ⟨a, u₁, h₁, hholds⟩ := tr.frames other frame hother
      exact ⟨a, u₁, by rw [Function.update_of_ne heq, h₁], hholds⟩
  · intro cf
    by_cases heq : cf = slotOf idx call
    · subst heq
      exact hslot.imp_right fun running => ⟨call, c, u', Function.update_self .., running, rfl⟩
    · rw [touch.cfg cf heq]
      apply (tr.slots cf).imp_right
      rintro ⟨other, c₁, u₁, h₁, running, rfl⟩
      refine ⟨other, c₁, u₁, ?_, running, rfl⟩
      rw [Function.update_of_ne, h₁]
      rintro rfl
      exact heq rfl
  · intro k₁ c₁ u₁ k₂ c₂ u₂ h₁ h₂ live₁ live₂ hsame
    obtain ⟨v₁, h₁', hlive₁⟩ := hback k₁ c₁ u₁ h₁
    obtain ⟨v₂, h₂', hlive₂⟩ := hback k₂ c₂ u₂ h₂
    exact tr.apart _ _ _ _ _ _ h₁' h₂' (hlive₁ live₁) (hlive₂ live₂) hsame
  · exact fun b => (tr.once b).sublist (touch.fewer b)
  · exact tr.distinct.sublist touch.req

/-! ## Replies -/

section Replies
variable {addr : UInt64}

/-- The command is not owed any more. -/
theorem Tracked.owed_erase {cf : Slot} (h : Tracked s call cf c u)
    (once : (owing s c.isAsync).Nodup) (other : UInt64) :
    other ∈ u.left.erase addr ↔ ⟨call, other, cf⟩ ∈ (owing s c.isAsync).erase ⟨call, addr, cf⟩ := by
  rw [h.nodup.mem_erase_iff, once.mem_erase_iff, h.owed]
  simp

omit [LinearOrder τ] [Add τ] in
theorem Use.reply_left : (u.reply c addr).left = u.left.erase addr := rfl

omit [LinearOrder τ] [Add τ] in
theorem Use.reply_holds : (u.reply c addr).holds = true ↔
    u.holds = true ∧ (c.isAsync = true → u.left ≠ [addr]) := by
  simp only [Use.reply, Bool.and_eq_true, Bool.not_eq_true', Bool.and_eq_false_iff,
    decide_eq_false_iff_not]
  cases c.isAsync <;> simp

omit [LinearOrder τ] [Add τ] in
theorem Use.reply_running : (u.reply c addr).Running ↔ u.holds = true ∧ u.left.erase addr ≠ [] := by
  rw [Use.Running, Use.reply_holds, Use.reply_left]
  constructor
  · exact fun h => ⟨h.2.1, h.1⟩
  · rintro ⟨hholds, hmore⟩
    refine ⟨hmore, hholds, fun _ hone => hmore ?_⟩
    rw [hone, List.erase_cons_head]

omit [LinearOrder τ] [Add τ] in
theorem Use.reply_live (haddr : addr ∈ u.left) : (u.reply c addr).Live → u.Live :=
  fun _ => Or.inl (List.ne_nil_of_mem haddr)

omit [LinearOrder τ] [Add τ] in
theorem Use.holds_of_reply (haddr : addr ∈ u.left) (h : (u.reply c addr).holds = true) :
    u.holds = true ∧ (c.isAsync = true → u.left.erase addr ≠ []) := by
  obtain ⟨hholds, hmore⟩ := Use.reply_holds.mp h
  refine ⟨hholds, fun hasync hnil => ?_⟩
  rcases List.erase_eq_nil_iff.mp hnil with hnone | hone
  · exact List.ne_nil_of_mem haddr hnone
  · exact hmore hasync hone

/-- The reply is taken off. What else it does is up to the slot. -/
theorem Tracks.find (tr : Tracks idx s uses) {b : Bool} {p : Command} (hp : p ∈ owing s b) :
    ∃ c u, uses p.call = some (c, u) ∧ c.isAsync = b ∧ p.addr ∈ u.left ∧
      p = ⟨p.call, p.addr, slotOf idx p.call⟩ ∧
      (owing s b).find? (fun p' => p'.call = p.call ∧ p'.addr = p.addr) = some p := by
  obtain ⟨c, u, hcall, rfl, hcf⟩ := tr.owner b p hp
  have hp' : p = ⟨p.call, p.addr, slotOf idx p.call⟩ := by rw [← hcf]
  refine ⟨c, u, hcall, rfl, ?_, hp', ?_⟩
  · rw [(tr.tracked _ _ _ hcall).owed, ← hp']
    exact hp
  · refine find_pending hp fun p' hp'' heq => ?_
    obtain ⟨_, _, _, _, hcf'⟩ := tr.owner _ p' hp''
    rw [hcf', heq, hcf]

/-- What any reply does, as far as its call is concerned. -/
theorem Tracks.reply (tr : Tracks idx s uses) (hcall : uses call = some (c, u)) (haddr : addr ∈ u.left)
    (touch : Touches s s' call (slotOf idx call))
    (herase : owing s' c.isAsync = (owing s c.isAsync).erase ⟨call, addr, slotOf idx call⟩)
    (hentry : ∀ a, c = .async a → (u.reply c addr).holds = true → (deadline a, slotOf idx call) ∈ s'.ev.req)
    (hgone : ∀ e ∈ s'.ev.req, e.2 = slotOf idx call → (u.reply c addr).holds = true)
    (hframe : ∀ frame, s'.frames call = some frame → ∃ a, c = .sync a ∧ u.holds = true ∧
      frame.cf = slotOf idx call ∧ (frame.notified = true → u.left.erase addr = []))
    (hframed : (s.frames call).isSome → (s'.frames call).isSome)
    (hslot : s'.ev.cfg (slotOf idx call) =
      if u.holds = true ∧ u.left.erase addr ≠ [] then ⟨(u.left.erase addr).length, some call⟩ else .idle)
    (hblock : ∀ a, c = .async a → u.holds = true → u.left.erase addr ≠ [] →
      ∃ arg, s'.ev.args call = some arg ∧ arg.timeout = deadline a) :
    Tracks idx s' (Function.update uses call (some (c, u.reply c addr))) := by
  have hold := tr.tracked call c u hcall
  have hlive : u.Live := Or.inl (List.ne_nil_of_mem haddr)
  refine tr.advance hcall hlive touch (Use.reply_live haddr) ?_ hgone ?_ ?_
  · constructor
    · exact hold.nodup.erase addr
    · intro other
      rw [herase]
      exact hold.owed_erase (tr.once _) other
    · exact hentry
    · intro a ha hholds
      obtain ⟨frame, hsome, _⟩ := hold.frame a ha (Use.holds_of_reply haddr hholds).1
      have hsome' := hframed (by rw [hsome]; rfl)
      obtain ⟨frame', hframe'⟩ := Option.isSome_iff_exists.mp hsome'
      obtain ⟨_, _, _, hcf, hdone⟩ := hframe frame' hframe'
      exact ⟨frame', hframe', hcf, hdone⟩
    · intro running
      rw [hslot, if_pos (Use.reply_running.mp running)]
      rfl
    · intro running a ha
      obtain ⟨hholds, hmore⟩ := Use.reply_running.mp running
      exact hblock a ha hholds hmore
  · intro frame hsome
    obtain ⟨a, rfl, hholds, _⟩ := hframe frame hsome
    exact ⟨⟨a, rfl⟩, Use.reply_holds.mpr ⟨hholds, fun h => Bool.noConfusion h⟩⟩
  · rw [hslot, Use.reply_running]
    split
    · next h => exact Or.inr h
    · exact Or.inl rfl

/-- A reply to a call that has stopped counting finds the slot idle. -/
theorem Tracks.reply_ignored (tr : Tracks idx s uses) (hcall : uses call = some (c, u))
    (haddr : addr ∈ u.left) (stopped : ¬ u.Running)
    (touch : Touches s s' call (slotOf idx call))
    (herase : owing s' c.isAsync = (owing s c.isAsync).erase ⟨call, addr, slotOf idx call⟩)
    (hev : s'.ev.cfg = s.ev.cfg) (hframes : s'.frames = s.frames) :
    Tracks idx s' (Function.update uses call (some (c, u.reply c addr))) := by
  have hlive : u.Live := Or.inl (List.ne_nil_of_mem haddr)
  have hholds : u.holds ≠ true := fun h => stopped ⟨List.ne_nil_of_mem haddr, h⟩
  refine tr.reply hcall haddr touch herase ?_ ?_ ?_ ?_ ?_ ?_
  · exact fun a ha h => absurd (Use.holds_of_reply haddr h).1 hholds
  · intro e he hcf
    obtain ⟨other, a, u₁, h₁, hholds₁, rfl⟩ := tr.entries e (touch.req.subset he)
    obtain rfl := tr.apart _ _ _ _ _ _ h₁ hcall (Or.inr hholds₁) hlive hcf
    rw [hcall] at h₁
    cases h₁
    exact absurd hholds₁ hholds
  · intro frame hframe
    rw [hframes] at hframe
    obtain ⟨a, u₁, h₁, hholds₁⟩ := tr.frames call frame hframe
    rw [hcall] at h₁
    cases h₁
    exact absurd hholds₁ hholds
  · rw [hframes]
    exact id
  · rw [if_neg (fun h => hholds h.1), hev]
    exact tr.idle hcall hlive stopped
  · exact fun a ha h => absurd h hholds

/-! ### Replies to asynchronous calls -/

/-- The state without the command that is replied to. -/
def withoutCommand (ev : EventState τ) (p : Command) : EventState τ :=
  { ev with pending := ev.pending.erase p }

omit [Add τ] in
theorem owing_async {ev : EventState τ} {b : Bool} :
    owing { s with ev := ev } b = if b then ev.pending else owing s b := by
  cases b <;> rfl

omit [Add τ] in
theorem async_touches {ev : EventState τ} {cf : Slot} (hidx : ev.idx = s.ev.idx)
    (hallocs : ev.allocs = s.ev.allocs)
    (hpending : ev.pending = s.ev.pending.erase ⟨call, addr, cf⟩)
    (hreq : ev.req = s.ev.req ∨ ∃ d, ev.req = s.ev.req.erase d cf)
    (distinct : s.ev.req.Distinct)
    (hcfg : ∀ i, i ≠ cf → ev.cfg i = s.ev.cfg i)
    (hargs : ∀ other, other ≠ call → ev.args other = s.ev.args other) :
    Touches s { s with ev := ev } call cf where
  idx := hidx
  allocs := hallocs
  owed b p hne := by
    rw [owing_async]
    cases b with
    | false => exact Iff.rfl
    | true =>
      rw [if_pos rfl, hpending]
      apply List.mem_erase_of_ne
      rintro rfl
      exact hne rfl
  fewer b := by
    rw [owing_async]
    cases b with
    | false => exact List.Sublist.refl _
    | true =>
      rw [if_pos rfl, hpending]
      exact List.erase_sublist
  entries e hne := by
    rcases hreq with hreq | ⟨d, hreq⟩
    · rw [hreq]
    · rw [hreq, distinct.mem_erase, and_iff_right]
      rintro rfl
      exact hne rfl
  req := by
    rcases hreq with hreq | ⟨d, hreq⟩
    · rw [hreq]
    · rw [hreq]
      exact List.erase_sublist
  cfg := hcfg
  args := hargs
  frames _ _ := rfl

omit [Add τ] in
/-- The end of a call changes its block and the log. -/
theorem finish_frame (ev : EventState τ) (ptr : Nat) (arg : CmdAsyncArg τ) (elapsed : τ)
    (istmout : Bool) : (ev.finish ptr arg elapsed istmout).idx = ev.idx ∧
      (ev.finish ptr arg elapsed istmout).allocs = ev.allocs ∧
      (ev.finish ptr arg elapsed istmout).pending = ev.pending ∧
      (ev.finish ptr arg elapsed istmout).req = ev.req ∧
      (ev.finish ptr arg elapsed istmout).cfg = ev.cfg ∧
      ∀ other, other ≠ ptr → (ev.finish ptr arg elapsed istmout).args other = ev.args other := by
  unfold EventState.finish
  split
  · exact ⟨rfl, rfl, rfl, rfl, rfl, fun other hne => Function.update_of_ne hne _ _⟩
  · exact ⟨rfl, rfl, rfl, rfl, rfl, fun _ _ => rfl⟩

variable [Sub τ]

omit [Add τ] in
/-- The reply that closes an asynchronous call. -/
theorem cb_ends {ev : EventState τ} {cf : Slot} {arg : CmdAsyncArg τ}
    (hcfg : ev.cfg cf = ⟨1, some call⟩) (harg : ev.args call = some arg) (now : τ) (addr : UInt64)
    (r : Option RedisReply) : ∃ ev', redisCmdAsyncCb ev now addr cf r = some ev' ∧
      ev'.idx = ev.idx ∧ ev'.allocs = ev.allocs ∧ ev'.pending = ev.pending ∧
      ev'.req = ev.req.erase arg.timeout cf ∧ ev'.cfg = Function.update ev.cfg cf .idle ∧
      ∀ other, other ≠ call → ev'.args other = ev.args other := by
  let arg' : CmdAsyncArg τ := { arg with rv := redisrpRedisrvs2 r arg.rv addr }
  let ev₁ : EventState τ :=
    { ev with
      cfg := Function.update ev.cfg cf .idle
      args := Function.update ev.args call (some arg')
      req := ev.req.erase arg.timeout cf }
  have hcb : redisCmdAsyncCb ev now addr cf r =
      some (ev₁.finish call arg' (now - arg.callStamp) false) := by
    simp [redisCmdAsyncCb, hcfg, harg, EventState.setCf, EventState.setArg, CFlag.idle, ev₁, arg']
  refine ⟨_, hcb, ?_⟩
  obtain ⟨hidx, hallocs, hpending, hreq, hcfg', hargs⟩ :=
    finish_frame ev₁ call arg' (now - arg.callStamp) false
  refine ⟨hidx, hallocs, hpending, hreq, hcfg', ?_⟩
  intro other hne
  rw [hargs other hne]
  exact Function.update_of_ne hne _ _

variable [Zero τ]

/-- A reply to a command of `cmd_async` has a result, and is one for its call. -/
theorem Tracks.async_reply (tr : Tracks idx s uses) {p : Command} (hp : p ∈ s.ev.pending) (now : τ)
    (r : Option RedisReply) : ∃ ev' c u, uses p.call = some (c, u) ∧ c.isAsync = true ∧
      eventStep s.ev (.reply now p.call p.addr r) = some ev' ∧
      Tracks idx { s with ev := ev' } (Function.update uses p.call (some (c, u.reply c p.addr))) := by
  obtain ⟨c, u, hcall, hasync, haddr, hp', hfind⟩ := tr.find (b := true) hp
  obtain ⟨call, addr, cf⟩ := p
  obtain rfl : cf = slotOf idx call := congrArg Command.cf hp'
  dsimp only at hcall haddr hfind ⊢
  have hstep : eventStep s.ev (.reply now call addr r) =
      redisCmdAsyncCb (withoutCommand s.ev ⟨call, addr, slotOf idx call⟩) now addr (slotOf idx call) r := by
    rw [eventStep]
    rw [show s.ev.pending.find? _ = some _ from hfind]
    rfl
  have hold := tr.tracked _ _ _ hcall
  obtain ⟨a, rfl⟩ : ∃ a, c = .async a := by
    cases c with
    | sync a => cases hasync
    | async a => exact ⟨a, rfl⟩
  -- No frame is that of an asynchronous call.
  have hnoframe : ∀ frame, s.frames call ≠ some frame := by
    intro frame hframe
    obtain ⟨_, _, h, _⟩ := tr.frames call frame hframe
    rw [hcall] at h
    cases h
  rw [hstep]
  by_cases running : u.Running
  · have hcfg := hold.slot running
    obtain ⟨arg, harg, htime⟩ := hold.block running a rfl
    have hentry := hold.entry a rfl running.2
    have hlength := List.length_erase_of_mem haddr
    have hpos := List.length_pos_of_mem haddr
    by_cases hlast : u.left.erase addr = []
    · have hone : u.left.length = 1 := by
        rw [hlast, List.length_nil] at hlength
        omega
      rw [hone] at hcfg
      have hwithout : (withoutCommand s.ev ⟨call, addr, slotOf idx call⟩).cfg (slotOf idx call) =
          ⟨1, some call⟩ := hcfg
      obtain ⟨ev', hcb, hidx, hallocs, hpending, hreq, hcfg', hargs⟩ :=
        cb_ends hwithout harg now addr r
      refine ⟨ev', _, u, hcall, rfl, hcb, ?_⟩
      refine Tracks.reply tr hcall haddr ?_ hpending ?_ ?_ ?_ id ?_ ?_
      · refine async_touches hidx hallocs hpending (Or.inr ⟨_, hreq⟩) tr.distinct ?_ hargs
        intro i hi
        rw [hcfg']
        exact Function.update_of_ne hi _ _
      · exact fun _ _ h => absurd hlast ((Use.holds_of_reply haddr h).2 rfl)
      · intro e he hcf
        change e ∈ ev'.req at he
        rw [hreq, htime] at he
        obtain ⟨hne, hmem⟩ := tr.distinct.mem_erase.mp he
        exact absurd (tr.distinct.unique hmem hentry hcf) hne
      · exact fun frame hframe => absurd hframe (hnoframe frame)
      · rw [if_neg (fun h => h.2 hlast)]
        change ev'.cfg _ = _
        rw [hcfg', Function.update_self]
      · exact fun _ _ _ hmore => absurd hlast hmore
    · have hmore : 1 < u.left.length := by
        have := List.length_pos_of_ne_nil hlast
        omega
      refine ⟨_, _, u, hcall, rfl, cb_collected (s := withoutCommand s.ev ⟨call, addr, slotOf idx call⟩) hcfg harg
        hmore now addr r, ?_⟩
      refine tr.reply hcall haddr ?_ rfl ?_ ?_ ?_ id ?_ ?_
      · exact async_touches rfl rfl rfl (Or.inl rfl) tr.distinct
          (fun i hi => Function.update_of_ne hi _ _) (fun other hne => Function.update_of_ne hne _ _)
      · intro a' ha _
        cases ha
        exact hentry
      · intro e _ _
        refine Use.reply_holds.mpr ⟨running.2, fun _ hone => hlast ?_⟩
        rw [hone, List.erase_cons_head]
      · exact fun frame hframe => absurd hframe (hnoframe frame)
      · rw [if_pos ⟨running.2, hlast⟩]
        refine (Function.update_self ..).trans ?_
        rw [hlength, CFlag.mk.injEq]
        exact ⟨by omega, rfl⟩
      · intro a' ha _ _
        cases ha
        exact ⟨_, Function.update_self .., htime⟩
  · have hidle := tr.idle hcall (Or.inl (List.ne_nil_of_mem haddr)) running
    refine ⟨_, _, u, hcall, rfl, cb_ignored (s := withoutCommand s.ev ⟨call, addr, slotOf idx call⟩) hidle now addr r,
      tr.reply_ignored hcall haddr running ?_ rfl rfl rfl⟩
    exact async_touches rfl rfl rfl (Or.inl rfl) tr.distinct (fun _ _ => rfl) (fun _ _ => rfl)

end Replies

/-! ### Replies to synchronous calls -/

section SyncReplies
variable {addr : UInt64}

omit [Add τ] in
theorem sync_touches {cf : Slot} (hev : s'.ev = { s.ev with cfg := s'.ev.cfg })
    (hpending : s'.syncPending = s.syncPending.erase ⟨call, addr, cf⟩)
    (hcfg : ∀ i, i ≠ cf → s'.ev.cfg i = s.ev.cfg i)
    (hframes : ∀ other, other ≠ call → s'.frames other = s.frames other) :
    Touches s s' call cf where
  idx := by rw [hev]
  allocs := by rw [hev]
  owed b p hne := by
    cases b with
    | false =>
      change p ∈ s'.syncPending ↔ p ∈ s.syncPending
      rw [hpending]
      apply List.mem_erase_of_ne
      rintro rfl
      exact hne rfl
    | true =>
      change p ∈ s'.ev.pending ↔ _
      rw [hev]
      exact Iff.rfl
  fewer b := by
    cases b with
    | false =>
      change s'.syncPending.Sublist s.syncPending
      rw [hpending]
      exact List.erase_sublist
    | true =>
      change s'.ev.pending.Sublist _
      rw [hev]
      exact List.Sublist.refl _
  entries e _ := by rw [hev]
  req := by rw [hev]
  cfg := hcfg
  args _ _ := by rw [hev]
  frames := hframes

/-- A deadline entry is never that of a synchronous call. -/
theorem Tracks.no_entry (tr : Tracks idx s uses) {a : SyncCall} (hcall : uses call = some (.sync a, u))
    (live : u.Live) {e : τ × Slot} (he : e ∈ s.ev.req) : e.2 ≠ slotOf idx call := by
  intro hcf
  obtain ⟨other, b, u₁, h₁, hholds₁, rfl⟩ := tr.entries e he
  obtain rfl := tr.apart _ _ _ _ _ _ h₁ hcall (Or.inr hholds₁) live hcf
  rw [hcall] at h₁
  cases h₁

omit [Add τ] in
theorem cmdCb_ignored {cf : Slot} (h : s.ev.cfg cf = .idle) (addr : UInt64) (r : Option RedisReply) :
    redisCmdCb s addr cf r = some s := by
  simp [redisCmdCb, h, CFlag.idle]

omit [Add τ] in
theorem cmdCb_counted {cf : Slot} {n : Nat} {frame : CmdFrame} (hcfg : s.ev.cfg cf = ⟨n, some call⟩)
    (hframe : s.frames call = some frame) (hn : n ≠ 0) (addr : UInt64) (r : Option RedisReply) :
    redisCmdCb s addr cf r = some { s with
      ev := s.ev.setCf cf (if n = 1 then .idle else ⟨(n - 1 : Nat), some call⟩)
      frames := Function.update s.frames call (some { frame with
        rv := (redisrpRedisrvs r frame.rv frame.err addr).1
        err := (redisrpRedisrvs r frame.rv frame.err addr).2
        notified := frame.notified || n = 1 }) } := by
  have hone : n - 1 = 0 ↔ n = 1 := by omega
  have hpred : (n : Int) - 1 = (n - 1 : Nat) := by omega
  simp only [redisCmdCb, hcfg, hframe, Int.natCast_eq_zero, hn, if_false, hone, Option.bind_eq_bind,
    Option.bind_some, hpred]
  rfl

variable [Sub τ] [Zero τ]

/-- A reply to a command of `cmd` has a result, and is one for its call. -/
theorem Tracks.sync_reply (tr : Tracks idx s uses) {p : Command} (hp : p ∈ s.syncPending)
    (r : Option RedisReply) : ∃ s' c u, uses p.call = some (c, u) ∧ c.isAsync = false ∧
      loopStep s (.reply p.call p.addr r) = some s' ∧
      Tracks idx s' (Function.update uses p.call (some (c, u.reply c p.addr))) := by
  obtain ⟨c, u, hcall, hsync, haddr, hp', hfind⟩ := tr.find (b := false) hp
  obtain ⟨call, addr, cf⟩ := p
  obtain rfl : cf = slotOf idx call := congrArg Command.cf hp'
  dsimp only at hcall haddr hfind ⊢
  obtain ⟨a, rfl⟩ : ∃ a, c = .sync a := by
    cases c with
    | sync a => exact ⟨a, rfl⟩
    | async a => cases hsync
  have hstep : loopStep s (.reply call addr r) = redisCmdCb
      { s with syncPending := s.syncPending.erase ⟨call, addr, slotOf idx call⟩ } addr
        (slotOf idx call) r := by
    rw [loopStep]
    rw [show s.syncPending.find? _ = some _ from hfind]
    rfl
  have hold := tr.tracked _ _ _ hcall
  have hlive : u.Live := Or.inl (List.ne_nil_of_mem haddr)
  rw [hstep]
  by_cases running : u.Running
  · obtain ⟨frame, hframe, hcf, hdone⟩ := hold.frame a rfl running.2
    have hlength := List.length_erase_of_mem haddr
    have hpos := List.length_pos_of_mem haddr
    have hempty : u.left.length = 1 ↔ u.left.erase addr = [] := by
      rw [← List.length_eq_zero_iff, hlength]
      omega
    have hopen : frame.notified = false := Bool.eq_false_iff.mpr fun h => running.1 (hdone h)
    refine ⟨_, _, u, hcall, rfl, cmdCb_counted (s := { s with
      syncPending := s.syncPending.erase ⟨call, addr, slotOf idx call⟩ }) (hold.slot running) hframe
      (by omega) addr r, ?_⟩
    refine tr.reply hcall haddr ?_ rfl ?_ ?_ ?_ ?_ ?_ ?_
    · exact sync_touches rfl rfl (fun i hi => Function.update_of_ne hi _ _)
        (fun other hne => Function.update_of_ne hne _ _)
    · exact fun _ ha => nomatch ha
    · exact fun e he hsame => absurd hsame (tr.no_entry hcall hlive he)
    · intro frame' hframe'
      dsimp only at hframe'
      rw [Function.update_self, Option.some_inj] at hframe'
      subst hframe'
      refine ⟨a, rfl, running.2, hcf, ?_⟩
      simp only [hopen, Bool.false_or, decide_eq_true_eq, hempty]
      exact id
    · exact fun _ => Option.isSome_iff_exists.mpr ⟨_, Function.update_self ..⟩
    · refine (Function.update_self ..).trans ?_
      rw [hlength]
      by_cases hlast : u.left.length = 1
      · rw [if_pos hlast, if_neg (fun h => h.2 (hempty.mp hlast))]
      · rw [if_neg hlast, if_pos ⟨running.2, fun h => hlast (hempty.mpr h)⟩]
    · exact fun _ ha => nomatch ha
  · have hidle := tr.idle hcall hlive running
    refine ⟨_, _, u, hcall, rfl, cmdCb_ignored (s := { s with
      syncPending := s.syncPending.erase ⟨call, addr, slotOf idx call⟩ }) hidle addr r,
      tr.reply_ignored hcall haddr running ?_ rfl rfl rfl⟩
    exact sync_touches rfl rfl (fun _ _ => rfl) (fun _ _ => rfl)

end SyncReplies

/-! ### The end of a wait -/

section Pass

/-- A call that passes its wait uses its slot only for the replies that are missing. -/
theorem Tracks.pass (tr : Tracks idx s uses) {istmout : Bool} (enabled : LoopEnabled s (.pass call istmout)) :
    ∃ s' a u, uses call = some (.sync a, u) ∧ cmdPass s call istmout = some s' ∧
      Tracks idx s' (Function.update uses call (some (.sync a, u.release))) := by
  obtain ⟨frame, hframe, hmay⟩ := enabled
  obtain ⟨a, u, hcall, hholds⟩ := tr.frames call frame hframe
  have hold := tr.tracked _ _ _ hcall
  have hlive : u.Live := Or.inr hholds
  obtain ⟨frame', hframe', hcf, hdone⟩ := hold.frame a rfl hholds
  rw [hframe] at hframe'
  cases hframe'
  refine ⟨_, a, u, hcall, by rw [cmdPass, hframe]; rfl, ?_⟩
  have hidle : (if istmout then s.ev.setCf frame.cf .idle else s.ev).cfg (slotOf idx call) = .idle := by
    cases istmout with
    | true =>
      rw [hcf]
      exact Function.update_self ..
    | false =>
      apply tr.idle hcall hlive
      exact fun running => running.1 (hdone (hmay.resolve_left Bool.noConfusion))
  have hrest : (if istmout then s.ev.setCf frame.cf .idle else s.ev) =
      { s.ev with cfg := (if istmout then s.ev.setCf frame.cf .idle else s.ev).cfg } := by
    cases istmout <;> rfl
  have touch : Touches s { s with
      ev := if istmout then s.ev.setCf frame.cf .idle else s.ev
      frames := Function.update s.frames call none } call (slotOf idx call) := by
    constructor
    · rw [hrest]
    · rw [hrest]
    · intro b p _
      cases b with
      | false => exact Iff.rfl
      | true =>
        rw [owing, hrest]
        exact Iff.rfl
    · intro b
      cases b with
      | false => exact List.Sublist.refl _
      | true =>
        rw [owing, hrest]
        exact List.Sublist.refl _
    · intro e _
      rw [hrest]
    · rw [hrest]
    · intro i hi
      dsimp only
      split
      · exact Function.update_of_ne (hcf ▸ hi) _ _
      · rfl
    · intro other _
      rw [hrest]
    · exact fun other hne => Function.update_of_ne hne _ _
  refine tr.advance hcall hlive touch (fun h => Or.inl (h.resolve_right Bool.noConfusion)) ?_ ?_ ?_
    (Or.inl hidle)
  · refine ⟨hold.nodup, hold.owed, fun _ _ h => Bool.noConfusion h, fun _ _ h => Bool.noConfusion h,
      fun running => Bool.noConfusion running.2, fun running => Bool.noConfusion running.2⟩
  · intro e he hsame
    exact absurd hsame (tr.no_entry hcall hlive (touch.req.subset he))
  · intro frame' hframe'
    dsimp only at hframe'
    rw [Function.update_self] at hframe'
    cases hframe'

end Pass

/-! ### Ticks -/

section Ticks
variable [Sub τ]

/-- The uses after a tick. -/
def tickUses (stamp : τ) (uses : Uses τ) : Uses τ :=
  fun call => (uses call).map fun (c, u) => (c, u.tick c stamp)

omit [Sub τ] in
theorem Use.tick_release {a : AsyncCall τ} {stamp : τ} : u.release.tick (.async a) stamp = u.release := by
  unfold Use.tick
  dsimp only
  split <;> rfl

omit [Sub τ] in
theorem tickUses_update {a : AsyncCall τ} {stamp : τ} (hcall : uses call = some (.async a, u))
    (late : deadline a < stamp) :
    tickUses stamp (Function.update uses call (some (.async a, u.release))) = tickUses stamp uses := by
  funext other
  unfold tickUses
  by_cases heq : other = call
  · subst heq
    rw [Function.update_self, hcall, Option.map_some, Option.map_some]
    dsimp only
    rw [Use.tick_release]
    dsimp only [Use.tick]
    rw [if_pos late]
  · rw [Function.update_of_ne heq]

omit [Add τ] in
theorem timeoutEntry_ends {ev : EventState τ} {cf : Slot} {n : Nat} {arg : CmdAsyncArg τ}
    (hcfg : ev.cfg cf = ⟨n, some call⟩) (hn : n ≠ 0) (harg : ev.args call = some arg) (stamp : τ) :
    ∃ ev', timeoutEntry ev stamp cf = some ev' ∧ ev'.idx = ev.idx ∧ ev'.allocs = ev.allocs ∧
      ev'.pending = ev.pending ∧ ev'.req = ev.req ∧ ev'.cfg = Function.update ev.cfg cf .idle ∧
      ∀ other, other ≠ call → ev'.args other = ev.args other := by
  refine ⟨(ev.setCf cf .idle).finish call arg (stamp - arg.callStamp) true, ?_,
    finish_frame _ call arg (stamp - arg.callStamp) true⟩
  have hcount : (n : Int) ≠ 0 := by omega
  simp only [timeoutEntry, hcfg, hcount, if_false, harg, Option.bind_eq_bind, Option.bind_some]
  rfl

omit [Sub τ] [Add τ] in
theorem entry_touches {ev : EventState τ} {cf : Slot} {first : τ × Slot} {rest : List (τ × Slot)}
    (hreq : s.ev.req.entries = first :: rest) (hfirst : first.2 = cf) (hidx : ev.idx = s.ev.idx)
    (hallocs : ev.allocs = s.ev.allocs) (hpending : ev.pending = s.ev.pending)
    (hpop : ev.req = s.ev.req.popFront) (hcfg : ∀ i, i ≠ cf → ev.cfg i = s.ev.cfg i)
    (hargs : ∀ other, other ≠ call → ev.args other = s.ev.args other) :
    Touches s { s with ev := ev } call cf where
  idx := hidx
  allocs := hallocs
  owed b p _ := by
    rw [owing_async]
    split
    · next h => rw [h, hpending]; exact Iff.rfl
    · exact Iff.rfl
  fewer b := by
    rw [owing_async]
    split
    · next h => rw [h, hpending]; exact List.Sublist.refl _
    · exact List.Sublist.refl _
  entries e hne := by
    dsimp only
    rw [hpop, Multimap.mem_front hreq, or_iff_right]
    rintro rfl
    exact hne hfirst
  req := by
    dsimp only
    rw [hpop]
    exact List.tail_sublist _
  cfg := hcfg
  args := hargs
  frames _ _ := rfl

/-- An entry that is taken out ends its own call. -/
theorem Tracks.round (tr : Tracks idx s uses) {first : τ × Slot} {rest : List (τ × Slot)}
    (hreq : s.ev.req.entries = first :: rest) {stamp : τ} (late : first.1 < stamp) :
    ∃ ev' uses', timeoutEntry { s.ev with req := s.ev.req.popFront } stamp first.2 = some ev' ∧
      Tracks idx { s with ev := ev' } uses' ∧ tickUses stamp uses' = tickUses stamp uses ∧
      ev'.req.entries = rest := by
  have hrest : s.ev.req.popFront.entries = rest := congrArg List.tail hreq
  have hfirst : first ∈ s.ev.req := (Multimap.mem_front hreq).mpr (Or.inl rfl)
  obtain ⟨call, a, u, hcall, hholds, rfl⟩ := tr.entries first hfirst
  have hold := tr.tracked _ _ _ hcall
  have hlive : u.Live := Or.inr hholds
  have hgone : ∀ e ∈ s.ev.req.popFront, e.2 ≠ slotOf idx call := by
    intro e he hsame
    have hmem : e ∈ s.ev.req := (Multimap.mem_front hreq).mpr (Or.inr he)
    have heq := tr.distinct.unique hmem hfirst hsame
    have hnodup := List.Nodup.of_map _ tr.distinct
    rw [hreq] at hnodup
    rw [Multimap.mem_def, hrest, heq] at he
    exact (List.nodup_cons.mp hnodup).1 he
  have hnoframe : ∀ frame, s.frames call ≠ some frame := by
    intro frame hframe
    obtain ⟨_, _, h, _⟩ := tr.frames call frame hframe
    rw [hcall] at h
    cases h
  -- Whatever the slot said, the call is released.
  have hreleased : ∀ ev' : EventState τ, ev'.pending = s.ev.pending → ev'.req = s.ev.req.popFront →
      ev'.cfg (slotOf idx call) = .idle → Touches s { s with ev := ev' } call (slotOf idx call) →
      Tracks idx { s with ev := ev' } (Function.update uses call (some (.async a, u.release))) := by
    intro ev' hpending hpop hidle touch
    refine tr.advance hcall hlive touch (fun h => Or.inl (h.resolve_right Bool.noConfusion)) ?_ ?_ ?_
      (Or.inl hidle)
    · refine ⟨hold.nodup, ?_, fun _ _ h => Bool.noConfusion h, fun _ _ h => Bool.noConfusion h,
        fun running => Bool.noConfusion running.2, fun running => Bool.noConfusion running.2⟩
      intro addr
      rw [Use.release, hold.owed addr]
      change _ ↔ _ ∈ ev'.pending
      rw [hpending]
      exact Iff.rfl
    · intro e he hsame
      change e ∈ ev'.req at he
      rw [hpop] at he
      exact absurd hsame (hgone e he)
    · exact fun frame hframe => absurd hframe (hnoframe frame)
  by_cases running : u.Running
  · obtain ⟨arg, harg, _⟩ := hold.block running a rfl
    have hcount : u.left.length ≠ 0 := fun h => running.1 (List.eq_nil_of_length_eq_zero h)
    have hslot : ({ s.ev with req := s.ev.req.popFront } : EventState τ).cfg (slotOf idx call) = _ :=
      hold.slot running
    obtain ⟨ev', hentry, hidx, hallocs, hpending, hpop, hcfg, hargs⟩ :=
      timeoutEntry_ends hslot hcount harg stamp
    refine ⟨ev', _, hentry, hreleased ev' hpending hpop ?_ ?_, tickUses_update hcall late, ?_⟩
    · rw [hcfg]
      exact Function.update_self ..
    · refine entry_touches hreq rfl hidx hallocs hpending hpop ?_ hargs
      intro i hi
      rw [hcfg]
      exact Function.update_of_ne hi _ _
    · rw [hpop, hrest]
  · have hidle := tr.idle hcall hlive running
    refine ⟨_, _, timeoutEntry_idle (s := { s.ev with req := s.ev.req.popFront }) hidle stamp,
      hreleased _ rfl rfl hidle ?_, tickUses_update hcall late, hrest⟩
    exact entry_touches hreq rfl rfl rfl rfl rfl (fun _ _ => rfl) (fun _ _ => rfl)

/-- The loop ends the calls that are late; the entries that it leaves are not. -/
theorem Tracks.rounds (stamp : τ) (rounds : Nat) {ev : EventState τ} {uses : Uses τ}
    (tr : Tracks idx { s with ev := ev } uses) (hrounds : ev.req.entries.length ≤ rounds) :
    ∃ ev' uses', timeoutLoop stamp rounds ev = some ev' ∧ Tracks idx { s with ev := ev' } uses' ∧
      tickUses stamp uses' = tickUses stamp uses ∧ ∀ e ∈ ev'.req, ¬ e.1 < stamp := by
  induction rounds generalizing ev uses with
  | zero =>
    have hnil : ev.req.entries = [] := List.eq_nil_of_length_eq_zero (by omega)
    refine ⟨ev, uses, rfl, tr, rfl, ?_⟩
    intro e he
    rw [Multimap.mem_def, hnil] at he
    cases he
  | succ rounds ih =>
    cases hreq : ev.req.entries with
    | nil =>
      refine ⟨ev, uses, ?_, tr, rfl, ?_⟩
      · simp only [timeoutLoop, hreq]
      · intro e he
        rw [Multimap.mem_def, hreq] at he
        cases he
    | cons first rest =>
      by_cases late : first.1 < stamp
      · obtain ⟨ev₁, uses₁, hentry, tr₁, hsame₁, hrest⟩ := tr.round hreq late
        rw [hreq, List.length_cons] at hrounds
        obtain ⟨ev₂, uses₂, hloop, tr₂, hsame₂, hnot⟩ := ih tr₁ (by rw [hrest]; omega)
        refine ⟨ev₂, uses₂, ?_, tr₂, hsame₂.trans hsame₁, hnot⟩
        simp only [timeoutLoop, hreq, if_pos late, hentry]
        exact hloop
      · refine ⟨ev, uses, ?_, tr, rfl, ?_⟩
        · simp only [timeoutLoop, hreq, if_neg late]
        · intro e he hlt
          exact late ((Multimap.front_le hreq he).trans_lt hlt)

/-- A tick has a result, and is one for every call. -/
theorem Tracks.tick (tr : Tracks idx s uses) (stamp : τ) :
    ∃ ev', timeoutCallback s.ev stamp = some ev' ∧ Tracks idx { s with ev := ev' } (tickUses stamp uses) := by
  obtain ⟨ev', uses', hloop, tr', hsame, hnot⟩ :=
    Tracks.rounds stamp _ (show Tracks idx { s with ev := s.ev } uses from tr) (Nat.le_refl _)
  refine ⟨ev', hloop, ?_⟩
  -- No call is late any more.
  have hdone : tickUses stamp uses' = uses' := by
    funext call
    unfold tickUses
    cases hcall : uses' call with
    | none => rfl
    | some entry =>
      obtain ⟨c, u⟩ := entry
      cases c with
      | sync a => rfl
      | async a =>
        have htick : u.tick (.async a) stamp = u := by
          unfold Use.tick
          dsimp only
          split
          · next late =>
            cases hholds : u.holds with
            | true => exact absurd late (hnot _ ((tr'.tracked _ _ _ hcall).entry a rfl hholds))
            | false =>
              rw [Use.release, ← hholds]
          · rfl
        rw [Option.map_some]
        dsimp only
        rw [htick]
  rw [← hsame, hdone]
  exact tr'

end Ticks
end Tracks

end RedisCluster.Guarantees
