import RedisCluster.Guarantees.Frames
import RedisCluster.Guarantees.MalformedMessages

/-!
# The old calls and the messages

A connection layer may use `from_sublayer_synok` and the frames of `from_sublayer_old`, or the
messages of `from_sublayer`. Only the handlers of the messages look at the user id.
-/

set_option autoImplicit false

namespace RedisCluster.Guarantees
open Library Source

/-- What a connection layer tells of a session. -/
inductive Said where
  | synOk (uid conn : Int64) (cliTp : Int32) (ver : Str) (data : Std.ExtTreeMap Str Str)
  | fin (uid conn : Int64) (send recv : Int32)
  /-- The stamp at which the session is to be removed. -/
  | finDelay (uid conn : Int64) (send recv stamp : Int32)
  | upidx (uid conn : Int64) (send recv cliTp : Int32)

namespace Said

def uid : Said → Int
  | .synOk uid .. => uid.toInt
  | .fin uid .. => uid.toInt
  | .finDelay uid .. => uid.toInt
  | .upidx uid .. => uid.toInt

/-- The handler of the message that says it. -/
def handle : Said → PHandle
  | .synOk .. => .synOk
  | .fin .. => .fin
  | .finDelay .. => .finDelay
  | .upidx .. => .upidx

end Said

/-- It is said at this time, through the old calls or as the message `pro`. -/
structure Telling where
  now : Int
  sublayerIndex : Str
  said : Said
  pro : Str
  old : Bool
  /-- What lies behind the frame in memory. -/
  beyond : Memory

/-- The message says the same. Of a `fin_delay` it has the time that is left, not the stamp. -/
def Tells (parse : ParseFromString) (t : Telling) : Prop :=
  ∃ rid sub, match t.said with
    | .synOk uid conn cliTp ver data =>
      parse.proHead t.pro = (true, ⟨2, conn.toInt, 1, rid, uid.toInt, sub⟩) ∧
        (parse.proSynOk sub).2 =
          ⟨cliTp.toInt, ver, data.toList.map fun entry => ⟨entry.1, entry.2⟩⟩
    | .fin uid conn send recv =>
      parse.proHead t.pro = (true, ⟨3, conn.toInt, send.toInt, recv.toInt, uid.toInt, sub⟩)
    | .finDelay uid conn send recv stamp =>
      parse.proHead t.pro = (true, ⟨4, conn.toInt, send.toInt, recv.toInt, uid.toInt, sub⟩) ∧
        toInt32 (t.now + (parse.proFinDelay sub).2.expire) = stamp.toInt
    | .upidx uid conn send recv cliTp =>
      parse.proHead t.pro = (true, ⟨7, conn.toInt, send.toInt, recv.toInt, uid.toInt, sub⟩) ∧
        (parse.proUpidx sub).2.cliTp = cliTp.toInt

section Calls
variable {σ : Type} (lc : LogicCore σ)

def frameCall (t : Telling) (frame : List UInt8) (s : σ) : List HookCall × σ :=
  let run := lc.fromSublayerOld t.beyond t.now t.sublayerIndex frame s
  (run.calls, run.state)

def oldCall (t : Telling) (s : σ) : List HookCall × σ :=
  match t.said with
  | .synOk uid conn cliTp ver data =>
    lc.fromSublayerSynok t.now uid.toInt conn.toInt cliTp.toInt ver t.sublayerIndex data s
  | .fin uid conn send recv => frameCall lc t (finFrame conn send recv uid) s
  | .finDelay uid conn send recv stamp =>
    frameCall lc t (finDelayFrame conn send recv uid stamp) s
  | .upidx uid conn send recv cliTp => frameCall lc t (upidxFrame conn send recv uid cliTp) s

def newCall (t : Telling) (s : σ) : List HookCall × σ :=
  lc.fromSublayer t.now t.sublayerIndex t.pro s

/-- One thing after the other. -/
def toldRun (call : Telling → σ → List HookCall × σ) : List Telling → σ → List HookCall × σ
  | [], s => ([], s)
  | t :: ts, s =>
    let (calls, s) := call t s
    let (calls', s) := toldRun call ts s
    (calls ++ calls', s)

/-- Both ways, as it comes. -/
def mixedCall (t : Telling) : σ → List HookCall × σ :=
  if t.old then oldCall lc t else newCall lc t

variable {lc} {t : Telling} {s : σ}

/-! ## One call -/

theorem frameCall_eq (frame : List UInt8) :
    frameCall lc t frame s =
      lc.serveFrame s (lc.fromSublayerOld t.beyond t.now t.sublayerIndex frame s).request := by
  unfold frameCall LogicCore.fromSublayerOld
  split <;> rfl

/-- What an old call does: that of the handler, without its check. -/
theorem oldCall_eq : oldCall lc t s = match t.said with
    | .synOk uid conn cliTp ver data =>
      (lc.synFn 100 uid.toInt ⟨⟨conn.toInt, ⟨1, 0⟩, t.sublayerIndex⟩, t.now, cliTp.toInt, ver,
        data.toList.flatMap fun entry => [entry.1, entry.2]⟩ s).2
    | .fin uid conn send recv =>
      lc.serveFrame s
        (some (uid.toInt, .fin ⟨conn.toInt, ⟨send.toInt, recv.toInt⟩, t.sublayerIndex⟩))
    | .finDelay uid conn send recv stamp =>
      (lc.finDelayFn 100 uid.toInt
        ⟨⟨conn.toInt, ⟨send.toInt, recv.toInt⟩, t.sublayerIndex⟩, stamp.toInt⟩ s).2
    | .upidx uid conn send recv cliTp =>
      (lc.upidxFn 100 uid.toInt
        ⟨⟨conn.toInt, ⟨send.toInt, recv.toInt⟩, t.sublayerIndex⟩, t.now, cliTp.toInt, []⟩ s).2 := by
  unfold oldCall
  cases t.said with
  | synOk uid conn cliTp ver data => rfl
  | fin uid conn send recv =>
    dsimp only
    rw [frameCall_eq, finFrame_request]
  | finDelay uid conn send recv stamp =>
    dsimp only
    rw [frameCall_eq, finDelayFrame_request]
    rfl
  | upidx uid conn send recv cliTp =>
    dsimp only
    rw [frameCall_eq, upidxFrame_request]
    rfl

/-- What a message does is what its handler does. -/
theorem Tells.newCall_process (tells : Tells lc.parse t) : ∃ ph, ph.uid = t.said.uid ∧
    newCall lc t s = lc.process t.said.handle t.now t.sublayerIndex ph s := by
  obtain ⟨now, sublayerIndex, said, pro, old, beyond⟩ := t
  obtain ⟨rid, sub, tells⟩ := tells
  unfold newCall LogicCore.fromSublayer
  cases said with
  | synOk uid conn cliTp ver data => exact ⟨_, rfl, by rw [tells.1]; rfl⟩
  | fin uid conn send recv => exact ⟨_, rfl, by rw [tells]; rfl⟩
  | finDelay uid conn send recv stamp => exact ⟨_, rfl, by rw [tells.1]; rfl⟩
  | upidx uid conn send recv cliTp => exact ⟨_, rfl, by rw [tells.1]; rfl⟩

/-- For a user that the handlers accept both ways do the same. -/
theorem Tells.calls_agree (tells : Tells lc.parse t) (positive : 0 < t.said.uid) :
    oldCall lc t s = newCall lc t s := by
  obtain ⟨now, sublayerIndex, said, pro, old, beyond⟩ := t
  obtain ⟨rid, sub, tells⟩ := tells
  rw [oldCall_eq]
  unfold newCall LogicCore.fromSublayer
  cases said with
  | synOk uid conn cliTp ver data =>
    have huid : ¬ uid.toInt ≤ 0 := Int.not_le.mpr positive
    obtain ⟨hhead, hsub⟩ := tells
    rw [hhead]
    change _ = lc.processSynOk now sublayerIndex _ s
    unfold LogicCore.processSynOk
    dsimp only
    rw [if_neg huid, hsub, List.flatMap_map]
  | fin uid conn send recv =>
    have huid : ¬ uid.toInt ≤ 0 := Int.not_le.mpr positive
    rw [tells]
    change _ = lc.processFin sublayerIndex _ s
    unfold LogicCore.processFin LogicCore.serveFrame
    dsimp only
    rw [if_neg huid]
  | finDelay uid conn send recv stamp =>
    have huid : ¬ uid.toInt ≤ 0 := Int.not_le.mpr positive
    obtain ⟨hhead, hstamp⟩ := tells
    rw [hhead]
    change _ = lc.processFinDelay now sublayerIndex _ s
    unfold LogicCore.processFinDelay
    dsimp only
    rw [if_neg huid, hstamp]
  | upidx uid conn send recv cliTp =>
    have huid : ¬ uid.toInt ≤ 0 := Int.not_le.mpr positive
    obtain ⟨hhead, htype⟩ := tells
    rw [hhead]
    change _ = lc.processUpidx now sublayerIndex _ s
    unfold LogicCore.processUpidx
    dsimp only
    rw [if_neg huid, htype]

/-- The user of a hook that is called for one. -/
def callUid : HookCall → Option Int
  | .syn _ uid _ => some uid
  | .fin _ uid _ => some uid
  | .finDelay _ uid _ => some uid
  | .upidx _ uid _ => some uid
  | .offlineNotify uid _ => some uid
  | .timeoutRm .. => none
  | .offlineNotifyMulti _ => none

theorem callHook_mem {β : Type} {hook : Option (σ → β × σ)} {call c : HookCall} {unset : β}
    (h : c ∈ (callHook hook call unset s).2.1) : c = call := by
  cases hook with
  | none => cases h
  | some fn => exact List.mem_singleton.mp h

/-- `fin_fn`, and `offline_notify_fn` when it succeeds, for the same user. -/
theorem serveFin_uid {uid : Int} {pr : ProtoFin} {c : HookCall}
    (h : c ∈ (lc.serveFrame s (some (uid, .fin pr))).1) : callUid c = some uid := by
  unfold LogicCore.serveFrame at h
  dsimp only at h
  split at h
  · rcases List.mem_append.mp h with h | h
    · rw [callHook_mem h]
      rfl
    · rw [callHook_mem h]
      rfl
  · rw [callHook_mem h]
    rfl

theorem serveFin_calls {uid : Int} {pr : ProtoFin} :
    (lc.serveFrame s (some (uid, .fin pr))).1 = [] ↔ hooked lc .fin = false := by
  have hfin : (lc.finFn 100 uid pr s).2.1 = [] ↔ lc.finHook.isSome = false :=
    callHook_calls.trans (by rw [Option.isSome_map])
  unfold LogicCore.serveFrame
  dsimp only
  rw [hooked, Bool.or_eq_false_iff]
  split
  · rw [List.append_eq_nil_iff, hfin]
    exact and_congr_right fun _ => callHook_calls.trans (by rw [Option.isSome_map])
  · next hrv =>
    have hset : lc.finHook.isSome ≠ false := by
      intro hunset
      rw [Option.isSome_eq_false_iff, Option.isNone_iff_eq_none] at hunset
      rw [LogicCore.finFn, hunset] at hrv
      exact hrv rfl
    rw [hfin]
    exact iff_of_false hset fun h => hset h.1

/-- An old call is for the user it names. -/
theorem oldCall_uid {c : HookCall} (h : c ∈ (oldCall lc t s).1) : callUid c = some t.said.uid := by
  rw [oldCall_eq] at h
  obtain ⟨now, sublayerIndex, said, pro, old, beyond⟩ := t
  cases said with
  | synOk uid conn cliTp ver data =>
    rw [callHook_mem h]
    rfl
  | fin uid conn send recv => exact serveFin_uid h
  | finDelay uid conn send recv stamp =>
    rw [callHook_mem h]
    rfl
  | upidx uid conn send recv cliTp =>
    rw [callHook_mem h]
    rfl

theorem oldCall_calls : (oldCall lc t s).1 = [] ↔ hooked lc t.said.handle = false := by
  rw [oldCall_eq]
  obtain ⟨now, sublayerIndex, said, pro, old, beyond⟩ := t
  cases said with
  | synOk uid conn cliTp ver data => exact callHook_calls.trans (by rw [Option.isSome_map]; rfl)
  | fin uid conn send recv => exact serveFin_calls
  | finDelay uid conn send recv stamp => exact callHook_calls.trans (by rw [Option.isSome_map]; rfl)
  | upidx uid conn send recv cliTp => exact callHook_calls.trans (by rw [Option.isSome_map]; rfl)

/-- Without a hook it changes nothing. -/
theorem oldCall_idle (h : (oldCall lc t s).1 = []) : (oldCall lc t s).2 = s := by
  have hunset := oldCall_calls.mp h
  rw [oldCall_eq] at h ⊢
  obtain ⟨now, sublayerIndex, said, pro, old, beyond⟩ := t
  cases said with
  | synOk uid conn cliTp ver data => exact callHook_idle h
  | fin uid conn send recv =>
    rw [Said.handle, hooked, Bool.or_eq_false_iff, Option.isSome_eq_false_iff,
      Option.isSome_eq_false_iff, Option.isNone_iff_eq_none, Option.isNone_iff_eq_none] at hunset
    simp [LogicCore.serveFrame, LogicCore.finFn, LogicCore.offlineNotifyFn, callHook, hunset]
  | finDelay uid conn send recv stamp => exact callHook_idle h
  | upidx uid conn send recv cliTp => exact callHook_idle h

/-- The calls for a message are for users that its handler accepts. -/
theorem Tells.newCall_positive (tells : Tells lc.parse t) {c : HookCall} {uid : Int}
    (h : c ∈ (newCall lc t s).1) (user : callUid c = some uid) : 0 < uid := by
  obtain ⟨ph, hph, hprocess⟩ := @Tells.newCall_process σ lc t s tells
  by_cases positive : 0 < t.said.uid
  · rw [← @Tells.calls_agree σ lc t s tells positive] at h
    rw [oldCall_uid h, Option.some_inj] at user
    exact user ▸ positive
  · rw [hprocess, process_refuses _ (hph ▸ Int.not_lt.mp positive)] at h
    cases h

/-! ## Runs -/

/-- What the old call makes of it the handler would have made of it too. -/
def Accepted (lc : LogicCore σ) (t : Telling) : Prop :=
  t.old = true → 0 < t.said.uid ∨ hooked lc t.said.handle = false

theorem Tells.mixed_agree (tells : Tells lc.parse t) (accepted : Accepted lc t) :
    mixedCall lc t s = newCall lc t s := by
  unfold mixedCall
  split
  · next hold =>
    by_cases positive : 0 < t.said.uid
    · exact tells.calls_agree positive
    · have hunset := (accepted hold).resolve_left positive
      have hcalls := (@oldCall_calls σ lc t s).mpr hunset
      obtain ⟨ph, hph, hprocess⟩ := @Tells.newCall_process σ lc t s tells
      rw [hprocess, process_refuses _ (hph ▸ Int.not_lt.mp positive)]
      exact Prod.ext hcalls (oldCall_idle hcalls)
  · rfl

/-- Otherwise a hook is called for a user that no message is taken for. -/
theorem mixed_refused (refused : ¬ Accepted lc t) :
    ∃ c ∈ (mixedCall lc t s).1, ∃ uid, callUid c = some uid ∧ ¬ 0 < uid := by
  obtain ⟨hold, hneg⟩ := Classical.not_imp.mp refused
  obtain ⟨hpositive, hset⟩ := not_or.mp hneg
  rw [mixedCall, if_pos hold]
  obtain ⟨c, hc⟩ := List.exists_mem_of_ne_nil _ fun h => hset ((@oldCall_calls σ lc t s).mp h)
  exact ⟨c, hc, _, oldCall_uid hc, hpositive⟩

variable {ts : List Telling}

theorem newRun_positive (tells : ∀ t ∈ ts, Tells lc.parse t) {c : HookCall} {uid : Int}
    (h : c ∈ (toldRun (newCall lc) ts s).1) (user : callUid c = some uid) : 0 < uid := by
  induction ts generalizing s with
  | nil => cases h
  | cons t ts ih =>
    rcases List.mem_append.mp h with h | h
    · exact (tells t List.mem_cons_self).newCall_positive h user
    · exact ih (fun t' ht' => tells t' (List.mem_cons_of_mem _ ht')) h

end Calls

/-- In any mix of old calls and messages the same hooks are called and the same state is reached as
if all had been messages, exactly if no old call is made for a user that is not positive, a call
without a hook apart. The messages are those that carry what the calls are given (`Tells`), and
frames have the length of their type. -/
theorem front_ends_agree_iff {σ : Type} (lc : LogicCore σ) (ts : List Telling)
    (tells : ∀ t ∈ ts, Tells lc.parse t) (s : σ) :
    toldRun (mixedCall lc) ts s = toldRun (newCall lc) ts s ↔ ∀ t ∈ ts, Accepted lc t := by
  induction ts generalizing s with
  | nil => simp [toldRun]
  | cons t ts ih =>
    have htells := tells t List.mem_cons_self
    have hrest := ih fun t' ht' => tells t' (List.mem_cons_of_mem _ ht')
    rw [List.forall_mem_cons]
    by_cases accepted : Accepted lc t
    · have hstep := @Tells.mixed_agree σ lc t s htells accepted
      rw [toldRun, toldRun, hstep, Prod.mk.injEq, List.append_cancel_left_eq, ← Prod.ext_iff, hrest]
      exact (and_iff_right accepted).symm
    · obtain ⟨c, hc, uid, huser, hneg⟩ := @mixed_refused σ lc t s accepted
      refine iff_of_false (fun heq => hneg ?_) fun h => accepted h.1
      have hmem : c ∈ (toldRun (mixedCall lc) (t :: ts) s).1 := List.mem_append_left _ hc
      rw [heq] at hmem
      exact newRun_positive tells hmem huser

/-! A user that has a number, and one that has none. -/

def toldParse : ParseFromString where
  proHead pro := (true, ⟨3, 1, 2, 0, if pro = ['7'] then 7 else 0, []⟩)
  proSyn _ := true
  proSynOk _ := (true, ⟨0, [], []⟩)
  proUpidx _ := (true, ⟨0, []⟩)
  proFin _ := true
  proFinDelay _ := (true, ⟨0⟩)

def toldCore : LogicCore Unit where
  parse := toldParse
  synHook := none
  finHook := some fun _ _ _ s => ((0, []), s)
  finDelayHook := none
  upidxHook := none
  timeoutRmHook := none
  offlineNotifyHook := none
  offlineNotifyMultiHook := none

def tellSeven : Telling := ⟨5, ['g'], .fin 7 1 2 0, ['7'], true, fun _ => 0⟩

def tellZero : Telling := ⟨5, ['g'], .fin 0 1 2 0, ['0'], true, fun _ => 0⟩

theorem front_ends_agree_iff_example :
    toldRun (mixedCall toldCore) [tellSeven] () = toldRun (newCall toldCore) [tellSeven] () ∧
      toldRun (mixedCall toldCore) [tellSeven, tellZero] () ≠
        toldRun (newCall toldCore) [tellSeven, tellZero] () := by
  have hseven : Tells toldCore.parse tellSeven := ⟨0, [], rfl⟩
  have hzero : Tells toldCore.parse tellZero := ⟨0, [], rfl⟩
  constructor
  · refine (front_ends_agree_iff toldCore [tellSeven] (fun t ht => ?_) ()).mpr fun t ht _ => ?_
    · exact List.mem_singleton.mp ht ▸ hseven
    · exact Or.inl (List.mem_singleton.mp ht ▸ by decide)
  · intro h
    have htells := List.forall_mem_cons.mpr ⟨hseven, List.forall_mem_singleton.mpr hzero⟩
    have haccepted := (front_ends_agree_iff toldCore [tellSeven, tellZero] htells ()).mp h
      tellZero (by simp) rfl
    revert haccepted
    decide

end RedisCluster.Guarantees
