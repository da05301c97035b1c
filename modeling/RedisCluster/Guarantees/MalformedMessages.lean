import RedisCluster.Source.LogicCore

/-!
# Malformed messages

A message whose head does not parse calls no hook. The handlers go on when the rest of the message
does not parse, with whatever the parser has left in it.
-/

set_option autoImplicit false

namespace RedisCluster.Guarantees
open Library Source

variable {σ : Type} {lc : LogicCore σ} {now : Int} {sublayerIndex pro : Str} {s : σ}

/-- Whether `sub_pro` parses as the message of this handler. -/
def subParses (parse : ParseFromString) : PHandle → Str → Bool
  | .syn, sub => parse.proSyn sub
  | .synOk, sub => (parse.proSynOk sub).1
  | .upidx, sub => (parse.proUpidx sub).1
  | .fin, sub => parse.proFin sub
  | .finDelay, sub => (parse.proFinDelay sub).1

/-- The head does not parse, or it does and the rest does not parse as what the head says. -/
def Malformed (parse : ParseFromString) (pro : Str) : Prop :=
  (parse.proHead pro).1 = false ∨ ∃ handle, pHandle (parse.proHead pro).2.type = some handle ∧
    subParses parse handle (parse.proHead pro).2.subPro = false

/-- A hook that the handler calls is set. `fin` without `fin_fn` notifies at once. -/
def hooked (lc : LogicCore σ) : PHandle → Bool
  | .syn => false
  | .synOk => lc.synHook.isSome
  | .upidx => lc.upidxHook.isSome
  | .fin => lc.finHook.isSome || lc.offlineNotifyHook.isSome
  | .finDelay => lc.finDelayHook.isSome

theorem callHook_calls {β : Type} {hook : Option (σ → β × σ)} {call : HookCall} {unset : β} :
    (callHook hook call unset s).2.1 = [] ↔ hook.isSome = false := by
  cases hook <;> simp [callHook]

theorem callHook_idle {β : Type} {hook : Option (σ → β × σ)} {call : HookCall} {unset : β}
    (h : (callHook hook call unset s).2.1 = []) : (callHook hook call unset s).2.2 = s := by
  cases hook with
  | none => rfl
  | some fn => cases h

section Handlers
variable {ph : ProHead}

/-- A user id that is not positive is refused. -/
theorem process_refuses (handle : PHandle) (h : ph.uid ≤ 0) :
    lc.process handle now sublayerIndex ph s = ([], s) := by
  cases handle with
  | syn => rfl
  | synOk => exact if_pos h
  | upidx => exact if_pos h
  | fin => exact if_pos h
  | finDelay => exact if_pos h

theorem processFin_calls (h : ¬ ph.uid ≤ 0) :
    (lc.processFin sublayerIndex ph s).1 = [] ↔ hooked lc .fin = false := by
  unfold LogicCore.processFin
  rw [if_neg h]
  cases hfin : lc.finHook with
  | none =>
    have hunset : ∀ proto : ProtoFin, lc.finFn 100 ph.uid proto s = ((0, []), [], s) := by
      intro proto
      rw [LogicCore.finFn, hfin]
      rfl
    simp only [hunset, if_true, List.nil_append]
    rw [LogicCore.offlineNotifyFn, callHook_calls, Option.isSome_map, hooked, hfin]
    rfl
  | some fn =>
    have hcalls : ∀ proto : ProtoFin, (lc.finFn 100 ph.uid proto s).2.1 = [.fin 100 ph.uid proto] := by
      intro proto
      rw [LogicCore.finFn, hfin]
      rfl
    apply iff_of_false
    · dsimp only
      split <;> simp [hcalls]
    · simp [hooked, hfin]

/-- Whether the rest of the message parses makes no difference. -/
theorem process_calls (handle : PHandle) (h : ¬ ph.uid ≤ 0) :
    (lc.process handle now sublayerIndex ph s).1 = [] ↔ hooked lc handle = false := by
  cases handle with
  | syn => simp [LogicCore.process, hooked]
  | synOk =>
    rw [LogicCore.process, LogicCore.processSynOk]
    dsimp only
    rw [if_neg h]
    exact callHook_calls.trans (by rw [Option.isSome_map, hooked])
  | upidx =>
    rw [LogicCore.process, LogicCore.processUpidx]
    dsimp only
    rw [if_neg h]
    exact callHook_calls.trans (by rw [Option.isSome_map, hooked])
  | fin => exact processFin_calls h
  | finDelay =>
    rw [LogicCore.process, LogicCore.processFinDelay]
    dsimp only
    rw [if_neg h]
    exact callHook_calls.trans (by rw [Option.isSome_map, hooked])

/-- Without a call nothing changes. -/
theorem process_idle {handle : PHandle} (h : (lc.process handle now sublayerIndex ph s).1 = []) :
    (lc.process handle now sublayerIndex ph s).2 = s := by
  by_cases huid : ph.uid ≤ 0
  · rw [process_refuses handle huid]
  · have hunset := (process_calls handle huid).mp h
    cases handle with
    | syn => rfl
    | synOk =>
      rw [LogicCore.process, LogicCore.processSynOk] at h ⊢
      dsimp only at h ⊢
      rw [if_neg huid] at h ⊢
      exact callHook_idle h
    | upidx =>
      rw [LogicCore.process, LogicCore.processUpidx] at h ⊢
      dsimp only at h ⊢
      rw [if_neg huid] at h ⊢
      exact callHook_idle h
    | fin =>
      rw [hooked, Bool.or_eq_false_iff, Option.isSome_eq_false_iff, Option.isSome_eq_false_iff,
        Option.isNone_iff_eq_none, Option.isNone_iff_eq_none] at hunset
      rw [LogicCore.process, LogicCore.processFin, if_neg huid]
      simp [LogicCore.finFn, LogicCore.offlineNotifyFn, callHook, hunset]
    | finDelay =>
      rw [LogicCore.process, LogicCore.processFinDelay] at h ⊢
      dsimp only at h ⊢
      rw [if_neg huid] at h ⊢
      exact callHook_idle h

end Handlers

/-- A malformed message calls no hook, and changes nothing, exactly if its head does not parse, its
user id is not positive or its handler has no hook to call. The parser is any function: what
protobuf accepts is not modelled. -/
theorem malformed_calls_nothing_iff (malformed : Malformed lc.parse pro) :
    ((lc.fromSublayer now sublayerIndex pro s).1 = [] ↔
      (lc.parse.proHead pro).1 = false ∨ (lc.parse.proHead pro).2.uid ≤ 0 ∨
        ∀ handle, pHandle (lc.parse.proHead pro).2.type = some handle → hooked lc handle = false) ∧
    ((lc.fromSublayer now sublayerIndex pro s).1 = [] →
      (lc.fromSublayer now sublayerIndex pro s).2 = s) := by
  unfold LogicCore.fromSublayer
  dsimp only
  by_cases hhead : (lc.parse.proHead pro).1 = false
  · rw [if_pos hhead]
    exact ⟨iff_of_true rfl (Or.inl hhead), fun _ => rfl⟩
  · obtain ⟨handle, hhandle, _⟩ := malformed.resolve_left hhead
    rw [if_neg hhead, hhandle]
    refine ⟨?_, process_idle⟩
    by_cases huid : (lc.parse.proHead pro).2.uid ≤ 0
    · dsimp only
      rw [process_refuses handle huid]
      exact iff_of_true rfl (Or.inr (Or.inl huid))
    · rw [process_calls handle huid]
      simp [hhead, huid]

/-! ## A message with a broken rest -/

/-- `ProHead` with type 4, connection 2, send index 1, user 7 and a `sub_pro` of the byte
255, which is no message. -/
def brokenMessage : Str := [8, 4, 16, 2, 24, 1, 40, 7, 202, 62, 1, 255].map Char.ofNat

def brokenParse : ParseFromString where
  proHead pro := (pro = brokenMessage, ⟨4, 2, 1, 0, 7, [Char.ofNat 255]⟩)
  proSyn _ := false
  proSynOk _ := (false, ⟨0, [], []⟩)
  proUpidx _ := (false, ⟨0, []⟩)
  proFin _ := false
  proFinDelay _ := (false, ⟨0⟩)

def exampleCore : LogicCore Unit where
  parse := brokenParse
  synHook := none
  finHook := none
  finDelayHook := some fun _ _ _ s => (0, s)
  upidxHook := none
  timeoutRmHook := none
  offlineNotifyHook := none
  offlineNotifyMultiHook := none

def unhookedCore : LogicCore Unit := { exampleCore with finDelayHook := none }

/-- No head, and then a `sub_pro` that does not parse, for a handler without its hook. -/
theorem malformed_calls_nothing_example :
    (exampleCore.fromSublayer 40 ['g'] [] ()).1 = [] ∧
      (unhookedCore.fromSublayer 40 ['g'] brokenMessage ()).1 = [] := by
  have headless : Malformed exampleCore.parse [] := Or.inl (by decide +kernel)
  have broken : Malformed unhookedCore.parse brokenMessage := Or.inr ⟨.finDelay, rfl, rfl⟩
  refine ⟨(malformed_calls_nothing_iff headless).1.mpr (Or.inl (by decide +kernel)), ?_⟩
  refine (malformed_calls_nothing_iff broken).1.mpr (Or.inr (Or.inr fun handle hhandle => ?_))
  obtain rfl := Option.some.inj hhandle
  rfl

/-- The session is to be removed from this moment on. -/
theorem broken_message_calls :
    Malformed exampleCore.parse brokenMessage ∧
      (exampleCore.fromSublayer 40 ['g'] brokenMessage ()).1 =
        [.finDelay 100 7 ⟨⟨2, ⟨1, 0⟩, ['g']⟩, 40⟩] := by
  refine ⟨Or.inr ⟨.finDelay, rfl, rfl⟩, ?_⟩
  rfl

end RedisCluster.Guarantees
