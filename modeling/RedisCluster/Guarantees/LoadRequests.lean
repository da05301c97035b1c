import RedisCluster.Library.Run
import RedisCluster.Source.ScriptLoads

/-!
# Requests to load a script

An address that is added between the swap and the reset of a lookup waits in `addrs_` while
`need_load_` is false, until the next address is added. Without such an address every lookup that
comes next loads what waits. The lock of
the source is held for the swap only, not up to the reset.
-/

set_option autoImplicit false

namespace RedisCluster.Guarantees
open Library Source

/-! ## What waits -/

/-- Any threads may look up and any addresses may be added, in any order. -/
abbrev LoadRun : LoadState → List LoadEvent → LoadState → Prop := Run (fun _ _ => True) loadStep

/-- No `lookup_sha1` is in progress. -/
def NoLookup (s : LoadState) : Prop := ∀ t, s.threads t = .out

def addedBy : LoadEvent → Option UInt64
  | .add addr => some addr
  | _ => none

def isSwap : LoadEvent → Bool
  | .swap _ => true
  | _ => false

def isReset : LoadEvent → Bool
  | .reset _ => true
  | _ => false

/-- The addresses that were added since the last of these events. -/
def addedSince (stops : LoadEvent → Bool) (es : List LoadEvent) : List UInt64 :=
  es.foldl (fun addrs e => if stops e then [] else addrs ++ (addedBy e).toList) []

/-- Where addresses wait the flag is set, and they have all been sent a `SCRIPT LOAD` by the time
that a lookup has been made and none is in progress. -/
structure NothingLost (es : List LoadEvent) (s : LoadState) : Prop where
  flagged : s.script.addrs.isEmpty = false → s.script.needLoad = true
  next : ∀ rest t s', LoadRun s rest s' → .enter t ∈ rest → NoLookup s' →
    ∃ new, s'.loads = s.loads ++ new ∧ ∀ a ∈ addedSince isSwap es, ∃ addrs ∈ new, a ∈ addrs

section Waiting
variable {es : List LoadEvent} {s s' : LoadState} {e : LoadEvent}

theorem addedSince_snoc {stops : LoadEvent → Bool} : addedSince stops (es ++ [e]) =
    if stops e then [] else addedSince stops es ++ (addedBy e).toList :=
  List.foldl_concat ..

/-- What waits is what was added since the last swap. -/
theorem mem_addrs (run : LoadRun .init es s) (a : UInt64) :
    a ∈ s.script.addrs ↔ a ∈ addedSince isSwap es := by
  refine Run.invariant (P := fun es s => ∀ a, a ∈ s.script.addrs ↔ a ∈ addedSince isSwap es) ?_ ?_ run a
  · intro a
    exact iff_of_false Std.ExtTreeSet.not_mem_empty List.not_mem_nil
  · intro es s e s' hsame _ next a
    rw [addedSince_snoc]
    cases e with
    | add addr =>
      cases next
      rw [ScriptT.add, Ordered.mem_insert, hsame]
      simp [isSwap, addedBy, or_comm]
    | enter t =>
      obtain ⟨_, rfl⟩ := loadStep_enter.mp next
      simpa [isSwap, addedBy] using hsame a
    | swap t =>
      obtain ⟨_, rfl⟩ := loadStep_swap.mp next
      exact iff_of_false Std.ExtTreeSet.not_mem_empty List.not_mem_nil
    | load t =>
      obtain ⟨_, _, rfl⟩ := loadStep_load.mp next
      simpa [isSwap, addedBy] using hsame a
    | reset t =>
      obtain ⟨_, rfl⟩ := loadStep_reset.mp next
      simpa [isSwap, addedBy] using hsame a

/-- The flag is set exactly if an address was added since the last reset. -/
theorem needLoad_iff (run : LoadRun .init es s) :
    s.script.needLoad = true ↔ addedSince isReset es ≠ [] := by
  refine Run.invariant (P := fun es s => s.script.needLoad = true ↔ addedSince isReset es ≠ []) ?_ ?_ run
  · exact iff_of_false Bool.false_ne_true fun h => h rfl
  · intro es s e s' hsame _ next
    rw [addedSince_snoc]
    cases e with
    | add addr =>
      cases next
      simp [ScriptT.add, isReset, addedBy]
    | enter t =>
      obtain ⟨_, rfl⟩ := loadStep_enter.mp next
      simpa [isReset, addedBy] using hsame
    | swap t =>
      obtain ⟨_, rfl⟩ := loadStep_swap.mp next
      simpa [isReset, addedBy] using hsame
    | load t =>
      obtain ⟨_, _, rfl⟩ := loadStep_load.mp next
      simpa [isReset, addedBy] using hsame
    | reset t =>
      obtain ⟨_, rfl⟩ := loadStep_reset.mp next
      exact iff_of_false Bool.false_ne_true fun h => h rfl

end Waiting

/-! ## What becomes of a waiting address -/

section Next
variable {rest : List LoadEvent} {s s' : LoadState} {a : UInt64}

theorem loads_grow (run : LoadRun s rest s') : ∃ new, s'.loads = s.loads ++ new := by
  refine Run.invariant (P := fun _ s' => ∃ new, s'.loads = s.loads ++ new) ⟨[], by simp⟩ ?_ run
  rintro es s₁ e s₂ ⟨new, hnew⟩ _ next
  cases e with
  | add addr =>
    cases next
    exact ⟨new, hnew⟩
  | enter t =>
    obtain ⟨_, rfl⟩ := loadStep_enter.mp next
    exact ⟨new, hnew⟩
  | swap t =>
    obtain ⟨_, rfl⟩ := loadStep_swap.mp next
    exact ⟨new, hnew⟩
  | load t =>
    obtain ⟨addrs, _, rfl⟩ := loadStep_load.mp next
    dsimp only
    split
    · exact ⟨new, hnew⟩
    · exact ⟨new ++ [addrs], by rw [hnew, List.append_assoc]⟩
  | reset t =>
    obtain ⟨_, rfl⟩ := loadStep_reset.mp next
    exact ⟨new, hnew⟩

/-- A waiting address: it still waits and the flag is set, a lookup has it, or it was sent the
command. -/
inductive Underway (before : LoadState) (rest : List LoadEvent) (s : LoadState) (a : UInt64) : Prop
  | waits (waiting : a ∈ s.script.addrs) (flagged : s.script.needLoad = true)
      (early : ∀ t, s.threads t = .out ∨ s.threads t = .entered)
      (entered : ∀ t, .enter t ∈ rest → ∃ u, s.threads u = .entered)
  | swapped (t : Nat) (addrs : AddrSet) (here : s.threads t = .swapped addrs) (mem : a ∈ addrs)
  | sent (new : List AddrSet) (loads : s.loads = before.loads ++ new)
      (addrs : AddrSet) (mem_new : addrs ∈ new) (mem : a ∈ addrs)

/-- A thread that has swapped stays there while others go on. -/
theorem goto_swapped {t u : Nat} {addrs : AddrSet} {pc : LookupPc} (here : s.threads u = .swapped addrs)
    (other : s.threads t ≠ .swapped addrs) : (s.goto t pc).threads u = .swapped addrs := by
  rw [goto_threads, if_neg, here]
  rintro rfl
  exact other here

/-- No step of a run loses an address. -/
theorem Underway.step {es : List LoadEvent} {s₁ s₂ : LoadState} {e : LoadEvent} (h : Underway s es s₁ a)
    (run : LoadRun s es s₁) (next : loadStep s₁ e = some s₂) : Underway s (es ++ [e]) s₂ a := by
  cases e with
  | add addr =>
    cases next
    cases h with
    | waits waiting flagged early entered =>
      refine .waits (Ordered.mem_insert.mpr (Or.inr waiting)) rfl early ?_
      intro t ht
      exact entered t (by simpa using ht)
    | swapped t addrs here mem => exact .swapped t addrs here mem
    | sent new loads addrs mem_new mem => exact .sent new loads addrs mem_new mem
  | enter t =>
    obtain ⟨hout, rfl⟩ := loadStep_enter.mp next
    cases h with
    | waits waiting flagged early entered =>
      rw [if_pos flagged]
      refine .waits waiting flagged ?_ fun u _ => ⟨t, by rw [goto_threads, if_pos rfl]⟩
      intro u
      rw [goto_threads]
      split
      · exact Or.inr rfl
      · exact early u
    | swapped u addrs here mem =>
      exact .swapped u addrs (goto_swapped here (by simp [hout])) mem
    | sent new loads addrs mem_new mem => exact .sent new loads addrs mem_new mem
  | swap t =>
    obtain ⟨hentered, rfl⟩ := loadStep_swap.mp next
    cases h with
    | waits waiting flagged early entered =>
      refine .swapped t s₁.script.addrs ?_ waiting
      exact goto_threads.trans (if_pos rfl)
    | swapped u addrs here mem =>
      exact .swapped u addrs (goto_swapped here (by simp [hentered])) mem
    | sent new loads addrs mem_new mem => exact .sent new loads addrs mem_new mem
  | load t =>
    obtain ⟨addrs, hswapped, rfl⟩ := loadStep_load.mp next
    cases h with
    | waits waiting flagged early entered =>
      rcases early t with hout | hentered
      · rw [hswapped] at hout
        cases hout
      · rw [hswapped] at hentered
        cases hentered
    | swapped u addrs' here mem =>
      by_cases hu : u = t
      · subst hu
        rw [hswapped] at here
        cases here
        obtain ⟨new, hnew⟩ := loads_grow run
        have hfull : ¬ addrs.isEmpty = true := by
          intro hempty
          rw [Std.ExtTreeSet.isEmpty_iff] at hempty
          rw [hempty] at mem
          exact Std.ExtTreeSet.not_mem_empty mem
        refine .sent (new ++ [addrs]) ?_ addrs (by simp) mem
        rw [if_neg hfull, hnew, List.append_assoc]
      · refine .swapped u addrs' ?_ mem
        exact goto_threads.trans ((if_neg hu).trans here)
    | sent new loads addrs' mem_new mem =>
      by_cases hempty : addrs.isEmpty = true
      · exact .sent new ((if_pos hempty).trans loads) addrs' mem_new mem
      · refine .sent (new ++ [addrs]) ?_ addrs' (List.mem_append_left _ mem_new) mem
        rw [if_neg hempty, loads, List.append_assoc]
  | reset t =>
    obtain ⟨hloaded, rfl⟩ := loadStep_reset.mp next
    cases h with
    | waits waiting flagged early entered =>
      rcases early t with hout | hentered
      · rw [hloaded] at hout
        cases hout
      · rw [hloaded] at hentered
        cases hentered
    | swapped u addrs here mem =>
      exact .swapped u addrs (goto_swapped here (by simp [hloaded])) mem
    | sent new loads addrs mem_new mem => exact .sent new loads addrs mem_new mem

theorem underway (idle : NoLookup s) (waiting : a ∈ s.script.addrs) (flagged : s.script.needLoad = true)
    (run : LoadRun s rest s') : Underway s rest s' a := by
  induction run with
  | nil =>
    refine .waits waiting flagged (fun t => Or.inl (idle t)) ?_
    intro t ht
    cases ht
  | snoc run _ next ih => exact ih.step run next

end Next

/-! ## When nothing is lost -/

section Lost
variable {es : List LoadEvent} {s : LoadState}

/-- With the flag set the lookups that come next load all that waits. -/
theorem nothingLost_of_flagged (run : LoadRun .init es s) (idle : NoLookup s)
    (flagged : s.script.addrs.isEmpty = false → s.script.needLoad = true) : NothingLost es s where
  flagged := flagged
  next := by
    intro rest t s' run' enter idle'
    obtain ⟨new, hnew⟩ := loads_grow run'
    refine ⟨new, hnew, fun a ha => ?_⟩
    have hwaits : a ∈ s.script.addrs := (mem_addrs run a).mpr ha
    have hfull : s.script.addrs.isEmpty = false := by
      rw [Std.ExtTreeSet.isEmpty_eq_false_iff]
      rintro hempty
      rw [hempty] at hwaits
      exact Std.ExtTreeSet.not_mem_empty hwaits
    cases underway idle hwaits (flagged hfull) run' with
    | waits _ _ _ entered =>
      obtain ⟨u, hu⟩ := entered t enter
      rw [idle' u] at hu
      cases hu
    | swapped u addrs here _ =>
      rw [idle' u] at here
      cases here
    | sent new' loads addrs mem_new mem =>
      obtain rfl : new' = new := List.append_cancel_left (loads.symm.trans hnew)
      exact ⟨addrs, mem_new, mem⟩

theorem flagged_iff (run : LoadRun .init es s) :
    (s.script.addrs.isEmpty = false → s.script.needLoad = true) ↔
      (addedSince isSwap es ≠ [] → addedSince isReset es ≠ []) := by
  have hwaits : s.script.addrs.isEmpty = false ↔ addedSince isSwap es ≠ [] := by
    rw [← Std.ExtTreeSet.isEmpty_toList, ← List.isEmpty_eq_false_iff, List.isEmpty_eq_false_iff_exists_mem,
      List.isEmpty_eq_false_iff_exists_mem]
    simp only [Std.ExtTreeSet.mem_toList, mem_addrs run]
  rw [hwaits, needLoad_iff run]

end Lost

/-! ## Addresses that are not late -/

/-- A thread between its swap and its reset. -/
def InWindow : LookupPc → Prop
  | .swapped _ => True
  | .loaded => True
  | _ => False

/-- Addresses are added only while no thread is there. -/
def AddsOutside (s : LoadState) (e : LoadEvent) : Prop :=
  ∀ a, e = .add a → ∀ t, ¬ InWindow (s.threads t)

structure Safe (s : LoadState) : Prop where
  window : ∀ t, InWindow (s.threads t) → s.script.addrs = ∅
  flagged : s.script.addrs.isEmpty = false → s.script.needLoad = true

section Outside
variable {s s' : LoadState} {e : LoadEvent} {t : Nat}

theorem Safe.goto (h : Safe s) {pc : LookupPc} (window : InWindow pc → s.script.addrs = ∅) :
    Safe (s.goto t pc) where
  window u hu := by
    rw [goto_threads] at hu
    split at hu
    · exact window hu
    · exact h.window u hu
  flagged := h.flagged

theorem Safe.step (h : Safe s) (may : AddsOutside s e) (next : loadStep s e = some s') : Safe s' := by
  cases e with
  | add addr =>
    cases next
    exact ⟨fun t ht => absurd ht (may addr rfl t), fun _ => rfl⟩
  | enter t =>
    obtain ⟨_, rfl⟩ := loadStep_enter.mp next
    apply h.goto
    split
    · exact False.elim
    · exact False.elim
  | swap t =>
    obtain ⟨_, rfl⟩ := loadStep_swap.mp next
    exact ⟨fun _ _ => rfl, fun hfull => absurd hfull (by simp)⟩
  | load t =>
    obtain ⟨addrs, hswapped, rfl⟩ := loadStep_load.mp next
    have hempty : s.script.addrs = ∅ := h.window t (by rw [hswapped]; trivial)
    exact ⟨(h.goto fun _ => hempty).window, h.flagged⟩
  | reset t =>
    obtain ⟨hloaded, rfl⟩ := loadStep_reset.mp next
    have hempty : s.script.addrs = ∅ := h.window t (by rw [hloaded]; trivial)
    refine ⟨(h.goto False.elim).window, fun hfull => ?_⟩
    dsimp only at hfull
    rw [hempty] at hfull
    exact absurd hfull (by simp)

/-- Where no address is added in a lookup's window, nothing is lost in any run. -/
theorem adds_outside_lose_nothing {es : List LoadEvent} (run : Run AddsOutside loadStep .init es s)
    (idle : NoLookup s) : NothingLost es s := by
  have safe : Safe s :=
    Run.invariant (P := fun _ s => Safe s) ⟨fun _ _ => rfl, fun hfull => absurd hfull (by simp [LoadState.init])⟩
      (fun _ _ _ _ h may next => h.step may next) run
  exact nothingLost_of_flagged (run.mono fun _ _ _ => trivial) idle safe.flagged

end Outside

/-! ## One thread alone -/

section Alone
variable {σ : Type} {net : RedisNetwork σ} {rounds : Nat} {oc oc' : OnlineCtrl} {type : ReqType} {sha1 : Str}
  {w w' : σ} {s : LoadState} {t : Nat}

/-- The steps of one thread, with no other between them, are the `lookup_sha1` of a request. -/
theorem lookup_alone (out : s.threads t = .out) (script : s.script = oc.scripts type)
    (h : lookupSha1 net rounds oc type w = some (sha1, oc', w')) :
    ∃ rest s', LoadRun s rest s' ∧ s'.threads = s.threads ∧ s'.script = oc'.scripts type := by
  unfold lookupSha1 at h
  dsimp only at h
  by_cases hneed : (oc.scripts type).needLoad = true
  · rw [if_pos hneed] at h
    obtain ⟨⟨rv, w₁⟩, _, heq⟩ := Option.bind_eq_some_iff.mp h
    cases heq
    have entered : LoadRun s ([] ++ [.enter t]) _ := .snoc .nil trivial (loadStep_enter.mpr ⟨out, rfl⟩)
    have swapped : LoadRun s (_ ++ [.swap t]) _ :=
      entered.snoc trivial (loadStep_swap.mpr ⟨by rw [goto_threads, if_pos rfl, script, if_pos hneed], rfl⟩)
    have loaded : LoadRun s (_ ++ [.load t]) _ :=
      swapped.snoc trivial (loadStep_load.mpr ⟨_, goto_threads.trans (if_pos rfl), rfl⟩)
    have run : LoadRun s (_ ++ [.reset t]) _ :=
      loaded.snoc trivial (loadStep_reset.mpr ⟨goto_threads.trans (if_pos rfl), rfl⟩)
    refine ⟨_, _, run, ?_, ?_⟩
    · funext u
      simp only [goto_threads]
      by_cases hu : u = t
      · rw [if_pos hu, hu, out]
      · simp only [if_neg hu]
    · dsimp only [OnlineCtrl.setScript, goto_script]
      rw [Function.update_self]
  · rw [if_neg hneed] at h
    cases h
    have run : LoadRun s ([] ++ [.enter t]) _ := .snoc .nil trivial (loadStep_enter.mpr ⟨out, rfl⟩)
    refine ⟨_, _, run, ?_, script⟩
    rw [script, if_neg hneed, ← out]
    exact Function.update_eq_self ..

end Alone

/-- At a point of a run where no lookup is in progress nothing is lost exactly if some address was
added since the last reset, or none since the last swap. Whether redis takes the script that it is
sent is not asked: the source only logs the reply. -/
theorem nothing_lost_iff (es : List LoadEvent) (s : LoadState) (run : LoadRun .init es s) (idle : NoLookup s) :
    NothingLost es s ↔ (addedSince isSwap es ≠ [] → addedSince isReset es ≠ []) := by
  rw [← flagged_iff run]
  exact ⟨NothingLost.flagged, nothingLost_of_flagged run idle⟩

/-- A lookup loads the first address, and the second one is added after it. -/
def addsAround : List LoadEvent := [.add 7, .enter 0, .swap 0, .load 0, .reset 0, .add 8]

/-- The first address has been loaded, and the second one waits for the next lookup. -/
theorem one_address_waits : ∃ s, LoadRun .init addsAround s ∧ NoLookup s ∧
    s.loads.map (·.toList) = [[7]] ∧ NothingLost addsAround s := by
  obtain ⟨s, run, idle, loads⟩ : ∃ s, LoadRun .init addsAround s ∧ NoLookup s ∧
      s.loads.map (·.toList) = [[7]] := by
    have entered : LoadRun .init ([] ++ [.add 7] ++ [.enter 0]) _ := .snoc (.snoc .nil trivial rfl) trivial rfl
    have swapped : LoadRun .init (_ ++ [.swap 0]) _ := entered.snoc trivial rfl
    have loaded : LoadRun .init (_ ++ [.load 0]) _ := swapped.snoc trivial rfl
    have reset : LoadRun .init (_ ++ [.reset 0]) _ := loaded.snoc trivial rfl
    have run : LoadRun .init (_ ++ [.add 8]) _ := reset.snoc trivial rfl
    refine ⟨_, run, fun t => ?_, by decide +kernel⟩
    simp only [goto_threads]
    split
    · rfl
    · rfl
  exact ⟨s, run, idle, loads, (nothing_lost_iff addsAround s run idle).mpr fun _ => by decide⟩

/-- An address that is added between the swap and the reset of a lookup. -/
def lateAdd : List LoadEvent := [.add 1, .enter 0, .swap 0, .add 2, .load 0, .reset 0]

/-- The late address is lost. -/
theorem late_add_lost : ∃ s, LoadRun .init lateAdd s ∧ NoLookup s ∧ ¬ NothingLost lateAdd s := by
  have entered : LoadRun .init ([] ++ [.add 1] ++ [.enter 0]) _ := .snoc (.snoc .nil trivial rfl) trivial rfl
  have swapped : LoadRun .init (_ ++ [.swap 0]) _ := entered.snoc trivial rfl
  have late : LoadRun .init (_ ++ [.add 2]) _ := swapped.snoc trivial rfl
  have loaded : LoadRun .init (_ ++ [.load 0]) _ := late.snoc trivial rfl
  have run : LoadRun .init (_ ++ [.reset 0]) _ := loaded.snoc trivial rfl
  refine ⟨_, run, ?_, ?_⟩
  · intro t
    simp only [goto_threads]
    split
    · rfl
    · rfl
  · intro h
    have hkept := (flagged_iff run).mp h.flagged
    exact hkept (by decide) (by decide)

end RedisCluster.Guarantees
