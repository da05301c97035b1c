import Mathlib.Data.Set.List
import RedisCluster.Guarantees.DelayedClose
import RedisCluster.Guarantees.OnlineCalls

/-!
# Sessions are reported offline once

What `fin` and `timeout_rm` report they remove, and only `syn` and `upidx` put it back. So there is
one report at most for each time that a session came up. Whether the report reaches anybody is
another matter: a reply may be late.
-/

set_option autoImplicit false

namespace RedisCluster.Guarantees
open Library Source

/-! ## The reply of `fin` -/

/-- The label of a session in the index. -/
def labelOf (s : Keyspace) (uid lc : Int) : Option Str := s.hget (indexKey uid) (Text.decimal lc)

theorem fin_reply (uid : Int) (proto : ProtoFin) (argv : List Str) (s : Keyspace) :
    (runScript ((LuaFile.request .fin).script (requestKeys uid (.fin proto)) argv) s).1 =
      .ofOption (labelOf s uid proto.head.logicConn) :=
  congrArg Prod.fst (runScript_ok (fin_apply (Text.decimal uid) (Text.decimal proto.head.logicConn)
    (Text.decimal proto.head.idx.sendIdx) (Text.decimal proto.head.idx.recvIdx)
    proto.head.sublayerIndex s))

theorem ofOption_type (o : Option Str) :
    (RedisReply.ofOption o).type = if o.isSome then .string else .nil := by
  cases o <;> rfl

theorem fin_quiet (uid : Int) (proto : ProtoFin) :
    Quiet (.request .fin) (requestKeys uid (.fin proto)) := by
  intro argv s h
  rw [fin_reply, ofOption_type] at h
  split at h <;> cases h

/-- What `rv_check_fin` makes of the reply of a run. -/
theorem rvCheckFin_single {rv : RedisRvs} {label : Option Str}
    (h : single rv = some (redisrvsAdd (.ofOption label) .fresh)) :
    rvCheckFin rv = if label.isSome then (0, label) else (1, none) := by
  unfold rvCheckFin
  rw [h]
  cases label <;> rfl

/-- A run of `fin.lua` for this session on its redis. -/
def FinRun (oc : OnlineCtrl) (uid : Int) (proto : ProtoFin) (e : Execution) : Prop :=
  e.addr = masterOf oc uid ∧ e.file.script = (LuaFile.request .fin).script ∧
    e.keys = requestKeys uid (.fin proto)

/-- `fin` has the script run at most once. It returns 0 with the label exactly if the run
found one and its reply came in time, and 1 exactly if it found none. -/
theorem fin_returns (oc : OnlineCtrl) (plan : Nat → CmdRound) (w : World) (uid : Int) (proto : ProtoFin)
    (rounds : Nat) : ∃ answer new, oc.fin (network oc.dir plan) (rounds + 3) uid proto w = some answer ∧
      answer.net.log = w.log ++ new ∧ new.length ≤ 1 ∧ (∀ e ∈ new, FinRun oc uid proto e) ∧
      (∀ label, answer.code = 0 ∧ answer.out = label ↔ label.isSome ∧
        ∃ e ∈ new, e.inTime = true ∧ labelOf e.found uid proto.head.logicConn = label) ∧
      (answer.code = 1 ↔
        ∃ e ∈ new, e.inTime = true ∧ labelOf e.found uid proto.head.logicConn = none) := by
  obtain ⟨rv, w', new, hcall, hlog, hone, hruns, hsingle⟩ :=
    commend_brings (r := .fin proto) oc plan w (fin_quiet uid proto) rounds
  have hreply : ∀ e ∈ new, e.reply = .ofOption (labelOf e.found uid proto.head.logicConn) := by
    intro e he
    obtain ⟨_, hscript, hkeys⟩ := hruns e he
    rw [Execution.reply, hscript, hkeys]
    exact fin_reply uid proto e.argv e.found
  refine ⟨⟨(rvCheckFin rv).1, (rvCheckFin rv).2, looked oc .fin, w'⟩, new, ?_, hlog, hone, hruns, ?_⟩
  · rw [OnlineCtrl.fin, hcall]
    rfl
  cases hrv : single rv with
  | none =>
    have hlate : ∀ e ∈ new, e.inTime = true → False := by
      intro e he hin
      have hv := (hsingle _).mpr ⟨e, he, hin, ?_, rfl⟩
      · rw [hrv] at hv
        cases hv
      · rw [hreply e he, ofOption_type]
        split <;> simp
    have hcode : rvCheckFin rv = (2, none) := by
      unfold rvCheckFin
      rw [hrv]
    rw [hcode]
    constructor
    · intro label
      refine iff_of_false (by simp) ?_
      rintro ⟨_, e, he, hin, _⟩
      exact hlate e he hin
    · refine iff_of_false (by simp) ?_
      rintro ⟨e, he, hin, _⟩
      exact hlate e he hin
  | some v =>
    obtain ⟨e, he, hin, _, rfl⟩ := (hsingle v).mp hrv
    have honly : ∀ e' ∈ new, e' = e := by
      intro e' he'
      match new, hone with
      | [first], _ => rw [List.mem_singleton.mp he, List.mem_singleton.mp he']
    have hexists : ∀ label, (∃ e ∈ new, e.inTime = true ∧
        labelOf e.found uid proto.head.logicConn = label) ↔
          labelOf e.found uid proto.head.logicConn = label := by
      intro label
      constructor
      · rintro ⟨e', he', _, hlabel⟩
        rwa [honly e' he'] at hlabel
      · exact fun hlabel => ⟨e, he, hin, hlabel⟩
    rw [hreply e he] at hrv
    rw [rvCheckFin_single hrv]
    simp only [hexists]
    cases labelOf e.found uid proto.head.logicConn with
    | none =>
      refine ⟨fun label => iff_of_false (by simp) ?_, by simp⟩
      rintro ⟨hsome, rfl⟩
      cases hsome
    | some text =>
      refine ⟨fun label => ?_, by simp⟩
      constructor
      · rintro ⟨_, rfl⟩
        exact ⟨rfl, rfl⟩
      · rintro ⟨_, rfl⟩
        exact ⟨rfl, rfl⟩

/-! ## What an event reports -/

/-- The entries that the second loop of `timeout_rm` finds: user, connection and label. -/
def sweepReports (s : Keyspace) : List Str → List (Str × Str × Str)
  | [] => []
  | name :: names =>
    match Text.cutAt '.' (name.drop 2) with
    | none => []
    | some (uid, lc) =>
      ((s.hget (kuid uid) lc).map fun tv => (uid, lc, tv)).toList ++
        sweepReports (s.hdel (kuid uid) lc) names

def reportsOf (s : Keyspace) : SessionEvent → List (Str × Str × Str)
  | .request uid (.fin proto) =>
    ((labelOf s uid proto.head.logicConn).map fun tv =>
      (Text.decimal uid, Text.decimal proto.head.logicConn, tv)).toList
  | .timeoutRm st _ => sweepReports ((dueNames s st).foldl Keyspace.del s) (dueNames s st)
  | _ => []

section Sweep
variable {s : Keyspace} {names : List Str}

theorem sweepReports_cons {uid lc : Str} (hdot : '.' ∉ uid) :
    sweepReports s (klc uid lc :: names) =
      ((s.hget (kuid uid) lc).map fun tv => (uid, lc, tv)).toList ++
        sweepReports (s.hdel (kuid uid) lc) names := by
  rw [sweepReports, cutAt_klc hdot]

/-- The pairs of the reply, in their order. -/
theorem dropSessions_reply (named : ∀ m ∈ names, Named m) (ofl : List RedisReply) :
    dropSessions names ofl s = (.ok (ofl ++ (sweepReports s names).flatMap fun report =>
      ((toNumber report.1).map .number).toList ++ [.bulk report.2.2]), dropped s names) := by
  induction names generalizing s ofl with
  | nil => simp [dropSessions, sweepReports, dropped, Script.pure_apply]
  | cons name names ih =>
    obtain ⟨uid, lc, hdot, rfl⟩ := named name (by simp)
    have hrest : ∀ m ∈ names, Named m := fun m hm => named m (List.mem_cons_of_mem _ hm)
    rw [dropSessions, dropped_cons hdot, cutAt_klc hdot, sweepReports_cons hdot]
    dsimp only
    rw [Script.bind_ok (Script.ask_apply _), Script.bind_ok (Script.call_apply _)]
    cases s.hget (kuid uid) lc with
    | none => exact ih hrest ofl
    | some tv =>
      apply (ih hrest _).trans
      simp

/-- A report is of a due name, with the label that was there. -/
theorem mem_sweepReports (named : ∀ m ∈ names, Named m) {report : Str × Str × Str}
    (h : report ∈ sweepReports s names) :
    '.' ∉ report.1 ∧ klc report.1 report.2.1 ∈ names ∧
      s.hget (kuid report.1) report.2.1 = some report.2.2 := by
  induction names generalizing s with
  | nil => cases h
  | cons name names ih =>
    obtain ⟨uid, lc, hdot, rfl⟩ := named name (by simp)
    rw [sweepReports_cons hdot, List.mem_append] at h
    rcases h with h | h
    · rw [Option.mem_toList, Option.map_eq_some_iff] at h
      obtain ⟨tv, htv, rfl⟩ := h
      exact ⟨hdot, List.mem_cons_self .., htv⟩
    · obtain ⟨hfree, hname, hlabel⟩ := ih (fun m hm => named m (List.mem_cons_of_mem _ hm)) h
      refine ⟨hfree, List.mem_cons_of_mem _ hname, ?_⟩
      by_cases hkey : kuid report.1 = kuid uid
      · rw [hkey, Keyspace.hget_hdel] at hlabel
        split at hlabel
        · cases hlabel
        · rw [hkey]
          exact hlabel
      · rwa [Keyspace.hget_congr (Keyspace.hashes_hdel_of_ne hkey)] at hlabel

/-- An entry that was reported is removed before the next name. -/
theorem sweepReports_nodup (named : ∀ m ∈ names, Named m) :
    ((sweepReports s names).map fun report => (report.1, report.2.1)).Nodup := by
  induction names generalizing s with
  | nil => exact List.nodup_nil
  | cons name names ih =>
    obtain ⟨uid, lc, hdot, rfl⟩ := named name (by simp)
    have hrest : ∀ m ∈ names, Named m := fun m hm => named m (List.mem_cons_of_mem _ hm)
    have hnodup := ih (s := s.hdel (kuid uid) lc) hrest
    rw [sweepReports_cons hdot]
    cases s.hget (kuid uid) lc with
    | none => exact hnodup
    | some tv =>
      refine List.nodup_cons.mpr ⟨?_, hnodup⟩
      intro hmem
      obtain ⟨report, hreport, heq⟩ := List.mem_map.mp hmem
      obtain ⟨huid, hlc⟩ := Prod.mk.inj heq
      have hlabel := (mem_sweepReports hrest hreport).2.2
      dsimp only at huid hlc
      rw [huid, hlc, Keyspace.hget_hdel, if_pos rfl] at hlabel
      cases hlabel

theorem sweep_reply {st : Int} (named : ∀ m ∈ dueNames s st, Named m) (cn : Int) :
    runScript (timeoutRm [Text.decimal st, Text.decimal cn]) s =
      (.array ((reportsOf s (.timeoutRm st cn)).flatMap fun report =>
        ((toNumber report.1).map .number).toList ++ [.bulk report.2.2]), swept s st) := by
  have hdrop := dropSessions_reply (s := (dueNames s st).foldl Keyspace.del s) named []
  rw [List.nil_append] at hdrop
  unfold dueNames at hdrop
  apply runScript_ok
  rw [timeoutRm]
  simp only [toNumber_decimal]
  rw [Script.bind_ok (Script.ask_apply _), Script.bind_ok (Script.call_apply _),
    Script.bind_ok hdrop, Script.bind_ok (Script.call_apply _)]
  rfl

end Sweep

/-! ## Reports of a run -/

/-- After these events the event reports the session. -/
def Reported (es : List SessionEvent) (e : SessionEvent) (uid lc : Int) (text : Str) : Prop :=
  (Text.decimal uid, Text.decimal lc, text) ∈ reportsOf (runSessions es) e

/-- A `syn` or `upidx` on the session that puts a new entry with this label into the index:
there is none, or its session is gone and the purge drops it. -/
def Creates (es : List SessionEvent) (uid lc : Int) (e : SessionEvent) (text : Str) : Prop :=
  ∃ r, e = .request uid r ∧ r.head.logicConn = lc ∧ opens r = some text ∧
    ¬ (labelOf (runSessions es) uid lc ≠ none ∧ (runSessions es).has (sessionKey uid lc))

/-- The entry that is there has been there, with this label, since it was created. -/
def CreatedBy (es : List SessionEvent) (uid lc : Int) (text : Str) : Prop :=
  ∃ pre e post, es = pre ++ e :: post ∧ Creates pre uid lc e text ∧
    ∀ mid e' rest, post = mid ++ e' :: rest →
      labelOf (runSessions (pre ++ e :: mid)) uid lc = some text ∧
        ∀ text', ¬ Creates (pre ++ e :: mid) uid lc e' text'

section Runs
variable {es : List SessionEvent} {e : SessionEvent} {uid lc : Int} {text : Str}

theorem dueNames_decimal (es : List SessionEvent) (st : Int) :
    ∀ m ∈ dueNames (runSessions es) st, ∃ uid lc, m = sessionKey uid lc := by
  intro m hm
  obtain ⟨stamp, hstamp, _⟩ := mem_dueNames.mp hm
  obtain ⟨uid, lc, rfl, _⟩ := pending_asked es m stamp hstamp
  exact ⟨uid, lc, rfl⟩

theorem sweep_named (es : List SessionEvent) (st : Int) :
    ∀ m ∈ dueNames (runSessions es) st, Named m :=
  dueNames_named (pending_named es) st

/-- What the deleted sessions leave of the index. -/
theorem labelOf_dels (es : List SessionEvent) (st : Int) (uid : Str) (f : Str) :
    ((dueNames (runSessions es) st).foldl Keyspace.del (runSessions es)).hget (kuid uid) f =
      (runSessions es).hget (kuid uid) f := by
  apply Keyspace.hget_congr
  rw [Keyspace.hashes_dels, if_neg]
  intro hmem
  obtain ⟨uid', lc, heq⟩ := dueNames_decimal es st _ hmem
  exact kuid_ne_klc _ _ _ heq

theorem reported_fin_iff {uid' : Int} {proto : ProtoFin} :
    Reported es (.request uid' (.fin proto)) uid lc text ↔
      uid' = uid ∧ proto.head.logicConn = lc ∧ labelOf (runSessions es) uid lc = some text := by
  rw [Reported, reportsOf, Option.mem_toList, Option.map_eq_some_iff]
  constructor
  · rintro ⟨tv, htv, heq⟩
    simp only [Prod.mk.injEq] at heq
    obtain ⟨huid, hlc, rfl⟩ := heq
    obtain rfl := Text.decimal_injective huid
    obtain rfl := Text.decimal_injective hlc
    exact ⟨rfl, rfl, htv⟩
  · rintro ⟨rfl, rfl, hlabel⟩
    exact ⟨text, hlabel, rfl⟩

theorem Reported.label (h : Reported es e uid lc text) : labelOf (runSessions es) uid lc = some text := by
  unfold Reported at h
  cases e with
  | elapse d => cases h
  | timeoutRm st cn =>
    have hlabel := (mem_sweepReports (sweep_named es st) h).2.2
    rwa [labelOf_dels] at hlabel
  | request uid' r =>
    cases r with
    | fin proto =>
      obtain ⟨rfl, rfl, hlabel⟩ := reported_fin_iff.mp h
      exact hlabel
    | syn proto => cases h
    | finDelay proto => cases h
    | upidx proto => cases h

/-- What is reported is removed. -/
theorem Reported.removed (h : Reported es e uid lc text) :
    labelOf (runSessions (es ++ [e])) uid lc = none := by
  rw [runSessions_snoc]
  unfold Reported at h
  cases e with
  | elapse d => cases h
  | timeoutRm st cn =>
    have hname := (mem_sweepReports (sweep_named es st) h).2.1
    cases sessionStep_effect (pending_named es) (.timeoutRm st cn) with
    | swept effect =>
      apply Keyspace.not_mem_fields_iff.mp
      intro hmem
      exact ((effect.index _ _ (decimal_no_dot uid)).mp hmem).2 (mem_dueNames.mp hname)
  | request uid' r =>
    cases r with
    | fin proto =>
      obtain ⟨rfl, rfl, _⟩ := reported_fin_iff.mp h
      cases sessionStep_effect (pending_named es) (.request uid' (.fin proto)) with
      | synced opened _ => cases opened
      | closed effect => exact (effect.labels _).trans (if_pos rfl)
      | refused unsettled _ _ => cases unsettled
    | syn proto => cases h
    | finDelay proto => cases h
    | upidx proto => cases h

/-! ## Who put the label there -/

theorem labelOf_elapse {d : Nat} {s : Keyspace} (h : labelOf (s.elapse d) uid lc = some text) :
    labelOf s uid lc = some text := by
  obtain ⟨hash, hhash⟩ : ∃ hash, (s.elapse d).hashes (indexKey uid) = some hash := by
    cases hhash : (s.elapse d).hashes (indexKey uid) with
    | none =>
      rw [labelOf, Keyspace.hget, Keyspace.fields, hhash] at h
      cases h
    | some hash => exact ⟨hash, rfl⟩
  have hsame := hhash.trans (Keyspace.elapse_some.mp hhash).1.symm
  rwa [labelOf, Keyspace.hget_congr hsame] at h

/-- Only a request that opens the session creates its label. -/
theorem not_creates_of_closed {uid' : Int} {r : Request} (closes : opens r = none) (text' : Str) :
    ¬ Creates es uid lc (.request uid' r) text' := by
  rintro ⟨r', heq, _, hopens, _⟩
  cases heq
  rw [closes] at hopens
  cases hopens

theorem not_creates_of_other {uid' : Int} {r : Request} (hne : uid ≠ uid') (text' : Str) :
    ¬ Creates es uid lc (.request uid' r) text' := by
  rintro ⟨r', heq, _⟩
  cases heq
  exact hne rfl

theorem not_creates_of_event (hne : ∀ uid r, e ≠ .request uid r) (text' : Str) :
    ¬ Creates es uid lc e text' := by
  rintro ⟨r', heq, _⟩
  exact hne _ _ heq

theorem opens_of_not_settles {r : Request} (h : settles r = false) : opens r = none := by
  cases hopens : opens r with
  | none => rfl
  | some label =>
    rw [settles_of_opens hopens] at h
    cases h

/-- A label that is there after an event was there before it, or the event has put it there. -/
theorem label_step (h : labelOf (runSessions (es ++ [e])) uid lc = some text) :
    (labelOf (runSessions es) uid lc = some text ∧ ∀ text', ¬ Creates es uid lc e text') ∨
      Creates es uid lc e text := by
  rw [runSessions_snoc] at h
  cases sessionStep_effect (pending_named es) e with
  | @synced uid' r label opened effect =>
    by_cases huid : uid = uid'
    · subst huid
      have hlabels := (effect.labels (Text.decimal lc)).symm.trans h
      split at hlabels
      · next hkept =>
        refine Or.inl ⟨hlabels, ?_⟩
        rintro text' ⟨r', _, _, _, hnew⟩
        apply hnew
        refine ⟨?_, hkept.2⟩
        rw [labelOf, indexKey, hlabels]
        exact Option.some_ne_none text
      · next hnew =>
        split at hlabels
        · next hlc =>
          cases hlabels
          right
          refine ⟨r, rfl, (Text.decimal_injective hlc).symm, opened, ?_⟩
          rintro ⟨hsome, hhas⟩
          exact hnew ⟨not_not.mp (Keyspace.not_mem_fields_iff.not.mpr hsome), hhas⟩
        · cases hlabels
    · have hframe := effect.frame (indexKey uid) (mt indexKey_inj.mp huid) (kuid_ne_klc _ _ _)
      rw [labelOf, Keyspace.hget_congr hframe] at h
      exact Or.inl ⟨h, not_creates_of_other huid⟩
  | @closed uid' proto effect =>
    refine Or.inl ⟨?_, not_creates_of_closed rfl⟩
    by_cases huid : uid = uid'
    · subst huid
      have hlabels := (effect.labels (Text.decimal lc)).symm.trans h
      split at hlabels
      · cases hlabels
      · exact hlabels
    · have hframe := effect.frame (indexKey uid) (mt indexKey_inj.mp huid) (kuid_ne_klc _ _ _)
      rwa [labelOf, Keyspace.hget_congr hframe] at h
  | delayed _ effect =>
    refine Or.inl ⟨?_, not_creates_of_closed rfl⟩
    have hframe := effect.frame (indexKey uid) (kuid_ne_klc _ _ _)
    rwa [labelOf, Keyspace.hget_congr hframe] at h
  | passed _ effect =>
    refine Or.inl ⟨?_, not_creates_of_closed rfl⟩
    rwa [labelOf, Keyspace.hget_congr (effect.frame _)] at h
  | refused unsettled _ effect =>
    refine Or.inl ⟨?_, not_creates_of_closed (opens_of_not_settles unsettled)⟩
    rwa [labelOf, Keyspace.hget_congr (effect.frame _)] at h
  | @swept st cn effect =>
    refine Or.inl ⟨?_, not_creates_of_event nofun⟩
    have hmem := Keyspace.mem_fields_iff.mpr ⟨text, h⟩
    exact (effect.labels _ _ (decimal_no_dot uid) hmem).symm.trans h
  | @elapsed d effect =>
    rw [effect] at h
    exact Or.inl ⟨labelOf_elapse h, not_creates_of_event nofun⟩

/-- A label that stays has not been created anew. -/
theorem CreatedBy.snoc (h : CreatedBy es uid lc text)
    (there : labelOf (runSessions es) uid lc = some text)
    (stays : ∀ text', ¬ Creates es uid lc e text') : CreatedBy (es ++ [e]) uid lc text := by
  obtain ⟨pre, e₀, post, rfl, creates, since⟩ := h
  refine ⟨pre, e₀, post ++ [e], by simp, creates, ?_⟩
  intro mid e' rest heq
  have hsplit : post ++ [e] = mid ++ e' :: rest := by simpa using heq
  rcases List.eq_nil_or_concat rest with rfl | ⟨rest', last, rfl⟩
  · obtain ⟨rfl, hlast⟩ := List.append_inj' hsplit rfl
    obtain rfl := List.head_eq_of_cons_eq hlast
    exact ⟨there, stays⟩
  · have hfront : post ++ [e] = (mid ++ e' :: rest') ++ [last] := by simpa using hsplit
    exact since mid e' rest' (List.append_inj' hfront rfl).1

theorem Creates.createdBy (h : Creates es uid lc e text) : CreatedBy (es ++ [e]) uid lc text := by
  refine ⟨es, e, [], rfl, h, ?_⟩
  intro mid e' rest heq
  simp at heq

/-- After every run, a label that is there is the one that its creator put there. -/
theorem label_created (es : List SessionEvent) (uid lc : Int) : ∀ text,
    labelOf (runSessions es) uid lc = some text → CreatedBy es uid lc text := by
  induction es using List.reverseRecOn with
  | nil =>
    intro text h
    simp [runSessions, labelOf, Keyspace.hget, Keyspace.fields, Keyspace.empty] at h
  | append_singleton es e ih =>
    intro text h
    rcases label_step h with ⟨hold, hstays⟩ | hcreates
    · exact (ih text hold).snoc hold hstays
    · exact hcreates.createdBy

/-- A label that was missing has been put there by a `syn` or `upidx` since. -/
theorem opened_since {mid : List SessionEvent} (missing : labelOf (runSessions es) uid lc = none)
    (there : labelOf (runSessions (es ++ mid)) uid lc = some text) :
    ∃ r, .request uid r ∈ mid ∧ r.head.logicConn = lc ∧ (opens r).isSome := by
  induction mid using List.reverseRecOn generalizing text with
  | nil =>
    rw [List.append_nil, missing] at there
    cases there
  | append_singleton mid e ih =>
    rw [← List.append_assoc] at there
    rcases label_step there with ⟨hold, _⟩ | ⟨r, rfl, hlc, hopens, _⟩
    · obtain ⟨r, hmem, hr⟩ := ih hold
      exact ⟨r, List.mem_append_left _ hmem, hr⟩
    · exact ⟨r, by simp, hlc, by rw [hopens]; rfl⟩

/-- What an event reports is of decimal users and connections, and of each at most once. -/
theorem reports_decimal (es : List SessionEvent) (e : SessionEvent) :
    ((reportsOf (runSessions es) e).map fun report => (report.1, report.2.1)).Nodup ∧
      ∀ report ∈ reportsOf (runSessions es) e, ∃ uid lc,
        report.1 = Text.decimal uid ∧ report.2.1 = Text.decimal lc := by
  cases e with
  | elapse d => exact ⟨List.nodup_nil, nofun⟩
  | timeoutRm st cn =>
    refine ⟨sweepReports_nodup (sweep_named es st), ?_⟩
    intro report hreport
    obtain ⟨hdot, hname, _⟩ := mem_sweepReports (sweep_named es st) hreport
    obtain ⟨uid, lc, heq⟩ := dueNames_decimal es st _ hname
    exact ⟨uid, lc, klc_injective hdot (decimal_no_dot uid) heq⟩
  | request uid r =>
    cases r with
    | fin proto =>
      cases hlabel : labelOf (runSessions es) uid proto.head.logicConn with
      | none => simp [reportsOf, hlabel]
      | some text =>
        simp only [reportsOf, hlabel, Option.map_some, Option.toList_some, List.map_cons,
          List.map_nil, List.nodup_singleton, List.mem_singleton, true_and]
        rintro report rfl
        exact ⟨uid, _, rfl, rfl⟩
    | syn proto => exact ⟨List.nodup_nil, nofun⟩
    | finDelay proto => exact ⟨List.nodup_nil, nofun⟩
    | upidx proto => exact ⟨List.nodup_nil, nofun⟩

/-- A report as its names print it. -/
def printed (report : Int × Int × Str) : Str × Str × Str :=
  (Text.decimal report.1, Text.decimal report.2.1, report.2.2)

theorem printed_injective : Function.Injective printed := by
  rintro ⟨uid, lc, text⟩ ⟨uid', lc', text'⟩ heq
  simp only [printed, Prod.mk.injEq] at heq
  obtain ⟨huid, hlc, rfl⟩ := heq
  rw [Text.decimal_injective huid, Text.decimal_injective hlc]

/-- Reports of decimal users and connections, with their numbers. -/
theorem printed_reports {found : List (Str × Str × Str)}
    (once : (found.map fun report => (report.1, report.2.1)).Nodup)
    (decimal : ∀ report ∈ found, ∃ uid lc, report.1 = Text.decimal uid ∧ report.2.1 = Text.decimal lc) :
    ∃ reports : List (Int × Int × Str), (reports.map fun report => (report.1, report.2.1)).Nodup ∧
      found = reports.map printed ∧
      ∀ uid lc text, (uid, lc, text) ∈ reports ↔ (Text.decimal uid, Text.decimal lc, text) ∈ found := by
  have hrange : found ∈ Set.range (List.map printed) := by
    rw [Set.range_list_map]
    intro report hreport
    obtain ⟨uid, lc, huid, hlc⟩ := decimal report hreport
    exact ⟨(uid, lc, report.2.2), by simp only [printed, ← huid, ← hlc]⟩
  obtain ⟨reports, heq⟩ := hrange
  refine ⟨reports, ?_, heq.symm, ?_⟩
  · rw [← heq, List.map_map] at once
    apply List.Nodup.of_map (fun pair => (Text.decimal pair.1, Text.decimal pair.2))
    rwa [List.map_map]
  · intro uid lc text
    rw [← heq]
    exact (List.mem_map_of_injective printed_injective).symm

/-- The reports of an event, with the numbers that the names print. -/
theorem reports_eq (es : List SessionEvent) (e : SessionEvent) :
    ∃ reports : List (Int × Int × Str), (reports.map fun report => (report.1, report.2.1)).Nodup ∧
      reportsOf (runSessions es) e = reports.map printed ∧
      ∀ uid lc text, (uid, lc, text) ∈ reports ↔ Reported es e uid lc text := by
  obtain ⟨hnodup, hdecimal⟩ := reports_decimal es e
  exact printed_reports hnodup hdecimal

theorem fin_reported (uid : Int) (proto : ProtoFin) :
    Reported es (.request uid (.fin proto)) uid proto.head.logicConn text ↔
      labelOf (runSessions es) uid proto.head.logicConn = some text := by
  rw [reported_fin_iff]
  simp

end Runs

/-- A session is reported once for every time that a `syn` or `upidx` put it into the index, with
what that request put there. The reports are the replies of `fin.lua`, with which `fin` returns as
long as they come in time, and the pairs in those of `timeout_rm.lua`. -/
theorem offline_reported_once :
    (∀ es e₁ mid e₂ uid lc text₁ text₂, Reported es e₁ uid lc text₁ →
      Reported (es ++ e₁ :: mid) e₂ uid lc text₂ →
        ∃ r, SessionEvent.request uid r ∈ mid ∧ r.head.logicConn = lc ∧ (opens r).isSome) ∧
    (∀ es e uid lc text, Reported es e uid lc text → CreatedBy es uid lc text) ∧
    (∀ es uid proto, ∃ label : Option Str,
      (runScript (fin (Text.decimal uid :: (Request.fin proto).keys)) (runSessions es)).1 =
        .ofOption label ∧
      ∀ text, label = some text ↔
        Reported es (.request uid (.fin proto)) uid proto.head.logicConn text) ∧
    (∀ es st cn, ∃ reports : List (Int × Int × Str),
      (runScript (timeoutRm [Text.decimal st, Text.decimal cn]) (runSessions es)).1 =
        .array (reports.flatMap fun report => [.number report.1, .bulk report.2.2]) ∧
      (reports.map fun report => (report.1, report.2.1)).Nodup ∧
      ∀ uid lc text, (uid, lc, text) ∈ reports ↔ Reported es (.timeoutRm st cn) uid lc text) ∧
    (∀ (oc : OnlineCtrl) plan (w : World) uid proto rounds, ∃ answer new,
      oc.fin (network oc.dir plan) (rounds + 3) uid proto w = some answer ∧
      answer.net.log = w.log ++ new ∧ new.length ≤ 1 ∧ (∀ e ∈ new, FinRun oc uid proto e) ∧
      (∀ label, answer.code = 0 ∧ answer.out = label ↔ label.isSome ∧
        ∃ e ∈ new, e.inTime = true ∧ labelOf e.found uid proto.head.logicConn = label) ∧
      (answer.code = 1 ↔
        ∃ e ∈ new, e.inTime = true ∧ labelOf e.found uid proto.head.logicConn = none)) := by
  refine ⟨?_, ?_, ?_, ?_, fin_returns⟩
  · intro es e₁ mid e₂ uid lc text₁ text₂ hfirst hsecond
    apply opened_since hfirst.removed
    rw [List.append_assoc]
    exact hsecond.label
  · intro es e uid lc text h
    exact label_created es uid lc text h.label
  · intro es uid proto
    exact ⟨_, fin_reply uid proto [] (runSessions es), fun text => (fin_reported uid proto).symm⟩
  · intro es st cn
    obtain ⟨reports, hnodup, heq, hmem⟩ := reports_eq es (.timeoutRm st cn)
    refine ⟨reports, ?_, hnodup, hmem⟩
    rw [sweep_reply (sweep_named es st), heq, List.flatMap_map]
    simp only [printed, toNumber_decimal]
    rfl

theorem offline_reported_once_example :
    Reported (exampleSession 7 2 40) (.timeoutRm 41 0) 7 2 "100;v".toList ∧
      ∃ r, SessionEvent.request 7 r ∈ exampleSession 7 2 50 ∧ r.head.logicConn = 2 ∧
        (opens r).isSome := by
  have hfirst : Reported (exampleSession 7 2 40) (.timeoutRm 41 0) 7 2 "100;v".toList := by
    unfold Reported
    decide +kernel
  have hsecond : Reported (exampleSession 7 2 40 ++ .timeoutRm 41 0 :: exampleSession 7 2 50)
      (.request 7 (.fin ⟨⟨2, ⟨1, 0⟩, ['g']⟩⟩)) 7 2 "100;v".toList := by
    unfold Reported
    decide +kernel
  exact ⟨hfirst, offline_reported_once.1 _ _ _ _ _ _ _ _ hfirst hsecond⟩

end RedisCluster.Guarantees
