import RedisCluster.Guarantees.OfflineReports
import RedisCluster.Guarantees.OnlineRuns
import RedisCluster.Guarantees.SessionFields
import RedisCluster.Library.Run

/-!
# The version of a client

The first message of a session decides what version it has. SYNOK brings the version of the
client; UPIDX has it too, but its handler does not pass it on.
-/

set_option autoImplicit false

namespace RedisCluster.Guarantees
open Library Source

/-- The session has this version, and its entry in the index ends with it. -/
structure HasVersion (s : Keyspace) (uid lc : Int) (v : Str) : Prop where
  cv : s.hget (sessionKey uid lc) "CV".toList = some v
  label : ∃ text, labelOf s uid lc = some text ∧ (';' :: v) <:+ text

def VersionKept (s : Keyspace) (uid lc : Int) (v : Str) : Prop :=
  s.has (sessionKey uid lc) → HasVersion s uid lc v

/-- The event does not change the version: an `upidx` with its empty one finds the session, and
the index does not go before the session. -/
def VersionSafe (s : Keyspace) (uid lc : Int) (v : Str) : SessionEvent → Prop
  | .request uid' (.upidx proto) =>
    uid' = uid → proto.head.logicConn = lc → v = [] ∨ s.has (sessionKey uid lc)
  | .elapse d => (s.elapse d).has (sessionKey uid lc) → (s.elapse d).has (indexKey uid)
  | _ => True

/-! ## Steps -/

/-- The requests that messages make: those of the session have its version, or none. -/
def Versioned (uid lc : Int) (v : Str) : SessionEvent → Prop
  | .request uid' (.syn proto) => proto.data.length % 2 = 0 ∧ extValue proto.data "CV".toList = none ∧
    (uid' = uid → proto.head.logicConn = lc → proto.cliVer = v)
  | .request _ (.upidx proto) => proto.cliVer = []
  | .timeoutRm _ _ => False
  | _ => True

section Steps
variable {s s' : Keyspace} {uid lc uid' lc' : Int} {v : Str}

/-- The session is as it was, and so is its entry as long as the session is there. -/
theorem VersionKept.frame (kept : VersionKept s uid lc v)
    (session : s'.hashes (sessionKey uid lc) = s.hashes (sessionKey uid lc))
    (label : ∀ text, labelOf s uid lc = some text → s.has (sessionKey uid lc) →
      labelOf s' uid lc = some text) :
    VersionKept s' uid lc v := by
  intro hhas
  rw [Keyspace.has, session] at hhas
  obtain ⟨hcv, text, htext, hends⟩ := kept hhas
  exact ⟨by rw [Keyspace.hget_congr session, hcv], text, label text htext hhas, hends⟩

theorem label_mem {text : Str} (h : labelOf s uid lc = some text) : Text.decimal lc ∈ s.fields (indexKey uid) := by
  rw [Keyspace.mem_fields_iff]
  exact ⟨text, h⟩

theorem Synced.version_other {label : Str}
    (effect : Synced s s' (Text.decimal uid') (Text.decimal lc') label)
    (other : ¬ (uid' = uid ∧ lc' = lc)) (kept : VersionKept s uid lc v) : VersionKept s' uid lc v := by
  have hsession : sessionKey uid lc ≠ klc (Text.decimal uid') (Text.decimal lc') := by
    intro heq
    obtain ⟨huid, hlc⟩ := sessionKey_inj.mp heq
    exact other ⟨huid.symm, hlc.symm⟩
  apply kept.frame
  · exact effect.frame _ (kuid_ne_klc _ _ _).symm hsession
  · intro text hlabel hhas
    refine Eq.trans ?_ hlabel
    by_cases huid : uid = uid'
    · subst huid
      exact (effect.labels _).trans (if_pos ⟨label_mem hlabel, hhas⟩)
    · apply Keyspace.hget_congr
      exact effect.frame _ (fun heq => huid (indexKey_inj.mp heq)) (kuid_ne_klc _ _ _)

theorem Closed.version (effect : Closed s s' (Text.decimal uid') (Text.decimal lc'))
    (kept : VersionKept s uid lc v) : VersionKept s' uid lc v := by
  by_cases same : uid' = uid ∧ lc' = lc
  · obtain ⟨rfl, rfl⟩ := same
    intro hhas
    rw [Keyspace.has, sessionKey, effect.session] at hhas
    cases hhas
  · have hsession : sessionKey uid lc ≠ klc (Text.decimal uid') (Text.decimal lc') := by
      intro heq
      obtain ⟨huid, hlc⟩ := sessionKey_inj.mp heq
      exact same ⟨huid.symm, hlc.symm⟩
    apply kept.frame
    · exact effect.frame _ (kuid_ne_klc _ _ _).symm hsession
    · intro text hlabel _
      refine Eq.trans ?_ hlabel
      by_cases huid : uid = uid'
      · subst huid
        refine (effect.labels _).trans (if_neg fun hlc => same ⟨rfl, ?_⟩)
        exact (Text.decimal_injective hlc).symm
      · apply Keyspace.hget_congr
        exact effect.frame _ (fun heq => huid (indexKey_inj.mp heq)) (kuid_ne_klc _ _ _)

/-- A `fin_delay` changes no field but the gate. -/
theorem finDelay_hget (s : Keyspace) (uid : Int) (proto : ProtoFinDelay) {k f : Str}
    (hf : f ≠ "GATE".toList) :
    (sessionStep s (.request uid (.finDelay proto))).hget k f = s.hget k f := by
  by_cases gate : GateIs s (Text.decimal uid) (Text.decimal proto.head.logicConn) proto.head.sublayerIndex
  · have hrun := runScript_ok (@finDelay_apply_match _ _ (Text.decimal proto.head.idx.sendIdx)
      (Text.decimal proto.head.idx.recvIdx) _ _ _ (toNumber_decimal proto.expire) _ gate)
    have hstep : sessionStep s (.request uid (.finDelay proto)) =
        delayed (written s (Text.decimal uid)) _ _ _ := congrArg Prod.snd hrun
    rw [hstep, delayed]
    by_cases hk : k = klc (Text.decimal uid) (Text.decimal proto.head.logicConn)
    · rw [hk, Keyspace.hget_hset, if_neg hf]
      exact hget_written
    · rw [Keyspace.hget_congr (Keyspace.hashes_hset_of_ne hk)]
      exact hget_written
  · have hrun := runScript_ok (@finDelay_apply_other _ _ (Text.decimal proto.head.idx.sendIdx)
      (Text.decimal proto.head.idx.recvIdx) _ (Text.decimal proto.expire) _ gate)
    have hstep : sessionStep s (.request uid (.finDelay proto)) = written s _ := congrArg Prod.snd hrun
    rw [hstep, hget_written]

theorem decimal_ne_gate (n : Int) : Text.decimal n ≠ "GATE".toList := by
  intro h
  exact Text.not_mem_decimal n (c := 'G') (by decide) (by decide) (by rw [h]; decide)

theorem finDelay_version {proto : ProtoFinDelay}
    (there : (sessionStep s (.request uid' (.finDelay proto))).has (sessionKey uid lc) →
      s.has (sessionKey uid lc))
    (kept : VersionKept s uid lc v) :
    VersionKept (sessionStep s (.request uid' (.finDelay proto))) uid lc v := by
  intro hhas
  obtain ⟨hcv, text, htext, hends⟩ := kept (there hhas)
  refine ⟨by rw [finDelay_hget _ _ _ (by decide), hcv], text, ?_, hends⟩
  rw [labelOf, finDelay_hget _ _ _ (decimal_ne_gate lc)]
  exact htext

/-- The index must not go before the session. -/
theorem elapse_version {d : Nat} (kept : VersionKept s uid lc v) : VersionKept (s.elapse d) uid lc v ↔
    ((s.elapse d).has (sessionKey uid lc) → (s.elapse d).has (indexKey uid)) := by
  constructor
  · intro kept' hhas
    obtain ⟨_, text, htext, _⟩ := kept' hhas
    exact Keyspace.has_of_mem (label_mem htext)
  · intro outlives hhas
    obtain ⟨hash, hhash⟩ := Option.isSome_iff_exists.mp hhas
    obtain ⟨index, hindex⟩ := Option.isSome_iff_exists.mp (outlives hhas)
    have hsession := hhash.trans (Keyspace.elapse_some.mp hhash).1.symm
    have hlabel := hindex.trans (Keyspace.elapse_some.mp hindex).1.symm
    exact kept.frame hsession (fun _ htext _ => (Keyspace.hget_congr hlabel).trans htext) hhas

/-- `syn` and `upidx` keep the version of a session that is there, and give theirs to one that
is not. -/
theorem syn_version {head : ProtoGbHead} {expire cliType : Int} {cliVer : Str} {argv : List Str}
    (even : argv.length % 2 = 0) (plain : extValue argv "CV".toList = none)
    (kept : VersionKept s uid head.logicConn v) :
    HasVersion (runScript (syn (Text.decimal uid :: (head.keys ++
        [Text.decimal expire, Text.decimal cliType, cliVer])) argv) s).2 uid head.logicConn
      (if s.has (sessionKey uid head.logicConn) then v else cliVer) := by
  have effect := syn_effect s uid head expire cliType cliVer even
  have hcv := hget_syn s uid head expire cliType cliVer even "CV".toList
  have hreserved : reserved (Text.decimal head.idx.sendIdx) head.sublayerIndex (Text.decimal cliType)
      "CV".toList = none := by
    unfold reserved
    rw [if_neg (by decide), if_neg (by decide), if_neg (by decide), if_neg (by decide)]
  rw [plain, hreserved, if_pos rfl, Option.none_or, Option.none_or] at hcv
  have hlabel := effect.labels (Text.decimal head.logicConn)
  split
  · next hhas =>
    obtain ⟨hold, text, htext, hends⟩ := kept hhas
    rw [hold, Option.getD_some] at hcv
    rw [if_pos ⟨label_mem htext, hhas⟩] at hlabel
    exact ⟨hcv, text, hlabel.trans htext, hends⟩
  · next hhas =>
    have hnone : s.hget (sessionKey uid head.logicConn) "CV".toList = none := by
      apply Keyspace.not_mem_fields_iff.mp
      exact fun hmem => hhas (Keyspace.has_of_mem hmem)
    rw [hnone, Option.getD_none] at hcv
    rw [if_neg fun h => hhas h.2, if_pos rfl] at hlabel
    exact ⟨hcv, _, hlabel, List.suffix_append _ _⟩

theorem upidx_version {proto : ProtoUpidx} (empty : proto.cliVer = [])
    (kept : VersionKept s uid proto.head.logicConn v) :
    VersionKept (sessionStep s (.request uid (.upidx proto))) uid proto.head.logicConn v ↔
      v = [] ∨ s.has (sessionKey uid proto.head.logicConn) := by
  obtain ⟨head, expire, cliType, cliVer⟩ := proto
  obtain rfl : cliVer = [] := empty
  have hhas := @syn_version s uid v head expire cliType [] [] rfl rfl kept
  have hthere := (@syn_effect s uid head expire cliType [] [] rfl).session
  have hstep : sessionStep s (.request uid (.upidx ⟨head, expire, cliType, []⟩)) =
      (runScript (syn (Text.decimal uid :: (head.keys ++
        [Text.decimal expire, Text.decimal cliType, []])) []) s).2 := rfl
  rw [hstep]
  dsimp only at kept ⊢
  constructor
  · intro kept'
    by_cases hold : s.has (sessionKey uid head.logicConn)
    · exact Or.inr hold
    · rw [if_neg hold] at hhas
      exact Or.inl (Option.some.inj ((kept' hthere).cv.symm.trans hhas.cv))
  · intro harmless _
    rcases harmless with rfl | hold
    · rwa [ite_self] at hhas
    · rwa [if_pos hold] at hhas

/-- Another session's `syn`, `upidx` or `fin`. -/
theorem Effect.version_other {r : Request} (effect : Effect s s' (.request uid' r))
    (request : ∀ proto, r ≠ .finDelay proto) (other : ¬ (uid' = uid ∧ r.head.logicConn = lc))
    (kept : VersionKept s uid lc v) : VersionKept s' uid lc v := by
  cases effect with
  | synced _ effect => exact effect.version_other other kept
  | closed effect => exact effect.version kept
  | delayed _ _ => exact absurd rfl (request _)
  | passed _ _ => exact absurd rfl (request _)
  | refused _ _ effect =>
    exact kept.frame (effect.frame _) fun _ htext _ => (Keyspace.hget_congr (effect.frame _)).trans htext

/-- A step keeps the version exactly if it is harmless. -/
theorem sessionStep_version {es : List SessionEvent} {e : SessionEvent} (versioned : Versioned uid lc v e)
    (kept : VersionKept (runSessions es) uid lc v) :
    VersionKept (sessionStep (runSessions es) e) uid lc v ↔ VersionSafe (runSessions es) uid lc v e := by
  have heffect := sessionStep_effect (pending_named es) e
  generalize runSessions es = s at *
  cases e with
  | elapse d => exact elapse_version kept
  | timeoutRm st cn => exact versioned.elim
  | request uid' r =>
    cases r with
    | syn proto =>
      refine iff_of_true ?_ trivial
      obtain ⟨even, plain, hversion⟩ := versioned
      by_cases same : uid' = uid ∧ proto.head.logicConn = lc
      · obtain ⟨rfl, rfl⟩ := same
        have haccepted : (Request.syn proto).accepted = true := decide_eq_true even
        have hhas := @syn_version s uid' v proto.head proto.expire proto.cliType proto.cliVer
          proto.data even plain kept
        have hsame : (if s.has (sessionKey uid' proto.head.logicConn) then v else proto.cliVer) = v := by
          rw [hversion rfl rfl, ite_self]
        rw [hsame] at hhas
        rw [sessionStep, if_pos haccepted]
        exact fun _ => hhas
      · exact heffect.version_other (fun _ h => Request.noConfusion h) same kept
    | upidx proto =>
      by_cases same : uid' = uid ∧ proto.head.logicConn = lc
      · obtain ⟨rfl, rfl⟩ := same
        rw [upidx_version versioned kept]
        exact ⟨fun h _ _ => h, fun h => h rfl rfl⟩
      · refine iff_of_true ?_ fun huid hlc => absurd ⟨huid, hlc⟩ same
        exact heffect.version_other (fun _ h => Request.noConfusion h) same kept
    | fin proto =>
      refine iff_of_true ?_ trivial
      cases heffect with
      | closed effect => exact effect.version kept
      | synced opened _ => cases opened
      | refused unsettled _ _ => cases unsettled
    | finDelay proto =>
      refine iff_of_true (finDelay_version ?_ kept) trivial
      cases heffect with
      | delayed _ effect =>
        intro hhas
        by_cases heq : sessionKey uid lc = klc (Text.decimal uid') (Text.decimal proto.head.logicConn)
        · rw [heq]
          exact effect.session.2
        · rwa [Keyspace.has, effect.frame _ heq] at hhas
      | passed _ effect =>
        rw [Keyspace.has, effect.frame]
        exact id
      | synced opened _ => cases opened
      | refused _ other _ => exact absurd rfl (other proto)

end Steps

/-! ## Messages -/

/-- The names that a client may not use for its own data. -/
def ownNames : List Str := ["SID".toList, "RID".toList, "GATE".toList, "CT".toList, "CV".toList]

/-- The client's own data does not use the names of a session. -/
def PlainExt (parse : ParseFromString) : OnlineEvent → Prop
  | .message _ _ pro => pHandle (parse.proHead pro).2.type = some .synOk →
    ∀ ext ∈ (parse.proSynOk (parse.proHead pro).2.subPro).2.ext, ext.key ∉ ownNames
  | .elapse _ => True

/-- SYNOK and UPIDX of the session carry this version. -/
def CarriesVersion (parse : ParseFromString) (uid conn : Int) (v : Str) : OnlineEvent → Prop
  | .message _ _ pro =>
    let ph := (parse.proHead pro).2
    ph.uid = uid → ph.conn = conn →
      (pHandle ph.type = some .synOk → (parse.proSynOk ph.subPro).2.cliVer = v) ∧
      (pHandle ph.type = some .upidx → (parse.proUpidx ph.subPro).2.cliVer = v)
  | .elapse _ => True

theorem pairs_ext (ext : List ExtCliData) :
    pairs (ext.flatMap fun ext => [ext.key, ext.value]) = ext.map fun ext => (ext.key, ext.value) := by
  induction ext with
  | nil => rfl
  | cons first ext ih =>
    rw [List.map_cons, ← ih]
    rfl

theorem length_ext (ext : List ExtCliData) :
    (ext.flatMap fun ext => [ext.key, ext.value]).length = 2 * ext.length := by
  induction ext with
  | nil => rfl
  | cons first ext ih =>
    rw [List.flatMap_cons, List.length_append, ih, List.length_cons, List.length_cons, List.length_cons,
      List.length_nil]
    omega

theorem extValue_none {ext : List ExtCliData} {f : Str} (h : ∀ e ∈ ext, e.key ≠ f) :
    extValue (ext.flatMap fun ext => [ext.key, ext.value]) f = none := by
  rw [extValue, pairs_ext, List.lookup_eq_none_iff]
  intro pair hpair
  obtain ⟨e, he, rfl⟩ := List.mem_map.mp (List.mem_reverse.mp hpair)
  exact bne_iff_ne.mpr (h e he).symm

section Messages
variable {oc : OnlineCtrl} {parse : ParseFromString} {addr : UInt64} {uid conn : Int} {v : Str}

theorem eventAt_versioned {e : OnlineEvent} {e' : SessionEvent} (plain : PlainExt parse e)
    (carries : CarriesVersion parse uid conn v e) (h : eventAt oc parse addr e = some e') :
    Versioned uid conn v e' := by
  cases e with
  | elapse d =>
    cases h
    trivial
  | message now sublayerIndex pro =>
    cases hfound : messageRequest parse now sublayerIndex pro with
    | none =>
      rw [eventAt, hfound] at h
      cases h
    | some found =>
      rw [eventAt, hfound] at h
      dsimp only at h
      split at h
      · cases h
        unfold messageRequest at hfound
        dsimp only at hfound
        split at hfound
        · obtain ⟨r, hr, rfl⟩ := Option.map_eq_some_iff.mp hfound
          obtain ⟨handle, hhandle, hrequest⟩ := Option.bind_eq_some_iff.mp hr
          cases handle with
          | syn => cases hrequest
          | fin =>
            cases hrequest
            trivial
          | finDelay =>
            cases hrequest
            trivial
          | upidx =>
            cases hrequest
            rfl
          | synOk =>
            cases hrequest
            refine ⟨?_, ?_, fun huid hconn => (carries huid hconn).1 hhandle⟩
            · rw [length_ext, Nat.mul_mod_right]
            · apply extValue_none
              rintro ext hext heq
              apply plain hhandle ext hext
              rw [heq]
              decide
        · cases hfound
      · cases h

/-- In a run from empty redis every session has the version that its messages carry exactly if every
step is harmless. The hooks are the synchronous calls and every command is answered in time. No
client writes to the protocol's own fields, and all messages of the session carry one version. -/
theorem version_kept_iff {plan : Nat → CmdRound} (prompt : Prompt plan) (rounds : Nat) (w : World)
    (fresh : ∀ addr, (w.servers addr).keys = .empty) (es : List OnlineEvent)
    (plain : ∀ e ∈ es, PlainExt parse e) (carries : ∀ e ∈ es, CarriesVersion parse uid conn v e) :
    (∀ pre post, es = pre ++ post → ∀ addr, VersionKept
      ((onlineRun (network oc.dir plan) (rounds + 3) parse (oc, w) pre).2.servers addr).keys uid conn v) ↔
    (∀ pre e post, es = pre ++ e :: post → ∀ addr e', eventAt oc parse addr e = some e' → VersionSafe
      ((onlineRun (network oc.dir plan) (rounds + 3) parse (oc, w) pre).2.servers addr).keys uid conn v e') := by
  have hkeys : ∀ pre addr,
      ((onlineRun (network oc.dir plan) (rounds + 3) parse (oc, w) pre).2.servers addr).keys =
        runSessions (pre.filterMap (eventAt oc parse addr)) := by
    intro pre addr
    rw [(onlineRun_keys prompt rounds parse (oc, w) rfl pre).2 addr, fresh, runSessions]
  simp only [hkeys]
  apply always_iff
  · intro addr hhas
    cases hhas
  · intro pre e post heq kept
    have hmem : e ∈ es := by simp [heq]
    apply forall_congr'
    intro addr
    rw [List.filterMap_append, List.filterMap_cons, List.filterMap_nil]
    cases hevent : eventAt oc parse addr e with
    | none =>
      rw [List.append_nil]
      refine iff_of_true (kept addr) fun e' h => ?_
      cases h
    | some e' =>
      dsimp only
      rw [runSessions_snoc, sessionStep_version
        (eventAt_versioned (plain e hmem) (carries e hmem) hevent) (kept addr)]
      constructor
      · intro harmless e'' h
        cases h
        exact harmless
      · exact fun harmless => harmless e' rfl

end Messages

/-! ## A session that an UPIDX opens -/

/-- A message is an UPIDX of user 7 on connection 1 if it is empty, and else a SYNOK; both have
version 2. -/
def versionParse : ParseFromString :=
  ⟨fun pro => (true, ⟨if pro = [] then 7 else 2, 1, 1, 0, 7, []⟩), fun _ => true,
    fun _ => (true, ⟨100, ['2'], []⟩), fun _ => (true, ⟨100, ['2']⟩), fun _ => true, fun _ => (true, ⟨0⟩)⟩

def freshWorld : World := exampleWorld fun _ => true

theorem versionParse_plain (e : OnlineEvent) : PlainExt versionParse e := by
  cases e with
  | elapse d => trivial
  | message now sublayerIndex pro =>
    intro _ ext hext
    cases hext

theorem versionParse_carries (e : OnlineEvent) : CarriesVersion versionParse 7 1 ['2'] e := by
  cases e with
  | elapse d => trivial
  | message now sublayerIndex pro => exact fun _ _ => ⟨fun _ => rfl, fun _ => rfl⟩

theorem version_kept_iff_example :
    VersionKept ((onlineRun (network exampleCtrl.dir examplePlan) 3 versionParse (exampleCtrl, freshWorld)
      [.message 5 ['g'] ['s']]).2.servers (masterOf exampleCtrl 7)).keys 7 1 ['2'] := by
  have kept := (@version_kept_iff exampleCtrl versionParse 7 1 ['2'] examplePlan examplePlan_prompt 0
    freshWorld (fun _ => rfl) [.message 5 ['g'] ['s']] (fun e _ => versionParse_plain e)
    fun e _ => versionParse_carries e).mpr ?_ [.message 5 ['g'] ['s']] [] rfl (masterOf exampleCtrl 7)
  · simp only [Nat.zero_add] at kept
    exact kept
  · intro pre e post heq addr e' hevent
    cases pre with
    | cons first pre => simp at heq
    | nil =>
      cases heq
      have hsyn : ∃ proto, messageRequest versionParse 5 ['g'] ['s'] = some (7, .syn proto) := ⟨_, rfl⟩
      obtain ⟨proto, hsyn⟩ := hsyn
      simp only [eventAt, hsyn] at hevent
      split at hevent
      · cases hevent
        trivial
      · cases hevent

/-- The first message of the session is an UPIDX, and its version is lost. -/
theorem upidx_version_lost :
    ¬ ∀ (plan : Nat → CmdRound) (oc : OnlineCtrl) (parse : ParseFromString) (w : World)
      (es : List OnlineEvent) (uid conn : Int) (v : Str), Prompt plan →
      (∀ addr, (w.servers addr).keys = .empty) → (∀ e ∈ es, PlainExt parse e) →
      (∀ e ∈ es, CarriesVersion parse uid conn v e) → ∀ addr, VersionKept
        ((onlineRun (network oc.dir plan) 3 parse (oc, w) es).2.servers addr).keys uid conn v := by
  intro claim
  have hkept := claim examplePlan exampleCtrl versionParse freshWorld [.message 5 ['g'] []] 7 1 ['2']
    examplePlan_prompt (fun _ => rfl) (fun e _ => versionParse_plain e)
    (fun e _ => versionParse_carries e) (masterOf exampleCtrl 7)
  have hrun : ((onlineRun (network exampleCtrl.dir examplePlan) 3 versionParse (exampleCtrl, freshWorld)
      [.message 5 ['g'] []]).2.servers (masterOf exampleCtrl 7)).keys.has (sessionKey 7 1) = true ∧
      ((onlineRun (network exampleCtrl.dir examplePlan) 3 versionParse (exampleCtrl, freshWorld)
      [.message 5 ['g'] []]).2.servers (masterOf exampleCtrl 7)).keys.hget (sessionKey 7 1) "CV".toList =
        some [] := by
    decide +kernel
  have hcv := (hkept hrun.1).cv
  rw [hrun.2] at hcv
  cases hcv

end RedisCluster.Guarantees
