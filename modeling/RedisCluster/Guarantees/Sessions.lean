import RedisCluster.Source.Scripts

/-!
# What the session scripts change

The keyspace after each script, and what that says about the sessions, the index of
every user and the pending removals.
-/

set_option autoImplicit false

namespace RedisCluster.Guarantees
open Library Source

/-! ## Closed forms -/

/-- `RANK_W` after `WRITE STAT`. -/
def written (s : Keyspace) (uid : Str) : Keyspace :=
  let s := s.zincrby rankW 1 uid
  if s.zcard rankW > 1000 then s.zremrangebyrank rankW (s.zcard rankW - 1000) else s

/-- The count of a user goes up by one, and a crowded ranking is trimmed. -/
theorem writeStat_apply (uid : Str) (s : Keyspace) : writeStat uid s = (.ok (), written s uid) := by
  rw [writeStat, Script.bind_ok (Script.call_apply _), Script.bind_ok (Script.ask_apply _), written]
  split <;> rfl

theorem hashes_written {s : Keyspace} {uid : Str} : (written s uid).hashes = s.hashes := by
  unfold written
  dsimp only
  split <;> rfl

theorem now_written {s : Keyspace} {uid : Str} : (written s uid).now = s.now := by
  unfold written
  dsimp only
  split <;> rfl

theorem zsets_written {s : Keyspace} {uid z : Str} (h : z ≠ rankW) :
    (written s uid).zsets z = s.zsets z := by
  have hincr : (s.zincrby rankW 1 uid).zsets z = s.zsets z := Keyspace.zsets_setZset_of_ne h
  unfold written
  dsimp only
  split
  · exact (Keyspace.zsets_setZset_of_ne h).trans hincr
  · exact hincr

/-- The index without the fields of these whose session is gone. -/
def purged (s : Keyspace) (uid : Str) (lcs : List Str) : Keyspace :=
  lcs.foldl (fun s v => if s.has (klc uid v) then s else s.hdel (kuid uid) v) s

/-- The index entries whose session is gone are deleted. -/
theorem purge_apply (uid : Str) (lcs : List Str) (s : Keyspace) :
    purge uid lcs s = (.ok (), purged s uid lcs) := by
  induction lcs generalizing s with
  | nil => rfl
  | cons v lcs ih =>
    rw [purge, Script.bind_ok (Script.ask_apply _), purged, List.foldl_cons]
    by_cases h : s.has (klc uid v)
    · simp only [h, Bool.not_true, Bool.false_eq_true, if_false, if_true]
      exact ih s
    · simp only [h, Bool.not_false, if_true, Bool.false_eq_true, if_false]
      rw [Script.bind_ok (Script.call_apply _)]
      exact ih _

/-- Fields and values, in turn. -/
def pairs : List Str → List (Str × Str)
  | field :: value :: argv => (field, value) :: pairs argv
  | _ => []

/-- Pairs are written in their order, so the last one of a name stays. -/
theorem setArgs_apply (k : Str) {argv : List Str} (even : argv.length % 2 = 0) (s : Keyspace) :
    setArgs k argv s = (.ok (), s.hmset k (pairs argv)) := by
  induction argv using pairs.induct generalizing s with
  | case1 field value argv ih =>
    rw [setArgs, Script.bind_ok (Script.call_apply _), pairs, Keyspace.hmset_cons]
    apply ih
    simp only [List.length_cons] at even
    omega
  | case2 argv hne =>
    match argv, hne with
    | [], _ => rfl
    | [_], _ => simp at even
    | field :: value :: argv, hne => exact absurd rfl (hne field value argv)

/-- The session and its index entry, written. -/
def enrolled (s : Keyspace) (uid lc sid gate ct cv : Str) (argv : List Str) : Keyspace :=
  let s := purged s uid (s.hkeys (kuid uid))
  let s := s.hsetnx (kuid uid) lc (ct ++ ';' :: cv)
  let s := s.hmset (klc uid lc) [("SID".toList, ['0']), ("RID".toList, sid),
    ("GATE".toList, gate), ("CT".toList, ct)]
  let s := s.hsetnx (klc uid lc) "CV".toList cv
  s.hmset (klc uid lc) (pairs argv)

/-- The index lives about as long as the session. -/
def prolonged (s : Keyspace) (uid : Str) (ep : Nat) : Keyspace :=
  if s.ttl (kuid uid) < ep then s.expire (kuid uid) ep else s

/-- The keyspace after `syn.lua`. -/
def synced (s : Keyspace) (uid lc sid gate ct cv : Str) (argv : List Str) (ep : Nat) : Keyspace :=
  let s := (enrolled s uid lc sid gate ct cv argv).expire (klc uid lc) ep
  written ((prolonged s uid ep).zrem dlyCk (klc uid lc)) uid

/-- `syn.lua` comes to its end where the client type is a number and the data are pairs. -/
theorem syn_apply {uid lc sid rid gate st ct cv : Str} {argv : List Str} {n : Int}
    (hct : toNumber ct = some n) (even : argv.length % 2 = 0) (s : Keyspace) :
    syn [uid, lc, sid, rid, gate, st, ct, cv] argv s =
      (.ok (.array (.number 0 :: ((toNumber sid).map .number).toList)),
        synced s uid lc sid gate ct cv argv (lifetime n)) := by
  have hstat := writeStat_apply uid
  rw [syn, Script.bind_ok (Script.ask_apply _), Script.bind_ok (purge_apply ..),
    Script.bind_ok (Script.call_apply _), Script.bind_ok (Script.call_apply _),
    Script.bind_ok (Script.call_apply _), Script.bind_ok (setArgs_apply _ even _)]
  generalize hs : Keyspace.hmset _ (klc uid lc) (pairs argv) = enrollment
  change enrolled s uid lc sid gate ct cv argv = enrollment at hs
  simp only [hct, synced, prolonged, hs]
  rw [Script.bind_ok (Script.call_apply _), Script.bind_ok (Script.ask_apply _)]
  split
  · rw [Script.bind_ok (Script.call_apply _), Script.bind_ok (Script.call_apply _),
      Script.bind_ok (hstat _)]
    rfl
  · rw [Script.bind_ok (Script.call_apply _), Script.bind_ok (hstat _)]
    rfl

/-- The session and its index entry, removed. -/
def closed (s : Keyspace) (uid lc : Str) : Keyspace :=
  written (((s.hdel (kuid uid) lc).del (klc uid lc)).zrem dlyCk (klc uid lc)) uid

/-- `fin.lua` answers with the entry of the index, whatever the gate. -/
theorem fin_apply (uid lc sid rid gate : Str) (s : Keyspace) :
    fin [uid, lc, sid, rid, gate] s =
      (.ok (.ofOption (s.hget (kuid uid) lc)), closed s uid lc) := by
  rw [fin, Script.bind_ok (Script.ask_apply _), Script.bind_ok (Script.call_apply _),
    Script.bind_ok (Script.call_apply _), Script.bind_ok (Script.call_apply _),
    Script.bind_ok (writeStat_apply _ _)]
  rfl

/-- The gate of the session is this one. -/
def GateIs (s : Keyspace) (uid lc gate : Str) : Prop :=
  s.hget (klc uid lc) "GATE".toList = some gate

/-- The session is to be removed from `delay` on, and has no gate. -/
def delayed (s : Keyspace) (uid lc : Str) (delay : Int) : Keyspace :=
  (s.zadd dlyCk delay (klc uid lc)).hset (klc uid lc) "GATE".toList []

theorem hget_written {s : Keyspace} {uid k f : Str} : (written s uid).hget k f = s.hget k f := by
  rw [Keyspace.hget, Keyspace.fields_congr (congrFun hashes_written k), Keyspace.hget]

/-- `fin_delay.lua` schedules the removal of a session that still has the gate of the message. -/
theorem finDelay_apply_match {uid lc sid rid gate delay : Str} {n : Int}
    (hdelay : toNumber delay = some n) {s : Keyspace} (hgate : GateIs s uid lc gate) :
    finDelay [uid, lc, sid, rid, gate, delay] s =
      (.ok (.status "OK".toList), delayed (written s uid) uid lc n) := by
  unfold GateIs at hgate
  rw [finDelay, Script.bind_ok (writeStat_apply _ _), Script.bind_ok (Script.ask_apply _),
    hget_written, if_pos hgate]
  simp only [hdelay]
  rw [Script.bind_ok (Script.call_apply _), Script.bind_ok (Script.call_apply _)]
  rfl

/-- A session that came back over another gate is left alone. -/
theorem finDelay_apply_other {uid lc sid rid gate delay : Str} {s : Keyspace}
    (hgate : ¬ GateIs s uid lc gate) :
    finDelay [uid, lc, sid, rid, gate, delay] s = (.ok (.status "OK".toList), written s uid) := by
  unfold GateIs at hgate
  rw [finDelay, Script.bind_ok (writeStat_apply _ _), Script.bind_ok (Script.ask_apply _),
    hget_written, if_neg hgate]
  rfl

/-! ## Keys -/

theorem dlyCk_ne_rankW : dlyCk ≠ rankW := by decide

/-- No name of an index is that of a session. -/
theorem kuid_ne_klc (uid uid' lc : Str) : kuid uid ≠ klc uid' lc := by
  intro h
  have hhead : some 'U' = some 'L' := congrArg List.head? h
  exact absurd hhead (by decide)

theorem kuid_injective {uid uid' : Str} (h : kuid uid = kuid uid') : uid = uid' :=
  List.append_cancel_left h

/-- `timeout_rm` finds the user and the connection in the name of a session. -/
theorem cutAt_klc {uid : Str} (hdot : '.' ∉ uid) (lc : Str) :
    Text.cutAt '.' ((klc uid lc).drop 2) = some (uid, lc) := by
  have hdrop : (klc uid lc).drop 2 = uid ++ '.' :: lc := rfl
  rw [hdrop, Text.cutAt_append hdot]

/-- Names of sessions are apart, as a user has no dot. -/
theorem klc_injective {uid uid' lc lc' : Str} (hdot : '.' ∉ uid) (hdot' : '.' ∉ uid')
    (h : klc uid lc = klc uid' lc') : uid = uid' ∧ lc = lc' := by
  have hcut := cutAt_klc hdot lc
  rw [h, cutAt_klc hdot' lc', Option.some_inj, Prod.mk.injEq] at hcut
  exact ⟨hcut.1.symm, hcut.2.symm⟩

/-! ## `syn` and `upidx` -/

section Purge
variable {s : Keyspace} {uid : Str} {lcs : List Str}

theorem purged_cons {v : Str} : purged s uid (v :: lcs) =
    purged (if s.has (klc uid v) then s else s.hdel (kuid uid) v) uid lcs := rfl

theorem zsets_purged : (purged s uid lcs).zsets = s.zsets := by
  induction lcs generalizing s with
  | nil => rfl
  | cons v lcs ih =>
    rw [purged_cons, ih]
    split <;> rfl

theorem now_purged : (purged s uid lcs).now = s.now := by
  induction lcs generalizing s with
  | nil => rfl
  | cons v lcs ih =>
    rw [purged_cons, ih]
    split <;> rfl

theorem hashes_purged {k : Str} (h : k ≠ kuid uid) : (purged s uid lcs).hashes k = s.hashes k := by
  induction lcs generalizing s with
  | nil => rfl
  | cons v lcs ih =>
    rw [purged_cons, ih]
    split
    · rfl
    · exact Keyspace.hashes_hdel_of_ne h

/-- A field stays if its session is there. -/
theorem mem_purged {f : Str} : f ∈ (purged s uid lcs).fields (kuid uid) ↔
    f ∈ s.fields (kuid uid) ∧ (f ∈ lcs → s.has (klc uid f)) := by
  induction lcs generalizing s with
  | nil => simp [purged]
  | cons v lcs ih =>
    rw [purged_cons, ih, List.mem_cons]
    by_cases hv : s.has (klc uid v)
    · rw [if_pos hv]
      constructor
      · rintro ⟨hf, hlcs⟩
        refine ⟨hf, ?_⟩
        rintro (rfl | hmem)
        · exact hv
        · exact hlcs hmem
      · rintro ⟨hf, hlcs⟩
        exact ⟨hf, fun hmem => hlcs (Or.inr hmem)⟩
    · rw [if_neg hv, Keyspace.mem_hdel]
      have hhas : (s.hdel (kuid uid) v).has (klc uid f) = s.has (klc uid f) := by
        rw [Keyspace.has, Keyspace.hashes_hdel_of_ne (kuid_ne_klc uid uid f).symm, Keyspace.has]
      rw [hhas]
      constructor
      · rintro ⟨⟨hne, hf⟩, hlcs⟩
        exact ⟨hf, fun hmem => hlcs (hmem.resolve_left hne)⟩
      · rintro ⟨hf, hlcs⟩
        refine ⟨⟨?_, hf⟩, fun hmem => hlcs (Or.inr hmem)⟩
        rintro rfl
        exact hv (hlcs (Or.inl rfl))

/-- An entry stays if its session is there. -/
theorem hget_purged {f : Str} : (purged s uid lcs).hget (kuid uid) f =
    if f ∈ lcs ∧ s.has (klc uid f) = false then none else s.hget (kuid uid) f := by
  by_cases hf : f ∈ (purged s uid lcs).fields (kuid uid)
  · have hstays := (mem_purged.mp hf).2
    rw [if_neg]
    · clear hstays
      induction lcs generalizing s with
      | nil => rfl
      | cons v lcs ih =>
        rw [purged_cons] at hf ⊢
        rw [ih hf]
        split
        · rfl
        · next hv =>
          rw [if_neg hv] at hf
          have hne := (Keyspace.mem_hdel.mp (mem_purged.mp hf).1).1
          rw [Keyspace.hget_hdel, if_neg hne]
    · rintro ⟨hmem, hnone⟩
      rw [hstays hmem] at hnone
      cases hnone
  · rw [Keyspace.not_mem_fields_iff.mp hf]
    split
    · rfl
    · next hc =>
      symm
      apply Keyspace.not_mem_fields_iff.mp
      intro hmem
      apply hf
      rw [mem_purged]
      refine ⟨hmem, fun hlcs => ?_⟩
      by_contra hnot
      exact hc ⟨hlcs, Bool.eq_false_iff.mpr hnot⟩

theorem expiry_purged {f : Str} (h : f ∈ (purged s uid lcs).fields (kuid uid)) :
    (purged s uid lcs).expiry (kuid uid) = s.expiry (kuid uid) := by
  induction lcs generalizing s with
  | nil => rfl
  | cons v lcs ih =>
    rw [purged_cons] at h ⊢
    rw [ih h]
    split
    · rfl
    · next hv =>
      rw [if_neg hv] at h
      exact Keyspace.expiry_hdel (mem_purged.mp h).1

end Purge

/-- What `syn` and `upidx` change; the label is what they put into the index. -/
structure Synced (s s' : Keyspace) (uid lc label : Str) : Prop where
  now : s'.now = s.now
  frame : ∀ k, k ≠ kuid uid → k ≠ klc uid lc → s'.hashes k = s.hashes k
  index : ∀ f, f ∈ s'.fields (kuid uid) ↔
    f = lc ∨ f ∈ s.fields (kuid uid) ∧ s.has (klc uid f)
  labels : ∀ f, s'.hget (kuid uid) f =
    if f ∈ s.fields (kuid uid) ∧ s.has (klc uid f) then s.hget (kuid uid) f
    else if f = lc then some label else none
  session : s'.has (klc uid lc)
  stamps : ∃ stamp limit, s'.expiry (klc uid lc) = some stamp ∧
    s'.expiry (kuid uid) = some limit ∧ stamp ≤ limit + 500 ∧
    ∀ f old, f ∈ s.fields (kuid uid) → s.has (klc uid f) →
      s.expiry (kuid uid) = some old → old ≤ limit
  pending : ∀ m, s'.zscore dlyCk m = if m = klc uid lc then none else s.zscore dlyCk m

section Enrolled
variable {s : Keyspace} {uid lc sid gate ct cv : Str} {argv : List Str}

theorem zsets_enrolled : (enrolled s uid lc sid gate ct cv argv).zsets = s.zsets := by
  simp [enrolled, zsets_purged]

theorem now_enrolled : (enrolled s uid lc sid gate ct cv argv).now = s.now := by
  simp [enrolled, now_purged]

/-- Only the index of the user changes besides the session. -/
theorem hashes_enrolled {k : Str} (h : k ≠ klc uid lc) :
    (enrolled s uid lc sid gate ct cv argv).hashes k =
      ((purged s uid (s.hkeys (kuid uid))).hsetnx (kuid uid) lc (ct ++ ';' :: cv)).hashes k := by
  simp only [enrolled]
  rw [Keyspace.hashes_hmset_of_ne h, Keyspace.hashes_hsetnx_of_ne h,
    Keyspace.hashes_hmset_of_ne h]

theorem enrolled_has : (enrolled s uid lc sid gate ct cv argv).has (klc uid lc) := by
  simp only [enrolled]
  refine Keyspace.has_of_mem (f := "CV".toList) ?_
  rw [Keyspace.mem_hmset, Keyspace.mem_hsetnx]
  exact Or.inr (Or.inl rfl)

/-- The index has the session, and those of before that are there. -/
theorem mem_enrolled {f : Str} : f ∈ (enrolled s uid lc sid gate ct cv argv).fields (kuid uid) ↔
    f = lc ∨ f ∈ s.fields (kuid uid) ∧ s.has (klc uid f) := by
  rw [Keyspace.fields_congr (hashes_enrolled (kuid_ne_klc _ _ _)), Keyspace.mem_hsetnx, mem_purged,
    Keyspace.mem_hkeys]
  tauto

/-- A session that was in the index keeps its entry: `HSETNX` does not write it again. -/
theorem hget_enrolled {f : Str} :
    (enrolled s uid lc sid gate ct cv argv).hget (kuid uid) f =
      if f ∈ s.fields (kuid uid) ∧ s.has (klc uid f) then s.hget (kuid uid) f
      else if f = lc then some (ct ++ ';' :: cv) else none := by
  rw [Keyspace.hget_congr (hashes_enrolled (kuid_ne_klc _ _ _)), Keyspace.hget_hsetnx]
  by_cases hkept : f ∈ s.fields (kuid uid) ∧ s.has (klc uid f)
  · rw [if_pos (mem_purged.mpr ⟨hkept.1, fun _ => hkept.2⟩), if_pos hkept, hget_purged, if_neg]
    simp [hkept.2]
  · rw [if_neg hkept, if_neg]
    rw [mem_purged, Keyspace.mem_hkeys]
    exact fun h => hkept ⟨h.1, h.2 h.1⟩

/-- Enrolling does not move the end of the index. -/
theorem expiry_enrolled : (enrolled s uid lc sid gate ct cv argv).expiry (kuid uid) =
    (purged s uid (s.hkeys (kuid uid))).expiry (kuid uid) := by
  rw [Keyspace.expiry_congr (hashes_enrolled (kuid_ne_klc _ _ _)), Keyspace.expiry_hsetnx]

end Enrolled

section Prolonged
variable {s : Keyspace} {uid : Str} {ep : Nat}

theorem zsets_prolonged : (prolonged s uid ep).zsets = s.zsets := by
  unfold prolonged
  split <;> rfl

theorem now_prolonged : (prolonged s uid ep).now = s.now := by
  unfold prolonged
  split <;> rfl

theorem hashes_prolonged {k : Str} (h : k ≠ kuid uid) :
    (prolonged s uid ep).hashes k = s.hashes k := by
  unfold prolonged
  split
  · exact Keyspace.hashes_expire_of_ne h
  · rfl

theorem fields_prolonged : (prolonged s uid ep).fields (kuid uid) = s.fields (kuid uid) := by
  unfold prolonged
  split
  · exact Keyspace.fields_expire
  · rfl

/-- The rounded time left is compared, so half a second may be missing. -/
theorem expiry_prolonged (h : s.has (kuid uid)) (hep : 0 < ep) : ∃ limit,
    (prolonged s uid ep).expiry (kuid uid) = some limit ∧ s.now + 1000 * ep ≤ limit + 500 ∧
      ∀ old, s.expiry (kuid uid) = some old → old ≤ limit := by
  unfold prolonged
  cases hold : s.expiry (kuid uid) with
  | none =>
    have hneg := Keyspace.ttl_neg hold
    rw [if_pos (by omega)]
    exact ⟨_, Keyspace.expiry_expire h, by omega, fun old h => nomatch h⟩
  | some old =>
    rw [Keyspace.ttl_eq hold]
    split
    · refine ⟨_, Keyspace.expiry_expire h, by omega, fun old' h' => ?_⟩
      cases h'
      omega
    · refine ⟨old, hold, by omega, fun old' h' => ?_⟩
      cases h'
      exact Nat.le_refl _

end Prolonged

theorem lifetime_pos (ct : Int) : 0 < lifetime ct := by
  unfold lifetime
  split_ifs <;> decide

/-- `syn.lua` and `upidx.lua` do what `Synced` says. -/
theorem synced_effect {s : Keyspace} {uid lc sid gate ct cv : Str} {argv : List Str} {ep : Nat}
    (hep : 0 < ep) :
    Synced s (synced s uid lc sid gate ct cv argv ep) uid lc (ct ++ ';' :: cv) := by
  have hne := kuid_ne_klc uid uid lc
  have hhash : ∀ k, (synced s uid lc sid gate ct cv argv ep).hashes k =
      (prolonged ((enrolled s uid lc sid gate ct cv argv).expire (klc uid lc) ep) uid ep).hashes k :=
    fun k => congrFun hashes_written k
  have hindex : ((enrolled s uid lc sid gate ct cv argv).expire (klc uid lc) ep).hashes (kuid uid) =
      (enrolled s uid lc sid gate ct cv argv).hashes (kuid uid) := Keyspace.hashes_expire_of_ne hne
  have hmem : ∀ f, f ∈ (synced s uid lc sid gate ct cv argv ep).fields (kuid uid) ↔
      f = lc ∨ f ∈ s.fields (kuid uid) ∧ s.has (klc uid f) := by
    intro f
    rw [Keyspace.fields_congr (hhash _), fields_prolonged, Keyspace.fields_congr hindex,
      mem_enrolled]
  have hlc : ((enrolled s uid lc sid gate ct cv argv).expire (klc uid lc) ep).has (kuid uid) := by
    refine Keyspace.has_of_mem (f := lc) ?_
    rw [Keyspace.fields_congr hindex, mem_enrolled]
    exact Or.inl rfl
  constructor
  · rw [synced, now_written]
    exact now_prolonged.trans now_enrolled
  · intro k hk hk'
    rw [hhash, hashes_prolonged hk, Keyspace.hashes_expire_of_ne hk', hashes_enrolled hk',
      Keyspace.hashes_hsetnx_of_ne hk, hashes_purged hk]
  · exact hmem
  · intro f
    rw [← @hget_enrolled s uid lc sid gate ct cv argv, Keyspace.hget, Keyspace.fields_congr (hhash _), fields_prolonged,
      Keyspace.fields_congr hindex, Keyspace.hget]
  · rw [Keyspace.has, hhash, hashes_prolonged hne.symm, Keyspace.hashes_expire, Option.isSome_map]
    exact enrolled_has
  · obtain ⟨limit, hlimit, hlong, hold⟩ := expiry_prolonged hlc hep
    refine ⟨s.now + 1000 * ep, limit, ?_, ?_, ?_, ?_⟩
    · rw [Keyspace.expiry_congr (hhash _), Keyspace.expiry_congr (hashes_prolonged hne.symm),
        Keyspace.expiry_expire enrolled_has, now_enrolled]
    · rw [Keyspace.expiry_congr (hhash _), hlimit]
    · rwa [Keyspace.now_expire, now_enrolled] at hlong
    · intro f old hf hhas hstamp
      apply hold
      have hstays : f ∈ (purged s uid (s.hkeys (kuid uid))).fields (kuid uid) :=
        mem_purged.mpr ⟨hf, fun _ => hhas⟩
      rw [Keyspace.expiry_congr hindex, expiry_enrolled, expiry_purged hstays, hstamp]
  · intro m
    have hzset : ∀ z, (prolonged ((enrolled s uid lc sid gate ct cv argv).expire (klc uid lc) ep)
        uid ep).zsets z = s.zsets z := by
      intro z
      rw [zsets_prolonged, Keyspace.zsets_expire, zsets_enrolled]
    rw [synced, Keyspace.zscore_congr (zsets_written dlyCk_ne_rankW), Keyspace.zscore_zrem,
      Keyspace.zscore_congr (hzset dlyCk)]

/-! ## `fin` and `fin_delay` -/

/-- What `fin` changes. -/
structure Closed (s s' : Keyspace) (uid lc : Str) : Prop where
  now : s'.now = s.now
  frame : ∀ k, k ≠ kuid uid → k ≠ klc uid lc → s'.hashes k = s.hashes k
  index : ∀ f, f ∈ s'.fields (kuid uid) ↔ f ≠ lc ∧ f ∈ s.fields (kuid uid)
  labels : ∀ f, s'.hget (kuid uid) f = if f = lc then none else s.hget (kuid uid) f
  session : s'.hashes (klc uid lc) = none
  stamps : ∀ f, f ∈ s'.fields (kuid uid) → s'.expiry (kuid uid) = s.expiry (kuid uid)
  pending : ∀ m, s'.zscore dlyCk m = if m = klc uid lc then none else s.zscore dlyCk m

/-- `fin.lua` does what `Closed` says. -/
theorem closed_effect {s : Keyspace} {uid lc : Str} : Closed s (closed s uid lc) uid lc := by
  have hne := kuid_ne_klc uid uid lc
  have hhash : ∀ k, (closed s uid lc).hashes k =
      ((s.hdel (kuid uid) lc).del (klc uid lc)).hashes k := fun k => congrFun hashes_written k
  have hindex : (closed s uid lc).hashes (kuid uid) =
      (s.hdel (kuid uid) lc).hashes (kuid uid) := by
    rw [hhash, Keyspace.hashes_del, if_neg hne]
  constructor
  · rw [closed, now_written]
    rfl
  · intro k hk hk'
    rw [hhash, Keyspace.hashes_del, if_neg hk', Keyspace.hashes_hdel_of_ne hk]
  · intro f
    rw [Keyspace.fields_congr hindex, Keyspace.mem_hdel]
  · intro f
    rw [Keyspace.hget_congr hindex, Keyspace.hget_hdel]
  · rw [hhash, Keyspace.hashes_del, if_pos rfl]
  · intro f hf
    rw [Keyspace.fields_congr hindex] at hf
    rw [Keyspace.expiry_congr hindex, Keyspace.expiry_hdel hf]
  · intro m
    rw [closed, Keyspace.zscore_congr (zsets_written dlyCk_ne_rankW), Keyspace.zscore_zrem]
    rfl

/-- What `fin_delay` changes if it has the session's gate. -/
structure Delayed (s s' : Keyspace) (uid lc : Str) (delay : Int) : Prop where
  now : s'.now = s.now
  frame : ∀ k, k ≠ klc uid lc → s'.hashes k = s.hashes k
  session : s'.has (klc uid lc) ∧ s.has (klc uid lc)
  stamp : s'.expiry (klc uid lc) = s.expiry (klc uid lc)
  pending : ∀ m, s'.zscore dlyCk m = if m = klc uid lc then some delay else s.zscore dlyCk m

/-- `fin_delay.lua` does what `Delayed` says where the gate is right. -/
theorem delayed_effect {s : Keyspace} {uid lc gate : Str} (hgate : GateIs s uid lc gate)
    (delay : Int) : Delayed s (delayed (written s uid) uid lc delay) uid lc delay := by
  have hhash : ∀ k, k ≠ klc uid lc →
      (delayed (written s uid) uid lc delay).hashes k = s.hashes k := by
    intro k hk
    rw [delayed, Keyspace.hashes_hset_of_ne hk]
    exact congrFun hashes_written k
  constructor
  · exact now_written
  · exact hhash
  · constructor
    · refine Keyspace.has_of_mem (f := "GATE".toList) ?_
      rw [delayed, Keyspace.mem_hset]
      exact Or.inl rfl
    · refine Keyspace.has_of_mem (f := "GATE".toList) ?_
      rw [Ordered.mem_iff_getElem?]
      exact ⟨gate, hgate⟩
  · rw [delayed, Keyspace.expiry_hset]
    exact Keyspace.expiry_congr (congrFun hashes_written _)
  · intro m
    have hpending : (written s uid).zsets dlyCk = s.zsets dlyCk := zsets_written dlyCk_ne_rankW
    change ((written s uid).zadd dlyCk delay (klc uid lc)).zscore dlyCk m = _
    rw [Keyspace.zscore_zadd, Keyspace.zscore_congr hpending]

/-! ## `timeout_rm` -/

/-- The session is among the pending removals, with a stamp that is not later. -/
def Due (s : Keyspace) (st : Int) (m : Str) : Prop :=
  ∃ stamp, s.zscore dlyCk m = some stamp ∧ stamp ≤ st

/-- A name that `timeout_rm` can take apart. -/
def Named (m : Str) : Prop := ∃ uid lc, '.' ∉ uid ∧ m = klc uid lc

/-- The index without the entries of these sessions. -/
def dropped (s : Keyspace) (names : List Str) : Keyspace :=
  names.foldl (fun s name =>
    ((Text.cutAt '.' (name.drop 2)).map fun (uid, lc) => s.hdel (kuid uid) lc).getD s) s

section Dropped
variable {s : Keyspace} {names : List Str}

theorem dropped_cons {uid lc : Str} (hdot : '.' ∉ uid) :
    dropped s (klc uid lc :: names) = dropped (s.hdel (kuid uid) lc) names := by
  rw [dropped, List.foldl_cons, cutAt_klc hdot]
  rfl

/-- The first loop of `timeout_rm.lua` takes the sessions out of the index of their users. -/
theorem dropSessions_apply (named : ∀ m ∈ names, Named m) (ofl : List RedisReply) :
    ∃ ofl', dropSessions names ofl s = (.ok ofl', dropped s names) := by
  induction names generalizing s ofl with
  | nil => exact ⟨ofl, rfl⟩
  | cons name names ih =>
    obtain ⟨uid, lc, hdot, rfl⟩ := named name (by simp)
    have hrest : ∀ m ∈ names, Named m := fun m hm => named m (List.mem_cons_of_mem _ hm)
    rw [dropSessions, dropped_cons hdot, cutAt_klc hdot]
    dsimp only
    rw [Script.bind_ok (Script.ask_apply _), Script.bind_ok (Script.call_apply _)]
    cases s.hget (kuid uid) lc with
    | none => exact ih hrest ofl
    | some tv => exact ih hrest _

/-- Only indices are changed by it. -/
theorem dropped_frame (named : ∀ m ∈ names, Named m) :
    (dropped s names).now = s.now ∧ (dropped s names).zsets = s.zsets ∧
      ∀ uid lc, (dropped s names).hashes (klc uid lc) = s.hashes (klc uid lc) := by
  induction names generalizing s with
  | nil => exact ⟨rfl, rfl, fun uid lc => rfl⟩
  | cons name names ih =>
    obtain ⟨uid, lc, hdot, rfl⟩ := named name (by simp)
    obtain ⟨hnow, hzsets, hhash⟩ := ih (s := s.hdel (kuid uid) lc)
      fun m hm => named m (List.mem_cons_of_mem _ hm)
    rw [dropped_cons hdot]
    refine ⟨hnow, hzsets, fun uid' lc' => ?_⟩
    rw [hhash, Keyspace.hashes_hdel_of_ne (kuid_ne_klc _ _ _).symm]

/-- An index loses the connections of the sessions that are dropped, and no other. -/
theorem mem_dropped (named : ∀ m ∈ names, Named m) {uid : Str} (hdot : '.' ∉ uid) {f : Str} :
    f ∈ (dropped s names).fields (kuid uid) ↔ f ∈ s.fields (kuid uid) ∧ klc uid f ∉ names := by
  induction names generalizing s with
  | nil => simp [dropped]
  | cons name names ih =>
    obtain ⟨uid', lc, hdot', rfl⟩ := named name (by simp)
    rw [dropped_cons hdot', ih fun m hm => named m (List.mem_cons_of_mem _ hm), List.mem_cons, not_or]
    by_cases huid : uid = uid'
    · subst huid
      rw [Keyspace.mem_hdel]
      have hsame : klc uid f = klc uid lc ↔ f = lc :=
        ⟨fun h => (klc_injective hdot hdot h).2, fun h => by rw [h]⟩
      rw [hsame]
      tauto
    · have hne : kuid uid ≠ kuid uid' := fun h => huid (kuid_injective h)
      have hother : klc uid f ≠ klc uid' lc := fun h => huid (klc_injective hdot hdot' h).1
      rw [Keyspace.fields_congr (Keyspace.hashes_hdel_of_ne hne)]
      tauto

theorem hget_dropped (named : ∀ m ∈ names, Named m) {uid f : Str} (hdot : '.' ∉ uid)
    (h : f ∈ (dropped s names).fields (kuid uid)) :
    (dropped s names).hget (kuid uid) f = s.hget (kuid uid) f := by
  induction names generalizing s with
  | nil => rfl
  | cons name names ih =>
    obtain ⟨uid', lc, hdot', rfl⟩ := named name (by simp)
    have hrest : ∀ m ∈ names, Named m := fun m hm => named m (List.mem_cons_of_mem _ hm)
    rw [dropped_cons hdot'] at h ⊢
    rw [ih hrest h]
    by_cases huid : uid = uid'
    · subst huid
      have hne := (Keyspace.mem_hdel.mp ((mem_dropped hrest hdot).mp h).1).1
      rw [Keyspace.hget_hdel, if_neg hne]
    · have hne : kuid uid ≠ kuid uid' := fun h => huid (kuid_injective h)
      exact Keyspace.hget_congr (Keyspace.hashes_hdel_of_ne hne)

theorem expiry_dropped (named : ∀ m ∈ names, Named m) {uid f : Str} (hdot : '.' ∉ uid)
    (h : f ∈ (dropped s names).fields (kuid uid)) :
    (dropped s names).expiry (kuid uid) = s.expiry (kuid uid) := by
  induction names generalizing s with
  | nil => rfl
  | cons name names ih =>
    obtain ⟨uid', lc, hdot', rfl⟩ := named name (by simp)
    have hrest : ∀ m ∈ names, Named m := fun m hm => named m (List.mem_cons_of_mem _ hm)
    rw [dropped_cons hdot'] at h ⊢
    rw [ih hrest h]
    by_cases huid : uid = uid'
    · subst huid
      exact Keyspace.expiry_hdel ((mem_dropped hrest hdot).mp h).1
    · have hne : kuid uid ≠ kuid uid' := fun h => huid (kuid_injective h)
      exact Keyspace.expiry_congr (Keyspace.hashes_hdel_of_ne hne)

end Dropped

/-- What `timeout_rm` changes. -/
structure TimedOut (s s' : Keyspace) (st : Int) : Prop where
  now : s'.now = s.now
  removed : ∀ uid lc, Due s st (klc uid lc) → s'.hashes (klc uid lc) = none
  kept : ∀ uid lc, ¬ Due s st (klc uid lc) → s'.hashes (klc uid lc) = s.hashes (klc uid lc)
  index : ∀ uid f, '.' ∉ uid →
    (f ∈ s'.fields (kuid uid) ↔ f ∈ s.fields (kuid uid) ∧ ¬ Due s st (klc uid f))
  labels : ∀ uid f, '.' ∉ uid → f ∈ s'.fields (kuid uid) →
    s'.hget (kuid uid) f = s.hget (kuid uid) f
  stamps : ∀ uid f, '.' ∉ uid → f ∈ s'.fields (kuid uid) →
    s'.expiry (kuid uid) = s.expiry (kuid uid)
  pending : ∀ m, s'.zscore dlyCk m = (s.zscore dlyCk m).filter fun stamp => st < stamp

/-- The members of `DLY_CK` up to a stamp. -/
def dueNames (s : Keyspace) (st : Int) : List Str := (s.zrangebyscore dlyCk st).map Prod.fst

/-- The due sessions and their index entries, removed. -/
def swept (s : Keyspace) (st : Int) : Keyspace :=
  (dropped ((dueNames s st).foldl Keyspace.del s) (dueNames s st)).zremrangebyscore dlyCk st

theorem mem_dueNames {s : Keyspace} {st : Int} {m : Str} : m ∈ dueNames s st ↔ Due s st m := by
  rw [dueNames, List.mem_map]
  constructor
  · rintro ⟨⟨m', stamp⟩, hmem, rfl⟩
    exact ⟨stamp, Keyspace.mem_zrangebyscore.mp hmem⟩
  · rintro ⟨stamp, hstamp⟩
    exact ⟨(m, stamp), Keyspace.mem_zrangebyscore.mpr hstamp, rfl⟩

section Swept
variable {s : Keyspace} (named : ∀ m stamp, s.zscore dlyCk m = some stamp → Named m)

include named in
theorem dueNames_named (st : Int) : ∀ m ∈ dueNames s st, Named m := by
  intro m hm
  obtain ⟨stamp, hstamp, _⟩ := mem_dueNames.mp hm
  exact named m stamp hstamp

include named in
/-- `timeout_rm.lua` comes to its end where the stamp is a number, whatever the count. -/
theorem timeoutRm_apply {st : Str} {n : Int} (hst : toNumber st = some n) (cn : Str) :
    ∃ ofl, timeoutRm [st, cn] s = (.ok (.array ofl), swept s n) := by
  obtain ⟨ofl, hdrop⟩ := dropSessions_apply (s := (dueNames s n).foldl Keyspace.del s)
    (dueNames_named named n) []
  refine ⟨ofl, ?_⟩
  unfold dueNames at hdrop
  rw [timeoutRm]
  simp only [hst]
  rw [Script.bind_ok (Script.ask_apply _), Script.bind_ok (Script.call_apply _),
    Script.bind_ok hdrop, Script.bind_ok (Script.call_apply _)]
  rfl

include named in
/-- `timeout_rm.lua` does what `TimedOut` says. -/
theorem swept_effect (st : Int) : TimedOut s (swept s st) st := by
  have hnamed := dueNames_named named st
  obtain ⟨hnow, hzsets, hhash⟩ := dropped_frame (s := (dueNames s st).foldl Keyspace.del s) hnamed
  have hindex : ∀ uid, ((dueNames s st).foldl Keyspace.del s).hashes (kuid uid) =
      s.hashes (kuid uid) := by
    intro uid
    rw [Keyspace.hashes_dels, if_neg]
    intro hmem
    obtain ⟨uid', lc, _, heq⟩ := hnamed _ hmem
    exact kuid_ne_klc uid uid' lc heq
  have hsession : ∀ uid lc, (swept s st).hashes (klc uid lc) =
      if klc uid lc ∈ dueNames s st then none else s.hashes (klc uid lc) :=
    fun uid lc => (hhash uid lc).trans Keyspace.hashes_dels
  constructor
  · exact hnow.trans Keyspace.now_dels
  · intro uid lc h
    rw [hsession, if_pos (mem_dueNames.mpr h)]
  · intro uid lc h
    rw [hsession, if_neg (mem_dueNames.not.mpr h)]
  · intro uid f hdot
    have hmem := mem_dropped (s := (dueNames s st).foldl Keyspace.del s) hnamed hdot (f := f)
    rw [Keyspace.fields_congr (hindex uid), mem_dueNames] at hmem
    exact hmem
  · intro uid f hdot hf
    have hlabel := hget_dropped hnamed hdot hf
    rw [Keyspace.hget_congr (hindex uid)] at hlabel
    exact hlabel
  · intro uid f hdot hf
    have hstamp := expiry_dropped hnamed hdot hf
    rw [Keyspace.expiry_congr (hindex uid)] at hstamp
    exact hstamp
  · intro m
    rw [swept, Keyspace.zscore_zremrangebyscore, Keyspace.zscore_congr (congrFun hzsets dlyCk),
      Keyspace.zscore_congr (congrFun Keyspace.zsets_dels dlyCk)]

end Swept
/-! ## Events -/

/-- The name of a session. -/
def sessionKey (uid lc : Int) : Str := klc (Text.decimal uid) (Text.decimal lc)

/-- The name of a user's index. -/
def indexKey (uid : Int) : Str := kuid (Text.decimal uid)

theorem decimal_no_dot (n : Int) : '.' ∉ Text.decimal n :=
  Text.not_mem_decimal n (by decide) (by decide)

/-- Two sessions have one key only if they are the same. -/
theorem sessionKey_inj {uid lc uid' lc' : Int} :
    sessionKey uid lc = sessionKey uid' lc' ↔ uid = uid' ∧ lc = lc' := by
  constructor
  · intro h
    obtain ⟨huid, hlc⟩ := klc_injective (decimal_no_dot uid) (decimal_no_dot uid') h
    exact ⟨Text.decimal_injective huid, Text.decimal_injective hlc⟩
  · rintro ⟨rfl, rfl⟩
    rfl

theorem indexKey_inj {uid uid' : Int} : indexKey uid = indexKey uid' ↔ uid = uid' :=
  ⟨fun h => Text.decimal_injective (kuid_injective h), fun h => by rw [h]⟩

theorem toNumber_decimal (n : Int) : toNumber (Text.decimal n) = some n := Text.readInt_decimal n

/-- Nothing that concerns sessions changes. -/
structure Idle (s s' : Keyspace) : Prop where
  now : s'.now = s.now
  frame : ∀ k, s'.hashes k = s.hashes k
  pending : ∀ m, s'.zscore dlyCk m = s.zscore dlyCk m

/-- The request removes or writes the session, whatever its state. -/
def settles : Request → Bool
  | .finDelay _ => false
  | r => r.accepted

/-- What a `syn` or `upidx` that runs puts into the index. -/
def opens : Request → Option Str
  | .syn proto =>
    if (Request.syn proto).accepted then some (Text.decimal proto.cliType ++ ';' :: proto.cliVer)
    else none
  | .upidx proto => some (Text.decimal proto.cliType ++ ';' :: proto.cliVer)
  | _ => none

theorem settles_of_opens {r : Request} {label : Str} (h : opens r = some label) :
    settles r = true := by
  cases r with
  | syn proto =>
    rw [opens] at h
    split at h
    · next haccepted => exact haccepted
    · cases h
  | upidx proto => rfl
  | fin proto => cases h
  | finDelay proto => cases h

/-- What an event changes. -/
inductive Effect (s s' : Keyspace) : SessionEvent → Prop
  | synced {uid : Int} {r : Request} {label : Str} (opened : opens r = some label)
      (effect : Synced s s' (Text.decimal uid) (Text.decimal r.head.logicConn) label) :
      Effect s s' (.request uid r)
  | closed {uid : Int} {proto : ProtoFin}
      (effect : Closed s s' (Text.decimal uid) (Text.decimal proto.head.logicConn)) :
      Effect s s' (.request uid (.fin proto))
  | delayed {uid : Int} {proto : ProtoFinDelay}
      (gate : GateIs s (Text.decimal uid) (Text.decimal proto.head.logicConn)
        proto.head.sublayerIndex)
      (effect : Delayed s s' (Text.decimal uid) (Text.decimal proto.head.logicConn) proto.expire) :
      Effect s s' (.request uid (.finDelay proto))
  | passed {uid : Int} {proto : ProtoFinDelay}
      (gate : ¬ GateIs s (Text.decimal uid) (Text.decimal proto.head.logicConn)
        proto.head.sublayerIndex)
      (effect : Idle s s') : Effect s s' (.request uid (.finDelay proto))
  | refused {uid : Int} {r : Request} (unsettled : settles r = false)
      (other : ∀ proto, r ≠ .finDelay proto) (effect : Idle s s') : Effect s s' (.request uid r)
  | swept {st cn : Int} (effect : TimedOut s s' st) : Effect s s' (.timeoutRm st cn)
  | elapsed {d : Nat} (effect : s' = s.elapse d) : Effect s s' (.elapse d)

/-- Counting a user touches no session. -/
theorem idle_written (s : Keyspace) (uid : Str) : Idle s (written s uid) where
  now := now_written
  frame k := congrFun hashes_written k
  pending _ := Keyspace.zscore_congr (zsets_written dlyCk_ne_rankW)

theorem runScript_ok {script : Script RedisReply} {s s' : Keyspace} {reply : RedisReply}
    (h : script s = (.ok reply, s')) : runScript script s = (reply, s') := by
  rw [runScript, h]

/-- `syn` and `upidx` with what the callers print. -/
theorem syn_effect (s : Keyspace) (uid : Int) (head : ProtoGbHead) (expire cliType : Int)
    (cliVer : Str) {argv : List Str} (even : argv.length % 2 = 0) :
    Synced s (runScript (syn (Text.decimal uid :: (head.keys ++
      [Text.decimal expire, Text.decimal cliType, cliVer])) argv) s).2 (Text.decimal uid)
      (Text.decimal head.logicConn) (Text.decimal cliType ++ ';' :: cliVer) := by
  have hsyn := @syn_apply (Text.decimal uid) (Text.decimal head.logicConn)
    (Text.decimal head.idx.sendIdx) (Text.decimal head.idx.recvIdx) head.sublayerIndex
    (Text.decimal expire) (Text.decimal cliType) cliVer argv cliType (toNumber_decimal cliType) even s
  have hrun : (runScript (syn (Text.decimal uid :: (head.keys ++
      [Text.decimal expire, Text.decimal cliType, cliVer])) argv) s).2 = synced s _ _ _ _ _ _ _ _ :=
    congrArg Prod.snd (runScript_ok hsyn)
  rw [hrun]
  exact synced_effect (lifetime_pos cliType)

/-- Every event has its effect, as long as the pending removals are named as sessions. -/
theorem sessionStep_effect {s : Keyspace} (named : ∀ m stamp, s.zscore dlyCk m = some stamp → Named m)
    (e : SessionEvent) : Effect s (sessionStep s e) e := by
  cases e with
  | elapse d => exact .elapsed rfl
  | timeoutRm st cn =>
    obtain ⟨ofl, hrun⟩ := timeoutRm_apply named (toNumber_decimal st) (Text.decimal cn)
    apply Effect.swept
    rw [sessionStep, runScript_ok hrun]
    exact swept_effect named st
  | request uid r =>
    cases r with
    | syn proto =>
      by_cases h : (Request.syn proto).accepted
      · refine .synced (if_pos h) ?_
        rw [sessionStep, if_pos h]
        exact syn_effect s uid proto.head proto.expire proto.cliType proto.cliVer
          (decide_eq_true_eq.mp h)
      · refine .refused (Bool.eq_false_iff.mpr h) (by simp) ?_
        rw [sessionStep, if_neg h]
        exact ⟨rfl, fun _ => rfl, fun _ => rfl⟩
    | upidx proto =>
      apply Effect.synced rfl
      exact syn_effect s uid proto.head proto.expire proto.cliType proto.cliVer rfl
    | fin proto =>
      apply Effect.closed
      have hrun := runScript_ok (fin_apply (Text.decimal uid) (Text.decimal proto.head.logicConn)
        (Text.decimal proto.head.idx.sendIdx) (Text.decimal proto.head.idx.recvIdx)
        proto.head.sublayerIndex s)
      have hstep : sessionStep s (.request uid (.fin proto)) = closed s _ _ :=
        congrArg Prod.snd hrun
      rw [hstep]
      exact closed_effect
    | finDelay proto =>
      by_cases gate : GateIs s (Text.decimal uid) (Text.decimal proto.head.logicConn)
          proto.head.sublayerIndex
      · apply Effect.delayed gate
        have hrun := runScript_ok (@finDelay_apply_match _ _ (Text.decimal proto.head.idx.sendIdx)
          (Text.decimal proto.head.idx.recvIdx) _ _ _ (toNumber_decimal proto.expire) _ gate)
        have hstep : sessionStep s (.request uid (.finDelay proto)) =
            delayed (written s (Text.decimal uid)) _ _ _ := congrArg Prod.snd hrun
        rw [hstep]
        exact delayed_effect gate proto.expire
      · apply Effect.passed gate
        have hrun := runScript_ok (@finDelay_apply_other _ _ (Text.decimal proto.head.idx.sendIdx)
          (Text.decimal proto.head.idx.recvIdx) _ (Text.decimal proto.expire) _ gate)
        have hstep : sessionStep s (.request uid (.finDelay proto)) = written s _ :=
          congrArg Prod.snd hrun
        rw [hstep]
        exact idle_written s _

end RedisCluster.Guarantees
