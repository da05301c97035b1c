import RedisCluster.Guarantees.DelayedClose

/-!
# Which sessions are reported online

The index of a user may outlive a session in it. `syn` and `upidx` purge the entries of
such sessions before they write; the scripts that read the index report them.
-/

set_option autoImplicit false

namespace RedisCluster.Guarantees
open Library Source

/-- Every entry of the user's index has its session. -/
def Backed (s : Keyspace) (uid : Str) : Prop :=
  ∀ lc ∈ s.fields (kuid uid), s.has (klc uid lc)

/-- The replies of the reading scripts name only sessions that exist. -/
structure OnlineLive (s : Keyspace) : Prop where
  ope : ∀ uid : Int, ∀ lc ∈ getSessionOpe (Text.decimal uid) s, s.has (klc (Text.decimal uid) lc)
  multi : ∀ uids : List Int, ∀ entry ∈ getMulti (uids.map Text.decimal) s, ∃ uid ∈ uids, ∃ lc,
    entry = sessionEntry s (Text.decimal uid) lc ∧ s.has (klc (Text.decimal uid) lc)

theorem onlineLive_iff {s : Keyspace} : OnlineLive s ↔ ∀ uid : Int, Backed s (Text.decimal uid) := by
  constructor
  · intro h uid lc hlc
    exact h.ope uid lc (Keyspace.mem_hkeys.mpr hlc)
  · intro h
    constructor
    · intro uid lc hlc
      exact h uid lc (Keyspace.mem_hkeys.mp hlc)
    · intro uids entry hentry
      rw [getMulti, List.flatMap_map, List.mem_flatMap] at hentry
      obtain ⟨uid, huid, hentry⟩ := hentry
      obtain ⟨lc, hlc, rfl⟩ := List.mem_map.mp hentry
      exact ⟨uid, huid, lc, rfl, h uid lc (Keyspace.mem_hkeys.mp hlc)⟩

section Steps
variable {s s' : Keyspace} {uid : Str}

/-- The index has not grown, and the sessions in it have not gone. -/
theorem Backed.mono (h : Backed s uid)
    (index : ∀ lc ∈ s'.fields (kuid uid), lc ∈ s.fields (kuid uid) ∧
      s'.hashes (klc uid lc) = s.hashes (klc uid lc)) : Backed s' uid := by
  intro lc hlc
  obtain ⟨hmem, hsame⟩ := index lc hlc
  rw [Keyspace.has, hsame]
  exact h lc hmem

/-- Neither script touches what another user has. -/
theorem Backed.other {uid' lc' : Str} (h : Backed s uid) (hdot : '.' ∉ uid) (hdot' : '.' ∉ uid')
    (hne : uid ≠ uid')
    (frame : ∀ k, k ≠ kuid uid' → k ≠ klc uid' lc' → s'.hashes k = s.hashes k) :
    Backed s' uid := by
  apply h.mono
  intro lc hlc
  have hindex : s'.hashes (kuid uid) = s.hashes (kuid uid) :=
    frame _ (fun heq => hne (kuid_injective heq)) (kuid_ne_klc _ _ _)
  refine ⟨by rwa [← Keyspace.fields_congr hindex], ?_⟩
  exact frame _ (kuid_ne_klc _ _ _).symm fun heq => hne (klc_injective hdot hdot' heq).1

/-- The purge, for the user that writes. -/
theorem Synced.backed {uid' lc' label : Str} (effect : Synced s s' uid' lc' label)
    (hdot : '.' ∉ uid) (hdot' : '.' ∉ uid') (h : Backed s uid) : Backed s' uid := by
  by_cases huid : uid = uid'
  · subst huid
    intro lc hlc
    by_cases hsame : lc = lc'
    · rw [hsame]
      exact effect.session
    · obtain ⟨_, hhas⟩ := ((effect.index lc).mp hlc).resolve_left hsame
      rw [Keyspace.has, effect.frame _ (kuid_ne_klc _ _ _).symm
        fun heq => hsame (klc_injective hdot hdot heq).2]
      exact hhas
  · exact h.other hdot hdot' huid effect.frame

theorem Closed.backed {uid' lc' : Str} (effect : Closed s s' uid' lc') (hdot : '.' ∉ uid)
    (hdot' : '.' ∉ uid') (h : Backed s uid) : Backed s' uid := by
  by_cases huid : uid = uid'
  · subst huid
    apply h.mono
    intro lc hlc
    obtain ⟨hne, hmem⟩ := (effect.index lc).mp hlc
    refine ⟨hmem, effect.frame _ (kuid_ne_klc _ _ _).symm ?_⟩
    exact fun heq => hne (klc_injective hdot hdot heq).2
  · exact h.other hdot hdot' huid effect.frame

theorem Delayed.backed {uid' lc' : Str} {delay : Int} (effect : Delayed s s' uid' lc' delay)
    (h : Backed s uid) : Backed s' uid := by
  intro lc hlc
  rw [Keyspace.fields_congr (effect.frame _ (kuid_ne_klc _ _ _))] at hlc
  by_cases heq : klc uid lc = klc uid' lc'
  · rw [heq]
    exact effect.session.1
  · rw [Keyspace.has, effect.frame _ heq]
    exact h lc hlc

theorem TimedOut.backed {st : Int} (effect : TimedOut s s' st) (hdot : '.' ∉ uid)
    (h : Backed s uid) : Backed s' uid := by
  apply h.mono
  intro lc hlc
  obtain ⟨hmem, due⟩ := (effect.index uid lc hdot).mp hlc
  exact ⟨hmem, effect.kept uid lc due⟩

theorem Idle.backed (effect : Idle s s') (h : Backed s uid) : Backed s' uid := by
  apply h.mono
  intro lc hlc
  exact ⟨by rwa [← Keyspace.fields_congr (effect.frame _)], effect.frame _⟩

end Steps

/-! ## Expiry -/

/-- When the session of an index entry expires within this time, the index does too. -/
def Coexpires (s : Keyspace) (d : Nat) : Prop :=
  ∀ (uid : Int) (lc : Str) (stamp : Nat), lc ∈ s.fields (indexKey uid) →
    s.expiry (klc (Text.decimal uid) lc) = some stamp → stamp < s.now + d →
    ∃ limit, s.expiry (indexKey uid) = some limit ∧ limit < s.now + d

/-- What time leaves of the index, and of a session in it. -/
theorem backed_elapse_iff {s : Keyspace} {d : Nat} (h : ∀ uid : Int, Backed s (Text.decimal uid)) :
    (∀ uid : Int, Backed (s.elapse d) (Text.decimal uid)) ↔ Coexpires s d := by
  constructor
  · intro hlive uid lc stamp hmem hstamp hpast
    obtain ⟨index, hindex⟩ := Option.isSome_iff_exists.mp (Keyspace.has_of_mem hmem)
    by_contra hnone
    -- The index stays, and so does the entry, whose session is gone.
    have hstays : (s.elapse d).hashes (indexKey uid) = some index := by
      refine Keyspace.elapse_some.mpr ⟨hindex, ?_⟩
      intro limit hlimit
      by_contra hlate
      apply hnone
      refine ⟨limit, ?_, by omega⟩
      rw [Keyspace.expiry, hindex, Option.bind_some, hlimit]
    have hentry : lc ∈ (s.elapse d).fields (indexKey uid) := by
      rwa [Keyspace.fields_congr (hstays.trans hindex.symm)]
    obtain ⟨session, hsession⟩ := Option.isSome_iff_exists.mp (hlive uid lc hentry)
    obtain ⟨hthere, halive⟩ := Keyspace.elapse_some.mp hsession
    have hsame : session.expireAt = some stamp := by
      rw [Keyspace.expiry, hthere, Option.bind_some] at hstamp
      exact hstamp
    have hlate := halive stamp hsame
    omega
  · intro hco uid lc hlc
    obtain ⟨index, hindex⟩ := Option.isSome_iff_exists.mp (Keyspace.has_of_mem hlc)
    obtain ⟨hthere, halive⟩ := Keyspace.elapse_some.mp hindex
    have hmem : lc ∈ s.fields (indexKey uid) := by
      rwa [Keyspace.fields_congr (hindex.trans hthere.symm)] at hlc
    obtain ⟨session, hsession⟩ := Option.isSome_iff_exists.mp (h uid lc hmem)
    have hstays : (s.elapse d).hashes (klc (Text.decimal uid) lc) = some session := by
      refine Keyspace.elapse_some.mpr ⟨hsession, ?_⟩
      intro stamp hstamp
      by_contra hlate
      obtain ⟨limit, hlimit, hgone⟩ := hco uid lc stamp hmem
        (by rw [Keyspace.expiry, hsession, Option.bind_some, hstamp]) (by omega)
      rw [indexKey, Keyspace.expiry, hthere, Option.bind_some] at hlimit
      have hkept := halive limit hlimit
      omega
    rw [Keyspace.has, hstays]
    rfl

/-- An event that takes no time leaves no entry without its session. -/
theorem sessionStep_backed {es : List SessionEvent} {e : SessionEvent} (still : ∀ d, e ≠ .elapse d)
    {uid : Int} (h : Backed (runSessions es) (Text.decimal uid)) :
    Backed (runSessions (es ++ [e])) (Text.decimal uid) := by
  have hdot := decimal_no_dot
  rw [runSessions_snoc]
  cases sessionStep_effect (pending_named es) e with
  | synced _ effect => exact effect.backed (hdot uid) (hdot _) h
  | closed effect => exact effect.backed (hdot uid) (hdot _) h
  | delayed _ effect => exact effect.backed h
  | passed _ effect => exact effect.backed h
  | refused _ _ effect => exact effect.backed h
  | swept effect => exact effect.backed (hdot uid) h
  | elapsed _ => exact absurd rfl (still _)

theorem runSessions_backed {es : List SessionEvent}
    (expiry : ∀ pre d post, es = pre ++ .elapse d :: post → Coexpires (runSessions pre) d) :
    ∀ uid : Int, Backed (runSessions es) (Text.decimal uid) := by
  induction es using List.reverseRecOn with
  | nil =>
    intro uid lc hlc
    simp [runSessions, Keyspace.fields, Keyspace.empty] at hlc
  | append_singleton es e ih =>
    have before := ih fun pre d post heq => expiry pre d (post ++ [e]) (by simp [heq])
    cases e with
    | elapse d =>
      rw [runSessions_snoc]
      exact (backed_elapse_iff before).mpr (expiry es d [] rfl)
    | request uid' r =>
      intro uid
      exact sessionStep_backed (by simp) (before uid)
    | timeoutRm st cn =>
      intro uid
      exact sessionStep_backed (by simp) (before uid)

/-- Along a run the reading scripts name only sessions that exist if and only if time never takes a
session from an index that stays. The run is any one of the session scripts from an empty store,
with time that may pass between any two of them. -/
theorem online_live_iff (es : List SessionEvent) :
    (∀ pre post, es = pre ++ post → OnlineLive (runSessions pre)) ↔
      ∀ pre d post, es = pre ++ .elapse d :: post → Coexpires (runSessions pre) d := by
  constructor
  · intro hlive pre d post heq
    have before := onlineLive_iff.mp (hlive pre _ heq)
    have after := onlineLive_iff.mp (hlive (pre ++ [.elapse d]) post (by simp [heq]))
    rw [runSessions_snoc] at after
    exact (backed_elapse_iff before).mp after
  · intro expiry pre post heq
    apply onlineLive_iff.mpr
    apply runSessions_backed
    intro pre' d post' heq'
    exact expiry pre' d (post' ++ post) (by simp [heq, heq'])

/-- One user with a client of 60 seconds and one of 1200, after 61 seconds. -/
def staleRun : List SessionEvent :=
  [.request 7 (.syn ⟨⟨1, ⟨1, 0⟩, ['g']⟩, 0, 100000, ['v'], []⟩),
    .request 7 (.syn ⟨⟨2, ⟨1, 0⟩, ['g']⟩, 0, 0, ['v'], []⟩), .elapse 61000]

/-- The first connection is reported by both scripts, and its session is gone. -/
theorem stale_session_reported :
    Text.decimal 1 ∈ getSessionOpe (Text.decimal 7) (runSessions staleRun) ∧
      (getMulti [Text.decimal 7] (runSessions staleRun)).length = 2 ∧
      (runSessions staleRun).has (sessionKey 7 1) = false ∧ ¬ OnlineLive (runSessions staleRun) := by
  have hreported : Text.decimal 1 ∈ getSessionOpe (Text.decimal 7) (runSessions staleRun) := by
    decide +kernel
  have hgone : (runSessions staleRun).has (sessionKey 7 1) = false := by decide +kernel
  refine ⟨hreported, by decide +kernel, hgone, ?_⟩
  intro hlive
  have hhas := hlive.ope 7 _ hreported
  rw [sessionKey] at hgone
  rw [hgone] at hhas
  cases hhas

end RedisCluster.Guarantees
