import RedisCluster.Guarantees.DelayedClose

/-!
# The index of a user has every session that lives on

A session and its index entry have stamps of their own. The index of a user outlives each of its
sessions but for half a second, which `TTL` rounds away. The other way round it does not hold: an
entry may outlive its session.
-/

set_option autoImplicit false

namespace RedisCluster.Guarantees
open Library Source

/-- A session has a stamp, and it is in the index or has at most half a second left. -/
def Indexed (s : Keyspace) (uid lc : Str) : Prop :=
  s.has (klc uid lc) → ∃ stamp, s.expiry (klc uid lc) = some stamp ∧
    (stamp ≤ s.now + 500 ∨ ∃ limit, lc ∈ s.fields (kuid uid) ∧
      s.expiry (kuid uid) = some limit ∧ stamp ≤ limit + 500)

section Steps
variable {s s' : Keyspace} {uid lc : Str}

/-- The session has not changed, and an index that lives as long still has it. -/
theorem Indexed.carry (h : Indexed s uid lc) (now : s'.now = s.now)
    (session : s'.hashes (klc uid lc) = s.hashes (klc uid lc))
    (keep : ∀ limit, s.has (klc uid lc) → lc ∈ s.fields (kuid uid) → s.expiry (kuid uid) = some limit →
      ∃ limit', lc ∈ s'.fields (kuid uid) ∧ s'.expiry (kuid uid) = some limit' ∧ limit ≤ limit') :
    Indexed s' uid lc := by
  intro hhas
  rw [Keyspace.has, session] at hhas
  obtain ⟨stamp, hstamp, hcase⟩ := h hhas
  refine ⟨stamp, by rw [Keyspace.expiry_congr session, hstamp], ?_⟩
  rw [now]
  apply hcase.imp_right
  rintro ⟨limit, hmem, hlimit, hle⟩
  obtain ⟨limit', hmem', hlimit', hgrow⟩ := keep limit hhas hmem hlimit
  exact ⟨limit', hmem', hlimit', by omega⟩

/-- The session and its index have not changed. -/
theorem Indexed.frame (h : Indexed s uid lc) (now : s'.now = s.now)
    (session : s'.hashes (klc uid lc) = s.hashes (klc uid lc))
    (index : s'.hashes (kuid uid) = s.hashes (kuid uid)) : Indexed s' uid lc := by
  refine h.carry now session fun limit _ hmem hlimit => ⟨limit, ?_, ?_, Nat.le_refl _⟩
  · rwa [Keyspace.fields_congr index]
  · rwa [Keyspace.expiry_congr index]

/-- Another user's request. -/
theorem Indexed.other_user {uid' lc' : Str} (h : Indexed s uid lc) (hdot : '.' ∉ uid) (hdot' : '.' ∉ uid')
    (huid : uid ≠ uid') (now : s'.now = s.now)
    (frame : ∀ k, k ≠ kuid uid' → k ≠ klc uid' lc' → s'.hashes k = s.hashes k) : Indexed s' uid lc := by
  apply h.frame now
  · apply frame _ (kuid_ne_klc _ _ _).symm
    intro heq
    exact huid (klc_injective hdot hdot' heq).1
  · apply frame _ _ (kuid_ne_klc _ _ _)
    intro heq
    exact huid (kuid_injective heq)

theorem Synced.indexed {uid' lc' label : Str} (effect : Synced s s' uid' lc' label) (hdot : '.' ∉ uid)
    (hdot' : '.' ∉ uid') (h : Indexed s uid lc) : Indexed s' uid lc := by
  obtain ⟨stamp, limit, hstamp, hlimit, hlong, hold⟩ := effect.stamps
  by_cases huid : uid = uid'
  · subst huid
    by_cases hlc : lc = lc'
    · subst hlc
      intro _
      exact ⟨stamp, hstamp, Or.inr ⟨limit, (effect.index lc).mpr (Or.inl rfl), hlimit, hlong⟩⟩
    · have hsame : s'.hashes (klc uid lc) = s.hashes (klc uid lc) :=
        effect.frame _ (kuid_ne_klc _ _ _).symm fun heq => hlc (klc_injective hdot hdot heq).2
      -- The index entry is not purged, and the index does not get an earlier stamp.
      refine h.carry effect.now hsame fun old hhas hmem hexpiry => ?_
      exact ⟨limit, (effect.index lc).mpr (Or.inr ⟨hmem, hhas⟩), hlimit, hold lc old hmem hhas hexpiry⟩
  · exact h.other_user hdot hdot' huid effect.now effect.frame

theorem Closed.indexed {uid' lc' : Str} (effect : Closed s s' uid' lc') (hdot : '.' ∉ uid)
    (hdot' : '.' ∉ uid') (h : Indexed s uid lc) : Indexed s' uid lc := by
  by_cases huid : uid = uid'
  · subst huid
    by_cases hlc : lc = lc'
    · subst hlc
      intro hhas
      rw [Keyspace.has, effect.session] at hhas
      cases hhas
    · have hsame : s'.hashes (klc uid lc) = s.hashes (klc uid lc) :=
        effect.frame _ (kuid_ne_klc _ _ _).symm fun heq => hlc (klc_injective hdot hdot heq).2
      refine h.carry effect.now hsame fun limit _ hmem hlimit => ?_
      have hstays := (effect.index lc).mpr ⟨hlc, hmem⟩
      exact ⟨limit, hstays, by rw [effect.stamps lc hstays, hlimit], Nat.le_refl _⟩
  · exact h.other_user hdot hdot' huid effect.now effect.frame

theorem Delayed.indexed {uid' lc' : Str} {delay : Int} (effect : Delayed s s' uid' lc' delay)
    (h : Indexed s uid lc) : Indexed s' uid lc := by
  have hindex := effect.frame _ (kuid_ne_klc uid uid' lc')
  by_cases heq : klc uid lc = klc uid' lc'
  · intro _
    have hhas : s.has (klc uid lc) := by
      rw [heq]
      exact effect.session.2
    obtain ⟨stamp, hstamp, hcase⟩ := h hhas
    refine ⟨stamp, ?_, ?_⟩
    · rw [heq, effect.stamp, ← heq, hstamp]
    · rw [effect.now, Keyspace.fields_congr hindex, Keyspace.expiry_congr hindex]
      exact hcase
  · exact h.frame effect.now (effect.frame _ heq) hindex

theorem TimedOut.indexed {st : Int} (effect : TimedOut s s' st) (hdot : '.' ∉ uid)
    (h : Indexed s uid lc) : Indexed s' uid lc := by
  by_cases due : Due s st (klc uid lc)
  · intro hhas
    rw [Keyspace.has, effect.removed uid lc due] at hhas
    cases hhas
  · refine h.carry effect.now (effect.kept uid lc due) fun limit _ hmem hlimit => ?_
    have hstays := (effect.index uid lc hdot).mpr ⟨hmem, due⟩
    exact ⟨limit, hstays, by rw [effect.stamps uid lc hdot hstays, hlimit], Nat.le_refl _⟩

/-- The index goes at most half a second before the session. -/
theorem elapse_indexed (d : Nat) (h : Indexed s uid lc) : Indexed (s.elapse d) uid lc := by
  intro hhas
  obtain ⟨hash, hhash⟩ := Option.isSome_iff_exists.mp hhas
  obtain ⟨hold, halive⟩ := Keyspace.elapse_some.mp hhash
  obtain ⟨stamp, hstamp, hcase⟩ := h (by rw [Keyspace.has, hold]; rfl)
  have hsame : (s.elapse d).hashes (klc uid lc) = s.hashes (klc uid lc) := hhash.trans hold.symm
  refine ⟨stamp, by rw [Keyspace.expiry_congr hsame, hstamp], ?_⟩
  by_cases hshort : stamp ≤ (s.elapse d).now + 500
  · exact Or.inl hshort
  · right
    have hnow : (s.elapse d).now = s.now + d := rfl
    rcases hcase with hcase | ⟨limit, hmem, hlimit, hle⟩
    · omega
    · obtain ⟨index, hindex, hstays⟩ := Option.bind_eq_some_iff.mp hlimit
      have hindex' : (s.elapse d).hashes (kuid uid) = some index := by
        refine Keyspace.elapse_some.mpr ⟨hindex, ?_⟩
        intro other hother
        rw [hstays, Option.some_inj] at hother
        omega
      have hkept : (s.elapse d).hashes (kuid uid) = s.hashes (kuid uid) :=
        hindex'.trans hindex.symm
      refine ⟨limit, ?_, ?_, hle⟩
      · rwa [Keyspace.fields_congr hkept]
      · rw [Keyspace.expiry_congr hkept, hlimit]

end Steps

/-- After every run, for every user and connection. -/
theorem runSessions_indexed (es : List SessionEvent) (uid lc : Int) :
    Indexed (runSessions es) (Text.decimal uid) (Text.decimal lc) := by
  have hdot := decimal_no_dot
  induction es using List.reverseRecOn with
  | nil =>
    intro hhas
    simp [runSessions, Keyspace.has, Keyspace.empty] at hhas
  | append_singleton es e ih =>
    rw [runSessions_snoc]
    cases sessionStep_effect (pending_named es) e with
    | synced _ effect => exact effect.indexed (hdot uid) (hdot _) ih
    | closed effect => exact effect.indexed (hdot uid) (hdot _) ih
    | delayed _ effect => exact effect.indexed ih
    | passed _ effect => exact ih.frame effect.now (effect.frame _) (effect.frame _)
    | refused _ _ effect => exact ih.frame effect.now (effect.frame _) (effect.frame _)
    | swept effect => exact effect.indexed (hdot uid) ih
    | elapsed effect =>
      rw [effect]
      exact elapse_indexed _ ih

/-- A session with more than half a second left is in the index of its user, and in the replies of
the scripts that read it. With less than that `TTL` may have rounded the stamp of the index down, so
nothing is said. -/
theorem live_session_indexed {es : List SessionEvent} {uid lc : Int} {session : HashKey}
    (there : (runSessions es).hashes (sessionKey uid lc) = some session)
    (lives : ∀ stamp, session.expireAt = some stamp → (runSessions es).now + 500 < stamp) :
    Text.decimal lc ∈ (runSessions es).fields (indexKey uid) ∧
      Text.decimal lc ∈ getSessionOpe (Text.decimal uid) (runSessions es) ∧
      ∀ keys, Text.decimal uid ∈ keys →
        sessionEntry (runSessions es) (Text.decimal uid) (Text.decimal lc) ∈
          getMulti keys (runSessions es) := by
  have hmem : Text.decimal lc ∈ (runSessions es).fields (indexKey uid) := by
    have hhas : (runSessions es).has (sessionKey uid lc) := by
      rw [Keyspace.has, there]
      rfl
    obtain ⟨stamp, hstamp, hcase⟩ := runSessions_indexed es uid lc hhas
    have hsession : session.expireAt = some stamp := by
      rw [Keyspace.expiry, show (runSessions es).hashes (klc _ _) = _ from there,
        Option.bind_some] at hstamp
      exact hstamp
    have hlong := lives stamp hsession
    rcases hcase with hshort | ⟨limit, hmem, _⟩
    · omega
    · exact hmem
  refine ⟨hmem, Keyspace.mem_hkeys.mpr hmem, ?_⟩
  intro keys hkeys
  rw [getMulti, List.mem_flatMap]
  exact ⟨_, hkeys, List.mem_map.mpr ⟨_, Keyspace.mem_hkeys.mpr hmem, rfl⟩⟩

theorem live_session_indexed_example :
    Text.decimal 2 ∈ (runSessions (exampleSession 7 2 40)).fields (indexKey 7) := by
  have hhas : (runSessions (exampleSession 7 2 40)).has (sessionKey 7 2) := by decide +kernel
  obtain ⟨session, hsession⟩ := Option.isSome_iff_exists.mp hhas
  refine (live_session_indexed hsession ?_).1
  intro stamp hstamp
  have hexpiry : (runSessions (exampleSession 7 2 40)).expiry (sessionKey 7 2) = some stamp := by
    rw [Keyspace.expiry, hsession, Option.bind_some, hstamp]
  have hvalue : (runSessions (exampleSession 7 2 40)).expiry (sessionKey 7 2) = some 600000 := by
    decide +kernel
  rw [hvalue, Option.some_inj] at hexpiry
  have hnow : (runSessions (exampleSession 7 2 40)).now = 0 := by decide +kernel
  omega

end RedisCluster.Guarantees
