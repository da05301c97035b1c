import RedisCluster.Guarantees.SessionFields

/-!
# A client's own data and the fields of a session

`syn` writes the pairs of a client into the hash of its session after its own fields. Two stores
that differ in these pairs only serve all later requests alike.
-/

set_option autoImplicit false

namespace RedisCluster.Guarantees
open Library Source

/-! ## Scripts that cannot tell two stores apart -/

section Respects
variable {α β : Type}

/-- From related stores the script has one result, and leaves related stores. -/
def Respects (R : Keyspace → Keyspace → Prop) (x : Script α) : Prop :=
  ∀ s s', R s s' → (x s').1 = (x s).1 ∧ R (x s).2 (x s').2

variable {R : Keyspace → Keyspace → Prop} {x : Script α}

theorem respects_pure (a : α) : Respects R (pure a : Script α) := fun _ _ h => ⟨rfl, h⟩

theorem respects_fail (error : Str) : Respects R (.fail error : Script α) := fun _ _ h => ⟨rfl, h⟩

theorem respects_call {command : Keyspace → Keyspace}
    (h : ∀ s s', R s s' → R (command s) (command s')) : Respects R (.call command) :=
  fun s s' hR => ⟨rfl, h s s' hR⟩

theorem respects_ask {query : Keyspace → α} (h : ∀ s s', R s s' → query s' = query s) :
    Respects R (.ask query) := by
  intro s s' hR
  refine ⟨?_, hR⟩
  rw [Script.ask_apply, Script.ask_apply, h s s' hR]

/-- Scripts that go on alike from alike answers. -/
theorem respects_bind {f : α → Script β} (hx : Respects R x) (hf : ∀ a, Respects R (f a)) :
    Respects R (x >>= f) := by
  intro s s' hR
  obtain ⟨hresult, hstores⟩ := hx s s' hR
  cases hs : x s with
  | mk result t =>
    cases hs' : x s' with
    | mk result' t' =>
      rw [hs, hs'] at hresult hstores
      dsimp only at hresult hstores
      subst hresult
      cases result' with
      | ok a =>
        rw [Script.bind_ok hs, Script.bind_ok hs']
        exact hf a t t' hstores
      | error error =>
        rw [Script.bind_error hs, Script.bind_error hs']
        exact ⟨rfl, hstores⟩

/-- A script may look only at what is alike. -/
theorem respects_ite {c : Prop} [Decidable c] {y : Script α} (hx : c → Respects R x)
    (hy : ¬ c → Respects R y) : Respects R (if c then x else y) := by
  split
  · next h => exact hx h
  · next h => exact hy h

end Respects

/-! ## Stores that differ in one session -/

/-- The stores agree but for the fields of this session other than its gate. -/
structure Alike (key : Str) (s s' : Keyspace) : Prop where
  now : s'.now = s.now
  zsets : s'.zsets = s.zsets
  hashes : ∀ k, k ≠ key → s'.hashes k = s.hashes k
  there : s'.has key = s.has key
  stamp : s'.expiry key = s.expiry key
  gate : s'.hget key "GATE".toList = s.hget key "GATE".toList

namespace Alike
variable {key k f v : Str} {s s' : Keyspace} (h : Alike key s s')
include h

/-! ### Queries -/

theorem fields (hk : k ≠ key) : s'.fields k = s.fields k := Keyspace.fields_congr (h.hashes k hk)

theorem has (k : Str) : s'.has k = s.has k := by
  by_cases hk : k = key
  · rw [hk, h.there]
  · rw [Keyspace.has, h.hashes k hk, Keyspace.has]

theorem expiry (k : Str) : s'.expiry k = s.expiry k := by
  by_cases hk : k = key
  · rw [hk, h.stamp]
  · exact Keyspace.expiry_congr (h.hashes k hk)

theorem hget (hk : k ≠ key) : s'.hget k f = s.hget k f := Keyspace.hget_congr (h.hashes k hk)

/-- The gate of a session is alike, which is all that the scripts read of it. -/
theorem hget_gate (k : Str) : s'.hget k "GATE".toList = s.hget k "GATE".toList := by
  by_cases hk : k = key
  · rw [hk, h.gate]
  · exact h.hget hk

theorem ttl (hk : k ≠ key) : s'.ttl k = s.ttl k := by
  rw [Keyspace.ttl, h.hashes k hk, h.now, Keyspace.ttl]

theorem zcard (z : Str) : s'.zcard z = s.zcard z := by
  rw [Keyspace.zcard, h.zsets, Keyspace.zcard]

theorem ranked (z : Str) : s'.ranked z = s.ranked z := by
  rw [Keyspace.ranked, h.zsets, Keyspace.ranked]

/-! ### Commands -/

/-- A hash that both stores have is written alike. -/
theorem put (hk : k ≠ key) (fields : Fields) : Alike key (s.put k fields) (s'.put k fields) where
  now := h.now
  zsets := h.zsets
  hashes other hother := by
    by_cases heq : other = k
    · rw [heq, Keyspace.put, Keyspace.put, h.expiry]
      dsimp only
      rw [Function.update_self, Function.update_self]
    · rw [Keyspace.hashes_put_of_ne heq, Keyspace.hashes_put_of_ne heq, h.hashes other hother]
  there := by
    rw [Keyspace.has, Keyspace.hashes_put_of_ne hk.symm, Keyspace.has,
      Keyspace.hashes_put_of_ne hk.symm]
    exact h.there
  stamp := by
    rw [Keyspace.expiry_congr (Keyspace.hashes_put_of_ne hk.symm),
      Keyspace.expiry_congr (Keyspace.hashes_put_of_ne hk.symm), h.stamp]
  gate := by
    rw [Keyspace.hget_congr (Keyspace.hashes_put_of_ne hk.symm),
      Keyspace.hget_congr (Keyspace.hashes_put_of_ne hk.symm), h.gate]

theorem hset (k f v : Str) : Alike key (s.hset k f v) (s'.hset k f v) := by
  by_cases hk : k = key
  · subst hk
    constructor
    · exact h.now
    · exact h.zsets
    · intro other hother
      rw [Keyspace.hashes_hset_of_ne hother, Keyspace.hashes_hset_of_ne hother,
        h.hashes other hother]
    · have hhas : ∀ t : Keyspace, (t.hset k f v).has k = true :=
        fun t => Keyspace.has_of_mem (Keyspace.mem_hset.mpr (Or.inl rfl))
      rw [hhas, hhas]
    · rw [Keyspace.expiry_hset, Keyspace.expiry_hset, h.stamp]
    · rw [Keyspace.hget_hset, Keyspace.hget_hset, h.gate]
  · rw [Keyspace.hset, Keyspace.hset, h.fields hk]
    exact h.put hk _

theorem hsetnx (k f v : Str) : Alike key (s.hsetnx k f v) (s'.hsetnx k f v) := by
  by_cases hk : k = key
  · subst hk
    constructor
    · rw [Keyspace.now_hsetnx, Keyspace.now_hsetnx, h.now]
    · rw [Keyspace.zsets_hsetnx, Keyspace.zsets_hsetnx, h.zsets]
    · intro other hother
      rw [Keyspace.hashes_hsetnx_of_ne hother, Keyspace.hashes_hsetnx_of_ne hother,
        h.hashes other hother]
    · have hhas : ∀ t : Keyspace, (t.hsetnx k f v).has k = true :=
        fun t => Keyspace.has_of_mem (Keyspace.mem_hsetnx.mpr (Or.inl rfl))
      rw [hhas, hhas]
    · rw [Keyspace.expiry_hsetnx, Keyspace.expiry_hsetnx, h.stamp]
    · rw [Keyspace.hget_hsetnx_getD, Keyspace.hget_hsetnx_getD, h.gate]
      split
      · next heq => rw [← heq, h.gate]
      · rfl
  · rw [Keyspace.hsetnx, Keyspace.hsetnx, h.fields hk]
    split
    · exact h
    · exact h.hset k f v

theorem hmset (k : Str) (fvs : List (Str × Str)) : Alike key (s.hmset k fvs) (s'.hmset k fvs) := by
  induction fvs generalizing s s' with
  | nil => exact h
  | cons fv fvs ih => exact ih (h.hset k fv.1 fv.2)

theorem hdel (hk : k ≠ key) (f : Str) : Alike key (s.hdel k f) (s'.hdel k f) := by
  rw [Keyspace.hdel, Keyspace.hdel, h.fields hk]
  exact h.put hk _

theorem del (k : Str) : Alike key (s.del k) (s'.del k) := by
  have hboth : ∀ other, other ≠ key ∨ k = key →
      (s'.del k).hashes other = (s.del k).hashes other := by
    intro other hother
    rw [Keyspace.hashes_del, Keyspace.hashes_del]
    split
    · rfl
    · next hne => exact h.hashes other (hother.elim id fun hk heq => hne (heq.trans hk.symm))
  have hkey : k ≠ key → ∀ t : Keyspace, (t.del k).hashes key = t.hashes key := by
    intro hk t
    rw [Keyspace.hashes_del, if_neg hk.symm]
  constructor
  · exact h.now
  · exact h.zsets
  · exact fun other hother => hboth other (Or.inl hother)
  · by_cases hk : k = key
    · rw [Keyspace.has, hboth key (Or.inr hk), Keyspace.has]
    · rw [Keyspace.has, hkey hk, Keyspace.has, hkey hk]
      exact h.there
  · by_cases hk : k = key
    · exact Keyspace.expiry_congr (hboth key (Or.inr hk))
    · rw [Keyspace.expiry_congr (hkey hk _), Keyspace.expiry_congr (hkey hk _), h.stamp]
  · by_cases hk : k = key
    · exact Keyspace.hget_congr (hboth key (Or.inr hk))
    · rw [Keyspace.hget_congr (hkey hk _), Keyspace.hget_congr (hkey hk _), h.gate]

theorem dels (ks : List Str) : Alike key (ks.foldl Keyspace.del s) (ks.foldl Keyspace.del s') := by
  induction ks generalizing s s' with
  | nil => exact h
  | cons k ks ih => exact ih (h.del k)

theorem expire (k : Str) (seconds : Nat) :
    Alike key (s.expire k seconds) (s'.expire k seconds) := by
  by_cases hk : k = key
  · subst hk
    have hhas : ∀ t : Keyspace, (t.expire k seconds).has k = t.has k := by
      intro t
      rw [Keyspace.has, Keyspace.hashes_expire, Option.isSome_map, Keyspace.has]
    constructor
    · exact h.now
    · exact h.zsets
    · intro other hother
      rw [Keyspace.hashes_expire_of_ne hother, Keyspace.hashes_expire_of_ne hother,
        h.hashes other hother]
    · rw [hhas, hhas, h.there]
    · cases hthere : s.has k with
      | true =>
        rw [Keyspace.expiry_expire hthere, Keyspace.expiry_expire (h.there.trans hthere), h.now]
      | false =>
        rw [Keyspace.expiry_of_not_has ((hhas s).trans hthere),
          Keyspace.expiry_of_not_has ((hhas s').trans (h.there.trans hthere))]
    · rw [Keyspace.hget, Keyspace.fields_expire, Keyspace.hget, Keyspace.fields_expire]
      exact h.gate
  · have hkey : ∀ t : Keyspace, (t.expire k seconds).hashes key = t.hashes key :=
      fun t => Keyspace.hashes_expire_of_ne (Ne.symm hk)
    constructor
    · exact h.now
    · exact h.zsets
    · intro other hother
      by_cases heq : other = k
      · rw [heq, Keyspace.hashes_expire, Keyspace.hashes_expire, h.hashes k hk, h.now]
      · rw [Keyspace.hashes_expire_of_ne heq, Keyspace.hashes_expire_of_ne heq,
          h.hashes other hother]
    · rw [Keyspace.has, hkey, Keyspace.has, hkey]
      exact h.there
    · rw [Keyspace.expiry_congr (hkey _), Keyspace.expiry_congr (hkey _), h.stamp]
    · rw [Keyspace.hget_congr (hkey _), Keyspace.hget_congr (hkey _), h.gate]

theorem setZset (z : Str) (members : ZSet) :
    Alike key (s.setZset z members) (s'.setZset z members) where
  now := h.now
  zsets := by rw [Keyspace.setZset, Keyspace.setZset, h.zsets]
  hashes := h.hashes
  there := h.there
  stamp := h.stamp
  gate := h.gate

theorem zadd (z : Str) (score : Int) (m : Str) :
    Alike key (s.zadd z score m) (s'.zadd z score m) := by
  rw [Keyspace.zadd, Keyspace.zadd, h.zsets]
  exact h.setZset _ _

theorem zrem (z m : Str) : Alike key (s.zrem z m) (s'.zrem z m) := by
  rw [Keyspace.zrem, Keyspace.zrem, h.zsets]
  exact h.setZset _ _

theorem zincrby (z : Str) (n : Int) (m : Str) : Alike key (s.zincrby z n m) (s'.zincrby z n m) := by
  rw [Keyspace.zincrby, Keyspace.zincrby, Keyspace.zscore, Keyspace.zscore, h.zsets]
  exact h.zadd _ _ _

theorem zremrangebyscore (z : Str) (max : Int) :
    Alike key (s.zremrangebyscore z max) (s'.zremrangebyscore z max) := by
  rw [Keyspace.zremrangebyscore, Keyspace.zremrangebyscore, h.zsets]
  exact h.setZset _ _

theorem zremrangebyrank (z : Str) (stop : Nat) :
    Alike key (s.zremrangebyrank z stop) (s'.zremrangebyrank z stop) := by
  rw [Keyspace.zremrangebyrank, Keyspace.zremrangebyrank, h.ranked, h.zsets]
  exact h.setZset _ _

/-- Both sessions go at one time. -/
theorem elapse (d : Nat) : Alike key (s.elapse d) (s'.elapse d) := by
  have halive : ∀ (t : Keyspace) (hash : HashKey), t.hashes key = some hash →
      (t.elapse d).hashes key = if (t.expiry key).all fun stamp => t.now + d ≤ stamp then some hash
        else none := by
    intro t hash hhash
    rw [Keyspace.hashes_elapse, hhash, Keyspace.expiry, hhash]
    rfl
  have hgone : ∀ t : Keyspace, t.hashes key = none → (t.elapse d).hashes key = none := by
    intro t hnone
    rw [Keyspace.hashes_elapse, hnone]
    rfl
  have hothers : ∀ k, k ≠ key → (s'.elapse d).hashes k = (s.elapse d).hashes k := by
    intro k hk
    rw [Keyspace.hashes_elapse, Keyspace.hashes_elapse, h.hashes k hk, h.now]
  have hnow : (s'.elapse d).now = (s.elapse d).now := by
    change s'.now + d = s.now + d
    rw [h.now]
  cases hhash : s.hashes key with
  | none =>
    have hnone : s'.hashes key = none := by
      rw [← Keyspace.not_has_iff, h.there, Keyspace.not_has_iff, hhash]
    have hsame := (hgone s' hnone).trans (hgone s hhash).symm
    refine ⟨hnow, h.zsets, hothers, ?_, Keyspace.expiry_congr hsame, Keyspace.hget_congr hsame⟩
    rw [Keyspace.has, hsame, Keyspace.has]
  | some hash =>
    obtain ⟨hash', hhash'⟩ : ∃ hash', s'.hashes key = some hash' := by
      apply Option.isSome_iff_exists.mp
      change s'.has key = true
      rw [h.there, Keyspace.has, hhash]
      rfl
    have hafter := halive s hash hhash
    have hafter' := halive s' hash' hhash'
    rw [h.stamp, h.now] at hafter'
    by_cases hstays : ((s.expiry key).all fun stamp => s.now + d ≤ stamp) = true
    · rw [if_pos hstays, ← hhash] at hafter
      rw [if_pos hstays, ← hhash'] at hafter'
      refine ⟨hnow, h.zsets, hothers, ?_, ?_, ?_⟩
      · rw [Keyspace.has, hafter', Keyspace.has, hafter]
        exact h.there
      · rw [Keyspace.expiry_congr hafter', Keyspace.expiry_congr hafter, h.stamp]
      · rw [Keyspace.hget_congr hafter', Keyspace.hget_congr hafter, h.gate]
    · rw [if_neg hstays] at hafter hafter'
      have hsame := hafter'.trans hafter.symm
      refine ⟨hnow, h.zsets, hothers, ?_, Keyspace.expiry_congr hsame, Keyspace.hget_congr hsame⟩
      rw [Keyspace.has, hsame, Keyspace.has]

end Alike

/-! ## The scripts -/

section Scripts
variable (user conn : Str)

theorem respects_writeStat {key : Str} (uid : Str) : Respects (Alike key) (writeStat uid) := by
  refine respects_bind (respects_call fun s s' h => h.zincrby _ _ _) fun _ => ?_
  refine respects_bind (respects_ask fun s s' h => h.zcard _) fun cn => ?_
  exact respects_ite (fun _ => respects_call fun s s' h => h.zremrangebyrank _ _)
    fun _ => respects_pure ()

theorem respects_purge (uid : Str) (lcs : List Str) :
    Respects (Alike (klc user conn)) (purge uid lcs) := by
  induction lcs with
  | nil => exact respects_pure ()
  | cons v lcs ih =>
    refine respects_bind (respects_ask fun s s' h => h.has _) fun there => ?_
    refine respects_ite (fun _ => ?_) fun _ => ih
    exact respects_bind (respects_call fun s s' h => h.hdel (kuid_ne_klc _ _ _) _) fun _ => ih

theorem respects_setArgs {key : Str} (k : Str) (argv : List Str) :
    Respects (Alike key) (setArgs k argv) := by
  induction argv using pairs.induct with
  | case1 field value argv ih =>
    exact respects_bind (respects_call fun s s' h => h.hset _ _ _) fun _ => ih
  | case2 argv hne =>
    cases argv with
    | nil => exact respects_pure ()
    | cons field argv =>
      cases argv with
      | nil => exact respects_fail _
      | cons value argv => exact absurd rfl (hne field value argv)

theorem respects_syn (uid lc sid rid gate st ct cv : Str) (argv : List Str) :
    Respects (Alike (klc user conn)) (syn [uid, lc, sid, rid, gate, st, ct, cv] argv) := by
  refine respects_bind (respects_ask fun s s' h => ?_) fun lcs => ?_
  · rw [Keyspace.hkeys, h.fields (kuid_ne_klc _ _ _), Keyspace.hkeys]
  refine respects_bind (respects_purge user conn uid lcs) fun _ => ?_
  refine respects_bind (respects_call fun s s' h => h.hsetnx _ _ _) fun _ => ?_
  refine respects_bind (respects_call fun s s' h => h.hmset _ _) fun _ => ?_
  refine respects_bind (respects_call fun s s' h => h.hsetnx _ _ _) fun _ => ?_
  refine respects_bind (respects_setArgs _ argv) fun _ => ?_
  cases toNumber ct with
  | none => exact respects_fail _
  | some n =>
    refine respects_bind (respects_call fun s s' h => h.expire _ _) fun _ => ?_
    refine respects_bind (respects_ask fun s s' h => h.ttl (kuid_ne_klc _ _ _)) fun ttl => ?_
    have hrest : Respects (Alike (klc user conn)) (do
        .call fun s => s.zrem dlyCk (klc uid lc)
        writeStat uid
        return RedisReply.array (.number 0 :: ((toNumber sid).map .number).toList)) :=
      respects_bind (respects_call fun s s' h => h.zrem _ _) fun _ =>
        respects_bind (respects_writeStat uid) fun _ => respects_pure _
    refine respects_ite (fun _ => ?_) fun _ => hrest
    exact respects_bind (respects_call fun s s' h => h.expire _ _) fun _ => hrest

theorem respects_fin (uid lc sid rid gate : Str) :
    Respects (Alike (klc user conn)) (fin [uid, lc, sid, rid, gate]) := by
  refine respects_bind (respects_ask fun s s' h => h.hget (kuid_ne_klc _ _ _)) fun ofl => ?_
  refine respects_bind (respects_call fun s s' h => h.hdel (kuid_ne_klc _ _ _) _) fun _ => ?_
  refine respects_bind (respects_call fun s s' h => h.del _) fun _ => ?_
  refine respects_bind (respects_call fun s s' h => h.zrem _ _) fun _ => ?_
  exact respects_bind (respects_writeStat uid) fun _ => respects_pure _

/-- The gate is all that `fin_delay` reads of a session. -/
theorem respects_finDelay (uid lc sid rid gate delay : Str) :
    Respects (Alike (klc user conn)) (finDelay [uid, lc, sid, rid, gate, delay]) := by
  refine respects_bind (respects_writeStat uid) fun _ => ?_
  refine respects_bind (respects_ask fun s s' h => h.hget_gate _) fun bgate => ?_
  refine respects_ite (fun _ => ?_) fun _ => respects_pure _
  cases toNumber delay with
  | none => exact respects_fail _
  | some n =>
    refine respects_bind (respects_call fun s s' h => h.zadd _ _ _) fun _ => ?_
    exact respects_bind (respects_call fun s s' h => h.hset _ _ _) fun _ => respects_pure _

theorem respects_dropSessions (names : List Str) (ofl : List RedisReply) :
    Respects (Alike (klc user conn)) (dropSessions names ofl) := by
  induction names generalizing ofl with
  | nil => exact respects_pure ofl
  | cons name names ih =>
    rw [dropSessions]
    cases Text.cutAt '.' (name.drop 2) with
    | none => exact respects_fail _
    | some pair =>
      refine respects_bind (respects_ask fun s s' h => h.hget (kuid_ne_klc _ _ _)) fun tv => ?_
      refine respects_bind (respects_call fun s s' h => h.hdel (kuid_ne_klc _ _ _) _) fun _ => ?_
      cases tv with
      | none => exact ih ofl
      | some tv => exact ih _

theorem respects_timeoutRm (st cn : Str) :
    Respects (Alike (klc user conn)) (timeoutRm [st, cn]) := by
  rw [timeoutRm]
  cases toNumber st with
  | none => exact respects_fail _
  | some n =>
    refine respects_bind (respects_ask fun s s' h => ?_) fun lcs => ?_
    · rw [Keyspace.zrangebyscore, h.ranked, Keyspace.zrangebyscore]
    refine respects_bind (respects_call fun s s' h => h.dels lcs) fun _ => ?_
    refine respects_bind (respects_dropSessions user conn lcs []) fun ofl => ?_
    refine respects_bind (respects_call fun s s' h => h.zremrangebyscore _ _) fun _ => ?_
    exact respects_pure _

/-- No request script sees a difference in the client's own data of one session. -/
theorem respects_request (uid : Int) (r : Request) : Respects (Alike (klc user conn))
    (scriptOf r.type (Text.decimal uid :: r.keys) r.data) := by
  have hsyn : ∀ (head : ProtoGbHead) (expire cliType : Int) (cliVer : Str) (argv : List Str),
      Respects (Alike (klc user conn)) (syn (Text.decimal uid :: (head.keys ++
        [Text.decimal expire, Text.decimal cliType, cliVer])) argv) :=
    fun head expire cliType cliVer argv =>
      respects_syn user conn _ _ _ (Text.decimal head.idx.recvIdx) _ (Text.decimal expire) _ _ argv
  cases r with
  | syn proto => exact hsyn proto.head proto.expire proto.cliType proto.cliVer proto.data
  | fin proto =>
    exact respects_fin user conn _ _ (Text.decimal proto.head.idx.sendIdx)
      (Text.decimal proto.head.idx.recvIdx) proto.head.sublayerIndex
  | finDelay proto =>
    exact respects_finDelay user conn _ _ (Text.decimal proto.head.idx.sendIdx)
      (Text.decimal proto.head.idx.recvIdx) _ _
  | upidx proto => exact hsyn proto.head proto.expire proto.cliType proto.cliVer []

theorem Respects.run {R : Keyspace → Keyspace → Prop} {script : Script RedisReply}
    (respects : Respects R script) {s s' : Keyspace} (h : R s s') :
    R (runScript script s).2 (runScript script s').2 := by
  have hstate : ∀ t : Keyspace, (runScript script t).2 = (script t).2 := by
    intro t
    unfold runScript
    split
    · next heq => rw [heq]
    · next heq => rw [heq]
  rw [hstate, hstate]
  exact (respects s s' h).2

/-- Whatever happens next, the stores stay alike. -/
theorem Alike.step {s s' : Keyspace} (h : Alike (klc user conn) s s') (e : SessionEvent) :
    Alike (klc user conn) (sessionStep s e) (sessionStep s' e) := by
  cases e with
  | elapse d => exact h.elapse d
  | timeoutRm st cn => exact (respects_timeoutRm user conn _ _).run h
  | request uid r =>
    rw [sessionStep, sessionStep]
    split
    · exact (respects_request user conn uid r).run h
    · exact h

/-- Stores that are alike stay so whatever comes later. -/
theorem Alike.run {s s' : Keyspace} (h : Alike (klc user conn) s s') (es : List SessionEvent) :
    Alike (klc user conn) (es.foldl sessionStep s) (es.foldl sessionStep s') := by
  induction es generalizing s s' with
  | nil => exact h
  | cons e es ih => exact ih (h.step user conn e)

end Scripts

/-! ## Two runs of `syn` -/

section Pairs
variable {s : Keyspace} {uid lc sid gate ct cv : Str} {argv argv' : List Str}

/-- No pair gives a field that `syn` writes another value than its own. -/
def OwnKept (sid gate ct : Str) (argv : List Str) : Prop :=
  ∀ f v w, reserved sid gate ct f = some v → extValue argv f = some w → w = v

/-- Two vectors leave alike stores if they leave the same gate. -/
theorem enrolled_alike (gates :
    (enrolled s uid lc sid gate ct cv argv').hget (klc uid lc) "GATE".toList =
      (enrolled s uid lc sid gate ct cv argv).hget (klc uid lc) "GATE".toList) :
    Alike (klc uid lc) (enrolled s uid lc sid gate ct cv argv)
      (enrolled s uid lc sid gate ct cv argv') := by
  have hstamp : ∀ argv, (enrolled s uid lc sid gate ct cv argv).expiry (klc uid lc) =
      s.expiry (klc uid lc) := by
    intro argv
    have hbefore : ((purged s uid (s.hkeys (kuid uid))).hsetnx (kuid uid) lc
        (ct ++ ';' :: cv)).hashes (klc uid lc) = s.hashes (klc uid lc) := by
      rw [Keyspace.hashes_hsetnx_of_ne (kuid_ne_klc _ _ _).symm,
        hashes_purged (kuid_ne_klc _ _ _).symm]
    simp only [enrolled, Keyspace.expiry_hmset, Keyspace.expiry_hsetnx]
    exact Keyspace.expiry_congr hbefore
  constructor
  · rw [now_enrolled, now_enrolled]
  · rw [zsets_enrolled, zsets_enrolled]
  · intro k hk
    rw [hashes_enrolled hk, hashes_enrolled hk]
  · rw [enrolled_has, enrolled_has]
  · rw [hstamp, hstamp]
  · exact gates

theorem Alike.prolonged {key : Str} {t t' : Keyspace} (h : Alike key t t') (hkey : kuid uid ≠ key)
    (ep : Nat) : Alike key (prolonged t uid ep) (prolonged t' uid ep) := by
  unfold Guarantees.prolonged
  rw [h.ttl hkey]
  split
  · exact h.expire _ _
  · exact h

theorem Alike.written {key : Str} {t t' : Keyspace} (h : Alike key t t') :
    Alike key (written t uid) (written t' uid) := by
  have hstores := (respects_writeStat uid t t' h).2
  rw [writeStat_apply, writeStat_apply] at hstores
  exact hstores

theorem gate_of_ownKept (harmless : OwnKept sid gate ct argv) :
    (enrolled s uid lc sid gate ct cv argv).hget (klc uid lc) "GATE".toList = some gate := by
  have hgate : reserved sid gate ct "GATE".toList = some gate := rfl
  rw [hget_enrolled_session, hgate]
  cases hvalue : extValue argv "GATE".toList with
  | none => rfl
  | some w => rw [harmless _ _ _ hgate hvalue, Option.some_or]

/-- Vectors that keep the protocol's fields leave alike stores after a whole `syn`. -/
theorem synced_alike {ep : Nat} (harmless : OwnKept sid gate ct argv)
    (harmless' : OwnKept sid gate ct argv') :
    Alike (klc uid lc) (synced s uid lc sid gate ct cv argv ep)
      (synced s uid lc sid gate ct cv argv' ep) := by
  have henrolled : Alike (klc uid lc) (enrolled s uid lc sid gate ct cv argv)
      (enrolled s uid lc sid gate ct cv argv') :=
    enrolled_alike (by rw [gate_of_ownKept harmless, gate_of_ownKept harmless'])
  exact (((henrolled.expire _ ep).prolonged (kuid_ne_klc _ _ _) ep).zrem _ _).written

end Pairs

section Syn
variable (s : Keyspace) (uid : Int) (proto : ProtoSyn) (argv argv' : List Str)

/-- The store after this `SYN` with the pairs `argv`. -/
def synWith : Keyspace := sessionStep s (.request uid (.syn { proto with data := argv }))

/-- What `syn` writes into the field of its own, if it is one. -/
def ownValue (f : Str) : Option Str :=
  reserved (Text.decimal proto.head.idx.sendIdx) proto.head.sublayerIndex
    (Text.decimal proto.cliType) f

/-- With either list the protocol's fields are as `syn` writes them, and `FIN_DELAY` finds the
session's gate or misses it alike after whatever happens later. -/
structure Untouched : Prop where
  fields : ∀ f v, ownValue proto f = some v →
    (synWith s uid proto argv).hget (sessionKey uid proto.head.logicConn) f = some v ∧
      (synWith s uid proto argv').hget (sessionKey uid proto.head.logicConn) f = some v
  branches : ∀ (es : List SessionEvent) (gate : Str),
    GateIs (es.foldl sessionStep (synWith s uid proto argv)) (Text.decimal uid)
        (Text.decimal proto.head.logicConn) gate ↔
      GateIs (es.foldl sessionStep (synWith s uid proto argv')) (Text.decimal uid)
        (Text.decimal proto.head.logicConn) gate

/-- The last pair named as a field of the protocol, if there is one, has that field's own value. -/
def Innocuous : Prop :=
  OwnKept (Text.decimal proto.head.idx.sendIdx) proto.head.sublayerIndex
    (Text.decimal proto.cliType) argv

variable {s uid proto argv argv'}

theorem synWith_eq (even : argv.length % 2 = 0) : synWith s uid proto argv =
    synced s (Text.decimal uid) (Text.decimal proto.head.logicConn)
      (Text.decimal proto.head.idx.sendIdx) proto.head.sublayerIndex (Text.decimal proto.cliType)
      proto.cliVer argv (lifetime proto.cliType) := by
  have haccepted : (Request.syn { proto with data := argv }).accepted = true := decide_eq_true even
  rw [synWith, sessionStep, if_pos haccepted]
  exact syn_store s uid proto.head proto.expire proto.cliType proto.cliVer even

theorem hget_synWith (even : argv.length % 2 = 0) {f v : Str} (own : ownValue proto f = some v) :
    (synWith s uid proto argv).hget (sessionKey uid proto.head.logicConn) f =
      some ((extValue argv f).getD v) := by
  unfold ownValue at own
  rw [synWith_eq even, sessionKey, hget_synced_session, own]
  cases extValue argv f with
  | none => rfl
  | some w => rfl

theorem innocuous_iff (even : argv.length % 2 = 0) : Innocuous proto argv ↔ ∀ f v,
    ownValue proto f = some v →
      (synWith s uid proto argv).hget (sessionKey uid proto.head.logicConn) f = some v := by
  constructor
  · intro harmless f v own
    rw [hget_synWith even own]
    cases hvalue : extValue argv f with
    | none => rfl
    | some w => rw [harmless f v w own hvalue, Option.getD_some]
  · intro hfields f v w own hvalue
    have hv := hfields f v own
    rw [hget_synWith even own, hvalue, Option.getD_some] at hv
    exact Option.some_injective _ hv

theorem synWith_alike (even : argv.length % 2 = 0) (even' : argv'.length % 2 = 0)
    (innocuous : Innocuous proto argv) (innocuous' : Innocuous proto argv') :
    Alike (sessionKey uid proto.head.logicConn) (synWith s uid proto argv)
      (synWith s uid proto argv') := by
  rw [synWith_eq even, synWith_eq even']
  exact synced_alike innocuous innocuous'

/-- The pairs of a client leave the protocol's fields alone exactly if none of them gives such a
field another value. This is about two vectors of pairs for one request; vectors of odd length are
refused by `syn` and not covered. -/
theorem ext_data_untouched_iff (even : argv.length % 2 = 0) (even' : argv'.length % 2 = 0) :
    Untouched s uid proto argv argv' ↔ Innocuous proto argv ∧ Innocuous proto argv' := by
  constructor
  · intro untouched
    exact ⟨(innocuous_iff even).mpr fun f v own => (untouched.fields f v own).1,
      (innocuous_iff even').mpr fun f v own => (untouched.fields f v own).2⟩
  · rintro ⟨innocuous, innocuous'⟩
    constructor
    · exact fun f v own =>
        ⟨(innocuous_iff even).mp innocuous f v own, (innocuous_iff even').mp innocuous' f v own⟩
    · intro es gate
      have halike : Alike (sessionKey uid proto.head.logicConn) (synWith s uid proto argv)
          (synWith s uid proto argv') := synWith_alike even even' innocuous innocuous'
      rw [GateIs, GateIs, (halike.run _ _ es).gate]

/-- The gateway `g1` signs user 7 in on connection 9. -/
def extSyn : ProtoSyn := ⟨⟨9, ⟨1, 0⟩, "g1".toList⟩, 0, 100, "2.1".toList, []⟩

theorem ext_data_untouched_example :
    Untouched .empty 7 extSyn ["DEV".toList, "tv".toList] [] := by
  refine (ext_data_untouched_iff rfl rfl).mpr ⟨?_, ?_⟩
  · intro f v w own hvalue
    have hdev : f = "DEV".toList := by
      by_contra hne
      have hnone : extValue ["DEV".toList, "tv".toList] f = none := by
        simp only [extValue, pairs, List.reverse_cons, List.reverse_nil, List.nil_append,
          List.lookup_cons, beq_eq_false_iff_ne.mpr hne, List.lookup_nil]
      rw [hnone] at hvalue
      cases hvalue
    subst hdev
    cases own
  · intro f v w own hvalue
    cases hvalue

/-- A pair named `GATE` makes `FIN_DELAY` of the session's own gateway miss it. -/
theorem gate_overwritten :
    GateIs (synWith .empty 7 extSyn []) ['7'] ['9'] "g1".toList ∧
    GateIs (synWith .empty 7 extSyn ["GATE".toList, "x".toList]) ['7'] ['9'] "x".toList ∧
    ¬ Untouched .empty 7 extSyn ["GATE".toList, "x".toList] [] := by
  have hplain : (synWith .empty 7 extSyn []).hget (klc ['7'] ['9']) "GATE".toList =
      some "g1".toList := by decide +kernel
  have hext : (synWith .empty 7 extSyn ["GATE".toList, "x".toList]).hget (klc ['7'] ['9'])
      "GATE".toList = some "x".toList := by decide +kernel
  refine ⟨hplain, hext, ?_⟩
  intro untouched
  have hfield := (untouched.fields "GATE".toList "g1".toList rfl).1
  exact absurd (hext.symm.trans hfield) (by decide)

end Syn

end RedisCluster.Guarantees
