import RedisCluster.Guarantees.Sessions

/-!
# The fields of a session

What `syn` and `upidx` leave in `L.uid.lc`: the fields they write from their keys, the version that
was there first, and over both the pairs of `ARGV`. A pair may have the name of a field of the
protocol, and then it is the pair that stays.
-/

set_option autoImplicit false

namespace RedisCluster.Guarantees
open Library Source

/-- What `HMSET` writes into a session. -/
def reserved (sid gate ct f : Str) : Option Str :=
  if f = "SID".toList then some ['0']
  else if f = "RID".toList then some sid
  else if f = "GATE".toList then some gate
  else if f = "CT".toList then some ct
  else none

/-- The last value that the pairs of `ARGV` give a field. -/
def extValue (argv : List Str) (f : Str) : Option Str := (pairs argv).reverse.lookup f

section Written
variable {s : Keyspace} {uid lc sid gate ct cv : Str} {argv : List Str} {f : Str}

theorem lookup_reserved : ([("SID".toList, ['0']), ("RID".toList, sid), ("GATE".toList, gate),
    ("CT".toList, ct)] : List (Str × Str)).reverse.lookup f = reserved sid gate ct f := by
  have hnames : ["CT".toList, "GATE".toList, "RID".toList, "SID".toList].Nodup := by decide
  unfold reserved
  simp only [List.reverse_cons, List.reverse_nil, List.nil_append, List.cons_append, List.lookup_cons,
    List.lookup_nil]
  by_cases hct : f = "CT".toList
  · subst hct
    rfl
  by_cases hgate : f = "GATE".toList
  · subst hgate
    rfl
  by_cases hrid : f = "RID".toList
  · subst hrid
    rfl
  by_cases hsid : f = "SID".toList
  · subst hsid
    rfl
  simp only [beq_eq_false_iff_ne.mpr hct, beq_eq_false_iff_ne.mpr hgate, beq_eq_false_iff_ne.mpr hrid,
    beq_eq_false_iff_ne.mpr hsid, if_neg hct, if_neg hgate, if_neg hrid, if_neg hsid]

theorem hget_enrolled_session : (enrolled s uid lc sid gate ct cv argv).hget (klc uid lc) f =
    (extValue argv f).or ((reserved sid gate ct f).or
      (if f = "CV".toList then some ((s.hget (klc uid lc) "CV".toList).getD cv)
        else s.hget (klc uid lc) f)) := by
  have hbefore : ((purged s uid (s.hkeys (kuid uid))).hsetnx (kuid uid) lc (ct ++ ';' :: cv)).hashes
      (klc uid lc) = s.hashes (klc uid lc) := by
    rw [Keyspace.hashes_hsetnx_of_ne (kuid_ne_klc _ _ _).symm, hashes_purged (kuid_ne_klc _ _ _).symm]
  have hcv : reserved sid gate ct "CV".toList = none := by
    unfold reserved
    rw [if_neg (by decide), if_neg (by decide), if_neg (by decide), if_neg (by decide)]
  simp only [enrolled, Keyspace.hget_hmset, Keyspace.hget_hsetnx_getD, lookup_reserved, hcv,
    Keyspace.hget_congr hbefore, Option.none_or, extValue]
  congr 1
  by_cases h : f = "CV".toList
  · rw [if_pos h, if_pos h, h, hcv, Option.none_or]
  · rw [if_neg h, if_neg h]

theorem hget_synced_session {ep : Nat} :
    (synced s uid lc sid gate ct cv argv ep).hget (klc uid lc) f =
      (extValue argv f).or ((reserved sid gate ct f).or
        (if f = "CV".toList then some ((s.hget (klc uid lc) "CV".toList).getD cv)
          else s.hget (klc uid lc) f)) := by
  have hsame : (synced s uid lc sid gate ct cv argv ep).fields (klc uid lc) =
      (enrolled s uid lc sid gate ct cv argv).fields (klc uid lc) := by
    unfold synced
    rw [Keyspace.fields_congr (congrFun hashes_written _), Keyspace.zrem,
      Keyspace.fields_congr (congrFun Keyspace.hashes_setZset _),
      Keyspace.fields_congr (hashes_prolonged (kuid_ne_klc _ _ _).symm), Keyspace.fields_expire]
  rw [← hget_enrolled_session, Keyspace.hget, Keyspace.hget, hsame]

/-- The store after a `syn` or `upidx` with what the callers print. -/
theorem syn_store (s : Keyspace) (uid : Int) (head : ProtoGbHead) (expire cliType : Int) (cliVer : Str)
    {argv : List Str} (even : argv.length % 2 = 0) :
    (runScript (syn (Text.decimal uid :: (head.keys ++
        [Text.decimal expire, Text.decimal cliType, cliVer])) argv) s).2 =
      synced s (Text.decimal uid) (Text.decimal head.logicConn) (Text.decimal head.idx.sendIdx)
        head.sublayerIndex (Text.decimal cliType) cliVer argv (lifetime cliType) := by
  have hsyn := @syn_apply (Text.decimal uid) (Text.decimal head.logicConn)
    (Text.decimal head.idx.sendIdx) (Text.decimal head.idx.recvIdx) head.sublayerIndex
    (Text.decimal expire) (Text.decimal cliType) cliVer argv cliType (toNumber_decimal cliType) even s
  exact congrArg Prod.snd (runScript_ok hsyn)

/-- The fields after a `syn` or `upidx` with what the callers print. -/
theorem hget_syn (s : Keyspace) (uid : Int) (head : ProtoGbHead) (expire cliType : Int) (cliVer : Str)
    {argv : List Str} (even : argv.length % 2 = 0) (f : Str) :
    (runScript (syn (Text.decimal uid :: (head.keys ++
        [Text.decimal expire, Text.decimal cliType, cliVer])) argv) s).2.hget
      (sessionKey uid head.logicConn) f =
    (extValue argv f).or ((reserved (Text.decimal head.idx.sendIdx) head.sublayerIndex
        (Text.decimal cliType) f).or
      (if f = "CV".toList then
        some ((s.hget (sessionKey uid head.logicConn) "CV".toList).getD cliVer)
      else s.hget (sessionKey uid head.logicConn) f)) := by
  rw [syn_store s uid head expire cliType cliVer even]
  exact hget_synced_session

end Written
end RedisCluster.Guarantees
