import Mathlib.Data.List.TakeWhile
import RedisCluster.Guarantees.MultiReads
import RedisCluster.Guarantees.SessionFields

/-!
# Session fields in a caller's map

`one_uid_session` takes the names of fields as C strings, and its values with their lengths. A
field comes back as it is stored unless its name has a zero byte; then it is under the part
before it, where it can hide another field.
-/

set_option autoImplicit false

namespace RedisCluster.Guarantees
open Library Source

/-- The map after the entry for this session, whose fields redis lists like this. -/
def readBack (uidsSessions : UidsSessions) (uid : Int) (lc : Str) (fields : List (Str × Str)) :
    UidsSessions :=
  oneUidSession uidsSessions (redisrvsAdd (Held.entry ⟨Text.decimal uid, lc, fields⟩) .fresh)

/-- What the map has for a session is the session as it is stored, and with it what `syn` was
given as data. -/
structure ReadUnchanged (uidsSessions : UidsSessions) (s : Keyspace) (uid : Int) (lc : Str)
    (fields : List (Str × Str)) : Prop where
  same : Ordered.lookup₂ (readBack uidsSessions uid lc fields) uid lc =
    some (s.fields (klc (Text.decimal uid) lc))
  ext : ∀ (before : Keyspace) (proto : ProtoSyn), lc = Text.decimal proto.head.logicConn →
    s = sessionStep before (.request uid (.syn proto)) → proto.data.length % 2 = 0 →
    ((pairs proto.data).map Prod.fst).Nodup → ∀ fv ∈ pairs proto.data,
      ∃ kvs, Ordered.lookup₂ (readBack uidsSessions uid lc fields) uid lc = some kvs ∧
        kvs[fv.1]? = some fv.2

/-! ## Names as C strings -/

/-- The last value that comes under this name. -/
def lastNamed (fields : List (Str × Str)) (f : Str) : Option Str :=
  (fields.map fun fv => (cStr fv.1, fv.2)).reverse.lookup f

section Names
variable {fields : List (Str × Str)} {kvs : FieldMap} {f : Str}

/-- `c_str` keeps a text without zero bytes. -/
theorem cStr_eq_iff {s : Str} : cStr s = s ↔ Char.ofNat 0 ∉ s := by
  rw [cStr, List.takeWhile_eq_self_iff]
  constructor
  · intro h hzero
    simpa using h _ hzero
  · intro h c hc
    rw [decide_eq_true_eq]
    rintro rfl
    exact h hc

theorem cStr_cStr (s : Str) : cStr (cStr s) = cStr s := by
  rw [cStr, cStr, List.takeWhile_idem]

/-- A name has what came last for it, cut at a zero byte, or what the map had before. -/
theorem getElem?_fieldMap : (fieldMap fields kvs)[f]? = (lastNamed fields f).or kvs[f]? := by
  induction fields generalizing kvs with
  | nil => rfl
  | cons fv fields ih =>
    have hrest := @ih (kvs.insert (cStr fv.1) fv.2)
    rw [fieldMap] at hrest
    rw [fieldMap, List.foldl_cons, hrest, lastNamed, lastNamed, List.map_cons, List.reverse_cons,
      List.lookup_append, Option.or_assoc, Ordered.getElem?_insert, List.lookup_singleton]
    by_cases hf : f = cStr fv.1
    · simp [hf]
    · simp [hf]

theorem lastNamed_eq_none : lastNamed fields f = none ↔ ∀ fv ∈ fields, cStr fv.1 ≠ f := by
  simp only [lastNamed, List.lookup_eq_none_iff, List.mem_reverse, bne_iff_ne]
  constructor
  · intro h fv hfv
    exact (h (cStr fv.1, fv.2) (List.mem_map_of_mem hfv)).symm
  · intro h named hnamed
    obtain ⟨fv, hfv, rfl⟩ := List.mem_map.mp hnamed
    exact (h fv hfv).symm

/-- Nothing comes under a name with a zero byte. -/
theorem lastNamed_of_zero (hzero : Char.ofNat 0 ∈ f) : lastNamed fields f = none := by
  rw [lastNamed_eq_none]
  rintro fv _ rfl
  exact cStr_eq_iff.mp (cStr_cStr fv.1) hzero

/-- The last value under a name is the value of a field that has the name as a C string. -/
theorem exists_of_lastNamed {v : Str} (h : lastNamed fields f = some v) :
    ∃ fv ∈ fields, cStr fv.1 = f ∧ fv.2 = v := by
  obtain ⟨before, after, hlist, _⟩ := List.lookup_eq_some_iff.mp h
  have hmem : (f, v) ∈ fields.map fun fv => (cStr fv.1, fv.2) := by
    rw [← List.mem_reverse, hlist]
    simp
  obtain ⟨fv, hfv, heq⟩ := List.mem_map.mp hmem
  exact ⟨fv, hfv, congrArg Prod.fst heq, congrArg Prod.snd heq⟩

end Names

/-! ## What comes through -/

/-- What the map has under the two keys makes up for what the C strings lose: it has no other
names, it has the fields whose names have zero bytes, and where such a name is cut the session
has a field with the last value that comes there. -/
structure ComesThrough (kvs : FieldMap) (session : Fields) (fields : List (Str × Str)) : Prop where
  known : ∀ f ∈ kvs, f ∈ session
  held : ∀ fv ∈ fields, Char.ofNat 0 ∈ fv.1 → kvs[fv.1]? = some fv.2
  last : ∀ fv ∈ fields, Char.ofNat 0 ∈ fv.1 →
    session[cStr fv.1]? = lastNamed fields (cStr fv.1)

section Through
variable {kvs : FieldMap} {session : Fields} {fields : List (Str × Str)}

theorem mem_fields_of_perm (perm : fields.Perm session.toList) {f v : Str} :
    (f, v) ∈ fields ↔ session[f]? = some v := by
  rw [perm.mem_iff, Std.ExtTreeMap.mem_toList_iff_getElem?_eq_some]

/-- The map is the session exactly if every name comes through, and nothing was there before that
the session does not have. -/
theorem fieldMap_eq_iff (perm : fields.Perm session.toList) :
    fieldMap fields kvs = session ↔ ComesThrough kvs session fields := by
  constructor
  · intro heq
    have hget : ∀ f, session[f]? = (lastNamed fields f).or kvs[f]? := by
      intro f
      rw [← heq, getElem?_fieldMap]
    refine ⟨?_, ?_, ?_⟩
    · intro f hf
      rw [Std.ExtTreeMap.mem_iff_isSome_getElem?] at hf ⊢
      rw [hget, Option.isSome_or, hf, Bool.or_true]
    · intro fv hfv hzero
      have hfield := (mem_fields_of_perm perm).mp hfv
      rwa [hget, lastNamed_of_zero hzero, Option.none_or] at hfield
    · intro fv hfv _
      have hsome : lastNamed fields (cStr fv.1) ≠ none :=
        fun hnone => lastNamed_eq_none.mp hnone fv hfv rfl
      obtain ⟨v, hv⟩ := Option.ne_none_iff_exists'.mp hsome
      rw [hget, hv, Option.some_or]
  · intro h
    apply Std.ExtTreeMap.ext_getElem?
    intro f
    rw [getElem?_fieldMap]
    cases hlast : lastNamed fields f with
    | none =>
      rw [Option.none_or]
      cases hfield : session[f]? with
      | none =>
        exact Ordered.not_mem_iff_getElem?.mp fun hf =>
          Ordered.not_mem_iff_getElem?.mpr hfield (h.known f hf)
      | some v =>
        -- A field that does not come under its own name has a zero byte in it.
        have hmem := (mem_fields_of_perm perm).mpr hfield
        refine h.held (f, v) hmem ?_
        by_contra hzero
        exact lastNamed_eq_none.mp hlast (f, v) hmem (cStr_eq_iff.mpr hzero)
    | some v =>
      rw [Option.some_or]
      obtain ⟨fv, hfv, hname, hvalue⟩ := exists_of_lastNamed hlast
      by_cases hzero : Char.ofNat 0 ∈ fv.1
      · rw [← hlast, ← hname, h.last fv hfv hzero]
      · rw [cStr_eq_iff.mpr hzero] at hname
        rw [← hname, ← hvalue, (mem_fields_of_perm perm).mp hfv]

/-- For a session that the map does not have yet, no name may have a zero byte. -/
theorem comesThrough_empty : ComesThrough ∅ session fields ↔ ∀ fv ∈ fields, Char.ofNat 0 ∉ fv.1 := by
  constructor
  · intro h fv hfv hzero
    have hheld := h.held fv hfv hzero
    rw [Std.ExtTreeMap.getElem?_empty] at hheld
    cases hheld
  · intro h
    refine ⟨?_, fun fv hfv hzero => absurd hzero (h fv hfv), fun fv hfv hzero => absurd hzero (h fv hfv)⟩
    intro f hf
    exact absurd hf Std.ExtTreeMap.not_mem_empty

end Through

/-- The reply has the user as a Lua number; where that is another one, only the map itself can
already have the session. -/
def Survives (uidsSessions : UidsSessions) (s : Keyspace) (uid : Int) (lc : Str)
    (fields : List (Str × Str)) : Prop :=
  if double uid = uid then
    ComesThrough ((Ordered.lookup₂ uidsSessions uid lc).getD ∅) (s.fields (klc (Text.decimal uid) lc))
      fields
  else Ordered.lookup₂ uidsSessions uid lc = some (s.fields (klc (Text.decimal uid) lc))

section Read
variable {uidsSessions : UidsSessions} {s : Keyspace} {uid : Int} {lc : Str} {fields : List (Str × Str)}

/-- A user that a double does not hold is filed elsewhere. -/
theorem lookup₂_readBack : Ordered.lookup₂ (readBack uidsSessions uid lc fields) uid lc =
    if double uid = uid then some (fieldMap fields ((Ordered.lookup₂ uidsSessions uid lc).getD ∅))
    else Ordered.lookup₂ uidsSessions uid lc := by
  rw [readBack, oneUidSession_entry uidsSessions _ (place_decimal rfl), Ordered.lookup₂_update₂]
  by_cases huid : double uid = uid
  · rw [if_pos huid, if_pos ⟨huid.symm, rfl⟩]
  · rw [if_neg huid, if_neg fun h => huid h.1.symm]

theorem same_iff (perm : fields.Perm (s.hgetall (klc (Text.decimal uid) lc))) :
    Ordered.lookup₂ (readBack uidsSessions uid lc fields) uid lc =
      some (s.fields (klc (Text.decimal uid) lc)) ↔ Survives uidsSessions s uid lc fields := by
  rw [lookup₂_readBack, Survives]
  by_cases huid : double uid = uid
  · rw [if_pos huid, if_pos huid, Option.some.injEq, fieldMap_eq_iff perm]
  · rw [if_neg huid, if_neg huid]

/-- Where the names of the data are distinct, the session has all of it. -/
theorem hget_ext {before : Keyspace} {proto : ProtoSyn} (even : proto.data.length % 2 = 0)
    (distinct : ((pairs proto.data).map Prod.fst).Nodup) {fv : Str × Str}
    (hfv : fv ∈ pairs proto.data) :
    (sessionStep before (.request uid (.syn proto))).hget (sessionKey uid proto.head.logicConn) fv.1 =
      some fv.2 := by
  have hvalue : extValue proto.data fv.1 = some fv.2 := by
    obtain ⟨front, rest, hlist⟩ := List.append_of_mem hfv
    rw [hlist, List.map_append, List.map_cons, List.nodup_middle, List.nodup_cons] at distinct
    rw [extValue, hlist, List.lookup_eq_some_iff]
    refine ⟨rest.reverse, front.reverse, by simp, ?_⟩
    intro other hother
    rw [List.mem_reverse] at hother
    rw [bne_iff_ne]
    intro heq
    refine distinct.1 (List.mem_append_right _ ?_)
    rw [heq]
    exact List.mem_map_of_mem hother
  have hsyn := hget_syn before uid proto.head proto.expire proto.cliType proto.cliVer even fv.1
  rw [hvalue, Option.some_or] at hsyn
  have haccepted : (Request.syn proto).accepted = true := decide_eq_true even
  rw [sessionStep, if_pos haccepted]
  exact hsyn

end Read

/-- A session is read back unchanged exactly if its names survive as C strings, or the map already
makes up for it. The fields come in any order, and the caller's map may hold anything before. -/
theorem session_unchanged_iff (uidsSessions : UidsSessions) (s : Keyspace) (uid : Int) (lc : Str)
    (fields : List (Str × Str)) (perm : fields.Perm (s.hgetall (klc (Text.decimal uid) lc))) :
    ReadUnchanged uidsSessions s uid lc fields ↔ Survives uidsSessions s uid lc fields := by
  rw [← same_iff perm]
  constructor
  · exact ReadUnchanged.same
  · intro hsame
    refine ⟨hsame, ?_⟩
    rintro before proto rfl rfl even distinct fv hfv
    exact ⟨_, hsame, hget_ext even distinct hfv⟩

/-- A session with two fields, one of which has a zero byte in its value. -/
def plainSession : Keyspace :=
  (Keyspace.empty.hset (klc (Text.decimal 7) ['1']) ['k'] ['v']).hset (klc (Text.decimal 7) ['1'])
    ['m'] [Char.ofNat 0]

/-- No name has a zero byte, so the session comes back as it is. -/
theorem plain_session_unchanged : plainSession.hget (klc (Text.decimal 7) ['1']) ['m'] = some [Char.ofNat 0] ∧
    Survives ∅ plainSession 7 ['1'] (plainSession.hgetall (klc (Text.decimal 7) ['1'])) ∧
    ReadUnchanged ∅ plainSession 7 ['1'] (plainSession.hgetall (klc (Text.decimal 7) ['1'])) := by
  have survives : Survives ∅ plainSession 7 ['1'] (plainSession.hgetall (klc (Text.decimal 7) ['1'])) := by
    have hempty : Ordered.lookup₂ (∅ : UidsSessions) 7 ['1'] = none := by
      rw [Ordered.lookup₂, Std.ExtTreeMap.getElem?_empty, Option.bind_none]
    rw [Survives, if_pos (by decide), hempty, Option.getD_none, comesThrough_empty]
    intro fv hfv
    have hget : plainSession.hget (klc (Text.decimal 7) ['1']) fv.1 = some fv.2 :=
      (mem_fields_of_perm (List.Perm.refl _)).mp hfv
    rw [plainSession, Keyspace.hget_hset, Keyspace.hget_hset] at hget
    by_cases hm : fv.1 = ['m']
    · rw [hm]
      decide
    · by_cases hk : fv.1 = ['k']
      · rw [hk]
        decide
      · rw [if_neg hm, if_neg hk] at hget
        cases hget
  refine ⟨rfl, survives, ?_⟩
  exact (session_unchanged_iff ∅ plainSession 7 ['1'] _ (List.Perm.refl _)).mpr survives

/-- A request with a field whose name has a zero byte. -/
def exampleZeroName : ProtoSyn :=
  ⟨⟨1, ⟨1, 0⟩, ['g']⟩, 0, 100, ['v'], [['a', Char.ofNat 0, 'b'], ['1']]⟩

/-- The session that this request makes in an empty store is not read back as it is. -/
theorem zero_name_is_cut : ¬ ReadUnchanged ∅ (sessionStep .empty (.request 7 (.syn exampleZeroName))) 7
    (Text.decimal 1)
    ((sessionStep .empty (.request 7 (.syn exampleZeroName))).hgetall (sessionKey 7 1)) := by
  intro h
  have hsurvives := (same_iff (List.Perm.refl _)).mp h.same
  have hempty : Ordered.lookup₂ (∅ : UidsSessions) 7 (Text.decimal 1) = none := by
    rw [Ordered.lookup₂, Std.ExtTreeMap.getElem?_empty, Option.bind_none]
  rw [Survives, if_pos (by decide), hempty, Option.getD_none, comesThrough_empty] at hsurvives
  have hfield := @hget_ext 7 .empty exampleZeroName (by decide) (by decide)
    (['a', Char.ofNat 0, 'b'], ['1']) (by decide)
  exact hsurvives _ ((mem_fields_of_perm (List.Perm.refl _)).mpr hfield) (by decide)

end RedisCluster.Guarantees
