import RedisCluster.Guarantees.SyncAsync
import RedisCluster.Source.SessionReads

/-!
# What `get_multi` answers

The replies of the redis that `get_multi` asks name sessions, and the caller's map has the
fields of all that come under its two keys: the user as a Lua number, and the connection.
-/

set_option autoImplicit false

namespace RedisCluster.Guarantees
open Library Source

/-! ## Lua numbers -/

/-- The integers that a double represents. -/
def IsDouble (n : Int) : Prop := ∃ q k : Nat, q ≤ 2 ^ 53 ∧ n.natAbs = q * 2 ^ k

theorem shiftRight_lt (m : Nat) : m >>> (m.log2 - 52) < 2 ^ 53 := by
  rw [Nat.shiftRight_eq_div_pow, Nat.div_lt_iff_lt_mul (Nat.two_pow_pos _), ← Nat.pow_add]
  exact lt_of_lt_of_le Nat.lt_log2_self (Nat.pow_le_pow_right (by decide) (by omega))

theorem isDouble_double (n : Int) : IsDouble (double n) := by
  have hq := shiftRight_lt n.natAbs
  have habs : ∀ m : Nat, n ≠ 0 → (n.sign * (m : Int)).natAbs = m := by
    intro m hn
    rw [Int.natAbs_mul, Int.natAbs_sign_of_ne_zero hn, Nat.one_mul, Int.natAbs_natCast]
  by_cases hn : n = 0
  · subst hn
    exact ⟨0, 0, Nat.zero_le _, rfl⟩
  · unfold double
    dsimp only
    split
    · exact ⟨n.natAbs >>> (n.natAbs.log2 - 52) + 1, _, hq, habs _ hn⟩
    · exact ⟨n.natAbs >>> (n.natAbs.log2 - 52) + 0, _, hq.le, habs _ hn⟩

/-- What lies above the 53 bits is a multiple of the last one. -/
theorem IsDouble.dvd {n : Int} (h : IsDouble n) : 2 ^ (n.natAbs.log2 - 52) ∣ n.natAbs := by
  obtain ⟨q, k, hq, hn⟩ := h
  by_cases hk : n.natAbs.log2 - 52 ≤ k
  · have hmultiple : 2 ^ k ∣ n.natAbs := hn ▸ Nat.dvd_mul_left _ q
    exact Nat.dvd_trans (Nat.pow_dvd_pow 2 hk) hmultiple
  · -- Only `2 ^ (53 + k)` is that long.
    have hne : n.natAbs ≠ 0 := by
      intro h0
      rw [h0] at hk
      exact hk (Nat.zero_le _)
    have hlow : 2 ^ (53 + k) ≤ n.natAbs :=
      le_trans (Nat.pow_le_pow_right (by decide) (by omega)) (Nat.log2_self_le hne)
    have hhigh : n.natAbs ≤ 2 ^ (53 + k) := by
      rw [hn, Nat.pow_add]
      exact Nat.mul_le_mul_right _ hq
    rw [Nat.le_antisymm hhigh hlow, Nat.log2_two_pow]
    exact Nat.pow_dvd_pow 2 (by omega)

theorem IsDouble.double_eq {n : Int} (h : IsDouble n) : double n = n := by
  have hdvd := h.dvd
  have hr : n.natAbs % 2 ^ (n.natAbs.log2 - 52) = 0 := Nat.mod_eq_zero_of_dvd hdvd
  have hpos : 0 < 2 ^ (n.natAbs.log2 - 52) := Nat.two_pow_pos _
  unfold double
  dsimp only
  rw [hr, if_neg (by omega), Nat.add_zero, Nat.shiftRight_eq_div_pow, Nat.div_mul_cancel hdvd]
  exact Int.sign_mul_natAbs n

theorem double_double (n : Int) : double (double n) = double n := (isDouble_double n).double_eq

/-! ## Sessions in replies -/

/-- A session that a redis lists for a user, with the fields it has for it. -/
structure Held where
  suid : Str
  lc : Str
  fields : List (Str × Str)

/-- What `get_multi.lua` finds for these keys. -/
def heldAt (s : Keyspace) (suids : List Str) : List Held :=
  suids.flatMap fun suid => (s.hkeys (kuid suid)).map fun lc => ⟨suid, lc, s.hgetall (klc suid lc)⟩

/-- The sessions of these users on their redis. -/
def held (w : World) (disp : DispUids) : List Held :=
  disp.toList.flatMap fun (addr, suids) => heldAt (w.servers addr).keys suids.toList

/-- The keys under which the caller's map gets a session. -/
def Held.place (h : Held) : Option (Int × Str) := (toNumber h.suid).map fun n => (double n, h.lc)

theorem place_decimal {h : Held} {uid : Int} (suid : h.suid = Text.decimal uid) :
    h.place = some (double uid, h.lc) := by
  rw [Held.place, suid, toNumber_decimal]
  rfl

def Held.entry (h : Held) : RedisReply :=
  .array (((toNumber h.suid).map .number).toList ++ [.bulk h.lc,
    .array (h.fields.flatMap fun fv => [.bulk fv.1, .bulk fv.2])])

/-- A hash, with its names read as C strings. -/
def fieldMap (fields : List (Str × Str)) (kvs : FieldMap) : FieldMap :=
  fields.foldl (fun kvs fv => kvs.insert (cStr fv.1) fv.2) kvs

/-- The fields of all these sessions, if there are any. -/
def gathered (hs : List Held) : Option FieldMap :=
  hs.foldl (fun kvs h => some (fieldMap h.fields (kvs.getD ∅))) none

theorem getMulti_eq (keys : List Str) (s : Keyspace) :
    Source.getMulti keys s = (heldAt s keys).map Held.entry := by
  rw [Source.getMulti, heldAt, List.map_flatMap]
  simp only [List.map_map]
  rfl

theorem redisrvsAdd_array (element : List RedisReply) :
    redisrvsAdd (.array element) .fresh = .mk .array 0 [] (redisrvsAddAll element) := by
  rw [RedisReply.array, redisrvsAdd, if_pos rfl]
  rfl

theorem type_array {element : List RedisReply} :
    (redisrvsAdd (.array element) .fresh).type = .array := by
  rw [redisrvsAdd_array, RedisRv.type.eq_def]

theorem element_array {element : List RedisReply} :
    (redisrvsAdd (.array element) .fresh).element = redisrvsAddAll element := by
  rw [redisrvsAdd_array, RedisRv.element.eq_def]

theorem redisrvsAddAll_eq (element : List RedisReply) :
    redisrvsAddAll element = element.map fun reply => redisrvsAdd reply .fresh := by
  induction element with
  | nil => rfl
  | cons reply element ih => rw [redisrvsAddAll, ih, List.map_cons]

theorem redisrvsAdd_bulk (str : Str) : redisrvsAdd (.bulk str) .fresh = .mk .string 0 str [] := by
  rw [RedisReply.bulk, redisrvsAdd, if_neg (by decide)]
  rfl

/-- The elements of a hash come in pairs. -/
theorem addPairs_fields (fields : List (Str × Str)) (kvs : FieldMap) :
    addPairs (redisrvsAddAll (fields.flatMap fun fv => [.bulk fv.1, .bulk fv.2])) kvs =
      fieldMap fields kvs := by
  rw [redisrvsAddAll_eq]
  have heven : ∀ fields : List (Str × Str), ((fields.flatMap fun fv =>
      [RedisReply.bulk fv.1, .bulk fv.2]).map fun reply => redisrvsAdd reply .fresh).length % 2 = 0 := by
    intro fields
    induction fields with
    | nil => rfl
    | cons fv fields ih =>
      rw [List.length_map] at ih
      simp only [List.flatMap_cons, List.length_map, List.length_append, List.length_cons, List.length_nil]
      omega
  rw [addPairs, if_pos (heven fields)]
  induction fields generalizing kvs with
  | nil => rfl
  | cons fv fields ih =>
    rw [List.flatMap_cons, List.map_append, List.map_cons, List.map_cons, List.map_nil,
      redisrvsAdd_bulk, redisrvsAdd_bulk, List.cons_append, List.cons_append, List.nil_append, setPairs]
    exact ih _

/-- One entry changes the caller's map in its place. -/
theorem oneUidSession_entry (uidsSessions : UidsSessions) (h : Held) {n : Int} {lc : Str}
    (place : h.place = some (n, lc)) :
    oneUidSession uidsSessions (redisrvsAdd h.entry .fresh) =
      Ordered.update₂ uidsSessions n lc fun kvs => fieldMap h.fields (kvs.getD ∅) := by
  unfold Held.place at place
  cases hnumber : toNumber h.suid with
  | none =>
    rw [hnumber] at place
    cases place
  | some m =>
    rw [hnumber] at place
    cases place
    rw [Held.entry, hnumber, redisrvsAdd_array, redisrvsAddAll_eq]
    simp only [Option.map_some, Option.toList_some, List.cons_append, List.nil_append, List.map_cons,
      List.map_nil, redisrvsAdd_bulk, redisrvsAdd_array]
    rw [oneUidSession]
    change (if _ then _ else _) = _
    rw [if_pos ⟨rfl, rfl, rfl⟩]
    dsimp only [RedisRv.element]
    rw [addPairs_fields]
    rfl

theorem oneUidSession_unplaced (uidsSessions : UidsSessions) (h : Held) (place : h.place = none) :
    oneUidSession uidsSessions (redisrvsAdd h.entry .fresh) = uidsSessions := by
  unfold Held.place at place
  rw [Option.map_eq_none_iff] at place
  rw [Held.entry, place, redisrvsAdd_array, redisrvsAddAll_eq]
  rfl

/-- The caller's map has in each place what all the sessions that come there have. -/
theorem multiSessions_lookup (w : World) (disp : DispUids) (n : Int) (lc : Str) :
    Ordered.lookup₂ (multiSessions (disp.map fun addr suids =>
        redisrvsAdd (.array (Source.getMulti suids.toList (w.servers addr).keys)) .fresh)) n lc =
      gathered ((held w disp).filter fun h => h.place = some (n, lc)) := by
  have hloop : multiSessions (disp.map fun addr suids =>
      redisrvsAdd (.array (Source.getMulti suids.toList (w.servers addr).keys)) .fresh) =
      (held w disp).foldl (fun uidsSessions h =>
        oneUidSession uidsSessions (redisrvsAdd h.entry .fresh)) ∅ := by
    rw [multiSessions, Std.ExtTreeMap.toList_map, List.foldl_map, held, List.foldl_flatMap]
    congr 1
    funext uidsSessions entry
    dsimp only
    rw [if_pos type_array, element_array, getMulti_eq, redisrvsAddAll_eq, List.map_map, List.foldl_map]
    rfl
  rw [hloop]
  have hempty : Ordered.lookup₂ (∅ : UidsSessions) n lc = none := by
    rw [Ordered.lookup₂, Std.ExtTreeMap.getElem?_empty, Option.bind_none]
  rw [Ordered.lookup₂_foldl_update₂ (fun m h k i => oneUidSession_entry m h)
    (fun m h => oneUidSession_unplaced m h), hempty]
  rfl

/-! ## Groups -/

/-- The redis that `rand` picks for the uid in place `i`. -/
def chosenRedis (oc : OnlineCtrl) (rand : Nat → Nat) (uid : Int) (i : Nat) : UInt64 :=
  redisAddrSlaveFirst oc.rh oc.cityHash64 (rand i) (Text.decimal uid)

/-- The user is in the group of this redis. -/
def InGroup (disp : DispUids) (addr : UInt64) (suid : Str) : Prop :=
  ∃ suids, disp[addr]? = some suids ∧ suid ∈ suids

/-- The body of the loop over the uids. -/
def joinGroup (disp : DispUids) (addr : UInt64) (suid : Str) : DispUids :=
  if addr = 0 then disp else disp.insert addr ((disp[addr]?.getD ∅).insert suid)

theorem dispUids_eq (oc : OnlineCtrl) (rand : Nat → Nat) (uids : List Int) :
    dispUids oc rand uids = uids.zipIdx.foldl (fun disp entry =>
      joinGroup disp (chosenRedis oc rand entry.1 entry.2) (Text.decimal entry.1)) ∅ := rfl

theorem inGroup_joinGroup {disp : DispUids} {target addr : UInt64} {new suid : Str} :
    InGroup (joinGroup disp target new) addr suid ↔
      (target = addr ∧ addr ≠ 0 ∧ suid = new) ∨ InGroup disp addr suid := by
  unfold joinGroup
  by_cases hzero : target = 0
  · rw [if_pos hzero, hzero]
    refine ⟨Or.inr, fun h => h.resolve_left ?_⟩
    rintro ⟨rfl, hne, _⟩
    exact hne rfl
  · rw [if_neg hzero]
    simp only [InGroup, Ordered.getElem?_insert]
    by_cases haddr : addr = target
    · subst haddr
      simp only [if_true, Option.some.injEq, exists_eq_left', Ordered.mem_insert, true_and, ne_eq,
        hzero, not_false_eq_true]
      refine or_congr_right ?_
      cases disp[addr]? with
      | none => simp
      | some suids => simp
    · simp [if_neg haddr, Ne.symm haddr]

/-- Every uid joins the group of the redis that is picked for it. -/
theorem inGroup_dispUids {oc : OnlineCtrl} {rand : Nat → Nat} {uids : List Int} {addr : UInt64}
    {suid : Str} : InGroup (dispUids oc rand uids) addr suid ↔
      ∃ entry ∈ uids.zipIdx, chosenRedis oc rand entry.1 entry.2 = addr ∧ addr ≠ 0 ∧
        suid = Text.decimal entry.1 := by
  have hloop : ∀ (entries : List (Int × Nat)) (disp : DispUids),
      InGroup (entries.foldl (fun disp entry =>
        joinGroup disp (chosenRedis oc rand entry.1 entry.2) (Text.decimal entry.1)) disp) addr suid ↔
      InGroup disp addr suid ∨ ∃ entry ∈ entries, chosenRedis oc rand entry.1 entry.2 = addr ∧
        addr ≠ 0 ∧ suid = Text.decimal entry.1 := by
    intro entries
    induction entries with
    | nil => simp
    | cons entry entries ih =>
      intro disp
      simp only [List.foldl_cons, ih, inGroup_joinGroup, List.mem_cons, exists_eq_or_imp]
      rw [← or_assoc]
      exact or_congr_left or_comm
  have hnone : ¬ InGroup ∅ addr suid := by
    rintro ⟨suids, hsuids, _⟩
    rw [Std.ExtTreeMap.getElem?_empty] at hsuids
    cases hsuids
  rw [dispUids_eq, hloop]
  exact or_iff_right hnone

/-- No group is larger than the list. -/
theorem group_size_le {oc : OnlineCtrl} {rand : Nat → Nat} {uids : List Int} {addr : UInt64}
    {suids : Std.ExtTreeSet Str}
    (group : (dispUids oc rand uids)[addr]? = some suids) : suids.size ≤ uids.length := by
  rw [← Std.ExtTreeSet.length_toList, ← @List.length_map _ _ uids Text.decimal]
  refine (Ordered.nodup_toList suids).length_le_of_subset fun suid hsuid => ?_
  obtain ⟨entry, hentry, _, _, rfl⟩ :=
    inGroup_dispUids.mp ⟨suids, group, Std.ExtTreeSet.mem_toList.mp hsuid⟩
  exact List.mem_map.mpr ⟨entry.1, List.fst_mem_of_mem_zipIdx hentry, rfl⟩

theorem mem_held {w : World} {disp : DispUids} {h : Held} : h ∈ held w disp ↔
    ∃ addr, InGroup disp addr h.suid ∧ h.lc ∈ (w.servers addr).keys.fields (kuid h.suid) ∧
      h.fields = (w.servers addr).keys.hgetall (klc h.suid h.lc) := by
  rw [held, List.mem_flatMap]
  constructor
  · rintro ⟨⟨addr, suids⟩, hentry, hh⟩
    obtain ⟨suid, hsuid, hh⟩ := List.mem_flatMap.mp hh
    obtain ⟨lc, hlc, rfl⟩ := List.mem_map.mp hh
    exact ⟨addr, ⟨suids, Std.ExtTreeMap.mem_toList_iff_getElem?_eq_some.mp hentry,
      Std.ExtTreeSet.mem_toList.mp hsuid⟩, Keyspace.mem_hkeys.mp hlc, rfl⟩
  · rintro ⟨addr, ⟨suids, hsuids, hsuid⟩, hlc, hfields⟩
    refine ⟨(addr, suids), Std.ExtTreeMap.mem_toList_iff_getElem?_eq_some.mpr hsuids, ?_⟩
    refine List.mem_flatMap.mpr ⟨h.suid, Std.ExtTreeSet.mem_toList.mpr hsuid, ?_⟩
    refine List.mem_map.mpr ⟨h.lc, Keyspace.mem_hkeys.mpr hlc, ?_⟩
    rw [← hfields]

/-- There is a value exactly if there is a session. -/
theorem gathered_eq_none {hs : List Held} : gathered hs = none ↔ hs = [] := by
  have hsome : ∀ (hs : List Held) (kvs : FieldMap),
      ∃ kvs', hs.foldl (fun kvs h => some (fieldMap h.fields (kvs.getD ∅))) (some kvs) = some kvs' := by
    intro hs
    induction hs with
    | nil => exact fun kvs => ⟨kvs, rfl⟩
    | cons h hs ih => exact fun kvs => ih _
  cases hs with
  | nil => exact ⟨fun _ => rfl, fun _ => rfl⟩
  | cons h hs =>
    obtain ⟨kvs', hkvs⟩ := hsome hs (fieldMap h.fields ∅)
    refine ⟨fun hnone => ?_, fun hnil => absurd hnil (List.cons_ne_nil _ _)⟩
    exact absurd (hkvs.symm.trans hnone) (Option.some_ne_none _)

/-! ## The call -/

/-- The groups whose command fits `cmd_argv_`. -/
def sentGroups (disp : DispUids) : DispUids := disp.filter fun _ suids => suids.size + 3 < argvMaxLen

section Call
variable {oc : OnlineCtrl} {disp : DispUids} {plan : Nat → CmdRound}

theorem sentGroups_get {addr : UInt64} {suids : Std.ExtTreeSet Str} :
    (sentGroups disp)[addr]? = some suids ↔
      disp[addr]? = some suids ∧ suids.size + 3 < argvMaxLen := by
  rw [sentGroups, Std.ExtTreeMap.getElem?_filter', Option.filter_eq_some_iff, decide_eq_true_eq]

theorem multiCommands_get {addr : UInt64} {args : List Str} :
    (multiCommands oc disp)[addr]? = some args ↔ ∃ suids, disp[addr]? = some suids ∧
      "EVALSHA".toList :: oc.dir.sha1 .getMulti :: Text.decimal suids.size :: suids.toList = args := by
  rw [multiCommands, Std.ExtTreeMap.getElem?_map, Option.map_eq_some_iff]

theorem multiCommands_evals : Evals oc.dir .getMulti (fun addr => (disp[addr]?.getD ∅).toList)
    (fun _ => []) (multiCommands oc disp) := by
  intro addr args hargs
  obtain ⟨suids, hsuids, rfl⟩ := multiCommands_get.mp hargs
  dsimp only
  rw [hsuids, Option.getD_some, List.append_nil, Std.ExtTreeSet.length_toList]

theorem length_multiArgs (sha1 : Str) (suids : Std.ExtTreeSet Str) :
    ("EVALSHA".toList :: sha1 :: Text.decimal suids.size :: suids.toList).length = suids.size + 3 := by
  rw [← Std.ExtTreeSet.length_toList]
  rfl

/-- The commands of these groups are sent. -/
theorem sendable_multiCommands {addr : UInt64} {args : List Str} :
    (sendable (multiCommands oc disp))[addr]? = some args ↔
      ∃ suids, (sentGroups disp)[addr]? = some suids ∧
        "EVALSHA".toList :: oc.dir.sha1 .getMulti :: Text.decimal suids.size :: suids.toList = args := by
  rw [sendable, Std.ExtTreeMap.getElem?_filter', Option.filter_eq_some_iff, decide_eq_true_eq,
    multiCommands_get]
  simp only [sentGroups_get]
  constructor
  · rintro ⟨⟨suids, hsuids, rfl⟩, hlen⟩
    exact ⟨suids, ⟨hsuids, length_multiArgs _ suids ▸ hlen⟩, rfl⟩
  · rintro ⟨suids, ⟨hsuids, hsize⟩, rfl⟩
    exact ⟨⟨suids, hsuids, rfl⟩, (length_multiArgs _ suids).symm ▸ hsize⟩

theorem multiCommands_asks {addr : UInt64} : Asks (multiCommands oc disp) addr ↔
    ∃ suids, (sentGroups disp)[addr]? = some suids := by
  constructor
  · rintro ⟨args, hargs, hlen⟩
    obtain ⟨suids, hsuids, rfl⟩ := multiCommands_get.mp hargs
    exact ⟨suids, sentGroups_get.mpr ⟨hsuids, length_multiArgs _ suids ▸ hlen⟩⟩
  · rintro ⟨suids, hsuids⟩
    obtain ⟨hsuids, hsize⟩ := sentGroups_get.mp hsuids
    exact ⟨_, multiCommands_get.mpr ⟨suids, hsuids, rfl⟩, (length_multiArgs _ suids).symm ▸ hsize⟩

theorem answerOf_getMulti (keys argv : UInt64 → List Str) (w : World) (addr : UInt64) :
    answerOf .getMulti keys argv w addr =
      .array (Source.getMulti (keys addr) (w.servers addr).keys) := rfl

/-- What `get_multi` returns. -/
def ReturnsSent (oc : OnlineCtrl) (rand : Nat → Nat) (uids : List Int) (w : World)
    (uidsSessions : UidsSessions) : Prop :=
  ∀ uid lc, Ordered.lookup₂ uidsSessions uid lc =
    gathered ((held w (sentGroups (dispUids oc rand uids))).filter fun h => h.place = some (uid, lc))

variable (oc) in
/-- Every redis whose command is short enough answers for its users. -/
theorem getMulti_apply (prompt : Prompt plan) (rand : Nat → Nat) (uids : List Int) (w : World)
    (rounds : Nat) :
    ∃ uidsSessions w', oc.getMulti (network oc.dir plan) (rounds + 2) rand uids w =
      some (uidsSessions, w') ∧ ReturnsSent oc rand uids w uidsSessions := by
  have evals : Evals oc.dir .getMulti (fun addr => ((dispUids oc rand uids)[addr]?.getD ∅).toList)
      (fun _ => []) (multiCommands oc (dispUids oc rand uids)) := multiCommands_evals
  have fine : ∀ addr, Asks (multiCommands oc (dispUids oc rand uids)) addr → (answerOf .getMulti
      (fun addr => ((dispUids oc rand uids)[addr]?.getD ∅).toList) (fun _ => []) w addr).type ≠
        .error := by
    intro addr _ herror
    cases herror
  obtain ⟨rv, w', hcmd, hran⟩ := prompt.cmd_evals evals fine rounds
  have hrv : rv = (sentGroups (dispUids oc rand uids)).map fun addr suids =>
      redisrvsAdd (.array (Source.getMulti suids.toList (w.servers addr).keys)) .fresh := by
    apply Std.ExtTreeMap.ext_getElem?
    intro addr
    apply Option.ext
    intro v
    rw [hran.answers, Std.ExtTreeMap.getElem?_map, Option.map_eq_some_iff, multiCommands_asks,
      answerOf_getMulti, Std.ExtTreeMap.getElem?_empty]
    constructor
    · rintro (hold | ⟨⟨suids, hsuids⟩, rfl⟩)
      · cases hold
      · refine ⟨suids, hsuids, ?_⟩
        rw [(sentGroups_get.mp hsuids).1, Option.getD_some]
    · rintro ⟨suids, hsuids, rfl⟩
      refine Or.inr ⟨⟨suids, hsuids⟩, ?_⟩
      rw [(sentGroups_get.mp hsuids).1, Option.getD_some]
  refine ⟨multiSessions rv, w', ?_, ?_⟩
  · rw [OnlineCtrl.getMulti, hcmd]
    rfl
  · intro uid lc
    rw [hrv]
    exact multiSessions_lookup w _ uid lc

end Call

end RedisCluster.Guarantees
