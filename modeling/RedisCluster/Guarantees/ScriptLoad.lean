import RedisCluster.Guarantees.Commands

/-!
# Loading a script that is not known

`RedisEvent::cmd` sends the text of a script once more where its SHA-1 was not known.
Every redis is free in what becomes of a command: this is about `cmd` alone, for every
pattern of outcomes.
-/

set_option autoImplicit false

namespace RedisCluster.Guarantees
open Library Source

/-! ## What becomes of a command -/

/-- For one address in one round. `ran` says whether the redis ran what it was sent. -/
inductive Outcome where
  | notConnected
  | sendError
  | reply (reply : RedisReply) (ran : Bool)
  | null (ran : Bool)
  | late (ran : Bool)

namespace Outcome

def ran : Outcome → Bool
  | .notConnected | .sendError => false
  | .reply _ ran | .null ran | .late ran => ran

/-- What the callback is called with before the wait ends. -/
def inTime : Outcome → Option (Option RedisReply)
  | .reply r _ => some (some r)
  | .null _ => some none
  | .notConnected | .sendError | .late _ => none

end Outcome

/-- What redis answers for a script that it does not know. -/
def IsNoScript (reply : RedisReply) : Prop :=
  reply.type = .error ∧ "NOSCRIPT".toList.isPrefixOf (reply.str.getD []) = true

/-- The outcomes of every round, and the order in which its replies come. -/
structure Pattern where
  outcome : Nat → UInt64 → List Str → Outcome
  order : Nat → List (UInt64 × Option RedisReply) → List (UInt64 × Option RedisReply)
  perm : ∀ n replies, (order n replies).Perm replies

/-- The rounds so far, and where a command was run. -/
structure Traffic where
  rounds : Nat
  ran : List UInt64

namespace Pattern
variable (p : Pattern)

def network : RedisNetwork Traffic where
  round t cmds :=
    (p.order t.rounds (cmds.toList.filterMap fun (addr, args) =>
      (p.outcome t.rounds addr args).inTime.map fun reply => (addr, reply)),
    { rounds := t.rounds + 1
      ran := t.ran ++ cmds.toList.filterMap fun (addr, args) =>
        if (p.outcome t.rounds addr args).ran then some addr else none })

/-- A redis looks for a script only by its SHA-1, and runs nothing if it has none. -/
structure Honest : Prop where
  eval : ∀ n addr args reply ran, args.head? = some "EVAL".toList →
    p.outcome n addr args = .reply reply ran → ¬ IsNoScript reply
  noScript : ∀ n addr args reply ran, p.outcome n addr args = .reply reply ran →
    IsNoScript reply → ran = false

/-- The reply that comes in time. -/
def answer (n : Nat) (addr : UInt64) (args : List Str) : Option RedisReply :=
  (p.outcome n addr args).inTime.join

/-- The reply that a call is to bring back from an address: the one to its command, or to
the text of the script where the script was not known. -/
def Delivers (luaCode : Str) (args : List Str) (addr : UInt64) (reply : RedisReply) : Prop :=
  reply.type ≠ .error ∧ (p.answer 0 addr args = some reply ∨
    luaCode ≠ [] ∧ 2 ≤ args.length ∧ args.head? = some "EVALSHA".toList ∧
      (∃ refusal, p.answer 0 addr args = some refusal ∧ IsNoScript refusal) ∧
      p.answer 1 addr (evalArgs luaCode args) = some reply)

end Pattern

/-! ## Copies of replies -/

/-- Only arrays have elements, and a reply without text is copied to an empty one. -/
inductive CopyOf : RedisReply → RedisRv → Prop
  | leaf {type : ReplyType} (integer : Int) (str : Option Str) (element : List RedisReply)
      (leaf : type ≠ .array) : CopyOf (.mk type integer str element) (.mk type integer (str.getD []) [])
  | array (integer : Int) (str : Option Str) {element : List RedisReply} {copies : List RedisRv}
      (all : List.Forall₂ CopyOf element copies) :
      CopyOf (.mk .array integer str element) (.mk .array integer (str.getD []) copies)

mutual
theorem copyOf_redisrvsAdd : ∀ reply, CopyOf reply (redisrvsAdd reply .fresh)
  | .mk type integer str element => by
    by_cases h : type = .array
    · subst h
      rw [redisrvsAdd, if_pos rfl]
      exact .array integer str (forall₂_redisrvsAddAll element)
    · rw [redisrvsAdd, if_neg h]
      exact .leaf integer str element h

theorem forall₂_redisrvsAddAll : ∀ replies, List.Forall₂ CopyOf replies (redisrvsAddAll replies)
  | [] => .nil
  | reply :: replies => .cons (copyOf_redisrvsAdd reply) (forall₂_redisrvsAddAll replies)
end

/-! ## One round -/

section Round
variable {p : Pattern} {t : Traffic} {cmds : Commands} {addr : UInt64}

theorem mem_patternReplies {reply : Option RedisReply} : (addr, reply) ∈ (p.network.round t cmds).1 ↔
    ∃ args, cmds[addr]? = some args ∧ (p.outcome t.rounds addr args).inTime = some reply := by
  unfold Pattern.network
  rw [(p.perm _ _).mem_iff, List.mem_filterMap]
  constructor
  · rintro ⟨⟨a, args⟩, hmem, h⟩
    obtain ⟨reply', hreply, heq⟩ := Option.map_eq_some_iff.mp h
    cases heq
    exact ⟨args, Std.ExtTreeMap.mem_toList_iff_getElem?_eq_some.mp hmem, hreply⟩
  · rintro ⟨args, hargs, hreply⟩
    refine ⟨(addr, args), Std.ExtTreeMap.mem_toList_iff_getElem?_eq_some.mpr hargs, ?_⟩
    exact Option.map_eq_some_iff.mpr ⟨reply, hreply, rfl⟩

theorem nodup_patternReplies : ((p.network.round t cmds).1.map Prod.fst).Nodup := by
  unfold Pattern.network
  refine ((p.perm _ _).map Prod.fst).nodup_iff.mpr ?_
  rw [List.map_filterMap]
  refine (Ordered.nodup_keys cmds).sublist ?_
  apply filterMap_sublist_map
  intro entry a h
  obtain ⟨_, hreply, rfl⟩ := Option.map_eq_some_iff.mp h
  obtain ⟨_, _, rfl⟩ := Option.map_eq_some_iff.mp hreply
  rfl

theorem answer_iff {n : Nat} {args : List Str} {reply : RedisReply} :
    p.answer n addr args = some reply ↔ (p.outcome n addr args).inTime = some (some reply) := by
  unfold Pattern.answer
  rw [Option.join_eq_some_iff]

/-- An answer in time is an outcome of its own. -/
theorem answer_outcome {n : Nat} {args : List Str} {reply : RedisReply}
    (h : p.answer n addr args = some reply) : ∃ ran, p.outcome n addr args = .reply reply ran := by
  rw [answer_iff] at h
  cases houtcome : p.outcome n addr args with
  | reply r ran =>
    rw [houtcome] at h
    cases h
    exact ⟨ran, rfl⟩
  | notConnected | sendError | null _ | late _ =>
    rw [houtcome] at h
    cases h

/-- A round brings the answers that are no errors. -/
theorem pattern_rv {rv : RedisRvs} (fresh : ∀ a ∈ cmds, rv[a]? = none) {v : RedisRv} :
    (collect (p.network.round t cmds).1 rv).1[addr]? = some v ↔ rv[addr]? = some v ∨
      ∃ args reply, cmds[addr]? = some args ∧ p.answer t.rounds addr args = some reply ∧
        reply.type ≠ .error ∧ v = redisrvsAdd reply .fresh := by
  rw [collect_rv nodup_patternReplies]
  · simp only [mem_patternReplies, answer_iff]
    apply or_congr_right
    constructor
    · rintro ⟨reply, ⟨args, hargs, hreply⟩, htype, hv⟩
      exact ⟨args, reply, hargs, hreply, htype, hv⟩
    · rintro ⟨args, reply, hargs, hreply, htype, hv⟩
      exact ⟨reply, ⟨args, hargs, hreply⟩, htype, hv⟩
  · intro a ha
    obtain ⟨⟨_, reply⟩, hmem, rfl⟩ := List.mem_map.mp ha
    obtain ⟨args, hargs, _⟩ := mem_patternReplies.mp hmem
    exact fresh _ (Ordered.mem_iff_getElem?.mpr ⟨args, hargs⟩)

/-- The errors that are kept are those of the round. -/
theorem pattern_err {rv : RedisRvs} {v : RedisRv} :
    (collect (p.network.round t cmds).1 rv).2[addr]? = some v ↔
      ∃ args reply, cmds[addr]? = some args ∧ p.answer t.rounds addr args = some reply ∧
        reply.type = .error ∧ v = redisrvsAdd reply .fresh := by
  rw [collect_err nodup_patternReplies]
  simp only [mem_patternReplies, answer_iff]
  constructor
  · rintro ⟨reply, ⟨args, hargs, hreply⟩, htype, hv⟩
    exact ⟨args, reply, hargs, hreply, htype, hv⟩
  · rintro ⟨args, reply, hargs, hreply, htype, hv⟩
    exact ⟨reply, ⟨args, hargs, hreply⟩, htype, hv⟩

theorem str_redisrvsAdd (reply : RedisReply) : (redisrvsAdd reply .fresh).str = reply.str.getD [] := by
  cases reply with
  | mk type integer str element => rfl

/-- What is sent again: the commands that named an unknown script. -/
theorem errAddrs_pattern {addrCmd : Commands} {rv : RedisRvs} {args : List Str} :
    (errAddrs addrCmd (collect (p.network.round t cmds).1 rv).2)[addr]? = some args ↔
      addrCmd[addr]? = some args ∧ 2 ≤ args.length ∧ args.head? = some "EVALSHA".toList ∧
        ∃ args' reply, cmds[addr]? = some args' ∧ p.answer t.rounds addr args' = some reply ∧
          IsNoScript reply := by
  rw [errAddrs_get]
  apply and_congr_right
  intro _
  constructor
  · rintro ⟨v, hv, hlacks⟩
    obtain ⟨args', reply, hargs', hanswer, htype, rfl⟩ := pattern_err.mp hv
    simp only [lacksScript, str_redisrvsAdd, Bool.and_eq_true, decide_eq_true_eq] at hlacks
    exact ⟨hlacks.1.1, hlacks.1.2, args', reply, hargs', hanswer, htype, hlacks.2⟩
  · rintro ⟨hlen, hhead, args', reply, hargs', hanswer, htype, hprefix⟩
    refine ⟨_, pattern_err.mpr ⟨args', reply, hargs', hanswer, htype, rfl⟩, ?_⟩
    simp only [lacksScript, str_redisrvsAdd, Bool.and_eq_true, decide_eq_true_eq]
    exact ⟨⟨hlen, hhead⟩, hprefix⟩

/-! ### Where commands run -/

/-- The addresses at which a round runs its command. -/
def ranIn (p : Pattern) (n : Nat) (cmds : Commands) : List UInt64 :=
  cmds.toList.filterMap fun (addr, args) => if (p.outcome n addr args).ran then some addr else none

theorem ran_round : (p.network.round t cmds).2.ran = t.ran ++ ranIn p t.rounds cmds := rfl

theorem nodup_ranIn {n : Nat} : (ranIn p n cmds).Nodup := by
  refine (Ordered.nodup_keys cmds).sublist ?_
  apply filterMap_sublist_map
  intro entry a h
  exact (Option.some.inj (Option.ite_none_right_eq_some.mp h).2).symm

theorem mem_ranIn {n : Nat} : addr ∈ ranIn p n cmds ↔
    ∃ args, cmds[addr]? = some args ∧ (p.outcome n addr args).ran = true := by
  unfold ranIn
  rw [List.mem_filterMap]
  constructor
  · rintro ⟨⟨a, args⟩, hmem, h⟩
    obtain ⟨hran, heq⟩ := Option.ite_none_right_eq_some.mp h
    cases heq
    exact ⟨args, Std.ExtTreeMap.mem_toList_iff_getElem?_eq_some.mp hmem, hran⟩
  · rintro ⟨args, hargs, hran⟩
    exact ⟨(addr, args), Std.ExtTreeMap.mem_toList_iff_getElem?_eq_some.mpr hargs, if_pos hran⟩

/-- What answers that it does not know the script did not run it. -/
theorem not_ran (honest : p.Honest) {n : Nat} {args : List Str} {reply : RedisReply}
    (hanswer : p.answer n addr args = some reply) (hno : IsNoScript reply) :
    (p.outcome n addr args).ran = false := by
  obtain ⟨ran, houtcome⟩ := answer_outcome hanswer
  rw [houtcome]
  exact honest.noScript n addr args reply ran houtcome hno

end Round

/-! ## The whole call -/

section Call
variable {p : Pattern} {t : Traffic} {luaCode : Str} {addrCmd : Commands} {rv : RedisRvs}

theorem head_evalArgs {args : List Str} (h : 2 ≤ args.length) :
    (evalArgs luaCode args).head? = some "EVAL".toList := by
  unfold evalArgs
  obtain ⟨n, hn⟩ := Nat.exists_eq_add_of_le' (show 1 ≤ args.length by omega)
  rw [hn]
  rfl

/-- No redis asks for the text of a script when it got it. -/
theorem errAddrs_eval (honest : p.Honest)
    (long : ∀ (addr : UInt64) (args : List Str), addrCmd[addr]? = some args → 2 ≤ args.length) :
    (errAddrs addrCmd (collect (p.network.round t (sentCmds luaCode true addrCmd)).1 rv).2).isEmpty =
      true := by
  rw [Std.ExtTreeMap.isEmpty_iff]
  apply Std.ExtTreeMap.ext_getElem?
  intro addr
  rw [Std.ExtTreeMap.getElem?_empty, Option.eq_none_iff_forall_ne_some]
  intro args hargs
  obtain ⟨_, _, _, args', reply, hsent, hanswer, hno⟩ := errAddrs_pattern.mp hargs
  obtain ⟨args₀, hargs₀, _, rfl⟩ := sentCmds_get.mp hsent
  rw [if_pos rfl] at hanswer
  obtain ⟨ran, houtcome⟩ := answer_outcome hanswer
  exact honest.eval _ _ _ _ _ (head_evalArgs (long addr args₀ hargs₀)) houtcome hno

/-- A round with the texts of the scripts is the last one. -/
theorem cmd_texts (honest : p.Honest)
    (long : ∀ (addr : UInt64) (args : List Str), addrCmd[addr]? = some args → 2 ≤ args.length)
    (rounds : Nat) (hne : addrCmd.isEmpty = false) :
    cmd p.network luaCode (rounds + 2) true addrCmd rv t =
      some ((collect (p.network.round t (sentCmds luaCode true addrCmd)).1 rv).1,
        (p.network.round t (sentCmds luaCode true addrCmd)).2) := by
  by_cases hdone : luaCode = [] ∨
      (collect (p.network.round t (sentCmds luaCode true addrCmd)).1 rv).2.isEmpty = true
  · exact cmd_done hne hdone
  · rw [not_or] at hdone
    rw [cmd_again hne hdone.1 (Bool.eq_false_iff.mpr hdone.2)]
    exact cmd_empty (errAddrs_eval honest long)

theorem sentCmds_plain {addr : UInt64} {args : List Str} :
    (sentCmds luaCode false addrCmd)[addr]? = some args ↔
      addrCmd[addr]? = some args ∧ args.length < argvMaxLen := by
  rw [sentCmds_get]
  constructor
  · rintro ⟨args', hargs, hmax, heq⟩
    obtain rfl : args = args' := heq
    exact ⟨hargs, hmax⟩
  · rintro ⟨hargs, hmax⟩
    exact ⟨args, hargs, hmax, rfl⟩

/-- No command is sent before the call. -/
def noTraffic : Traffic := ⟨0, []⟩

variable (p luaCode addrCmd) in
/-- The commands that the first round leaves to be sent again. -/
def unknownScripts : Commands :=
  errAddrs addrCmd (collect (p.network.round noTraffic (sentCmds luaCode false addrCmd)).1 ∅).2

theorem unknownScripts_get {addr : UInt64} {args : List Str} :
    (unknownScripts p luaCode addrCmd)[addr]? = some args ↔
      addrCmd[addr]? = some args ∧ args.length < argvMaxLen ∧ 2 ≤ args.length ∧
        args.head? = some "EVALSHA".toList ∧
        ∃ refusal, p.answer 0 addr args = some refusal ∧ IsNoScript refusal := by
  unfold unknownScripts
  rw [errAddrs_pattern]
  constructor
  · rintro ⟨hargs, hlen, hhead, args', refusal, hsent, hanswer, hno⟩
    obtain ⟨hargs', hmax⟩ := sentCmds_plain.mp hsent
    rw [hargs] at hargs'
    cases hargs'
    exact ⟨hargs, hmax, hlen, hhead, refusal, hanswer, hno⟩
  · rintro ⟨hargs, hmax, hlen, hhead, refusal, hanswer, hno⟩
    exact ⟨hargs, hlen, hhead, args, refusal, sentCmds_plain.mpr ⟨hargs, hmax⟩, hanswer, hno⟩

theorem first_rv {addr : UInt64} {v : RedisRv} :
    (collect (p.network.round noTraffic (sentCmds luaCode false addrCmd)).1 ∅).1[addr]? = some v ↔
      ∃ args reply, addrCmd[addr]? = some args ∧ args.length < argvMaxLen ∧
        p.answer 0 addr args = some reply ∧ reply.type ≠ .error ∧ v = redisrvsAdd reply .fresh := by
  rw [pattern_rv (by simp)]
  simp only [Std.ExtTreeMap.getElem?_empty, reduceCtorEq, false_or]
  constructor
  · rintro ⟨args, reply, hsent, hanswer, htype, hv⟩
    obtain ⟨hargs, hmax⟩ := sentCmds_plain.mp hsent
    exact ⟨args, reply, hargs, hmax, hanswer, htype, hv⟩
  · rintro ⟨args, reply, hargs, hmax, hanswer, htype, hv⟩
    exact ⟨args, reply, sentCmds_plain.mpr ⟨hargs, hmax⟩, hanswer, htype, hv⟩

variable (p luaCode addrCmd) in
/-- What a call has done. -/
structure Loaded (rv : RedisRvs) (t : Traffic) : Prop where
  rounds : t.rounds ≤ 2
  once : t.ran.Nodup
  replies : ∀ (addr : UInt64) (v : RedisRv), rv[addr]? = some v ↔
    ∃ args reply, addrCmd[addr]? = some args ∧ args.length < argvMaxLen ∧
      p.Delivers luaCode args addr reply ∧ v = redisrvsAdd reply .fresh

/-- One round is enough where all scripts are known. -/
theorem loaded_once (known : luaCode ≠ [] → ∀ addr : UInt64,
      (unknownScripts p luaCode addrCmd)[addr]? = none) :
    Loaded p luaCode addrCmd
      (collect (p.network.round noTraffic (sentCmds luaCode false addrCmd)).1 ∅).1
      (p.network.round noTraffic (sentCmds luaCode false addrCmd)).2 := by
  refine ⟨by simp [Pattern.network, noTraffic], ?_, ?_⟩
  · rw [ran_round]
    exact nodup_ranIn
  · intro addr v
    rw [first_rv]
    constructor
    · rintro ⟨args, reply, hargs, hmax, hanswer, htype, hv⟩
      exact ⟨args, reply, hargs, hmax, ⟨htype, Or.inl hanswer⟩, hv⟩
    · rintro ⟨args, reply, hargs, hmax, ⟨htype, hanswer | ⟨hlua, hlen, hhead, hrefused, _⟩⟩, hv⟩
      · exact ⟨args, reply, hargs, hmax, hanswer, htype, hv⟩
      · have hleft : (unknownScripts p luaCode addrCmd)[addr]? = some args :=
          unknownScripts_get.mpr ⟨hargs, hmax, hlen, hhead, hrefused⟩
        rw [known hlua addr] at hleft
        cases hleft

/-- A second round runs what the first did not. -/
theorem loaded_twice (honest : p.Honest) (hlua : luaCode ≠ []) :
    Loaded p luaCode addrCmd
      (collect (p.network.round (p.network.round noTraffic (sentCmds luaCode false addrCmd)).2
          (sentCmds luaCode true (unknownScripts p luaCode addrCmd))).1
        (collect (p.network.round noTraffic (sentCmds luaCode false addrCmd)).1 ∅).1).1
      (p.network.round (p.network.round noTraffic (sentCmds luaCode false addrCmd)).2
        (sentCmds luaCode true (unknownScripts p luaCode addrCmd))).2 := by
  -- the script was refused where a command is sent again
  have refused : ∀ (addr : UInt64) (args : List Str),
      (sentCmds luaCode true (unknownScripts p luaCode addrCmd))[addr]? = some args ↔
        ∃ args₀, (unknownScripts p luaCode addrCmd)[addr]? = some args₀ ∧ args = evalArgs luaCode args₀ := by
    intro addr args
    rw [sentCmds_get]
    constructor
    · rintro ⟨args₀, hargs₀, _, heq⟩
      exact ⟨args₀, hargs₀, heq⟩
    · rintro ⟨args₀, hargs₀, heq⟩
      exact ⟨args₀, hargs₀, (unknownScripts_get.mp hargs₀).2.1, heq⟩
  refine ⟨by simp [Pattern.network, noTraffic], ?_, ?_⟩
  · rw [ran_round, ran_round]
    refine List.nodup_append.mpr ⟨nodup_ranIn, nodup_ranIn, ?_⟩
    rintro addr hfirst _ hsecond rfl
    obtain ⟨args, hsent, hran⟩ := mem_ranIn.mp hfirst
    obtain ⟨args', hagain, _⟩ := mem_ranIn.mp hsecond
    obtain ⟨args₀, hargs₀, _⟩ := (refused addr args').mp hagain
    obtain ⟨hargs, _, _, _, refusal, hanswer, hno⟩ := unknownScripts_get.mp hargs₀
    obtain ⟨hargs', _⟩ := sentCmds_plain.mp hsent
    rw [hargs] at hargs'
    cases hargs'
    rw [show noTraffic.rounds = 0 from rfl, not_ran honest hanswer hno] at hran
    cases hran
  · intro addr v
    rw [pattern_rv, first_rv]
    · constructor
      · rintro (⟨args, reply, hargs, hmax, hanswer, htype, hv⟩ |
          ⟨args', reply, hagain, hanswer, htype, hv⟩)
        · exact ⟨args, reply, hargs, hmax, ⟨htype, Or.inl hanswer⟩, hv⟩
        · obtain ⟨args, hleft, rfl⟩ := (refused addr args').mp hagain
          obtain ⟨hargs, hmax, hlen, hhead, hrefused⟩ := unknownScripts_get.mp hleft
          exact ⟨args, reply, hargs, hmax,
            ⟨htype, Or.inr ⟨hlua, hlen, hhead, hrefused, hanswer⟩⟩, hv⟩
      · rintro ⟨args, reply, hargs, hmax, ⟨htype, hanswer | ⟨_, hlen, hhead, hrefused, hanswer⟩⟩, hv⟩
        · exact Or.inl ⟨args, reply, hargs, hmax, hanswer, htype, hv⟩
        · have hleft : (unknownScripts p luaCode addrCmd)[addr]? = some args :=
            unknownScripts_get.mpr ⟨hargs, hmax, hlen, hhead, hrefused⟩
          exact Or.inr ⟨_, reply, (refused addr _).mpr ⟨args, hleft, rfl⟩, hanswer, htype, hv⟩
    · -- an error is not among the results
      intro a ha
      obtain ⟨args', hagain⟩ := Ordered.mem_iff_getElem?.mp ha
      obtain ⟨args, hleft, _⟩ := (refused a args').mp hagain
      obtain ⟨hargs, _, _, _, refusal, hanswer, hno⟩ := unknownScripts_get.mp hleft
      rw [Option.eq_none_iff_forall_ne_some]
      intro v hv
      obtain ⟨args₁, reply, hargs₁, _, hreply, htype, _⟩ := first_rv.mp hv
      rw [hargs] at hargs₁
      cases hargs₁
      rw [hanswer] at hreply
      cases hreply
      exact htype hno.1

theorem cmd_loads (honest : p.Honest) (rounds : Nat) :
    ∃ rv t, cmd p.network luaCode (rounds + 3) false addrCmd ∅ noTraffic = some (rv, t) ∧
      Loaded p luaCode addrCmd rv t := by
  cases hempty : addrCmd.isEmpty with
  | true =>
    refine ⟨∅, noTraffic, cmd_empty hempty, Nat.zero_le 2, List.nodup_nil, ?_⟩
    intro addr v
    simp [not_mem_of_isEmpty hempty addr]
  | false =>
    by_cases hdone : luaCode = [] ∨
        (collect (p.network.round noTraffic (sentCmds luaCode false addrCmd)).1 ∅).2.isEmpty = true
    · refine ⟨_, _, cmd_done hempty hdone, loaded_once ?_⟩
      intro hlua addr
      have herr := hdone.resolve_left hlua
      rw [Option.eq_none_iff_forall_ne_some]
      intro args hargs
      obtain ⟨_, v, hv, _⟩ := errAddrs_get.mp hargs
      rw [Std.ExtTreeMap.isEmpty_iff.mp herr] at hv
      cases hv
    · rw [not_or] at hdone
      have hagain := @cmd_again _ _ _ (rounds + 2) _ _ _ _ hempty hdone.1
        (Bool.eq_false_iff.mpr hdone.2)
      cases hleft : (unknownScripts p luaCode addrCmd).isEmpty with
      | true =>
        refine ⟨_, _, hagain.trans (cmd_empty hleft), loaded_once ?_⟩
        exact fun _ => not_mem_of_isEmpty hleft
      | false =>
        have long : ∀ (addr : UInt64) (args : List Str),
            (unknownScripts p luaCode addrCmd)[addr]? = some args → 2 ≤ args.length :=
          fun addr args h => (unknownScripts_get.mp h).2.2.1
        exact ⟨_, _, hagain.trans (cmd_texts honest long rounds hleft), loaded_twice honest hdone.1⟩

end Call

/-- A call of `cmd` sends at most two rounds and runs a command at most once at each address. It
brings back exactly the replies in time that are no errors, of the text of the script where its
SHA-1 was not known. The redis answer `NOSCRIPT` to a SHA-1 only, and have run nothing then
(`Honest`); otherwise every pattern of outcomes is covered. -/
theorem cmd_load_fallback (p : Pattern) (honest : p.Honest) (luaCode : Str) (addrCmd : Commands)
    (rounds : Nat) :
    ∃ rv t, cmd p.network luaCode (rounds + 3) false addrCmd ∅ noTraffic = some (rv, t) ∧
      t.rounds ≤ 2 ∧ (∀ addr, t.ran.count addr ≤ 1) ∧
      ∀ addr, (addr ∈ rv ↔ ∃ args reply, addrCmd[addr]? = some args ∧
          args.length < argvMaxLen ∧ p.Delivers luaCode args addr reply) ∧
        ∀ args reply, addrCmd[addr]? = some args → args.length < argvMaxLen →
          p.Delivers luaCode args addr reply → ∃ v, rv[addr]? = some v ∧ CopyOf reply v := by
  obtain ⟨rv, t, hcmd, hloaded⟩ := cmd_loads honest rounds
  refine ⟨rv, t, hcmd, hloaded.rounds, List.nodup_iff_count_le_one.mp hloaded.once, ?_⟩
  intro addr
  constructor
  · rw [Ordered.mem_iff_getElem?]
    constructor
    · rintro ⟨v, hv⟩
      obtain ⟨args, reply, hargs, hmax, hdelivers, _⟩ := (hloaded.replies addr v).mp hv
      exact ⟨args, reply, hargs, hmax, hdelivers⟩
    · rintro ⟨args, reply, hargs, hmax, hdelivers⟩
      exact ⟨_, (hloaded.replies addr _).mpr ⟨args, reply, hargs, hmax, hdelivers, rfl⟩⟩
  · intro args reply hargs hmax hdelivers
    exact ⟨_, (hloaded.replies addr _).mpr ⟨args, reply, hargs, hmax, hdelivers, rfl⟩,
      copyOf_redisrvsAdd reply⟩

/-- A redis that knows no script. -/
def forgetful : Pattern where
  outcome _ _ args :=
    if args.head? = some "EVALSHA".toList then .reply (.error noScript) false
    else .reply (.bulk ['1']) true
  order _ replies := replies
  perm _ _ := List.Perm.refl _

theorem forgetful_honest : forgetful.Honest where
  eval _ _ args reply ran hhead h hno := by
    change (if args.head? = some "EVALSHA".toList then Outcome.reply (.error noScript) false
      else Outcome.reply (.bulk ['1']) true) = _ at h
    rw [hhead, if_neg (by decide)] at h
    cases h
    exact absurd hno.1 (by decide)
  noScript _ _ args reply ran h hno := by
    change (if args.head? = some "EVALSHA".toList then Outcome.reply (.error noScript) false
      else Outcome.reply (.bulk ['1']) true) = _ at h
    split at h
    · cases h
      rfl
    · cases h
      exact absurd hno.1 (by decide)

/-- Its script is loaded, run once and answered. -/
theorem cmd_load_fallback_example :
    ∃ rv t, cmd forgetful.network "return '1'".toList 3 false
        ((∅ : Commands).insert 7 ["EVALSHA".toList, "0a".toList, ['0']]) ∅ noTraffic = some (rv, t) ∧
      t.rounds ≤ 2 ∧ t.ran.count 7 ≤ 1 ∧ ∃ v, rv[(7 : UInt64)]? = some v ∧ CopyOf (.bulk ['1']) v := by
  obtain ⟨rv, t, hcmd, hrounds, honce, hrv⟩ := cmd_load_fallback forgetful forgetful_honest
    "return '1'".toList ((∅ : Commands).insert 7 ["EVALSHA".toList, "0a".toList, ['0']]) 0
  refine ⟨rv, t, hcmd, hrounds, honce 7, (hrv 7).2 ["EVALSHA".toList, "0a".toList, ['0']]
    (.bulk ['1']) ?_ (by decide) ⟨by decide, Or.inr ?_⟩⟩
  · rw [Ordered.getElem?_insert, if_pos rfl]
  · refine ⟨by decide, by decide, rfl, ⟨.error noScript, rfl, rfl, by decide⟩, ?_⟩
    rw [answer_iff]
    rfl

end RedisCluster.Guarantees
