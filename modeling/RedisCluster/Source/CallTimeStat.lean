import Mathlib.Algebra.Order.Field.Rat
import Mathlib.Data.List.Basic
import RedisCluster.Library.Text
import RedisCluster.Source.HookDef

/-!
# Call times

`CallTimeStat` of `OnlineCtrl.h` counts calls and their times twice over, in a map under any key
and in an array of the request types. Times are exact and counters do not overflow.
-/

set_option autoImplicit false

namespace RedisCluster.Source
open Library

/-- The counters of one type or key. -/
structure StatT where
  accum : NNRat
  calls : Nat
  timeout : Nat
  max : NNRat

/-- As `stat_t()` and `clear` make it. -/
def StatT.zero : StatT := ⟨0, 0, 0, 0⟩

/-- A sample is added. -/
def StatT.add (st : StatT) (tm : NNRat) (istmout : Bool) : StatT where
  accum := st.accum + tm
  calls := st.calls + 1
  timeout := if istmout then st.timeout + 1 else st.timeout
  max := if st.max < tm then tm else st.max

/-- The arguments of `stat_cb_t`. -/
structure StatReport where
  key : Str
  st : StatT

/-- The values of the enumeration; `REQ_COUNT` is the one behind them. -/
def ReqType.num : ReqType → Int
  | .syn => 0
  | .fin => 1
  | .finDelay => 2
  | .upidx => 3

def reqCount : Int := 4

def ReqType.all : List ReqType := [.syn, .fin, .finDelay, .upidx]

/-- The keys under which `show2` reports the types. -/
def vStsKey : ReqType → Str
  | .syn => "redis.syn".toList
  | .fin => "redis.fin".toList
  | .finDelay => "redis.fin_delay".toList
  | .upidx => "redis.upidx".toList

/-- The counters of `stat` by key, and those of `stat2` by type. -/
structure CallTimeStat where
  sts : Std.ExtTreeMap Str StatT
  vSts : ReqType → StatT

namespace CallTimeStat

def empty : CallTimeStat := ⟨∅, fun _ => .zero⟩

/-- What a report is made of, if there is one; then the counters are cleared. -/
def report (key : Str) (st : StatT) : Option StatReport := if st.calls > 0 then some ⟨key, st⟩ else none

/-- Counters without calls are not touched. -/
def cleared (st : StatT) : StatT := if st.calls > 0 then .zero else st

/-- The guard lets `REQ_COUNT` pass, which writes behind the array. -/
def stat2 (c : CallTimeStat) (type : Int) (tm : NNRat) (istmout : Bool) : CallTimeStat :=
  if type > reqCount then c
  else { c with vSts := fun t => if t.num = type then (c.vSts t).add tm istmout else c.vSts t }

/-- After a new key has been inserted, `it` is `sts_.begin()`. -/
def stat (c : CallTimeStat) (key : Str) (tm : NNRat) (istmout : Bool) : CallTimeStat :=
  let (sts, it) :=
    if key ∈ c.sts then (c.sts, some key)
    else
      let sts := c.sts.insert key .zero
      (sts, sts.minKey?)
  match it with
  | some first => { c with sts := sts.modify first fun st => st.add tm istmout }
  | none => { c with sts := sts }

/-- The types in the order of their numbers. -/
def show2 (c : CallTimeStat) : List StatReport × CallTimeStat :=
  (ReqType.all.filterMap fun t => report (vStsKey t) (c.vSts t), { c with vSts := fun t => cleared (c.vSts t) })

/-- The keys in their order. -/
def «show» (c : CallTimeStat) : List StatReport × CallTimeStat :=
  (c.sts.toList.filterMap fun e => report e.1 e.2, { c with sts := c.sts.map fun _ st => cleared st })

end CallTimeStat

/-! ## Runs -/

inductive StatEvent where
  | sample (type : ReqType) (tm : NNRat) (istmout : Bool)
  | output

/-- The statistics, and what each output has reported. -/
structure StatRun where
  stat : CallTimeStat
  outputs : List (List StatReport)

/-- By `stat` and `show`. -/
def statStep (r : StatRun) : StatEvent → StatRun
  | .sample type tm istmout => { r with stat := r.stat.stat (vStsKey type) tm istmout }
  | .output => ⟨r.stat.show.2, r.outputs ++ [r.stat.show.1]⟩

/-- By `stat2` and `show2`. -/
def stat2Step (r : StatRun) : StatEvent → StatRun
  | .sample type tm istmout => { r with stat := r.stat.stat2 type.num tm istmout }
  | .output => ⟨r.stat.show2.2, r.outputs ++ [r.stat.show2.1]⟩

def runStat (es : List StatEvent) : StatRun := es.foldl statStep ⟨.empty, []⟩

def runStat2 (es : List StatEvent) : StatRun := es.foldl stat2Step ⟨.empty, []⟩

theorem runStat_snoc (es : List StatEvent) (e : StatEvent) :
    runStat (es ++ [e]) = statStep (runStat es) e :=
  List.foldl_concat ..

theorem runStat2_snoc (es : List StatEvent) (e : StatEvent) :
    runStat2 (es ++ [e]) = stat2Step (runStat2 es) e :=
  List.foldl_concat ..

end RedisCluster.Source
