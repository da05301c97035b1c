import RedisCluster.Guarantees.RoutingTable
import RedisCluster.Source.Watch

/-!
# Clients catch up

No change of `legal_nodes` is lost on a client: where nothing is under way, its table is that
of the children as they are, and without further changes and failures nothing is under way
after four more steps.
-/

set_option autoImplicit false

namespace RedisCluster.Guarantees
open Library Source

variable {routine : Sorting sortClusterFun} {t t' : Tree} {w : Watcher} {n : Nat}

/-- The children as they are, in some order. -/
structure Shown (t : Tree) (strings : List Str) : Prop where
  there : nodePath ∈ t
  perm : strings.Perm (t.children nodePath)

/-- Where a client stands. There is one request, one answer that leads to a request, one event,
or the watch. -/
inductive Phase (routine : Sorting sortClusterFun) (t : Tree) (w : Watcher) : Nat → Prop
  /-- The table is that of the children, unless one of them cannot be read. -/
  | current {strings : List Str} (shown : Shown t strings) (asked : w.asked = 0) (inbox : w.inbox = [])
      (watched : w.watched = true)
      (read : ∃ old, w.table = redisNodeCb routine (.ok strings) old) : Phase routine t w 0
  | answered {strings : List Str} (shown : Shown t strings) (asked : w.asked = 0)
      (inbox : w.inbox = [.reply (.ok strings)]) (watched : w.watched = true) : Phase routine t w 1
  | asking (asked : w.asked = 1) (inbox : w.inbox = []) (watched : w.watched = false) : Phase routine t w 2
  | notified (asked : w.asked = 0) (inbox : w.inbox = [.event]) (watched : w.watched = false) :
      Phase routine t w 3
  | failed {e : ZkError} (asked : w.asked = 0) (inbox : w.inbox = [.reply (.error e)])
      (watched : w.watched = false) : Phase routine t w 3
  | outdated {strings : List Str} (asked : w.asked = 0)
      (inbox : w.inbox = [.reply (.ok strings), .event]) (watched : w.watched = false) : Phase routine t w 4

theorem shown_iff {strings : List Str} :
    Shown t strings ↔ ∃ children, listing t = some children ∧ strings.Perm children := by
  unfold listing
  constructor
  · intro h
    exact ⟨_, if_pos h.there, h.perm⟩
  · rintro ⟨children, hlisting, hperm⟩
    split at hlisting
    · next hthere =>
      cases hlisting
      exact ⟨hthere, hperm⟩
    · cases hlisting

theorem Phase.congr (h : Phase routine t w n) (same : listing t = listing t') : Phase routine t' w n := by
  have hshown : ∀ strings, Shown t strings → Shown t' strings := by
    intro strings hstrings
    rw [shown_iff, ← same]
    exact shown_iff.mp hstrings
  cases h with
  | current shown asked inbox watched read => exact .current (hshown _ shown) asked inbox watched read
  | answered shown asked inbox watched => exact .answered (hshown _ shown) asked inbox watched
  | asking asked inbox watched => exact .asking asked inbox watched
  | notified asked inbox watched => exact .notified asked inbox watched
  | failed asked inbox watched => exact .failed asked inbox watched
  | outdated asked inbox watched => exact .outdated asked inbox watched

/-- A change takes the watch and sends its notice. -/
theorem Watcher.fire_watched (watched : w.watched = true) :
    w.fire true = { w with inbox := w.inbox ++ [.event], watched := false } := by
  rw [Watcher.fire, watched]
  rfl

/-- Without a watch a client hears of nothing. -/
theorem Watcher.fire_unwatched (changed : Bool) (watched : w.watched = false) : w.fire changed = w := by
  rw [Watcher.fire, watched, Bool.and_false, if_neg Bool.false_ne_true]

/-- A change of the children fires the watch. -/
theorem Phase.change (h : Phase routine t w n) (t' : Tree) :
    ∃ n', Phase routine t' (w.fire (decide (listing t ≠ listing t'))) n' := by
  by_cases hsame : listing t = listing t'
  · have hquiet : decide (listing t ≠ listing t') = false := decide_eq_false fun h => h hsame
    rw [hquiet, Watcher.fire, Bool.false_and, if_neg Bool.false_ne_true]
    exact ⟨n, h.congr hsame⟩
  · rw [decide_eq_true hsame]
    cases h with
    | current shown asked inbox watched read =>
      rw [Watcher.fire_watched watched]
      exact ⟨3, .notified asked (by rw [inbox]; rfl) rfl⟩
    | answered shown asked inbox watched =>
      rw [Watcher.fire_watched watched]
      exact ⟨4, .outdated asked (by rw [inbox]; rfl) rfl⟩
    | asking asked inbox watched =>
      rw [Watcher.fire_unwatched true watched]
      exact ⟨2, .asking asked inbox watched⟩
    | notified asked inbox watched =>
      rw [Watcher.fire_unwatched true watched]
      exact ⟨3, .notified asked inbox watched⟩
    | failed asked inbox watched =>
      rw [Watcher.fire_unwatched true watched]
      exact ⟨3, .failed asked inbox watched⟩
    | outdated asked inbox watched =>
      rw [Watcher.fire_unwatched true watched]
      exact ⟨4, .outdated asked inbox watched⟩

/-- Only a client that has nothing else under way waits for an answer. -/
theorem Phase.asking_of_asked (h : Phase routine t w n) {k : Nat} (asked : w.asked = k + 1) :
    n = 2 ∧ k = 0 ∧ w.inbox = [] ∧ w.watched = false := by
  cases h with
  | asking hasked inbox watched => exact ⟨rfl, by omega, inbox, watched⟩
  | current _ hasked => omega
  | answered _ hasked => omega
  | notified hasked => omega
  | failed hasked => omega
  | outdated hasked => omega

/-- A request that fails is answered with an error. -/
theorem Phase.refuse (h : Phase routine t w n) {k : Nat} (e : ZkError) (asked : w.asked = k + 1) :
    Phase routine t { w with asked := k, inbox := w.inbox ++ [.reply (.error e)] } 3 := by
  obtain ⟨_, rfl, hinbox, hwatched⟩ := h.asking_of_asked asked
  exact .failed rfl (by rw [hinbox]; rfl) hwatched

/-- A request that is served lists the children and sets the watch. -/
theorem Phase.serve (h : Phase routine t w n) {k : Nat} {strings : List Str} (asked : w.asked = k + 1)
    (shown : Shown t strings) : n = 2 ∧
      Phase routine t
        { w with asked := k, inbox := w.inbox ++ [.reply (.ok strings)], watched := true } 1 := by
  obtain ⟨hn, rfl, hinbox, _⟩ := h.asking_of_asked asked
  exact ⟨hn, .answered shown rfl (by rw [hinbox]; rfl) rfl⟩

/-- An answer or a notice that is taken brings the client one phase further. -/
theorem Phase.deliver (h : Phase routine t w n) {notice : Notice} {rest : List Notice}
    (next : w.inbox = notice :: rest) : ∃ n', n' < n ∧
      Phase routine t (Watcher.handle routine notice { w with inbox := rest }) n' := by
  cases h with
  | current _ asked inbox => rw [inbox] at next; cases next
  | asking _ inbox => rw [inbox] at next; cases next
  | answered shown asked inbox watched =>
    rw [inbox] at next
    cases next
    exact ⟨0, by omega, .current shown asked rfl watched ⟨w.table, rfl⟩⟩
  | notified asked inbox watched =>
    rw [inbox] at next
    cases next
    exact ⟨2, by omega, .asking (congrArg (· + 1) asked) rfl watched⟩
  | failed asked inbox watched =>
    rw [inbox] at next
    cases next
    exact ⟨2, by omega, .asking (congrArg (· + 1) asked) rfl watched⟩
  | outdated asked inbox watched =>
    rw [inbox] at next
    cases next
    exact ⟨3, by omega, .notified asked rfl watched⟩

/-! ## All clients -/

section Clients
variable {s s' : Watched} {i j : Nat}

theorem settling_tree (step : Settling routine i s s') : s'.tree = s.tree := by
  cases step <;> rfl

theorem settling_other (step : Settling routine i s s') (ne : j ≠ i) : s'.clients j = s.clients j := by
  cases step <;> exact s.update_other ne _

/-- An answer or a delivery brings a client nearer to the children. -/
theorem Phase.settle (h : Phase routine s.tree (s.clients i) n) (step : Settling routine i s s') :
    ∃ n', n' < n ∧ Phase routine s'.tree (s'.clients i) n' := by
  rw [settling_tree step]
  cases step with
  | serve asked there listed =>
    obtain ⟨rfl, hphase⟩ := h.serve asked ⟨there, listed⟩
    exact ⟨1, by omega, by rwa [Watched.update_self]⟩
  | deliver next =>
    obtain ⟨n', hless, hphase⟩ := h.deliver next
    exact ⟨n', hless, by rwa [Watched.update_self]⟩

/-- Every client is in a phase after any step, by the kind of the step. -/
theorem phase_step (h : ∀ i, ∃ n, Phase routine s.tree (s.clients i) n)
    (step : WatchStep routine s s') : ∀ i, ∃ n, Phase routine s'.tree (s'.clients i) n := by
  intro j
  obtain ⟨n, hj⟩ := h j
  cases step with
  | change t' => exact hj.change t'
  | @refuse i k e asked =>
    by_cases heq : j = i
    · subst heq
      rw [Watched.tree_update, Watched.update_self]
      exact ⟨3, hj.refuse e asked⟩
    · rw [Watched.tree_update, s.update_other heq]
      exact ⟨n, hj⟩
  | @settle i _ step =>
    by_cases heq : j = i
    · subst heq
      obtain ⟨n', _, hphase⟩ := hj.settle step
      exact ⟨n', hphase⟩
    · rw [settling_tree step, settling_other step heq]
      exact ⟨n, hj⟩

/-- And so it is all along a run, whatever the other clients do. -/
theorem phase_run (run : WatchRun routine (.start t) s) (i : Nat) :
    ∃ n, Phase routine s.tree (s.clients i) n := by
  have hall : ∀ i, ∃ n, Phase routine s.tree (s.clients i) n := by
    induction run with
    | refl => exact fun _ => ⟨2, .asking rfl rfl rfl⟩
    | tail _ step ih => exact phase_step ih step
  exact hall i

/-- The next change will be seen, and the table is that of the children, which ZooKeeper may have
listed in any order. A table stays where a child cannot be read. -/
structure UpToDate (routine : Sorting sortClusterFun) (t : Tree) (w : Watcher) : Prop where
  watched : w.watched = true
  table : ∃ strings, Shown t strings ∧
    (readable (.ok strings) = true → w.table = redisNodeCb routine (.ok strings) .empty)

theorem Phase.quiet (h : Phase routine t w n) (asked : w.asked = 0) (inbox : w.inbox = []) :
    UpToDate routine t w := by
  cases h with
  | current shown _ _ watched read =>
    obtain ⟨old, htable⟩ := read
    exact ⟨watched, _, shown, fun hread => htable.trans (redisNodeCb_readable hread old .empty)⟩
  | answered _ _ hinbox => rw [inbox] at hinbox; cases hinbox
  | asking hasked => omega
  | notified _ hinbox => rw [inbox] at hinbox; cases hinbox
  | failed _ hinbox => rw [inbox] at hinbox; cases hinbox
  | outdated _ hinbox => rw [inbox] at hinbox; cases hinbox

/-- A client that waits for nothing has not missed anything. Its table is that of the children only
where every one of them can be read: otherwise `redis_node_cb` keeps the table it has. -/
theorem quiet_client_up_to_date (run : WatchRun routine (.start t) s) (i : Nat)
    (asked : (s.clients i).asked = 0) (inbox : (s.clients i).inbox = []) :
    UpToDate routine s.tree (s.clients i) := by
  obtain ⟨n, hphase⟩ := phase_run run i
  exact hphase.quiet asked inbox

/-- Answers and deliveries, among them so many for the client `i`. -/
inductive CalmRun (routine : Sorting sortClusterFun) (i : Nat) (s : Watched) : Nat → Watched → Prop
  | start : CalmRun routine i s 0 s
  | mine {k : Nat} {s' s'' : Watched} (run : CalmRun routine i s k s')
      (step : Settling routine i s' s'') : CalmRun routine i s (k + 1) s''
  | other {j k : Nat} {s' s'' : Watched} (run : CalmRun routine i s k s') (ne : j ≠ i)
      (step : Settling routine j s' s'') : CalmRun routine i s k s''

/-- While nothing changes every answer or notice of a client takes a phase off. -/
theorem CalmRun.phase {k : Nat} (calm : CalmRun routine i s k s')
    (h : Phase routine s.tree (s.clients i) n) :
    s'.tree = s.tree ∧ ∃ n', n' + k ≤ n ∧ Phase routine s'.tree (s'.clients i) n' := by
  induction calm with
  | start => exact ⟨rfl, n, by omega, h⟩
  | mine _ step ih =>
    obtain ⟨htree, n', hle, hphase⟩ := ih
    obtain ⟨n'', hless, hphase⟩ := hphase.settle step
    exact ⟨(settling_tree step).trans htree, n'', by omega, hphase⟩
  | other _ ne step ih =>
    obtain ⟨htree, n', hle, hphase⟩ := ih
    refine ⟨(settling_tree step).trans htree, n', hle, ?_⟩
    rwa [settling_tree step, settling_other step ne.symm]

theorem Phase.le_four (h : Phase routine t w n) : n ≤ 4 := by
  cases h <;> omega

/-- What is under way can go on as long as `legal_nodes` is there. -/
theorem Phase.goes_on (h : Phase routine s.tree (s.clients i) n) (there : nodePath ∈ s.tree) :
    (∃ s', Settling routine i s s') ∨ UpToDate routine s.tree (s.clients i) := by
  cases hasked : (s.clients i).asked with
  | succ k => exact Or.inl ⟨_, .serve hasked there (.refl _)⟩
  | zero =>
    cases hinbox : (s.clients i).inbox with
    | nil => exact Or.inr (h.quiet hasked hinbox)
    | cons notice rest => exact Or.inl ⟨_, .deliver hinbox⟩

/-- While `legal_nodes` stays as it is and no request fails, at most four answers and deliveries are
left for a client, and when none is left it is up to date, with the table of the children where all
of them can be read. How long an answer takes is left open. -/
theorem clients_catch_up (run : WatchRun routine (.start t) s) (there : nodePath ∈ s.tree) {k : Nat}
    (calm : CalmRun routine i s k s') : k ≤ 4 ∧ s'.tree = s.tree ∧
      ((∃ s'', Settling routine i s' s'') ∨ UpToDate routine s.tree (s'.clients i)) := by
  obtain ⟨n, hphase⟩ := phase_run run i
  obtain ⟨htree, n', hle, hphase'⟩ := calm.phase hphase
  have hbound := hphase.le_four
  refine ⟨by omega, htree, ?_⟩
  rw [← htree]
  exact hphase'.goes_on (htree ▸ there)

end Clients

/-! ## A change between the answer and its delivery -/

def listedTree : Tree := Tree.empty.plant [(nodePath, none), ("1;1.0.0.1:80".toList :: nodePath, none)]

/-- Another redis leads the cluster. -/
def relistedTree : Tree := Tree.empty.plant [(nodePath, none), ("1;1.0.0.2:80".toList :: nodePath, none)]

/-- The first client has its answer. -/
def answeredClients : Watched := (Watched.start listedTree).update 0
  ⟨.empty, 0, [.reply (.ok (listedTree.children nodePath))], true⟩

def readClients : Watched := answeredClients.update 0
  ⟨redisNodeCb (Sorting.prefers 1) (.ok (listedTree.children nodePath)) .empty, 0, [], true⟩

theorem answeredClients_run : WatchRun (Sorting.prefers 1) (.start listedTree) answeredClients := by
  have hthere : nodePath ∈ listedTree := by decide +kernel
  exact .single (.settle (.serve (s := .start listedTree) (i := 0) rfl hthere (.refl _)))

theorem answeredClients_first : answeredClients.clients 0 =
    ⟨.empty, 0, [.reply (.ok (listedTree.children nodePath))], true⟩ :=
  Watched.update_self ..

/-- A client that has taken the first answer. -/
theorem quiet_client_up_to_date_example :
    UpToDate (Sorting.prefers 1) readClients.tree (readClients.clients 0) := by
  have hdeliver : Settling (Sorting.prefers 1) 0 answeredClients readClients := by
    have hinbox : (answeredClients.clients 0).inbox = [.reply (.ok (listedTree.children nodePath))] := by
      rw [answeredClients_first]
    have hstep := @Settling.deliver (Sorting.prefers 1) 0 answeredClients _ _ hinbox
    rw [answeredClients_first] at hstep
    exact hstep
  have hrun : WatchRun (Sorting.prefers 1) (.start listedTree) readClients :=
    answeredClients_run.tail (.settle hdeliver)
  have hquiet : (readClients.clients 0).asked = 0 ∧ (readClients.clients 0).inbox = [] := by
    rw [readClients, Watched.update_self]
    exact ⟨rfl, rfl⟩
  exact quiet_client_up_to_date hrun 0 hquiet.1 hquiet.2

/-- The children have changed since. -/
def relistedClients : Watched := ⟨relistedTree, fun i =>
  (answeredClients.clients i).fire (decide (listing answeredClients.tree ≠ listing relistedTree))⟩

/-- The children change once, and the client takes what follows. -/
theorem clients_catch_up_example : ∃ s, 1 ≤ 4 ∧ s.tree = relistedClients.tree ∧
    ((∃ s', Settling (Sorting.prefers 1) 0 s s') ∨
      UpToDate (Sorting.prefers 1) relistedClients.tree (s.clients 0)) := by
  have hthere : nodePath ∈ relistedClients.tree := by decide +kernel
  have hchanged : listing answeredClients.tree ≠ listing relistedTree := by decide +kernel
  have hinbox : (relistedClients.clients 0).inbox =
      [.reply (.ok (listedTree.children nodePath)), .event] := by
    dsimp only [relistedClients]
    rw [answeredClients_first, decide_eq_true hchanged]
    rfl
  exact ⟨_, clients_catch_up (answeredClients_run.tail (.change relistedTree)) hthere
    (.mine .start (.deliver hinbox))⟩

end RedisCluster.Guarantees
