import Mathlib.Data.List.Nodup
import Mathlib.Tactic.Common
import Std.Data.ExtTreeMap
import Std.Data.ExtTreeSet

/-!
# Ordered maps and sets

Entries of ordered maps and sets in terms of equality of keys, and what it means
to have visited a part of the list that a loop runs over.
-/

set_option autoImplicit false

namespace RedisCluster.Library.Ordered

variable {κ β : Type} [Ord κ] [Std.TransOrd κ] [Std.LawfulEqOrd κ]

section Map
variable {m : Std.ExtTreeMap κ β} {k a : κ} {v : β}

theorem getElem?_insert [DecidableEq κ] :
    (m.insert k v)[a]? = if a = k then some v else m[a]? := by
  simp only [Std.ExtTreeMap.getElem?_insert, Std.LawfulEqCmp.compare_eq_iff_eq, eq_comm (a := a)]

theorem getElem?_erase [DecidableEq κ] : (m.erase k)[a]? = if a = k then none else m[a]? := by
  simp only [Std.ExtTreeMap.getElem?_erase, Std.LawfulEqCmp.compare_eq_iff_eq, eq_comm (a := a)]

omit [Std.LawfulEqOrd κ] in
theorem mem_iff_getElem? : a ∈ m ↔ ∃ v, m[a]? = some v := by
  rw [Std.ExtTreeMap.mem_iff_isSome_getElem?, Option.isSome_iff_exists]

omit [Std.LawfulEqOrd κ] in
theorem not_mem_iff_getElem? : a ∉ m ↔ m[a]? = none := by
  rw [mem_iff_getElem?, Option.eq_none_iff_forall_ne_some]
  simp

theorem mem_insert_map : a ∈ m.insert k v ↔ a = k ∨ a ∈ m := by
  rw [Std.ExtTreeMap.mem_insert, Std.LawfulEqCmp.compare_eq_iff_eq, eq_comm]

theorem nodup_keys (m : Std.ExtTreeMap κ β) : (m.toList.map Prod.fst).Nodup := by
  rw [List.Nodup, List.pairwise_map]
  refine (Std.ExtTreeMap.distinct_keys_toList (t := m)).imp fun hne heq => hne ?_
  rw [heq]
  exact Std.LawfulEqCmp.compare_eq_iff_eq.mpr rfl

theorem forall_entries {P : κ → β → Prop} :
    (∀ k v, m[k]? = some v → P k v) ↔ ∀ entry ∈ m.toList, P entry.1 entry.2 := by
  constructor
  · intro h entry hentry
    exact h entry.1 entry.2 (Std.ExtTreeMap.mem_toList_iff_getElem?_eq_some.mp hentry)
  · intro h k v hget
    exact h (k, v) (Std.ExtTreeMap.mem_toList_iff_getElem?_eq_some.mpr hget)

/-- A loop that inserts what `f` makes of each element, where no key gets two values. -/
theorem getElem?_foldl_insert [DecidableEq κ] {ε : Type} {f : ε → Option (κ × β)} {es : List ε}
    {step : Std.ExtTreeMap κ β → ε → Std.ExtTreeMap κ β}
    (hit : ∀ m e k v, f e = some (k, v) → step m e = m.insert k v)
    (miss : ∀ m e, f e = none → step m e = m)
    (apart : ∀ e ∈ es, ∀ e' ∈ es, ∀ k v v', f e = some (k, v) → f e' = some (k, v') → v = v') :
    (es.foldl step m)[a]? = some v ↔
      (∃ e ∈ es, f e = some (a, v)) ∨ ((∀ e ∈ es, ∀ v', f e ≠ some (a, v')) ∧ m[a]? = some v) := by
  induction es generalizing m with
  | nil => simp
  | cons e es ih =>
    have hrest := fun e he e' he' => apart e (List.mem_cons_of_mem _ he) e' (List.mem_cons_of_mem _ he')
    rw [List.foldl_cons, ih hrest]
    cases hf : f e with
    | none => simp [hf, miss m e hf]
    | some entry =>
      obtain ⟨k, v'⟩ := entry
      rw [hit m e k v' hf, getElem?_insert]
      by_cases hk : a = k
      · subst hk
        rw [if_pos rfl]
        constructor
        · rintro (⟨e', he', heq⟩ | ⟨_, heq⟩)
          · exact Or.inl ⟨e', List.mem_cons_of_mem _ he', heq⟩
          · cases heq
            exact Or.inl ⟨e, List.mem_cons_self, hf⟩
        · rintro (⟨e', he', heq⟩ | ⟨hnone, _⟩)
          · obtain rfl := apart e List.mem_cons_self e' he' _ _ _ hf heq
            by_cases hlater : ∃ e' ∈ es, f e' = some (a, v')
            · exact Or.inl hlater
            · refine Or.inr ⟨fun e'' he'' w hw => hlater ⟨e'', he'', ?_⟩, rfl⟩
              rw [apart e List.mem_cons_self e'' (List.mem_cons_of_mem _ he'') _ _ _ hf hw]
              exact hw
          · exact absurd hf (hnone e List.mem_cons_self v')
      · rw [if_neg hk]
        simp [hf, Ne.symm hk]

/-- The entry that a loop over a map is at, and no key before it is the same. -/
theorem visiting {visited rest : List (κ × β)} (h : m.toList = visited ++ (k, v) :: rest) :
    m[k]? = some v ∧ k ∉ visited.map Prod.fst := by
  constructor
  · rw [← Std.ExtTreeMap.mem_toList_iff_getElem?_eq_some, h]
    simp
  · have nodup := nodup_keys m
    rw [h, List.map_append, List.nodup_append] at nodup
    intro hk
    exact nodup.2.2 k hk k (by simp) rfl

theorem getElem?_modify [DecidableEq κ] {f : β → β} :
    (m.modify k f)[a]? = if a = k then m[k]?.map f else m[a]? := by
  simp only [Std.ExtTreeMap.getElem?_modify, Std.LawfulEqCmp.compare_eq_iff_eq, eq_comm (a := a)]

/-- The list of a map has one entry for a key. -/
theorem filter_toList [DecidableEq κ] :
    m.toList.filter (fun e => e.1 = k) = (m[k]?.map fun v => (k, v)).toList := by
  cases hget : m[k]? with
  | none =>
    rw [Option.map_none, Option.toList_none, List.filter_eq_nil_iff]
    rintro ⟨a, v⟩ hmem heq
    obtain rfl : a = k := of_decide_eq_true heq
    rw [Std.ExtTreeMap.mem_toList_iff_getElem?_eq_some.mp hmem] at hget
    cases hget
  | some v =>
    obtain ⟨front, back, hlist⟩ :=
      List.append_of_mem (Std.ExtTreeMap.mem_toList_iff_getElem?_eq_some.mpr hget)
    have nodup := nodup_keys m
    rw [hlist, List.map_append, List.map_cons, List.nodup_middle, List.nodup_cons, List.mem_append] at nodup
    have hnone : ∀ part : List (κ × β), k ∉ part.map Prod.fst → part.filter (fun e => e.1 = k) = [] := by
      intro part hpart
      rw [List.filter_eq_nil_iff]
      intro e he heq
      exact hpart (List.mem_map.mpr ⟨e, he, of_decide_eq_true heq⟩)
    rw [hlist, List.filter_append, List.filter_cons, if_pos (by simp),
      hnone front fun h => nodup.1 (Or.inl h), hnone back fun h => nodup.1 (Or.inr h)]
    rfl

/-- A map with no other key has one entry at most. -/
theorem toList_of_only [DecidableEq κ] (only : ∀ a ∈ m, a = k) :
    m.toList = (m[k]?.map fun v => (k, v)).toList := by
  rw [← filter_toList, List.filter_eq_self.mpr]
  intro e he
  exact decide_eq_true (only e.1 (mem_iff_getElem?.mpr ⟨e.2,
    Std.ExtTreeMap.mem_toList_iff_getElem?_eq_some.mp he⟩))

end Map

section Nested
variable {ι : Type} [Ord ι] [Std.TransOrd ι] [Std.LawfulEqOrd ι]

/-- What a map of maps has under two keys. -/
def lookup₂ (m : Std.ExtTreeMap κ (Std.ExtTreeMap ι β)) (a : κ) (b : ι) : Option β :=
  m[a]?.bind fun inner => inner[b]?

/-- The value under two keys is made or changed. -/
def update₂ (m : Std.ExtTreeMap κ (Std.ExtTreeMap ι β)) (a : κ) (b : ι) (f : Option β → β) :
    Std.ExtTreeMap κ (Std.ExtTreeMap ι β) :=
  m.insert a ((m[a]?.getD ∅).insert b (f (m[a]?.getD ∅)[b]?))

variable {m : Std.ExtTreeMap κ (Std.ExtTreeMap ι β)} {a : κ} {b : ι} [DecidableEq κ]
  [DecidableEq ι]

omit [Std.LawfulEqOrd κ] [Std.LawfulEqOrd ι] [DecidableEq κ] [DecidableEq ι] in
theorem lookup₂_eq_getD : lookup₂ m a b = (m[a]?.getD ∅)[b]? := by
  unfold lookup₂
  cases m[a]? with
  | none => exact Std.ExtTreeMap.getElem?_empty.symm
  | some inner => rfl

theorem lookup₂_update₂ {k : κ} {i : ι} {f : Option β → β} : lookup₂ (update₂ m k i f) a b =
    if a = k ∧ b = i then some (f (lookup₂ m a b)) else lookup₂ m a b := by
  rw [lookup₂, update₂, getElem?_insert]
  by_cases hk : a = k
  · subst hk
    rw [if_pos rfl, Option.bind_some, getElem?_insert]
    by_cases hi : b = i
    · subst hi
      rw [if_pos rfl, if_pos ⟨rfl, rfl⟩, lookup₂_eq_getD]
    · rw [if_neg hi, if_neg fun h => hi h.2, lookup₂_eq_getD]
  · rw [if_neg hk, if_neg fun h => hk h.1, lookup₂]

/-- A loop that changes one value for each element leaves under two keys what the elements with
these keys made of it. -/
theorem lookup₂_foldl_update₂ {ε : Type} {keys : ε → Option (κ × ι)} {change : ε → Option β → β}
    {step : Std.ExtTreeMap κ (Std.ExtTreeMap ι β) → ε → Std.ExtTreeMap κ (Std.ExtTreeMap ι β)}
    (hit : ∀ m e k i, keys e = some (k, i) → step m e = update₂ m k i (change e))
    (miss : ∀ m e, keys e = none → step m e = m) (es : List ε) :
    lookup₂ (es.foldl step m) a b =
      (es.filter fun e => keys e = some (a, b)).foldl (fun old e => some (change e old))
        (lookup₂ m a b) := by
  induction es generalizing m with
  | nil => rfl
  | cons e es ih =>
    rw [List.foldl_cons, ih, List.filter_cons]
    cases hkeys : keys e with
    | none => simp [miss m e hkeys]
    | some pair =>
      obtain ⟨k, i⟩ := pair
      rw [hit m e k i hkeys, lookup₂_update₂]
      by_cases hpair : a = k ∧ b = i
      · obtain ⟨rfl, rfl⟩ := hpair
        simp
      · have hother : (k, i) ≠ (a, b) := by
          intro heq
          cases heq
          exact hpair ⟨rfl, rfl⟩
        simp [if_neg hpair, hother]

end Nested

section Set
variable {s : Std.ExtTreeSet κ} {k a : κ}

theorem mem_insert : a ∈ s.insert k ↔ a = k ∨ a ∈ s := by
  rw [Std.ExtTreeSet.mem_insert, Std.LawfulEqCmp.compare_eq_iff_eq, eq_comm]

theorem nodup_toList (s : Std.ExtTreeSet κ) : s.toList.Nodup := by
  refine (Std.ExtTreeSet.distinct_toList (t := s)).imp fun hne heq => hne ?_
  rw [heq]
  exact Std.LawfulEqCmp.compare_eq_iff_eq.mpr rfl

theorem size_le_of_subset {s s' : Std.ExtTreeSet κ} (h : ∀ a ∈ s, a ∈ s') : s.size ≤ s'.size := by
  rw [← Std.ExtTreeSet.length_toList, ← Std.ExtTreeSet.length_toList]
  refine (nodup_toList s).length_le_of_subset fun a ha => ?_
  rw [Std.ExtTreeSet.mem_toList] at ha ⊢
  exact h a ha

/-- A loop over a set has visited exactly the smaller elements. -/
theorem visiting_set {visited rest : List κ} (h : s.toList = visited ++ k :: rest) :
    k ∈ s ∧ (∀ b ∈ visited, compare b k = .lt) ∧ ∀ b ∈ s, compare b k = .lt → b ∈ visited := by
  have ordered := Std.ExtTreeSet.ordered_toList (t := s)
  rw [h] at ordered
  refine ⟨?_, ?_, ?_⟩
  · rw [← Std.ExtTreeSet.mem_toList, h]
    simp
  · intro b hb
    exact (List.pairwise_append.mp ordered).2.2 b hb k (by simp)
  · intro b hb hless
    rw [← Std.ExtTreeSet.mem_toList, h, List.mem_append] at hb
    refine hb.resolve_right fun hrest => ?_
    rcases List.mem_cons.mp hrest with rfl | hrest
    · rw [Std.ReflOrd.compare_self] at hless
      cases hless
    · have hgreater := List.rel_of_pairwise_cons (List.pairwise_append.mp ordered).2.1 hrest
      rw [Std.OrientedOrd.eq_swap, hless] at hgreater
      cases hgreater

theorem not_visited {visited rest : List κ} (h : s.toList = visited ++ k :: rest) :
    k ∉ visited := by
  intro hk
  have hless := (visiting_set h).2.1 k hk
  rw [Std.ReflOrd.compare_self] at hless
  cases hless

/-- The list of a set starts with its least element. -/
theorem head_least {rest : List κ} (h : s.toList = k :: rest) :
    ∀ b ∈ s, (compare k b).isLE := by
  intro b hb
  have ordered := Std.ExtTreeSet.ordered_toList (t := s)
  rw [← Std.ExtTreeSet.mem_toList, h] at hb
  rw [h] at ordered
  rcases List.mem_cons.mp hb with rfl | hrest
  · rw [Std.ReflOrd.compare_self]
    rfl
  · exact Ordering.isLE_of_eq_lt (List.rel_of_pairwise_cons ordered hrest)

end Set
end RedisCluster.Library.Ordered
