import Mathlib.Data.List.Pairwise
import Mathlib.Data.List.Sort
import RedisCluster.Library.Ordered

/-!
# Sorting entries by their values

A sorting routine orders by a strict weak order and may place equivalent elements
in any order, which can depend on everything else in its input. Two maps with the
same keys, sorted by value, list their keys in one order under every routine
exactly if the maps are equal, or no values are equivalent and they compare alike.
-/

set_option autoImplicit false

namespace RedisCluster.Library

/-- A routine that sorts by `lt`, with its own choice among equivalent elements. -/
structure Sorting {α : Type} (lt : α → α → Prop) where
  sort : List α → List α
  perm : ∀ xs, (sort xs).Perm xs
  sorted : ∀ xs, (sort xs).Pairwise fun a b => ¬ lt b a

namespace Sorting

/-- The routine that sorts one input in a way of its own. -/
def withCase {α : Type} [DecidableEq α] {lt : α → α → Prop} (base : Sorting lt) (input output : List α)
    (perm : output.Perm input) (sorted : output.Pairwise fun a b => ¬ lt b a) : Sorting lt where
  sort xs := if xs = input then output else base.sort xs
  perm xs := by
    split
    · next h => exact h ▸ perm
    · exact base.perm xs
  sorted xs := by
    split
    · exact sorted
    · exact base.sorted xs

@[simp] theorem withCase_sort {α : Type} [DecidableEq α] {lt : α → α → Prop} {base : Sorting lt}
    {input output : List α} {perm : output.Perm input}
    {sorted : output.Pairwise fun a b => ¬ lt b a} (xs : List α) :
    (base.withCase input output perm sorted).sort xs =
      if xs = input then output else base.sort xs := rfl

variable {κ V : Type} [Ord V]

/-- The first entry has the smaller value. -/
def ByValue (a b : κ × V) : Prop := compare a.2 b.2 = .lt

instance : DecidableRel (ByValue : κ × V → κ × V → Prop) := fun _ _ =>
  inferInstanceAs (Decidable (_ = _))

/-- Routines can differ in the order of the keys only. -/
theorem sort_values [Std.TransOrd V] [Std.LawfulEqOrd V] (routine₁ routine₂ : Sorting (ByValue : κ × V → κ × V → Prop))
    (xs : List (κ × V)) : (routine₁.sort xs).map Prod.snd = (routine₂.sort xs).map Prod.snd := by
  have sorted : ∀ routine : Sorting (ByValue : κ × V → κ × V → Prop),
      ((routine.sort xs).map Prod.snd).Pairwise fun v w => compare w v ≠ .lt := by
    intro routine
    rw [List.pairwise_map]
    exact routine.sorted xs
  have perm := ((routine₁.perm xs).trans (routine₂.perm xs).symm).map Prod.snd
  refine perm.eq_of_pairwise ?_ (sorted routine₁) (sorted routine₂)
  intro v w _ _ hle hge
  rw [Std.OrientedOrd.eq_swap] at hle
  refine Std.LawfulEqOrd.eq_of_compare ?_
  cases hcmp : compare v w with
  | eq => rfl
  | lt => exact absurd hcmp hge
  | gt => exact absurd (by rw [hcmp]; rfl) hle

section Preferring

/-- Among entries with equivalent values those with the key `first` come first. -/
def Preferring (first : κ) (a b : κ × V) : Prop :=
  compare a.2 b.2 = .lt ∨ (compare a.2 b.2 = .eq ∧ (b.1 = first → a.1 = first))

instance [DecidableEq κ] (first : κ) : DecidableRel (Preferring first : κ × V → κ × V → Prop) := fun _ _ =>
  inferInstanceAs (Decidable (_ ∨ _))

variable [Std.TransOrd V] {first : κ}

theorem Preferring.not_byValue {a b : κ × V} (h : Preferring first a b) : ¬ ByValue b a := by
  unfold ByValue
  rw [Std.OrientedOrd.eq_swap]
  rcases h with h | ⟨h, _⟩ <;> simp [h]

/-- An entry that prefers itself comes before every entry that is not smaller. -/
theorem Preferring.greater {i j : κ} {v w : V} (hne : i ≠ j)
    (h : Preferring i (j, w) (i, v)) : compare v w = .gt := by
  rcases h with hlt | ⟨_, hfirst⟩
  · dsimp only at hlt
    rw [Std.OrientedOrd.eq_swap, hlt]
    rfl
  · exact absurd (hfirst rfl).symm hne

instance : Std.Total (Preferring first : κ × V → κ × V → Prop) where
  total a b := by
    unfold Preferring
    rw [Std.OrientedOrd.eq_swap (a := b.2)]
    cases compare a.2 b.2 with
    | lt => simp
    | gt => simp
    | eq =>
      by_cases hb : b.1 = first
      · exact Or.inr (Or.inr ⟨rfl, fun _ => hb⟩)
      · exact Or.inl (Or.inr ⟨rfl, fun h => absurd h hb⟩)

instance : IsTrans (κ × V) (Preferring first) where
  trans a b c hab hbc := by
    rcases hab with hab | ⟨hab, hfirst⟩
    · rcases hbc with hbc | ⟨hbc, _⟩
      · exact Or.inl (Std.TransCmp.lt_trans hab hbc)
      · exact Or.inl (Std.TransCmp.lt_of_lt_of_eq hab hbc)
    · rcases hbc with hbc | ⟨hbc, hfirst'⟩
      · exact Or.inl (Std.TransCmp.lt_of_eq_of_lt hab hbc)
      · exact Or.inr ⟨Std.TransCmp.eq_trans hab hbc, fun hc => hfirst (hfirst' hc)⟩

variable [DecidableEq κ]

/-- The entries sorted with a preference. -/
def preferring (first : κ) (xs : List (κ × V)) : List (κ × V) :=
  xs.insertionSort (Preferring first)

omit [Std.TransOrd V] in
theorem preferring_perm (first : κ) (xs : List (κ × V)) : (preferring first xs).Perm xs :=
  List.perm_insertionSort _ _

theorem preferring_pairwise (first : κ) (xs : List (κ × V)) :
    (preferring first xs).Pairwise (Preferring first) :=
  List.pairwise_insertionSort _ _

theorem preferring_sorted (first : κ) (xs : List (κ × V)) :
    (preferring first xs).Pairwise fun a b => ¬ ByValue b a :=
  (preferring_pairwise first xs).imp Preferring.not_byValue

/-- The routine that prefers `first` in every input. -/
def prefers (first : κ) : Sorting (ByValue : κ × V → κ × V → Prop) where
  sort := preferring first
  perm := preferring_perm first
  sorted := preferring_sorted first

end Preferring
/-! ## Sorted maps -/

variable [Ord κ] [Std.TransOrd κ] [Std.LawfulEqOrd κ]

/-- A relation between the entries of the keys `a` and `b`. -/
def OnEntries (m : Std.ExtTreeMap κ V) (rel : κ × V → κ × V → Prop) (a b : κ) : Prop :=
  ∀ v w, m[a]? = some v → m[b]? = some w → rel (a, v) (b, w)

omit [Ord V] in
/-- The keys of a sorted list of entries are ordered by their entries. -/
theorem keys_pairwise {m : Std.ExtTreeMap κ V} {rel : κ × V → κ × V → Prop} {xs : List (κ × V)}
    (perm : xs.Perm m.toList) (sorted : xs.Pairwise rel) :
    (xs.map Prod.fst).Pairwise (OnEntries m rel) := by
  rw [List.pairwise_map]
  refine sorted.imp_of_mem fun {x y} hx hy hrel v w hv hw => ?_
  rw [perm.mem_iff, Std.ExtTreeMap.mem_toList_iff_getElem?_eq_some] at hx hy
  rw [hx] at hv
  rw [hy] at hw
  cases hv
  cases hw
  exact hrel

omit [Ord V] [Std.LawfulEqOrd κ] in
theorem keys_perm {m : Std.ExtTreeMap κ V} {xs : List (κ × V)} (perm : xs.Perm m.toList) :
    (xs.map Prod.fst).Perm m.keys := by
  rw [← Std.ExtTreeMap.map_fst_toList_eq_keys]
  exact perm.map Prod.fst

theorem rel_or_of_pairwise {α : Type} {rel : α → α → Prop} {xs : List α} (h : xs.Pairwise rel)
    {a b : α} (ha : a ∈ xs) (hb : b ∈ xs) (hne : a ≠ b) : rel a b ∨ rel b a := by
  have symmetric : Std.Symm fun a b => rel a b ∨ rel b a := ⟨fun _ _ => Or.symm⟩
  have hor : xs.Pairwise fun a b => rel a b ∨ rel b a := h.imp Or.inl
  exact hor.forall ha hb hne

/-- The keys of a map in the order of the sorted entries. -/
def order (routine : Sorting (ByValue : κ × V → κ × V → Prop)) (m : Std.ExtTreeMap κ V) : List κ :=
  (routine.sort m.toList).map Prod.fst

theorem mem_order (routine : Sorting (ByValue : κ × V → κ × V → Prop)) {m : Std.ExtTreeMap κ V}
    {a : κ} : a ∈ order routine m ↔ a ∈ m := by
  rw [order, (keys_perm (routine.perm m.toList)).mem_iff, Std.ExtTreeMap.mem_keys]

theorem order_nodup (routine : Sorting (ByValue : κ × V → κ × V → Prop))
    (m : Std.ExtTreeMap κ V) : (order routine m).Nodup := by
  rw [order, (keys_perm (routine.perm _)).nodup_iff, ← Std.ExtTreeMap.map_fst_toList_eq_keys]
  exact Ordered.nodup_keys m

/-- Maps with the same keys have these in some order. -/
theorem order_perm (routine : Sorting (ByValue : κ × V → κ × V → Prop))
    {m₁ m₂ : Std.ExtTreeMap κ V} (keys : ∀ a, a ∈ m₁ ↔ a ∈ m₂) :
    (order routine m₁).Perm (order routine m₂) := by
  rw [List.perm_ext_iff_of_nodup (order_nodup routine m₁) (order_nodup routine m₂)]
  intro a
  rw [mem_order, mem_order, keys]

variable [Std.TransOrd V] [DecidableEq κ] {m₁ m₂ : Std.ExtTreeMap κ V}

/-- Where two preferring sorts list the keys alike, a pair stands the same way in both. -/
private theorem preferred_alike {first₁ first₂ i j : κ} {v₁ w₁ v₂ w₂ : V}
    (heq : (preferring first₁ m₁.toList).map Prod.fst = (preferring first₂ m₂.toList).map Prod.fst)
    (hne : i ≠ j) (hi₁ : m₁[i]? = some v₁) (hj₁ : m₁[j]? = some w₁) (hi₂ : m₂[i]? = some v₂)
    (hj₂ : m₂[j]? = some w₂) :
    (Preferring first₁ (i, v₁) (j, w₁) ∧ Preferring first₂ (i, v₂) (j, w₂)) ∨
      (Preferring first₁ (j, w₁) (i, v₁) ∧ Preferring first₂ (j, w₂) (i, v₂)) := by
  have listed₁ := keys_pairwise (preferring_perm first₁ m₁.toList) (preferring_pairwise first₁ _)
  have listed₂ := keys_pairwise (preferring_perm first₂ m₂.toList) (preferring_pairwise first₂ _)
  rw [heq] at listed₁
  have hmem : ∀ a ∈ m₂, a ∈ (preferring first₂ m₂.toList).map Prod.fst :=
    fun a ha => (mem_order (prefers first₂)).mpr ha
  have hi := hmem i (Ordered.mem_iff_getElem?.mpr ⟨v₂, hi₂⟩)
  have hj := hmem j (Ordered.mem_iff_getElem?.mpr ⟨w₂, hj₂⟩)
  rcases rel_or_of_pairwise (listed₁.and listed₂) hi hj hne with ⟨hij₁, hij₂⟩ | ⟨hji₁, hji₂⟩
  · exact Or.inl ⟨hij₁ v₁ w₁ hi₁ hj₁, hij₂ v₂ w₂ hi₂ hj₂⟩
  · exact Or.inr ⟨hji₁ w₁ v₁ hj₁ hi₁, hji₂ w₂ v₂ hj₂ hi₂⟩

/-- If `i` may come before `j` in the first map, it may in the second. -/
private theorem order_le (same : ∀ routine : Sorting (ByValue : κ × V → κ × V → Prop),
    order routine m₁ = order routine m₂) {i j : κ} {v₁ w₁ v₂ w₂ : V} (hne : i ≠ j)
    (hi₁ : m₁[i]? = some v₁) (hj₁ : m₁[j]? = some w₁) (hi₂ : m₂[i]? = some v₂)
    (hj₂ : m₂[j]? = some w₂) (h : compare v₁ w₁ ≠ .gt) : compare v₂ w₂ ≠ .gt := by
  rcases preferred_alike (same (prefers i)) hne hi₁ hj₁ hi₂ hj₂ with ⟨_, hij⟩ | ⟨hji, _⟩
  · rcases hij with hlt | ⟨heq, _⟩
    · simp [hlt]
    · simp [heq]
  · exact absurd (hji.greater hne) h

/-- Two different maps that sort alike have no equivalent values: a routine could break the
tie one way in the first map and the other way in the second. -/
private theorem order_no_tie [DecidableEq V] (hm : m₁ ≠ m₂)
    (same : ∀ routine : Sorting (ByValue : κ × V → κ × V → Prop),
      order routine m₁ = order routine m₂) {i j : κ} {v₁ w₁ v₂ w₂ : V} (hne : i ≠ j)
    (hi₁ : m₁[i]? = some v₁) (hj₁ : m₁[j]? = some w₁) (hi₂ : m₂[i]? = some v₂)
    (hj₂ : m₂[j]? = some w₂) (h₂ : compare v₂ w₂ = .eq) : compare v₁ w₁ ≠ .eq := by
  intro h₁
  have hlists : m₁.toList ≠ m₂.toList := fun h => hm (Std.ExtTreeMap.ext_toList (h ▸ .refl _))
  have hrun := same ((prefers i).withCase m₂.toList (preferring j m₂.toList)
    (preferring_perm j _) (preferring_sorted j _))
  rw [order, order, withCase_sort, withCase_sort, if_neg hlists, if_pos rfl] at hrun
  rcases preferred_alike hrun hne hi₁ hj₁ hi₂ hj₂ with ⟨_, hij⟩ | ⟨hji, _⟩
  · have hgt := hij.greater hne.symm
    rw [Std.OrientedOrd.eq_swap, h₂] at hgt
    cases hgt
  · have hgt := hji.greater hne
    rw [h₁] at hgt
    cases hgt

/-- Every routine gives the two maps one order of keys exactly if they are equal, or
compare alike and without equivalent values. -/
theorem same_order_iff [DecidableEq V] (keys : ∀ a, a ∈ m₁ ↔ a ∈ m₂) :
    (∀ routine : Sorting (ByValue : κ × V → κ × V → Prop), order routine m₁ = order routine m₂) ↔
      m₁ = m₂ ∨ ∀ (i j : κ) (v₁ w₁ v₂ w₂ : V), i ≠ j → m₁[i]? = some v₁ → m₁[j]? = some w₁ →
        m₂[i]? = some v₂ → m₂[j]? = some w₂ →
          compare v₁ w₁ ≠ .eq ∧ compare v₁ w₁ = compare v₂ w₂ := by
  constructor
  · intro same
    by_cases hm : m₁ = m₂
    · exact Or.inl hm
    right
    intro i j v₁ w₁ v₂ w₂ hne hi₁ hj₁ hi₂ hj₂
    have same' := fun routine => (same routine).symm
    have hij := order_le same hne hi₁ hj₁ hi₂ hj₂
    have hij' := order_le same' hne hi₂ hj₂ hi₁ hj₁
    have hji := order_le same hne.symm hj₁ hi₁ hj₂ hi₂
    have hji' := order_le same' hne.symm hj₂ hi₂ hj₁ hi₁
    rw [Std.OrientedOrd.eq_swap (a := w₁), Std.OrientedOrd.eq_swap (a := w₂)] at hji hji'
    have heq : compare v₁ w₁ = compare v₂ w₂ := by
      cases h₁ : compare v₁ w₁ <;> cases h₂ : compare v₂ w₂ <;> simp_all
    refine ⟨fun htie => ?_, heq⟩
    exact order_no_tie hm same hne hi₁ hj₁ hi₂ hj₂ (heq ▸ htie) htie
  · intro h routine
    rcases h with rfl | h
    · rfl
    have sorted₁ := keys_pairwise (routine.perm m₁.toList) (routine.sorted m₁.toList)
    have sorted₂ := keys_pairwise (routine.perm m₂.toList) (routine.sorted m₂.toList)
    have agree : ∀ a ∈ order routine m₂, ∀ b ∈ order routine m₂,
        OnEntries m₂ (fun a b => ¬ ByValue b a) a b → OnEntries m₁ (fun a b => ¬ ByValue b a) a b := by
      intro a ha b hb hrel v w hv hw
      rw [mem_order] at ha hb
      obtain ⟨v', hv'⟩ := Ordered.mem_iff_getElem?.mp ha
      obtain ⟨w', hw'⟩ := Ordered.mem_iff_getElem?.mp hb
      by_cases hab : a = b
      · subst hab
        rw [hv] at hw
        cases hw
        simp [ByValue, Std.ReflOrd.compare_self]
      · have hrel' := hrel v' w' hv' hw'
        unfold ByValue at hrel' ⊢
        rwa [(h b a w v w' v' (Ne.symm hab) hw hv hw' hv').2]
    refine List.Perm.eq_of_pairwise ?_ sorted₁
      (sorted₂.imp_of_mem fun {a b} ha hb => agree a ha b hb)
      (order_perm routine keys)
    intro a b ha hb hab hba
    by_contra hne
    obtain ⟨v₁, hv₁⟩ := Ordered.mem_iff_getElem?.mp ((mem_order routine).mp ha)
    obtain ⟨w₂, hw₂⟩ := Ordered.mem_iff_getElem?.mp ((mem_order routine).mp hb)
    obtain ⟨w₁, hw₁⟩ := Ordered.mem_iff_getElem?.mp ((keys b).mpr ((mem_order routine).mp hb))
    obtain ⟨v₂, hv₂⟩ := Ordered.mem_iff_getElem?.mp ((keys a).mp ((mem_order routine).mp ha))
    have hle : compare w₁ v₁ ≠ .lt := hab v₁ w₁ hv₁ hw₁
    have hge : compare v₁ w₁ ≠ .lt := hba w₁ v₁ hw₁ hv₁
    rw [Std.OrientedOrd.eq_swap] at hle
    have htie := (h a b v₁ w₁ v₂ w₂ hne hv₁ hw₁ hv₂ hw₂).1
    cases hcmp : compare v₁ w₁ <;> simp [hcmp] at hle hge htie

end Sorting
end RedisCluster.Library
