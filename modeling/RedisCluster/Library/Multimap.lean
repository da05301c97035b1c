import Mathlib.Data.List.Nodup
import Mathlib.Order.Lattice

/-!
# Ordered multimaps

Entries in key order; entries with equal keys keep the order of their insertion.
-/

set_option autoImplicit false

namespace RedisCluster.Library

structure Multimap (κ α : Type) [LinearOrder κ] where
  entries : List (κ × α)
  sorted : entries.Pairwise fun e e' => e.1 ≤ e'.1

namespace Multimap
variable {κ α : Type} [LinearOrder κ]

instance : Membership (κ × α) (Multimap κ α) := ⟨fun m e => e ∈ m.entries⟩

theorem mem_def {m : Multimap κ α} {e : κ × α} : e ∈ m ↔ e ∈ m.entries := Iff.rfl

def empty : Multimap κ α := ⟨[], .nil⟩

/-! ## Insertion -/

/-- Behind the entries whose key is not larger. -/
def insertEntry (e : κ × α) : List (κ × α) → List (κ × α)
  | [] => [e]
  | first :: rest => if e.1 < first.1 then e :: first :: rest else first :: insertEntry e rest

theorem insertEntry_perm (e : κ × α) (l : List (κ × α)) : (insertEntry e l).Perm (e :: l) := by
  induction l with
  | nil => exact .refl _
  | cons first rest ih =>
    unfold insertEntry
    split
    · exact .refl _
    · exact (ih.cons first).trans (.swap e first rest)

theorem insertEntry_sorted (e : κ × α) {l : List (κ × α)}
    (h : l.Pairwise fun e e' => e.1 ≤ e'.1) :
    (insertEntry e l).Pairwise fun e e' => e.1 ≤ e'.1 := by
  induction l with
  | nil => exact List.pairwise_singleton _ _
  | cons first rest ih =>
    obtain ⟨hfirst, hrest⟩ := List.pairwise_cons.mp h
    unfold insertEntry
    split
    · next hlt =>
      refine List.pairwise_cons.mpr ⟨fun other hother => ?_, h⟩
      rcases List.mem_cons.mp hother with rfl | hother
      · exact hlt.le
      · exact hlt.le.trans (hfirst other hother)
    · next hle =>
      refine List.pairwise_cons.mpr ⟨fun other hother => ?_, ih hrest⟩
      rcases List.mem_cons.mp ((insertEntry_perm e rest).mem_iff.mp hother) with rfl | hother
      · exact not_lt.mp hle
      · exact hfirst other hother

def insert (m : Multimap κ α) (k : κ) (v : α) : Multimap κ α :=
  ⟨insertEntry (k, v) m.entries, insertEntry_sorted (k, v) m.sorted⟩

theorem insert_perm (m : Multimap κ α) (k : κ) (v : α) :
    (m.insert k v).entries.Perm ((k, v) :: m.entries) :=
  insertEntry_perm (k, v) m.entries

@[simp] theorem mem_insert {m : Multimap κ α} {k : κ} {v : α} {e : κ × α} :
    e ∈ m.insert k v ↔ e = (k, v) ∨ e ∈ m := by
  rw [mem_def, (m.insert_perm k v).mem_iff, List.mem_cons]
  rfl

/-! ## Removal -/

/-- The first entry of the key that holds the value goes. -/
def erase [DecidableEq α] (m : Multimap κ α) (k : κ) (v : α) : Multimap κ α :=
  ⟨m.entries.erase (k, v), m.sorted.sublist List.erase_sublist⟩

def popFront (m : Multimap κ α) : Multimap κ α :=
  ⟨m.entries.tail, m.sorted.sublist (List.tail_sublist _)⟩

/-- No two entries hold the same value. -/
def Distinct (m : Multimap κ α) : Prop := (m.entries.map Prod.snd).Nodup

theorem distinct_empty : (empty : Multimap κ α).Distinct := List.nodup_nil

theorem Distinct.insert {m : Multimap κ α} (h : m.Distinct) {k : κ} {v : α}
    (hnew : ∀ e ∈ m, e.2 ≠ v) : (m.insert k v).Distinct := by
  have hperm := (m.insert_perm k v).map Prod.snd
  rw [Distinct, hperm.nodup_iff, List.map_cons, List.nodup_cons]
  refine ⟨fun hmem => ?_, h⟩
  obtain ⟨e, he, hv⟩ := List.mem_map.mp hmem
  exact hnew e he hv

theorem Distinct.unique {m : Multimap κ α} (h : m.Distinct) {e e' : κ × α} (he : e ∈ m)
    (he' : e' ∈ m) (heq : e.2 = e'.2) : e = e' :=
  List.inj_on_of_nodup_map h he he' heq

theorem Distinct.sublist {m m' : Multimap κ α} (h : m.Distinct)
    (hsub : m'.entries.Sublist m.entries) : m'.Distinct :=
  List.Nodup.sublist (hsub.map Prod.snd) h

theorem Distinct.mem_erase [DecidableEq α] {m : Multimap κ α} (h : m.Distinct) {k : κ} {v : α}
    {e : κ × α} : e ∈ m.erase k v ↔ e ≠ (k, v) ∧ e ∈ m :=
  (List.Nodup.of_map _ h).mem_erase_iff

/-- The front has the least key. -/
theorem front_le {m : Multimap κ α} {first : κ × α} {rest : List (κ × α)}
    (h : m.entries = first :: rest) {e : κ × α} (he : e ∈ m) : first.1 ≤ e.1 := by
  rw [mem_def, h] at he
  have hsorted := m.sorted
  rw [h] at hsorted
  rcases List.mem_cons.mp he with rfl | he
  · exact le_refl _
  · exact List.rel_of_pairwise_cons hsorted he

theorem mem_front {m : Multimap κ α} {first : κ × α} {rest : List (κ × α)}
    (h : m.entries = first :: rest) {e : κ × α} : e ∈ m ↔ e = first ∨ e ∈ m.popFront := by
  have hpop : m.popFront.entries = rest := congrArg List.tail h
  rw [mem_def, mem_def, hpop, h, List.mem_cons]

end Multimap
end RedisCluster.Library
