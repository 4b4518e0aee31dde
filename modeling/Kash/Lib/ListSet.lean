import Mathlib

/-! # Hash sets as their elements in iteration order

    A hash set is iterated in an order nobody promises. Here it is the list of
    its elements in that order, which carries that no element is listed twice;
    a loop over the set is a fold over the list, and what such a loop computes
    is proved for every list.

    `insert` answers, as a hash set's does, whether the element was new. -/

/-- A set of elements, listed once each in iteration order. -/
structure ListSet (α : Type*) where
  elems : List α
  nodup : elems.Nodup
  deriving DecidableEq

namespace ListSet

variable {α : Type*}

instance : Membership α (ListSet α) := ⟨fun s a => a ∈ s.elems⟩

instance : EmptyCollection (ListSet α) := ⟨⟨[], List.nodup_nil⟩⟩

theorem mem_def (a : α) (s : ListSet α) : a ∈ s ↔ a ∈ s.elems := Iff.rfl

@[simp] theorem elems_empty : (∅ : ListSet α).elems = [] := rfl

@[simp] theorem not_mem_empty (a : α) : a ∉ (∅ : ListSet α) := List.not_mem_nil

/-- `is_empty`. -/
def is_empty (s : ListSet α) : Bool := s.elems.isEmpty

theorem is_empty_iff (s : ListSet α) : s.is_empty = true ↔ ∀ a, a ∉ s := by
  unfold is_empty
  rw [List.isEmpty_iff, List.eq_nil_iff_forall_not_mem]
  rfl

variable [DecidableEq α]

instance (a : α) (s : ListSet α) : Decidable (a ∈ s) :=
  inferInstanceAs (Decidable (a ∈ s.elems))

/-- `insert`: the set with the element, and whether it was absent before. -/
def insert (s : ListSet α) (a : α) : ListSet α × Bool :=
  if h : a ∈ s.elems then (s, false) else (⟨a :: s.elems, List.nodup_cons.mpr ⟨h, s.nodup⟩⟩, true)

/-- `remove`. -/
def remove (s : ListSet α) (a : α) : ListSet α := ⟨s.elems.erase a, s.nodup.erase a⟩

@[simp] theorem mem_insert (s : ListSet α) (a b : α) : b ∈ (s.insert a).1 ↔ b = a ∨ b ∈ s := by
  unfold insert
  split_ifs with h
  · constructor
    · exact Or.inr
    · rintro (rfl | hb)
      · exact h
      · exact hb
  · exact List.mem_cons

/-- The answer of `insert` is whether the element was absent. -/
@[simp] theorem insert_fresh (s : ListSet α) (a : α) : (s.insert a).2 = decide (a ∉ s) := by
  unfold insert
  split_ifs with h
  · exact (decide_eq_false (not_not_intro h)).symm
  · exact (decide_eq_true h).symm

/-- Inserting an absent element puts it in front. -/
theorem elems_insert_of_not_mem {s : ListSet α} {a : α} (h : a ∉ s) :
    (s.insert a).1.elems = a :: s.elems := by
  unfold insert
  rw [dif_neg (show a ∉ s.elems from h)]

/-- Inserting a present element leaves the set as it is. -/
theorem insert_of_mem {s : ListSet α} {a : α} (h : a ∈ s) : (s.insert a).1 = s := by
  unfold insert
  rw [dif_pos (show a ∈ s.elems from h)]

@[simp] theorem mem_remove (s : ListSet α) (a b : α) : b ∈ s.remove a ↔ b ≠ a ∧ b ∈ s :=
  s.nodup.mem_erase_iff

/-- Collecting a list into a set. -/
theorem mem_foldl_insert (b : α) :
    ∀ (l : List α) (s : ListSet α), b ∈ l.foldl (fun m a => (m.insert a).1) s ↔ b ∈ s ∨ b ∈ l
  | [], s => by simp
  | a :: l, s => by
      rw [List.foldl_cons, mem_foldl_insert b l, mem_insert, List.mem_cons]
      tauto

/-- Collecting distinct elements into an empty set keeps as many. -/
theorem length_foldl_insert_empty {l : List α} (hl : l.Nodup) :
    (l.foldl (fun m a => (m.insert a).1) (∅ : ListSet α)).elems.length = l.length := by
  refine ((List.perm_ext_iff_of_nodup
    (l.foldl (fun m a => (m.insert a).1) (∅ : ListSet α)).nodup hl).mpr fun b => ?_).length_eq
  rw [← mem_def, mem_foldl_insert, or_iff_right (not_mem_empty b)]

end ListSet
