import Mathlib

/-! # One scan for the least and the greatest element, and `swap_remove`

    `Itertools::minmax_by` reads a sequence once and returns its least and its
    greatest element under a strict comparison `lt`. Its documented result is
    that of a scan from the left in which a later element replaces the least only
    when it is strictly smaller, and replaces the greatest whenever it is not
    smaller: the least is the first of the equally least elements, the greatest
    the last of the equally greatest. `position_minmax` returns their positions.
    `Vec::swap_remove` moves the last element into the place of the removed one.

    For a comparison that is `<` on a key into a linear order (`hlt`):

    * `minmax_by_spec` — both results are elements, every element lies between
      them;
    * `position_minmax_spec` — the same for the positions;
    * `swap_remove_perm` — the removed element and what is left are the list up
      to order;
    * `key_eq_of_least` — the least of two lists that are equal up to order have
      the same key. -/

namespace MinMax

variable {α : Type*}

/-- One element of the scan: a strictly smaller one replaces the least, one not
    smaller than the greatest replaces it. -/
def minmax_step (lt : α → α → Bool) (acc : α × α) (x : α) : α × α :=
  (if lt x acc.1 then x else acc.1, if lt x acc.2 then acc.2 else x)

/-- `Itertools::minmax_by` followed by `into_option`: none on an empty sequence,
    the one element twice on a single one. -/
def minmax_by (lt : α → α → Bool) : List α → Option (α × α)
  | [] => none
  | x :: xs => some (xs.foldl (minmax_step lt) (x, x))

/-- `Itertools::position_minmax` followed by `into_option`: the scan over the
    enumerated elements, compared by element. -/
def position_minmax (lt : α → α → Bool) (l : List α) : Option (ℕ × ℕ) :=
  (minmax_by (fun x y => lt x.1 y.1) l.zipIdx).map fun p => (p.1.2, p.2.2)

/-- `Vec::swap_remove`: the last element takes the place of the removed one; an
    index out of range is none. -/
def swap_remove (l : List α) (i : ℕ) : Option (List α) :=
  match l.getLast? with
  | some last => if i < l.length then some (l.set i last).dropLast else none
  | none => none

theorem minmax_by_isSome {lt : α → α → Bool} {l : List α} (h : l ≠ []) :
    ∃ a b, minmax_by lt l = some (a, b) := by
  cases l with
  | nil => exact absurd rfl h
  | cons x xs => exact ⟨_, _, rfl⟩

theorem position_minmax_isSome {lt : α → α → Bool} {l : List α} (h : l ≠ []) :
    ∃ i j, position_minmax lt l = some (i, j) := by
  have hz : l.zipIdx ≠ [] := by
    rw [Ne, ← List.length_eq_zero_iff, List.length_zipIdx, List.length_eq_zero_iff]
    exact h
  obtain ⟨a, b, hab⟩ : ∃ a b, minmax_by (fun x y : α × ℕ => lt x.1 y.1) l.zipIdx = some (a, b) :=
    minmax_by_isSome hz
  exact ⟨a.2, b.2, by rw [position_minmax, hab, Option.map_some]⟩

section Key

variable {β : Type*} [LinearOrder β] (key : α → β) {lt : α → α → Bool}

/-- The comparison is `<` on the keys. -/
def LtOnKey (lt : α → α → Bool) : Prop := ∀ a b, lt a b = true ↔ key a < key b

variable {key}

/-- One step keeps the least no larger and the greatest no smaller than both the
    old ones and the new element, and takes each from them. -/
theorem minmax_step_spec (hlt : LtOnKey key lt) (acc : α × α) (x : α) :
    ((minmax_step lt acc x).1 = acc.1 ∨ (minmax_step lt acc x).1 = x) ∧
      ((minmax_step lt acc x).2 = acc.2 ∨ (minmax_step lt acc x).2 = x) ∧
      key (minmax_step lt acc x).1 ≤ key acc.1 ∧ key (minmax_step lt acc x).1 ≤ key x ∧
      key acc.2 ≤ key (minmax_step lt acc x).2 ∧ key x ≤ key (minmax_step lt acc x).2 := by
  unfold minmax_step
  dsimp only
  have hmin : key (if lt x acc.1 then x else acc.1) ≤ key acc.1 ∧
      key (if lt x acc.1 then x else acc.1) ≤ key x := by
    split_ifs with h
    · exact ⟨((hlt _ _).mp h).le, le_rfl⟩
    · exact ⟨le_rfl, not_lt.mp fun h' => h ((hlt _ _).mpr h')⟩
  have hmax : key acc.2 ≤ key (if lt x acc.2 then acc.2 else x) ∧
      key x ≤ key (if lt x acc.2 then acc.2 else x) := by
    split_ifs with h
    · exact ⟨le_rfl, ((hlt _ _).mp h).le⟩
    · exact ⟨not_lt.mp fun h' => h ((hlt _ _).mpr h'), le_rfl⟩
  refine ⟨?_, ?_, hmin.1, hmin.2, hmax.1, hmax.2⟩
  · split_ifs
    · exact Or.inr rfl
    · exact Or.inl rfl
  · split_ifs
    · exact Or.inl rfl
    · exact Or.inr rfl

/-- The run lemma of the scan, by induction on what is left to read: the two
    results come from the start pair or the elements read, and every element read
    lies between them. -/
theorem foldl_minmax_step_spec (hlt : LtOnKey key lt) :
    ∀ (xs : List α) (acc : α × α),
      ((xs.foldl (minmax_step lt) acc).1 = acc.1 ∨ (xs.foldl (minmax_step lt) acc).1 ∈ xs) ∧
        ((xs.foldl (minmax_step lt) acc).2 = acc.2 ∨ (xs.foldl (minmax_step lt) acc).2 ∈ xs) ∧
        key (xs.foldl (minmax_step lt) acc).1 ≤ key acc.1 ∧
        key acc.2 ≤ key (xs.foldl (minmax_step lt) acc).2 ∧
        ∀ x ∈ xs, key (xs.foldl (minmax_step lt) acc).1 ≤ key x ∧
          key x ≤ key (xs.foldl (minmax_step lt) acc).2
  | [], acc => ⟨Or.inl rfl, Or.inl rfl, le_rfl, le_rfl, fun _ h => absurd h List.not_mem_nil⟩
  | y :: ys, acc => by
      rw [List.foldl_cons]
      obtain ⟨hm1, hm2, hle1, hle1', hle2, hle2'⟩ := minmax_step_spec hlt acc y
      obtain ⟨hr1, hr2, hrle1, hrle2, hall⟩ := foldl_minmax_step_spec hlt ys (minmax_step lt acc y)
      generalize ys.foldl (minmax_step lt) (minmax_step lt acc y) = r at *
      generalize minmax_step lt acc y = s at *
      refine ⟨?_, ?_, hrle1.trans hle1, hle2.trans hrle2, ?_⟩
      · rcases hr1 with h | h
        · rcases hm1 with h' | h'
          · exact Or.inl (h.trans h')
          · exact Or.inr (h ▸ h' ▸ List.mem_cons_self)
        · exact Or.inr (List.mem_cons_of_mem y h)
      · rcases hr2 with h | h
        · rcases hm2 with h' | h'
          · exact Or.inl (h.trans h')
          · exact Or.inr (h ▸ h' ▸ List.mem_cons_self)
        · exact Or.inr (List.mem_cons_of_mem y h)
      · intro x hx
        rcases List.mem_cons.mp hx with rfl | hx
        · exact ⟨hrle1.trans hle1', hle2'.trans hrle2⟩
        · exact hall x hx

/-- **THE SCAN FINDS THE EXTREMES**: both results are elements of the list, and
    every element lies between them. -/
theorem minmax_by_spec (hlt : LtOnKey key lt) {l : List α} {a b : α}
    (h : minmax_by lt l = some (a, b)) :
    a ∈ l ∧ b ∈ l ∧ ∀ x ∈ l, key a ≤ key x ∧ key x ≤ key b := by
  cases l with
  | nil => cases h
  | cons x xs =>
      obtain ⟨hr1, hr2, hle1, hle2, hall⟩ := foldl_minmax_step_spec hlt xs (x, x)
      rw [minmax_by, Option.some.injEq] at h
      rw [h] at hr1 hr2 hle1 hle2 hall
      refine ⟨?_, ?_, ?_⟩
      · rcases hr1 with rfl | h
        · exact List.mem_cons_self
        · exact List.mem_cons_of_mem x h
      · rcases hr2 with rfl | h
        · exact List.mem_cons_self
        · exact List.mem_cons_of_mem x h
      · intro y hy
        rcases List.mem_cons.mp hy with rfl | hy
        · exact ⟨hle1, hle2⟩
        · exact hall y hy

/-- **THE POSITIONS OF THE EXTREMES**: both positions are in range, and every
    element lies between the elements there. -/
theorem position_minmax_spec (hlt : LtOnKey key lt) {l : List α} {i j : ℕ}
    (h : position_minmax lt l = some (i, j)) :
    ∃ (hi : i < l.length) (hj : j < l.length), ∀ x ∈ l, key l[i] ≤ key x ∧ key x ≤ key l[j] := by
  obtain ⟨⟨⟨x, i'⟩, ⟨y, j'⟩⟩, hab, hij⟩ := Option.map_eq_some_iff.mp h
  obtain ⟨rfl, rfl⟩ := Prod.mk.inj hij
  have hlt_pairs : LtOnKey (fun p : α × ℕ => key p.1) fun x y => lt x.1 y.1 := fun x y => hlt x.1 y.1
  obtain ⟨ha, hb, hall⟩ := minmax_by_spec hlt_pairs hab
  obtain ⟨-, hi, hx⟩ := List.mem_zipIdx ha
  obtain ⟨-, hj, hy⟩ := List.mem_zipIdx hb
  simp only [Nat.zero_add, Nat.sub_zero] at hi hj hx hy
  refine ⟨hi, hj, fun z hz => ?_⟩
  obtain ⟨k, hk, rfl⟩ := List.getElem_of_mem hz
  have hmem : (l[k], k) ∈ l.zipIdx := by
    rw [List.mem_iff_getElem]
    exact ⟨k, by rw [List.length_zipIdx]; exact hk, by rw [List.getElem_zipIdx, Nat.zero_add]⟩
  rw [← hx, ← hy]
  exact hall _ hmem

/-- Two lists equal up to order have least elements of the same key. -/
theorem key_eq_of_least {l l' : List α} (hperm : l.Perm l') {a a' : α} (ha : a ∈ l) (ha' : a' ∈ l')
    (hmin : ∀ x ∈ l, key a ≤ key x) (hmin' : ∀ x ∈ l', key a' ≤ key x) : key a = key a' :=
  le_antisymm (hmin a' (hperm.mem_iff.mpr ha')) (hmin' a (hperm.mem_iff.mp ha))

/-- Two lists equal up to order have greatest elements of the same key. -/
theorem key_eq_of_greatest {l l' : List α} (hperm : l.Perm l') {b b' : α} (hb : b ∈ l) (hb' : b' ∈ l')
    (hmax : ∀ x ∈ l, key x ≤ key b) (hmax' : ∀ x ∈ l', key x ≤ key b') : key b = key b' :=
  le_antisymm (hmax' b (hperm.mem_iff.mp hb)) (hmax b' (hperm.mem_iff.mpr hb'))

end Key

/-- **`swap_remove` REMOVES ONE ELEMENT**: in range it succeeds, and the removed
    element with what is left is the list up to order. -/
theorem swap_remove_perm {l : List α} {i : ℕ} (hi : i < l.length) :
    ∃ rest, swap_remove l i = some rest ∧ l.Perm (l[i] :: rest) := by
  have hne : l ≠ [] := List.ne_nil_of_length_pos (Nat.lt_of_le_of_lt (Nat.zero_le i) hi)
  refine ⟨(l.set i (l.getLast hne)).dropLast, ?_, ?_⟩
  · rw [swap_remove, List.getLast?_eq_some_getLast hne]
    exact if_pos hi
  · -- `l` is its front and its last element; the last one moves into place `i`
    have hsplit := List.dropLast_append_getLast hne
    generalize l.getLast hne = last at hsplit ⊢
    generalize l.dropLast = init at hsplit
    subst hsplit
    rcases Nat.lt_or_ge i init.length with hlt | hge
    · -- an inner place: the last element takes it
      rw [List.set_append, if_pos hlt, List.dropLast_concat, List.getElem_append_left hlt]
      have h1 : (init ++ [last]).Perm (last :: init) := List.perm_append_singleton last init
      have h2 : (last :: init).Perm (last :: init[i] :: init.eraseIdx i) :=
        (List.getElem_cons_eraseIdx_perm hlt).symm.cons last
      have h3 : (init[i] :: last :: init.eraseIdx i).Perm (init[i] :: init.set i last) :=
        (List.set_perm_cons_eraseIdx hlt last).symm.cons _
      exact h1.trans (h2.trans ((List.Perm.swap _ _ _).trans h3))
    · -- the last place: nothing moves
      have hi' : i = init.length := by
        rw [List.length_append, List.length_singleton] at hi
        omega
      subst hi'
      rw [List.set_append, if_neg (Nat.lt_irrefl _), Nat.sub_self, List.set_cons_zero,
        List.dropLast_concat, List.getElem_append_right (Nat.le_refl _)]
      simp only [Nat.sub_self, List.getElem_cons_zero]
      exact List.perm_append_singleton last init

end MinMax
