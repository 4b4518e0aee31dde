import Mathlib

/-! # Ranges laid end to end

    A list of ranges `[start x, end x]` tiles `[lo, hi]` when the first starts at
    `lo`, each starts where the previous one ends, none is reversed and the last
    ends at `hi`. Such a list is sorted both by starts and by ends, and every
    point of `[lo, hi]` lies in one of its ranges, so a search that halves on the
    two comparisons finds it. -/

namespace Tiling

variable {α P : Type*} [LinearOrder P] (start end_ : α → P)

/-- The ranges of the list tile `[lo, hi]`. -/
def Tiles : P → List α → P → Prop
  | lo, [], hi => lo = hi
  | lo, x :: l, hi => start x = lo ∧ lo ≤ end_ x ∧ Tiles (end_ x) l hi

/-- Entry `i` exists and its range holds `r`. -/
def Covers (l : List α) (r : P) (i : ℕ) : Prop :=
  ∃ h : i < l.length, start l[i] ≤ r ∧ r ≤ end_ l[i]

variable {start end_}

@[simp] theorem tiles_nil {lo hi : P} : Tiles start end_ lo [] hi ↔ lo = hi := Iff.rfl

@[simp] theorem tiles_cons {lo hi : P} {x : α} {l : List α} :
    Tiles start end_ lo (x :: l) hi ↔ start x = lo ∧ lo ≤ end_ x ∧ Tiles start end_ (end_ x) l hi :=
  Iff.rfl

/-- Only the ranges matter: a list with the same ranges tiles the same. -/
theorem Tiles.of_map {β : Type*} {start' end' : β → P} (f : α → β)
    (hs : ∀ x, start' (f x) = start x) (he : ∀ x, end' (f x) = end_ x) :
    ∀ {lo hi : P} {l : List α}, Tiles start end_ lo l hi → Tiles start' end' lo (l.map f) hi
  | _, _, [], h => h
  | _, _, x :: l, ⟨h₁, h₂, h₃⟩ => by
      refine ⟨?_, ?_, ?_⟩
      · rw [hs, h₁]
      · rw [he]
        exact h₂
      · rw [he]
        exact Tiles.of_map f hs he h₃

/-- One more range, from the old end up. -/
theorem Tiles.append_singleton {lo hi : P} {x : α} (hx : start x = hi) (hle : hi ≤ end_ x) :
    ∀ {l : List α}, Tiles start end_ lo l hi → Tiles start end_ lo (l ++ [x]) (end_ x) := by
  intro l
  induction l generalizing lo with
  | nil =>
      intro h
      rw [tiles_nil] at h
      subst h
      exact ⟨hx, hle, rfl⟩
  | cons y l ih =>
      rintro ⟨h₁, h₂, h₃⟩
      exact ⟨h₁, h₂, ih h₃⟩

/-- Replacing a range by one with the same ends keeps the tiling. -/
theorem Tiles.set {x : α} : ∀ {lo hi : P} {l : List α} {i : ℕ} (hil : i < l.length),
    start x = start l[i] → end_ x = end_ l[i] → Tiles start end_ lo l hi →
      Tiles start end_ lo (l.set i x) hi
  | _, _, [], _, hil, _, _, _ => absurd hil (Nat.not_lt_zero _)
  | _, _, _ :: _, 0, _, hs, he, ⟨h₁, h₂, h₃⟩ => ⟨hs.trans h₁, he ▸ h₂, he ▸ h₃⟩
  | _, _, _ :: _, _ + 1, hil, hs, he, ⟨h₁, h₂, h₃⟩ =>
      ⟨h₁, h₂, Tiles.set (Nat.lt_of_succ_lt_succ hil) hs he h₃⟩

/-- A tiled span is not reversed. -/
theorem Tiles.le : ∀ {lo hi : P} {l : List α}, Tiles start end_ lo l hi → lo ≤ hi
  | _, _, [], h => le_of_eq h
  | _, _, _ :: _, ⟨_, h₂, h₃⟩ => le_trans h₂ h₃.le

/-- Every range lies within the span, and is not reversed. -/
theorem Tiles.bounds : ∀ {lo hi : P} {l : List α}, Tiles start end_ lo l hi →
    ∀ i (h : i < l.length), lo ≤ start l[i] ∧ start l[i] ≤ end_ l[i] ∧ end_ l[i] ≤ hi
  | _, _, [], _, _, h => absurd h (Nat.not_lt_zero _)
  | _, _, _ :: _, ⟨h₁, h₂, h₃⟩, 0, _ => ⟨le_of_eq h₁.symm, h₁ ▸ h₂, h₃.le⟩
  | _, _, _ :: _, ⟨h₁, h₂, h₃⟩, i + 1, h => by
      obtain ⟨hlo, hse, hhi⟩ := h₃.bounds i (Nat.lt_of_succ_lt_succ h)
      exact ⟨le_trans h₂ hlo, hse, hhi⟩

/-- An earlier range ends before a later one starts. -/
theorem Tiles.end_le_start : ∀ {lo hi : P} {l : List α}, Tiles start end_ lo l hi →
    ∀ i k, i < k → ∀ (hi : i < l.length) (hk : k < l.length), end_ l[i] ≤ start l[k]
  | _, _, [], _, _, _, _, _, hk => absurd hk (Nat.not_lt_zero _)
  | _, _, _ :: _, _, _, 0, hik, _, _ => absurd hik (Nat.not_lt_zero _)
  | _, _, _ :: _, ⟨_, _, h₃⟩, 0, k + 1, _, _, hk => (h₃.bounds k (Nat.lt_of_succ_lt_succ hk)).1
  | _, _, _ :: _, ⟨_, _, h₃⟩, i + 1, k + 1, hik, hi, hk =>
      h₃.end_le_start i k (Nat.lt_of_succ_lt_succ hik) (Nat.lt_of_succ_lt_succ hi)
        (Nat.lt_of_succ_lt_succ hk)

/-- Ends are sorted. -/
theorem Tiles.end_mono {lo hi : P} {l : List α} (ht : Tiles start end_ lo l hi) {i k : ℕ}
    (hik : i ≤ k) (hi : i < l.length) (hk : k < l.length) : end_ l[i] ≤ end_ l[k] := by
  rcases Nat.lt_or_eq_of_le hik with hlt | heq
  · calc end_ l[i] ≤ start l[k] := ht.end_le_start i k hlt hi hk
      _ ≤ end_ l[k] := (ht.bounds k hk).2.1
  · subst heq
    exact le_refl _

/-- Starts are sorted. -/
theorem Tiles.start_mono {lo hi : P} {l : List α} (ht : Tiles start end_ lo l hi) {i k : ℕ}
    (hik : i ≤ k) (hi : i < l.length) (hk : k < l.length) : start l[i] ≤ start l[k] := by
  rcases Nat.lt_or_eq_of_le hik with hlt | heq
  · calc start l[i] ≤ end_ l[i] := (ht.bounds i hi).2.1
      _ ≤ start l[k] := ht.end_le_start i k hlt hi hk
  · subst heq
    exact le_refl _

/-- **COVER**: every point of a tiled span lies in one of the ranges. -/
theorem Tiles.exists_covers : ∀ {lo hi : P} {l : List α}, Tiles start end_ lo l hi →
    l ≠ [] → ∀ {r : P}, lo ≤ r → r ≤ hi → ∃ i, Covers start end_ l r i
  | _, _, [], _, hne, _, _, _ => absurd rfl hne
  | _, _, x :: l, ⟨h₁, h₂, h₃⟩, _, r, hlo, hhi => by
      by_cases hx : r ≤ end_ x
      · exact ⟨0, Nat.succ_pos _, h₁ ▸ hlo, hx⟩
      -- past the first range: the rest tiles from its end, and cannot be empty
      · have hne : l ≠ [] := by
          rintro rfl
          exact hx (le_of_le_of_eq hhi h₃.symm)
        obtain ⟨i, hi, hcov⟩ := h₃.exists_covers hne (le_of_lt (lt_of_not_ge hx)) hhi
        exact ⟨i + 1, Nat.succ_lt_succ hi, hcov⟩

/-- A range ending below `r` comes before every range holding `r`. -/
theorem Tiles.lt_of_end_lt {lo hi : P} {l : List α} (ht : Tiles start end_ lo l hi) {r : P}
    {i j : ℕ} (hi : i < l.length) (hend : end_ l[i] < r) (hj : Covers start end_ l r j) : i < j := by
  obtain ⟨hj, _, hrj⟩ := hj
  by_contra hji
  have hmono := ht.end_mono (Nat.le_of_not_lt hji) hj hi
  exact absurd (lt_of_le_of_lt (le_trans hrj hmono) hend) (lt_irrefl r)

/-- A range starting above `r` comes after every range holding `r`. -/
theorem Tiles.lt_of_lt_start {lo hi : P} {l : List α} (ht : Tiles start end_ lo l hi) {r : P}
    {i j : ℕ} (hi : i < l.length) (hstart : r < start l[i]) (hj : Covers start end_ l r j) :
    j < i := by
  obtain ⟨hj, hsj, _⟩ := hj
  by_contra hij
  have hmono := ht.start_mono (Nat.le_of_not_lt hij) hi hj
  exact absurd (lt_of_lt_of_le hstart (le_trans hmono hsj)) (lt_irrefl r)

end Tiling
