import Mathlib

/-! # A perfect binary tree laid out in one array

    The nodes of a perfect binary tree with `P = 2 ^ m` leaves fit in `2 * P - 1`
    slots: the leaves first, then each level after the one below, so that the
    parent of slots `2 * j` and `2 * j + 1` is slot `P + j` and the root is the last
    slot. An array is such a layout (`Layout`) when every parent slot holds the
    combination of its two children.

    * `fill_layout` — the loop that writes the slots `P, P + 1, …` in order, each
      from the two slots below it, leaves a layout with the leaves as they were;
    * `Layout.last_eq_root` — the last slot of a layout is the root that `root`
      computes level by level from the leaves;
    * `le_nextPowerOfTwo`, `nextPowerOfTwo_lt_two_mul` — `n` leaves, padded to
      `n.nextPowerOfTwo`, fill more than half of the bottom level.

    Arrays are functions `ℕ → α`; writing a slot is `Function.update`. -/

namespace FlatTree

variable {α : Type*} (c : α → α → α)

/-- The level above: node `j` combines nodes `2 * j` and `2 * j + 1`. -/
def levelUp (f : ℕ → α) : ℕ → α := fun j => c (f (2 * j)) (f (2 * j + 1))

/-- The root of the tree whose `2 ^ m` leaves are `f 0, …, f (2 ^ m - 1)`. -/
def root : ℕ → (ℕ → α) → α
  | 0, f => f 0
  | m + 1, f => root m (levelUp c f)

/-- Every parent slot `P + j` holds the combination of slots `2 * j` and `2 * j + 1`. -/
def Layout (P : ℕ) (F : ℕ → α) : Prop :=
  ∀ j, j + 1 < P → F (P + j) = c (F (2 * j)) (F (2 * j + 1))

/-- The loop that writes the parent slots `P, …, P + k - 1`, in that order. -/
def fill (P : ℕ) (f : ℕ → α) (k : ℕ) : ℕ → α :=
  (List.range k).foldl (fun g j => Function.update g (P + j) (c (g (2 * j)) (g (2 * j + 1)))) f

variable {c}

/-- The root reads only the leaves. -/
theorem root_congr : ∀ (m : ℕ) {f g : ℕ → α}, (∀ s < 2 ^ m, f s = g s) → root c m f = root c m g
  | 0, _, _, h => h 0 (by norm_num)
  | m + 1, f, g, h => by
      apply root_congr m
      intro s hs
      have hpow : 2 ^ (m + 1) = 2 * 2 ^ m := by rw [pow_succ]; ring
      unfold levelUp
      rw [h (2 * s) (by omega), h (2 * s + 1) (by omega)]

theorem fill_succ (P : ℕ) (f : ℕ → α) (k : ℕ) :
    fill c P f (k + 1) =
      Function.update (fill c P f k) (P + k) (c (fill c P f k (2 * k)) (fill c P f k (2 * k + 1))) := by
  unfold fill
  rw [List.range_succ, List.foldl_append]
  rfl

/-- **THE LOOP INVARIANT**: after `k` of the `P - 1` steps the slots below `P` and from
    `P + k` up are as they were, and each slot written holds the combination of its
    two children. A step reads slots below the one it writes, so what it reads is
    final. -/
theorem fill_spec (P : ℕ) (f : ℕ → α) :
    ∀ k, k + 1 ≤ P → (∀ s, (s < P ∨ P + k ≤ s) → fill c P f k s = f s) ∧
      ∀ j < k, fill c P f k (P + j) = c (fill c P f k (2 * j)) (fill c P f k (2 * j + 1))
  | 0, _ => ⟨fun _ _ => rfl, fun j hj => absurd hj (Nat.not_lt_zero j)⟩
  | k + 1, hk => by
      obtain ⟨hkeep, hdone⟩ := fill_spec P f k (by omega)
      rw [fill_succ]
      refine ⟨fun s hs => ?_, fun j hj => ?_⟩
      · rw [Function.update_of_ne (by omega)]
        exact hkeep s (by omega)
      · have h₁ : 2 * j ≠ P + k := by omega
        have h₂ : 2 * j + 1 ≠ P + k := by omega
        rw [Function.update_of_ne h₁, Function.update_of_ne h₂]
        rcases Nat.lt_succ_iff_lt_or_eq.mp hj with hj | rfl
        · rw [Function.update_of_ne (by omega)]
          exact hdone j hj
        · rw [Function.update_self]

/-- After its `P - 1` steps the loop leaves a layout over the leaves it started from. -/
theorem fill_layout {P : ℕ} (hP : 0 < P) (f : ℕ → α) :
    Layout c P (fill c P f (P - 1)) ∧ ∀ s < P, fill c P f (P - 1) s = f s := by
  obtain ⟨hkeep, hdone⟩ := fill_spec P f (P - 1) (by omega)
  exact ⟨fun j hj => hdone j (by omega), fun s hs => hkeep s (Or.inl hs)⟩

/-- **THE LAYOUT'S ROOT**: the last of the `2 * 2 ^ m - 1` slots of a layout is the
    root of its leaves. The slots above the leaves are a layout with half as many
    leaves, and those leaves are the level above. -/
theorem Layout.last_eq_root :
    ∀ (m : ℕ) {F : ℕ → α}, Layout c (2 ^ m) F → F (2 * 2 ^ m - 2) = root c m F
  | 0, _, _ => rfl
  | m + 1, F, hF => by
      have hpow : 2 ^ (m + 1) = 2 * 2 ^ m := by rw [pow_succ]; ring
      have hpos : 0 < 2 ^ m := by positivity
      rw [hpow] at hF ⊢
      -- the slots from `2 * 2 ^ m` on
      have hupper : Layout c (2 ^ m) (fun s => F (2 * 2 ^ m + s)) := by
        intro j hj
        show F (2 * 2 ^ m + (2 ^ m + j)) = c (F (2 * 2 ^ m + 2 * j)) (F (2 * 2 ^ m + (2 * j + 1)))
        rw [hF (2 ^ m + j) (by omega), show 2 * (2 ^ m + j) = 2 * 2 ^ m + 2 * j by ring,
          show 2 * 2 ^ m + 2 * j + 1 = 2 * 2 ^ m + (2 * j + 1) by ring]
      have hleaves : ∀ s < 2 ^ m, F (2 * 2 ^ m + s) = levelUp c F s := fun s hs => hF s (by omega)
      calc F (2 * (2 * 2 ^ m) - 2) = F (2 * 2 ^ m + (2 * 2 ^ m - 2)) := by congr 1; omega
        _ = root c m (fun s => F (2 * 2 ^ m + s)) := Layout.last_eq_root m hupper
        _ = root c m (levelUp c F) := root_congr m hleaves
        _ = root c (m + 1) F := rfl

/-! ## Padding to a power of two -/

open private Nat.nextPowerOfTwo.go from Init.Data.Nat.Power2.Basic

/-- The search of `nextPowerOfTwo` doubles `power` until it reaches `n`: it ends at
    or above both, and only a search that doubled ends at most `2 * n - 1`. -/
theorem nextPowerOfTwo_go_bounds (n power : ℕ) (h : power > 0) :
    power ≤ Nat.nextPowerOfTwo.go n power h ∧ n ≤ Nat.nextPowerOfTwo.go n power h ∧
      (Nat.nextPowerOfTwo.go n power h = power ∨ Nat.nextPowerOfTwo.go n power h < 2 * n) := by
  unfold Nat.nextPowerOfTwo.go
  split_ifs with hlt
  · have ih := nextPowerOfTwo_go_bounds n (power * 2) (Nat.mul_pos h (by decide))
    omega
  · omega
termination_by n - power
decreasing_by exact Nat.nextPowerOfTwo_dec h hlt

theorem le_nextPowerOfTwo (n : ℕ) : n ≤ n.nextPowerOfTwo :=
  (nextPowerOfTwo_go_bounds n 1 (by decide)).2.1

theorem nextPowerOfTwo_lt_two_mul {n : ℕ} (hn : 0 < n) : n.nextPowerOfTwo < 2 * n := by
  obtain ⟨-, hle, hlt⟩ := nextPowerOfTwo_go_bounds n 1 (by decide)
  show Nat.nextPowerOfTwo.go n 1 _ < 2 * n
  omega

end FlatTree
