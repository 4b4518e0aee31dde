import Mathlib

/-! # Order statistics of a sorted list, and rounded means

    In a list sorted by `≤`, the element at position `j` has at most `j`
    elements strictly below it and at most `length - 1 - j` strictly above it;
    the same holds of any value between it and a neighbour (`countP_lt_le`,
    `countP_gt_le`). The elements of a slice `(l.take hi).drop lo` lie between
    the elements at its two ends (`mem_slice_bounds`). A mean of numbers,
    rounded to the nearest by adding half the count before the division, lies
    between any lower and any upper bound of the numbers (`rounded_mean_bounds`).

    The statements count with `countP` over the list itself, so they carry over
    to every reordering of it through `List.Perm.countP_eq`. -/

namespace OrderStatistic

variable {α : Type*} [LinearOrder α] {l : List α}

/-- Every element from position `j` on is at least the element there. -/
theorem getElem_le_of_mem_drop (hs : l.Pairwise (· ≤ ·)) {j : ℕ} (hj : j < l.length) {x : α}
    (hx : x ∈ l.drop j) : l[j] ≤ x := by
  have hsorted : (l[j] :: l.drop (j + 1)).Pairwise (· ≤ ·) := by
    rw [← List.drop_eq_getElem_cons hj]
    exact hs.drop
  rw [List.drop_eq_getElem_cons hj] at hx
  rcases List.mem_cons.mp hx with rfl | hx
  · exact le_rfl
  · exact List.rel_of_pairwise_cons hsorted hx

/-- Every element up to position `j` is at most the element there. -/
theorem le_getElem_of_mem_take (hs : l.Pairwise (· ≤ ·)) {j : ℕ} (hj : j < l.length) {x : α}
    (hx : x ∈ l.take (j + 1)) : x ≤ l[j] := by
  have hsplit : l.take (j + 1) = l.take j ++ [l[j]] := List.take_succ_eq_append_getElem hj
  have hsorted : (l.take j ++ [l[j]]).Pairwise (· ≤ ·) := hsplit ▸ hs.take
  rw [hsplit] at hx
  rcases List.mem_append.mp hx with hx | hx
  · exact (List.pairwise_append.mp hsorted).2.2 x hx _ (List.mem_singleton_self _)
  · rw [List.mem_singleton.mp hx]

/-- **AT MOST `j` BELOW**: a value no larger than the element at position `j`
    has at most `j` elements strictly below it. -/
theorem countP_lt_le (hs : l.Pairwise (· ≤ ·)) {j : ℕ} (hj : j < l.length) {r : α}
    (hr : r ≤ l[j]) : l.countP (fun x => decide (x < r)) ≤ j := by
  -- the elements from position `j` on are all at least `r`
  have hdrop : (l.drop j).countP (fun x => decide (x < r)) = 0 :=
    List.countP_eq_zero.mpr fun x hx => by
      rw [decide_eq_true_iff, not_lt]
      exact hr.trans (getElem_le_of_mem_drop hs hj hx)
  have htake : (l.take j).countP (fun x => decide (x < r)) ≤ j :=
    List.countP_le_length.trans (List.length_take_le j l)
  calc l.countP (fun x => decide (x < r))
      = (l.take j).countP (fun x => decide (x < r)) + (l.drop j).countP (fun x => decide (x < r)) := by
        rw [← List.countP_append, List.take_append_drop]
    _ ≤ j := by omega

/-- **AT MOST `length - 1 - i` ABOVE**: a value no smaller than the element at
    position `i` has at most `length - 1 - i` elements strictly above it. -/
theorem countP_gt_le (hs : l.Pairwise (· ≤ ·)) {i : ℕ} (hi : i < l.length) {r : α}
    (hr : l[i] ≤ r) : l.countP (fun x => decide (r < x)) ≤ l.length - 1 - i := by
  -- the elements up to position `i` are all at most `r`
  have htake : (l.take (i + 1)).countP (fun x => decide (r < x)) = 0 :=
    List.countP_eq_zero.mpr fun x hx => by
      rw [decide_eq_true_iff, not_lt]
      exact (le_getElem_of_mem_take hs hi hx).trans hr
  have hdrop : (l.drop (i + 1)).countP (fun x => decide (r < x)) ≤ l.length - 1 - i := by
    have h : (l.drop (i + 1)).countP (fun x => decide (r < x)) ≤ (l.drop (i + 1)).length :=
      List.countP_le_length
    rw [List.length_drop] at h
    omega
  calc l.countP (fun x => decide (r < x))
      = (l.take (i + 1)).countP (fun x => decide (r < x)) +
          (l.drop (i + 1)).countP (fun x => decide (r < x)) := by
        rw [← List.countP_append, List.take_append_drop]
    _ ≤ l.length - 1 - i := by omega

/-- The elements of a nonempty slice lie between the elements at its ends. -/
theorem mem_slice_bounds (hs : l.Pairwise (· ≤ ·)) {lo hi : ℕ} (hlo : lo < hi) (hhi : hi ≤ l.length)
    {x : α} (hx : x ∈ (l.take hi).drop lo) :
    l[lo] ≤ x ∧ x ≤ l[hi - 1] := by
  have hx_drop : x ∈ l.drop lo := by
    rw [List.drop_take] at hx
    exact List.mem_of_mem_take hx
  have hx_take : x ∈ l.take (hi - 1 + 1) := by
    rw [Nat.sub_add_cancel (by omega : 1 ≤ hi)]
    exact List.mem_of_mem_drop hx
  exact ⟨getElem_le_of_mem_drop hs _ hx_drop, le_getElem_of_mem_take hs _ hx_take⟩

/-- **THE ROUNDED MEAN IS BETWEEN THE BOUNDS**: the sum of a nonempty list of
    numbers plus half their count, divided by the count, lies between any lower
    and any upper bound of the numbers. -/
theorem rounded_mean_bounds {xs : List ℕ} (hne : xs ≠ []) {a b : ℕ} (ha : ∀ x ∈ xs, a ≤ x)
    (hb : ∀ x ∈ xs, x ≤ b) :
    a ≤ (xs.sum + xs.length / 2) / xs.length ∧ (xs.sum + xs.length / 2) / xs.length ≤ b := by
  have hpos : 0 < xs.length := List.length_pos_iff.mpr hne
  have hlow : xs.length * a ≤ xs.sum := by
    have h := List.card_nsmul_le_sum xs a ha
    rwa [smul_eq_mul] at h
  have hhigh : xs.sum ≤ xs.length * b := by
    have h := List.sum_le_card_nsmul xs b hb
    rwa [smul_eq_mul] at h
  have hhalf : xs.length / 2 < xs.length := Nat.div_lt_self hpos (by norm_num)
  constructor
  · rw [Nat.le_div_iff_mul_le hpos, Nat.mul_comm]
    omega
  · rw [← Nat.lt_succ_iff, Nat.div_lt_iff_lt_mul hpos, Nat.succ_mul, Nat.mul_comm]
    omega

end OrderStatistic
