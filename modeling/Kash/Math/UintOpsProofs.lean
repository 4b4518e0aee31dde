import Kash.Math.UintDivProofs

/-! # The operators and the conversions between widths

    A `Uint` is the number its words denote (`to_nat_inj`). `Add` and `Mul<u64>`
    return the wrapped result, `Sum` the sum of its terms modulo `2 ^ BITS`
    (`to_nat_sum`), `Div<u64>` the quotient for every nonzero word, and `min` the
    smaller number. `TryFrom<Uint320> for Uint256` succeeds exactly below `2 ^ 256`
    (`try_from_uint320_value`). -/

namespace KashMath

open Limbs KashScript

namespace Uint

variable {LIMBS : ℕ}

theorem to_nat_inj {a b : Uint LIMBS} (h : a.to_nat = b.to_nat) : a = b :=
  ext_words (value_inj (by rw [a.length_words, b.length_words]) h)

theorem to_nat_add (a b : Uint LIMBS) :
    (a.add b).to_nat = (a.to_nat + b.to_nat) % 2 ^ BITS LIMBS :=
  (mod_and_flag_of_value (to_nat_lt _) (overflowing_add_sum a b)).1

/-- The run lemma of `Sum`'s fold: each addition wraps, so the whole wraps once. -/
theorem to_nat_foldl_add : ∀ (xs : List (Uint LIMBS)) (acc : Uint LIMBS),
    (xs.foldl add acc).to_nat = (acc.to_nat + (xs.map to_nat).sum) % 2 ^ BITS LIMBS
  | [], acc => by
      rw [List.foldl_nil, List.map_nil, List.sum_nil, Nat.add_zero, Nat.mod_eq_of_lt (to_nat_lt acc)]
  | x :: xs, acc => by
      rw [List.foldl_cons, to_nat_foldl_add xs, to_nat_add, List.map_cons, List.sum_cons,
        Nat.mod_add_mod, Nat.add_assoc]

/-- **`Sum`** is the sum of the terms modulo `2 ^ BITS`. -/
theorem to_nat_sum (xs : List (Uint LIMBS)) :
    (sum xs).to_nat = (xs.map to_nat).sum % 2 ^ BITS LIMBS := by
  cases xs with
  | nil => rw [sum, to_nat_ZERO, List.map_nil, List.sum_nil, Nat.zero_mod]
  | cons x xs => rw [sum, to_nat_foldl_add, List.map_cons, List.sum_cons]

theorem to_nat_mul_u64 (a : Uint LIMBS) (c : UInt64) :
    (a.mul_u64 c).to_nat = a.to_nat * c.toNat % 2 ^ BITS LIMBS :=
  (carrying_mul_u64_value a c).1

theorem div_u64_value (a : Uint LIMBS) {c : UInt64} (hc : c ≠ 0) :
    ∃ q, a.div_u64 c = .ok q ∧ q.to_nat = a.to_nat / c.toNat := by
  obtain ⟨q, r, h, hq, -⟩ := div_rem_u64_value a c hc
  exact ⟨q, by rw [div_u64, h]; rfl, hq⟩

theorem to_nat_min (a b : Uint LIMBS) : (a.min b).to_nat = Min.min a.to_nat b.to_nat := by
  unfold Uint.min
  rw [cmp_eq_compare]
  split_ifs with h
  · exact (min_eq_right ((compare_gt_iff_gt.mp h).le)).symm
  · exact (min_eq_left (not_lt.mp fun h' => h (compare_gt_iff_gt.mpr h'))).symm

theorem to_nat_of_nat (x : ℕ) : (of_nat x : Uint LIMBS).to_nat = x % 2 ^ BITS LIMBS :=
  value_range_map_div x LIMBS

/-- **NARROWING TO `Uint256`** succeeds with the same number below `2 ^ 256`, and
    fails from there on. -/
theorem try_from_uint320_value (v : Uint 5) :
    (v.to_nat < 2 ^ 256 → ∃ u, try_from_uint320 v = .ok u ∧ u.to_nat = v.to_nat) ∧
      (2 ^ 256 ≤ v.to_nat → try_from_uint320 v = .error .mk) := by
  obtain ⟨ws, hlen⟩ := v
  -- the number is the low four words with the top word above them
  have hdrop : ws.drop 4 = [ws.getD 4 0] := by
    match ws, hlen with
    | [_, _, _, _, _], _ => rfl
  have hsplit : value ws = value (ws.take 4) + 2 ^ 256 * (ws.getD 4 0).toNat := by
    rw [value_take_drop ws 4, hdrop, value_cons, value_nil, Nat.mul_zero, Nat.add_zero]
  have hlow : value (ws.take 4) < 2 ^ 256 := by
    have h := value_lt (ws.take 4)
    rwa [List.length_take, hlen] at h
  show (value ws < 2 ^ 256 → ∃ u, try_from_uint320 ⟨ws, hlen⟩ = .ok u ∧ value u.words = value ws) ∧
    (2 ^ 256 ≤ value ws → try_from_uint320 ⟨ws, hlen⟩ = .error .mk)
  constructor
  · intro hv
    have htop : ws.getD 4 0 = 0 := by
      rw [← UInt64.toNat_inj, UInt64.toNat_zero]
      by_contra hne
      have : 2 ^ 256 ≤ 2 ^ 256 * (ws.getD 4 0).toNat := Nat.le_mul_of_pos_right _ (Nat.pos_of_ne_zero hne)
      omega
    refine ⟨_, if_neg (not_not.mpr htop), ?_⟩
    show value (ws.take 4) = value ws
    rw [hsplit, htop, UInt64.toNat_zero, Nat.mul_zero, Nat.add_zero]
  · intro hv
    have htop : ws.getD 4 0 ≠ 0 := by
      intro h0
      rw [hsplit, h0, UInt64.toNat_zero, Nat.mul_zero, Nat.add_zero] at hv
      omega
    exact if_pos htop

end Uint

end KashMath
