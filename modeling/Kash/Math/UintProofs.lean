import Kash.Math.Uint

/-! # What `overflowing_mul` computes

    One row of the schoolbook loop adds `self[..LIMBS - j] * other[j]` at word
    `j` and leaves the carry out of the top word (`mul_row_value`). Over the
    rows the words hold the product of `self` with the first `j` words of
    `other` modulo `2 ^ BITS`, and a raised flag means that partial product is
    already too large (`rows_invariant`). The words skipped by every row are
    multiples of `2 ^ BITS`, so they cannot change the words, but they can carry
    the whole overflow: then the flag stays down. -/

namespace KashMath

open Limbs

/-- The number one step of a row works on is below `2 ^ 128`, so its high word
    is exact. -/
theorem mul_word_lt (a b r c : UInt64) :
    a.toNat * b.toNat + r.toNat + c.toNat < 2 ^ 64 * 2 ^ 64 := by
  obtain ⟨V, hV⟩ : ∃ V, 2 ^ 64 = V + 1 := ⟨2 ^ 64 - 1, by norm_num⟩
  have ha : a.toNat ≤ V := by have := a.toNat_lt; omega
  have hb : b.toNat ≤ V := by have := b.toNat_lt; omega
  have hr : r.toNat ≤ V := by have := r.toNat_lt; omega
  have hc : c.toNat ≤ V := by have := c.toNat_lt; omega
  have hab : a.toNat * b.toNat ≤ V * V := Nat.mul_le_mul ha hb
  rw [hV]
  nlinarith

/-- **ONE ROW**: with `k` steps left at `i`, the words the row writes and the
    carry it ends with, at word `i + j + k`, add up to the words it started
    from, its carry at word `i + j`, and `self[i..i + k] * other_j` at word
    `i + j`. The induction follows the steps; `value_set` accounts for the
    one word each step writes. -/
theorem mul_row_value (self : List UInt64) (other_j : UInt64) (j : ℕ) :
    ∀ (k i : ℕ) (result : List UInt64) (carry : UInt64), i + j + k ≤ result.length →
      value (mul_row self other_j j k i result carry).1 +
          (mul_row self other_j j k i result carry).2.toNat * 2 ^ (64 * (i + j + k)) =
        value result + carry.toNat * 2 ^ (64 * (i + j)) +
          value ((self.drop i).take k) * other_j.toNat * 2 ^ (64 * (i + j))
  | 0, i, result, carry, _ => by simp [mul_row]
  | k + 1, i, result, carry, hlen => by
      set n := (self.getD i 0).toNat * other_j.toNat + (result.getD (i + j) 0).toNat +
        carry.toNat with hn
      have hn_lt : n < 2 ^ 64 * 2 ^ 64 := mul_word_lt _ _ _ _
      have hlow : n.toUInt64.toNat = n % 2 ^ 64 := UInt64.toNat_ofNat
      have hhigh : (n / 2 ^ 64).toUInt64.toNat = n / 2 ^ 64 :=
        UInt64.toNat_ofNat_of_lt' (Nat.div_lt_of_lt_mul hn_lt)
      -- the word written at `i + j`, and the row from `i + 1` after it
      have hset := value_set result (i + j) n.toUInt64 (by omega)
      have ih := mul_row_value self other_j j k (i + 1) (result.set (i + j) n.toUInt64)
        (n / 2 ^ 64).toUInt64 (by rw [List.length_set]; omega)
      have hsplit := value_drop_take_succ self i k
      have hdiv : n % 2 ^ 64 + 2 ^ 64 * (n / 2 ^ 64) = n := Nat.mod_add_div n (2 ^ 64)
      rw [mul_row, ← hn]
      rw [hhigh, show i + 1 + j = i + j + 1 by omega, show i + j + 1 + k = i + j + (k + 1) by omega]
        at ih
      rw [hlow] at hset
      have key : value (mul_row self other_j j k (i + 1) (result.set (i + j) n.toUInt64)
                (n / 2 ^ 64).toUInt64).1 +
              (mul_row self other_j j k (i + 1) (result.set (i + j) n.toUInt64)
                (n / 2 ^ 64).toUInt64).2.toNat * 2 ^ (64 * (i + j + (k + 1))) +
            (result.getD (i + j) 0).toNat * 2 ^ (64 * (i + j)) =
          value result + carry.toNat * 2 ^ (64 * (i + j)) +
              value ((self.drop i).take (k + 1)) * other_j.toNat * 2 ^ (64 * (i + j)) +
              (result.getD (i + j) 0).toNat * 2 ^ (64 * (i + j)) :=
        calc _ = value (result.set (i + j) n.toUInt64) +
                (result.getD (i + j) 0).toNat * 2 ^ (64 * (i + j)) +
                (n / 2 ^ 64) * 2 ^ (64 * (i + j + 1)) +
                value ((self.drop (i + 1)).take k) * other_j.toNat * 2 ^ (64 * (i + j + 1)) := by
              rw [ih]
              ring
          _ = value result + (n % 2 ^ 64 + 2 ^ 64 * (n / 2 ^ 64)) * 2 ^ (64 * (i + j)) +
                value ((self.drop (i + 1)).take k) * other_j.toNat * 2 ^ (64 * (i + j + 1)) := by
              rw [hset, Nat.mul_succ, pow_add]
              ring
          _ = _ := by
              rw [hdiv, hsplit, hn, Nat.mul_succ, pow_add]
              ring
      exact Nat.add_right_cancel key

/-- What the rows keep: after the rows below `j`, the words are the product of
    `self` with the first `j` words of `other`, modulo `2 ^ BITS`, and a raised
    flag means that partial product does not fit. -/
def RowsInvariant (LIMBS : ℕ) (self other : List UInt64) (j : ℕ) (acc : List UInt64 × Bool) :
    Prop :=
  acc.1.length = LIMBS ∧
    value acc.1 = value self * value (other.take j) % 2 ^ (64 * LIMBS) ∧
    (acc.2 = true → 2 ^ (64 * LIMBS) ≤ value self * value (other.take j))

/-- **ONE ROW KEEPS IT**: row `j` turns the invariant at `j` into the invariant
    at `j + 1`. The words of `self` past `LIMBS - j` would land past the top
    word; they change the product by a multiple of `2 ^ BITS`. -/
theorem mul_step_invariant {LIMBS : ℕ} {self other : List UInt64} {j : ℕ} (hj : j < LIMBS) {acc : List UInt64 × Bool}
    (h : RowsInvariant LIMBS self other j acc) :
    RowsInvariant LIMBS self other (j + 1) (mul_step LIMBS self other acc j) := by
  obtain ⟨hlen, hvalue, hflag⟩ := h
  -- the row from `i = 0` with no carry
  have hrow := mul_row_value self (other.getD j 0) j (LIMBS - j) 0 acc.1 0 (by omega)
  rw [List.drop_zero, Nat.zero_add, UInt64.toNat_zero, Nat.zero_mul, Nat.add_zero,
    show j + (LIMBS - j) = LIMBS by omega] at hrow
  set W := 2 ^ (64 * LIMBS) with hW
  set A := value self
  set Bj := value (other.take j)
  set bj := (other.getD j 0).toNat
  set r' := (mul_row self (other.getD j 0) j (LIMBS - j) 0 acc.1 0).1
  set c' := (mul_row self (other.getD j 0) j (LIMBS - j) 0 acc.1 0).2
  set T := value (self.take (LIMBS - j))
  have hT : A = T + 2 ^ (64 * (LIMBS - j)) * value (self.drop (LIMBS - j)) :=
    value_take_drop self (LIMBS - j)
  have hTle : T ≤ A := value_take_le self (LIMBS - j)
  have hnext : value (other.take (j + 1)) = Bj + bj * 2 ^ (64 * j) := value_take_succ other j
  have hr'len : r'.length = LIMBS := by rw [mul_row_length, hlen]
  have hr'lt : value r' < W := by
    have := value_lt r'
    rwa [hr'len] at this
  have hshift : 2 ^ (64 * (LIMBS - j)) * 2 ^ (64 * j) = W := by
    rw [← pow_add, hW, ← Nat.mul_add, Nat.sub_add_cancel hj.le]
  refine ⟨hr'len, ?_, ?_⟩
  · -- the words: reduce the row's equation modulo `2 ^ BITS`
    have hmod : value r' = (value acc.1 + T * bj * 2 ^ (64 * j)) % W := by
      rw [← hrow, Nat.add_mul_mod_self_right, Nat.mod_eq_of_lt hr'lt]
    have hfull : A * (Bj + bj * 2 ^ (64 * j)) =
        A * Bj + T * bj * 2 ^ (64 * j) +
          W * (value (self.drop (LIMBS - j)) * bj) := by
      rw [hT, ← hshift]
      ring
    show value r' = A * value (other.take (j + 1)) % W
    rw [hmod, hvalue, hnext, hfull, Nat.add_mul_mod_self_left, Nat.add_mod, Nat.mod_mod,
      ← Nat.add_mod]
  · -- the flag: a carry out of the top word means the partial sum reached `2 ^ BITS`
    intro hraised
    have hacc_le : value acc.1 ≤ A * Bj := by
      rw [hvalue]
      exact Nat.mod_le _ _
    have hgrow : A * Bj + T * bj * 2 ^ (64 * j) ≤ A * value (other.take (j + 1)) := by
      rw [hnext, Nat.mul_add]
      have : T * bj * 2 ^ (64 * j) ≤ A * (bj * 2 ^ (64 * j)) := by
        rw [Nat.mul_assoc]
        exact Nat.mul_le_mul_right _ hTle
      omega
    simp only [mul_step, Bool.or_eq_true, bne_iff_ne, ne_eq] at hraised
    rcases hraised with hold | hcarry
    · have hmono : A * Bj ≤ A * value (other.take (j + 1)) := by
        rw [hnext]
        exact Nat.mul_le_mul_left _ (Nat.le_add_right _ _)
      exact le_trans (hflag hold) hmono
    · have hc'pos : 1 ≤ c'.toNat := by
        have : c' ≠ 0 := hcarry
        rw [Ne, ← UInt64.toNat_inj, UInt64.toNat_zero] at this
        omega
      have hW_le : W ≤ value r' + c'.toNat * W := by nlinarith
      rw [hrow] at hW_le
      show W ≤ A * value (other.take (j + 1))
      omega

/-- **ALL ROWS**: the invariant holds after every prefix of the rows. -/
theorem rows_invariant {LIMBS : ℕ} {self other : List UInt64} :
    ∀ j, j ≤ LIMBS →
      RowsInvariant LIMBS self other j
        ((List.range j).foldl (mul_step LIMBS self other) (List.replicate LIMBS 0, false))
  | 0, _ => by
      refine ⟨List.length_replicate, ?_, fun h => absurd h Bool.false_ne_true⟩
      simp [value_replicate_zero]
  | j + 1, hj => by
      rw [List.range_succ, List.foldl_append, List.foldl_cons, List.foldl_nil]
      exact mul_step_invariant (by omega) (rows_invariant j (by omega))

namespace Uint

variable {LIMBS : ℕ}

/-- **PRODUCT**: `overflowing_mul` returns the product modulo `2 ^ BITS`. -/
theorem overflowing_mul_value (a b : Uint LIMBS) :
    (a.overflowing_mul b).1.to_nat = a.to_nat * b.to_nat % 2 ^ BITS LIMBS := by
  obtain ⟨_, hvalue, _⟩ := @rows_invariant LIMBS a.words b.words LIMBS le_rfl
  have htake : b.words.take LIMBS = b.words := List.take_of_length_le (by rw [b.length_words])
  rw [htake] at hvalue
  exact hvalue

/-- **FLAG SOUND**: when `overflowing_mul` raises its flag, the product does not
    fit in `BITS` bits. -/
theorem overflowing_mul_flag_sound (a b : Uint LIMBS) (h : (a.overflowing_mul b).2 = true) :
    2 ^ BITS LIMBS ≤ a.to_nat * b.to_nat := by
  obtain ⟨_, _, hflag⟩ := @rows_invariant LIMBS a.words b.words LIMBS le_rfl
  have htake : b.words.take LIMBS = b.words := List.take_of_length_le (by rw [b.length_words])
  rw [htake] at hflag
  exact hflag h

/-- `Uint192::MAX * 2` raises the flag: the carry leaves the top word of the
    first row. -/
theorem overflowing_mul_flag_sound_max_two :
    (overflowing_mul (⟨[UInt64.ofNat (2 ^ 64 - 1), UInt64.ofNat (2 ^ 64 - 1),
        UInt64.ofNat (2 ^ 64 - 1)], rfl⟩ : Uint UINT192_LIMBS) ⟨[2, 0, 0], rfl⟩).2 = true ∧
      2 ^ BITS UINT192_LIMBS ≤
        to_nat (⟨[UInt64.ofNat (2 ^ 64 - 1), UInt64.ofNat (2 ^ 64 - 1),
          UInt64.ofNat (2 ^ 64 - 1)], rfl⟩ : Uint UINT192_LIMBS) *
        to_nat (⟨[2, 0, 0], rfl⟩ : Uint UINT192_LIMBS) :=
  have hflag : (overflowing_mul (⟨[UInt64.ofNat (2 ^ 64 - 1), UInt64.ofNat (2 ^ 64 - 1),
      UInt64.ofNat (2 ^ 64 - 1)], rfl⟩ : Uint UINT192_LIMBS) ⟨[2, 0, 0], rfl⟩).2 = true := by
    decide
  ⟨hflag, overflowing_mul_flag_sound _ _ hflag⟩

/-- `2 ^ 128` as a `Uint192`: its only nonzero word is the top one. -/
def two_pow_128 : Uint UINT192_LIMBS := ⟨[0, 0, 1], rfl⟩

/-- `2 ^ 128 * 2 ^ 128` overflows a `Uint192`, but its one nonzero word product
    lands past the top word and is never formed: `overflowing_mul` returns zero
    with the flag down, and `Mul::mul`'s `debug_assert!` on the flag passes. -/
theorem overflowing_mul_misses_overflow :
    two_pow_128.overflowing_mul two_pow_128 = (ZERO, false) ∧
      2 ^ BITS UINT192_LIMBS ≤ two_pow_128.to_nat * two_pow_128.to_nat := by
  constructor
  · decide
  · decide

end Uint

/-! ## Addition -/

/-- One word of the sum: the low word and the carry out make up the sum of the
    two words and the carry in. -/
theorem carrying_add_u64_value (lhs rhs : UInt64) (carry : Bool) :
    (carrying_add_u64 lhs rhs carry).1.toNat +
        (if (carrying_add_u64 lhs rhs carry).2 then 2 ^ 64 else 0) =
      lhs.toNat + rhs.toNat + (if carry then 1 else 0) := by
  have hl : lhs.toNat < 2 ^ 64 := lhs.toNat_lt
  have hr : rhs.toNat < 2 ^ 64 := rhs.toNat_lt
  simp only [carrying_add_u64, overflowing_add_u64]
  cases carry <;>
    simp only [UInt64.toNat_add, UInt64.toNat_zero, UInt64.toNat_one, Bool.false_eq_true,
      if_false, if_true, bne_iff_ne, ne_eq, decide_eq_decide] <;>
    split_ifs <;> simp_all <;> omega

/-- **SUM**: the words `add_words` returns and its final carry make up the sum
    of the two word lists and the carry in. -/
theorem add_words_value : ∀ (xs ys : List UInt64) (carry : Bool), xs.length = ys.length →
    value (add_words xs ys carry).1 +
        (if (add_words xs ys carry).2 then 2 ^ (64 * xs.length) else 0) =
      value xs + value ys + (if carry then 1 else 0)
  | [], [], carry, _ => by cases carry <;> simp [add_words]
  | x :: xs, y :: ys, carry, hlen => by
      set w := carrying_add_u64 x y carry
      set rest := add_words xs ys w.2
      have ih : value rest.1 + (if rest.2 then 2 ^ (64 * xs.length) else 0) =
          value xs + value ys + (if w.2 then 1 else 0) :=
        add_words_value xs ys w.2 (by simpa using hlen)
      have hword : w.1.toNat + (if w.2 then 2 ^ 64 else 0) =
          x.toNat + y.toNat + (if carry then 1 else 0) := carrying_add_u64_value x y carry
      have hstep : add_words (x :: xs) (y :: ys) carry = (w.1 :: rest.1, rest.2) := rfl
      rw [hstep, value_cons, value_cons x xs, value_cons y ys, List.length_cons, Nat.mul_succ,
        pow_add]
      -- the word's carry out is the rest's carry in
      cases hr : rest.2 <;> cases hc : w.2 <;> cases carry <;>
        simp only [hr, hc, Bool.false_eq_true, if_false, if_true] at ih hword ⊢ <;> linarith
  | [], _ :: _, _, hlen => absurd hlen (by simp)
  | _ :: _, [], _, hlen => absurd hlen (by simp)

/-- A result below `B` and a flag worth `B` that make up `S` together: the result
    is `S` modulo `B`, and the flag says whether `S` reached `B`. -/
theorem mod_and_flag_of_value {r S B : ℕ} {flag : Bool} (hr : r < B)
    (h : r + (if flag then B else 0) = S) : r = S % B ∧ (flag = true ↔ B ≤ S) := by
  cases flag
  · rw [if_neg Bool.false_ne_true, Nat.add_zero] at h
    subst h
    exact ⟨(Nat.mod_eq_of_lt hr).symm, by simpa using hr⟩
  · rw [if_pos rfl] at h
    subst h
    exact ⟨by rw [Nat.add_mod_right, Nat.mod_eq_of_lt hr], by simp⟩

namespace Uint

variable {LIMBS : ℕ}

/-- The words and the flag of `overflowing_add` make up the sum. -/
theorem overflowing_add_sum (a b : Uint LIMBS) :
    (a.overflowing_add b).1.to_nat + (if (a.overflowing_add b).2 then 2 ^ BITS LIMBS else 0) =
      a.to_nat + b.to_nat := by
  have h := add_words_value a.words b.words false (by rw [a.length_words, b.length_words])
  rw [a.length_words] at h
  exact h

/-- **ADDITION**: `overflowing_add` returns the sum modulo `2 ^ BITS`, and its
    flag says exactly whether the sum does not fit. -/
theorem overflowing_add_exact (a b : Uint LIMBS) :
    (a.overflowing_add b).1.to_nat = (a.to_nat + b.to_nat) % 2 ^ BITS LIMBS ∧
      ((a.overflowing_add b).2 = true ↔ 2 ^ BITS LIMBS ≤ a.to_nat + b.to_nat) :=
  mod_and_flag_of_value (to_nat_lt _) (overflowing_add_sum a b)

/-- `Uint192::MAX + 1` wraps to zero with the flag up. -/
example :
    (overflowing_add (⟨[UInt64.ofNat (2 ^ 64 - 1), UInt64.ofNat (2 ^ 64 - 1),
        UInt64.ofNat (2 ^ 64 - 1)], rfl⟩ : Uint UINT192_LIMBS) ⟨[1, 0, 0], rfl⟩) = (ZERO, true) := by
  decide

end Uint

end KashMath
