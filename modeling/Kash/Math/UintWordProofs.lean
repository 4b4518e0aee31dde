import Kash.Math.UintProofs

/-! # What the word operations of `uint.rs` compute

    Each operation is proved exact against the number its words denote.
    `overflowing_sub` returns the difference modulo `2 ^ BITS`, with the borrow
    out of the top word as its flag (`overflowing_sub_exact`).
    `overflowing_add_u64` stops at the first word that does not carry, and what it
    leaves is still the sum (`overflowing_add_u64_exact`). `carrying_mul_u64`
    returns the low `BITS` bits of the product and the word above them
    (`carrying_mul_u64_exact`). The shifts are compared with the number bit by bit
    (`shl_words_value`, `shr_words_value`), `cmp` is the order of the numbers
    (`cmp_eq_compare`), and each byte conversion is undone by its inverse. -/

namespace KashMath

open Limbs

/-! ## Subtraction -/

/-- A result below `B` that, with `b` added, makes up `a` and a borrow worth `B`:
    the result is `a - b` modulo `B`, and the borrow says whether `a < b`. -/
theorem sub_mod_and_flag_of_value {r a b B : ℕ} {flag : Bool} (hr : r < B) (hb : b < B)
    (h : r + b = a + (if flag then B else 0)) :
    r = (a + B - b) % B ∧ (flag = true ↔ a < b) := by
  cases flag
  · rw [if_neg Bool.false_ne_true, Nat.add_zero] at h
    have hsub : a + B - b = r + B := by omega
    refine ⟨by rw [hsub, Nat.add_mod_right, Nat.mod_eq_of_lt hr], ?_⟩
    simp only [Bool.false_eq_true, false_iff, not_lt]
    omega
  · rw [if_pos rfl] at h
    have hsub : a + B - b = r := by omega
    refine ⟨by rw [hsub, Nat.mod_eq_of_lt hr], ?_⟩
    simp only [true_iff]
    omega

/-- One wrapped subtraction: what it returns and what it took away make up the
    word it started from, and `2 ^ 64` more when it wrapped. -/
theorem overflowing_sub_u64_value (lhs rhs : UInt64) :
    (overflowing_sub_u64 lhs rhs).1.toNat + rhs.toNat =
      lhs.toNat + (if (overflowing_sub_u64 lhs rhs).2 then 2 ^ 64 else 0) := by
  have hl : lhs.toNat < 2 ^ 64 := lhs.toNat_lt
  have hr : rhs.toNat < 2 ^ 64 := rhs.toNat_lt
  simp only [overflowing_sub_u64, UInt64.toNat_sub, decide_eq_true_eq]
  split_ifs <;> omega

/-- One word of the difference, with the borrow in and the borrow out. The two
    subtractions never both wrap: after a wrap the word is at least one. -/
theorem borrowing_sub_u64_value (lhs rhs : UInt64) (borrow : Bool) :
    (borrowing_sub_u64 lhs rhs borrow).1.toNat + rhs.toNat + (if borrow then 1 else 0) =
      lhs.toNat + (if (borrowing_sub_u64 lhs rhs borrow).2 then 2 ^ 64 else 0) := by
  have hfirst := overflowing_sub_u64_value lhs rhs
  have hsecond := overflowing_sub_u64_value (overflowing_sub_u64 lhs rhs).1 (if borrow then 1 else 0)
  have hone : (if borrow then (1 : UInt64) else 0).toNat = if borrow then 1 else 0 := by
    cases borrow <;> rfl
  rw [hone] at hsecond
  have hstep : borrowing_sub_u64 lhs rhs borrow =
      ((overflowing_sub_u64 (overflowing_sub_u64 lhs rhs).1 (if borrow then 1 else 0)).1,
        (overflowing_sub_u64 lhs rhs).2 !=
          (overflowing_sub_u64 (overflowing_sub_u64 lhs rhs).1 (if borrow then 1 else 0)).2) := rfl
  rw [hstep]
  clear hone hstep
  generalize overflowing_sub_u64 (overflowing_sub_u64 lhs rhs).1 (if borrow then 1 else 0) = second
    at hsecond ⊢
  generalize overflowing_sub_u64 lhs rhs = first at hfirst hsecond ⊢
  obtain ⟨c, d⟩ := second
  obtain ⟨a, b⟩ := first
  have hc : c.toNat < 2 ^ 64 := c.toNat_lt
  have hr : rhs.toNat < 2 ^ 64 := rhs.toNat_lt
  cases borrow <;> cases b <;> cases d <;>
    simp only [Bool.false_eq_true, if_true, if_false, Bool.bne_true, Bool.bne_false,
      Bool.not_true, Bool.not_false] at hfirst hsecond ⊢ <;> omega

/-- **DIFFERENCE**: the words `sub_words` returns, with the subtrahend and the
    borrow in added, make up the minuend and the final borrow. -/
theorem sub_words_value : ∀ (xs ys : List UInt64) (borrow : Bool), xs.length = ys.length →
    value (sub_words xs ys borrow).1 + value ys + (if borrow then 1 else 0) =
      value xs + (if (sub_words xs ys borrow).2 then 2 ^ (64 * xs.length) else 0)
  | [], [], borrow, _ => by cases borrow <;> simp [sub_words]
  | x :: xs, y :: ys, borrow, hlen => by
      set w := borrowing_sub_u64 x y borrow
      set rest := sub_words xs ys w.2
      have ih : value rest.1 + value ys + (if w.2 then 1 else 0) =
          value xs + (if rest.2 then 2 ^ (64 * xs.length) else 0) :=
        sub_words_value xs ys w.2 (by simpa using hlen)
      have hword : w.1.toNat + y.toNat + (if borrow then 1 else 0) =
          x.toNat + (if w.2 then 2 ^ 64 else 0) := borrowing_sub_u64_value x y borrow
      have hstep : sub_words (x :: xs) (y :: ys) borrow = (w.1 :: rest.1, rest.2) := rfl
      rw [hstep, value_cons, value_cons x xs, value_cons y ys, List.length_cons, Nat.mul_succ,
        pow_add]
      -- the word's borrow out is the rest's borrow in
      cases hr : rest.2 <;> cases hc : w.2 <;> cases borrow <;>
        simp only [hr, hc, Bool.false_eq_true, if_false, if_true] at ih hword ⊢ <;> linarith
  | [], _ :: _, _, hlen => absurd hlen (by simp)
  | _ :: _, [], _, hlen => absurd hlen (by simp)

/-! ## Adding a word -/

/-- One wrapped addition: the word and the carry out make up the sum. -/
theorem overflowing_add_u64_value (lhs rhs : UInt64) :
    (overflowing_add_u64 lhs rhs).1.toNat + (if (overflowing_add_u64 lhs rhs).2 then 2 ^ 64 else 0) =
      lhs.toNat + rhs.toNat := by
  have hl : lhs.toNat < 2 ^ 64 := lhs.toNat_lt
  have hr : rhs.toNat < 2 ^ 64 := rhs.toNat_lt
  simp only [overflowing_add_u64, UInt64.toNat_add, decide_eq_true_eq]
  split_ifs <;> omega

/-- **THE CARRY RUNS UP**: the words the carry loop leaves and its carry out make
    up the words it started from and the carry in. Breaking at the first word that
    does not carry loses nothing. -/
theorem carry_words_value : ∀ (ws : List UInt64) (carry : Bool),
    value (carry_words ws carry).1 +
        (if (carry_words ws carry).2 then 2 ^ (64 * ws.length) else 0) =
      value ws + (if carry then 1 else 0)
  | ws, false => by cases ws <;> simp [carry_words]
  | [], true => by simp [carry_words]
  | w :: ws, true => by
      set first := overflowing_add_u64 w 1
      set rest := carry_words ws first.2
      have ih : value rest.1 + (if rest.2 then 2 ^ (64 * ws.length) else 0) =
          value ws + (if first.2 then 1 else 0) := carry_words_value ws first.2
      have hword : first.1.toNat + (if first.2 then 2 ^ 64 else 0) = w.toNat + 1 := by
        rw [overflowing_add_u64_value, UInt64.toNat_one]
      have hstep : carry_words (w :: ws) true = (first.1 :: rest.1, rest.2) := rfl
      rw [hstep, value_cons, value_cons, List.length_cons, Nat.mul_succ, pow_add]
      cases hr : rest.2 <;> cases hc : first.2 <;>
        simp only [hr, hc, Bool.false_eq_true, if_false, if_true] at ih hword ⊢ <;> linarith

/-! ## Multiplying by a word -/

/-- **ONE WORD AT A TIME**: the words `mul_u64_words` writes and its final carry
    make up the product of the words with `other`, plus the carry in; the carry
    stays below `2 ^ 64`. -/
theorem mul_u64_words_value (other : UInt64) : ∀ (ws : List UInt64) (carry : ℕ),
    carry < 2 ^ 64 →
      value (mul_u64_words other ws carry).1 +
          2 ^ (64 * ws.length) * (mul_u64_words other ws carry).2 =
        value ws * other.toNat + carry ∧ (mul_u64_words other ws carry).2 < 2 ^ 64
  | [], carry, hc => ⟨by simp [mul_u64_words], hc⟩
  | w :: ws, carry, hc => by
      set n := carry + other.toNat * w.toNat with hn_def
      have hn : n < 2 ^ 64 * 2 ^ 64 := by
        have h := mul_word_lt other w 0 carry.toUInt64
        rw [UInt64.toNat_zero, Nat.add_zero, Nat.toUInt64_eq, UInt64.toNat_ofNat',
          Nat.mod_eq_of_lt hc] at h
        omega
      have hhigh_lt : n / 2 ^ 64 < 2 ^ 64 := Nat.div_lt_of_lt_mul hn
      -- `(n >> 64) & u64::MAX` is the high word of `n`
      have hhigh : n >>> 64 &&& (2 ^ 64 - 1) = n / 2 ^ 64 := by
        rw [Nat.and_two_pow_sub_one_eq_mod, Nat.shiftRight_eq_div_pow, Nat.mod_eq_of_lt hhigh_lt]
      obtain ⟨ih, hlt⟩ := mul_u64_words_value other ws (n / 2 ^ 64) hhigh_lt
      have hstep : mul_u64_words other (w :: ws) carry =
          (n.toUInt64 :: (mul_u64_words other ws (n / 2 ^ 64)).1,
            (mul_u64_words other ws (n / 2 ^ 64)).2) := by
        rw [mul_u64_words, hhigh]
      rw [hstep]
      refine ⟨?_, hlt⟩
      rw [value_cons, value_cons, List.length_cons, Nat.toUInt64_eq, UInt64.toNat_ofNat']
      calc n % 2 ^ 64 + 2 ^ 64 * value (mul_u64_words other ws (n / 2 ^ 64)).1 +
            2 ^ (64 * (ws.length + 1)) * (mul_u64_words other ws (n / 2 ^ 64)).2
          = n % 2 ^ 64 + 2 ^ 64 * (value (mul_u64_words other ws (n / 2 ^ 64)).1 +
              2 ^ (64 * ws.length) * (mul_u64_words other ws (n / 2 ^ 64)).2) := by
            rw [Nat.mul_succ, pow_add]
            ring
        _ = n % 2 ^ 64 + 2 ^ 64 * (value ws * other.toNat + n / 2 ^ 64) := by rw [ih]
        _ = (n % 2 ^ 64 + 2 ^ 64 * (n / 2 ^ 64)) + 2 ^ 64 * value ws * other.toNat := by ring
        _ = (w.toNat + 2 ^ 64 * value ws) * other.toNat + carry := by
            rw [Nat.mod_add_div, hn_def]
            ring

/-! ## Shifts -/

/-- Bit `k` of a word shifted left by fewer than `64` bits. -/
theorem testBit_shiftLeft_word (a : UInt64) {ls k : ℕ} (hls : ls < 64) (hk : k < 64) :
    (a <<< ls.toUInt64).toNat.testBit k = (decide (ls ≤ k) && a.toNat.testBit (k - ls)) := by
  rw [UInt64.toNat_shiftLeft, Nat.toUInt64_eq, UInt64.toNat_ofNat',
    Nat.mod_eq_of_lt (show ls < 2 ^ 64 by omega), Nat.mod_eq_of_lt hls, Nat.testBit_mod_two_pow,
    Nat.testBit_shiftLeft]
  simp [hk]

/-- Bit `k` of a word shifted right by fewer than `64` bits. -/
theorem testBit_shiftRight_word (a : UInt64) {ls : ℕ} (k : ℕ) (hls : ls < 64) :
    (a >>> ls.toUInt64).toNat.testBit k = a.toNat.testBit (ls + k) := by
  rw [UInt64.toNat_shiftRight, Nat.toUInt64_eq, UInt64.toNat_ofNat',
    Nat.mod_eq_of_lt (show ls < 2 ^ 64 by omega), Nat.mod_eq_of_lt hls, Nat.testBit_shiftRight]

/-- A word has no bit from `64` on. -/
theorem testBit_word_of_le (a : UInt64) {k : ℕ} (hk : 64 ≤ k) : a.toNat.testBit k = false :=
  Nat.testBit_lt_two_pow (lt_of_lt_of_le a.toNat_lt (Nat.pow_le_pow_right (by norm_num) hk))

/-- The first loop of `overflowing_shl`: word `i` is word `i - left_words` shifted
    left, and the words below `left_words` stay zero. -/
theorem getD_shl_first_loop (self : List UInt64) (LIMBS lw : ℕ) (sh : UInt64) {i : ℕ}
    (hi : i < LIMBS) :
    ((List.range' lw (LIMBS - lw)).foldl (fun ret i => ret.set i (self.getD (i - lw) 0 <<< sh))
        (List.replicate LIMBS 0)).getD i 0 =
      if lw ≤ i then self.getD (i - lw) 0 <<< sh else 0 := by
  split_ifs with h
  · exact getD_foldl_set_of_mem (fun i => i) (fun i _ => self.getD (i - lw) 0 <<< sh) 0 _ _ i i
      (by rw [List.map_id']; exact List.nodup_range')
      (List.mem_range'.mpr ⟨i - lw, by omega, by omega⟩) rfl (by rwa [List.length_replicate])
  · have hne : ∀ j ∈ List.range' lw (LIMBS - lw), j ≠ i := by
      intro j hj
      obtain ⟨t, -, rfl⟩ := List.mem_range'.mp hj
      omega
    calc _ = (List.replicate LIMBS (0 : UInt64)).getD i 0 :=
          getD_foldl_set_of_forall_ne (fun i => i) (fun i _ => self.getD (i - lw) 0 <<< sh) 0 _ _ i
            hne
      _ = 0 := List.getD_replicate _ hi

/-- The second loop of `overflowing_shl`: from word `left_words + 1` on, the bits
    that cross over from the word below are ORed in. -/
theorem getD_shl_second_loop (self ret : List UInt64) (LIMBS lw : ℕ) (sh : UInt64) {i : ℕ}
    (hlen : ret.length = LIMBS) (hi : i < LIMBS) :
    ((List.range' (lw + 1) (LIMBS - (lw + 1))).foldl
        (fun ret i => ret.set i (ret.getD i 0 ||| self.getD (i - 1 - lw) 0 >>> sh)) ret).getD i 0 =
      if lw < i then ret.getD i 0 ||| self.getD (i - 1 - lw) 0 >>> sh else ret.getD i 0 := by
  split_ifs with h
  · exact getD_foldl_set_of_mem (fun i => i) (fun i w => w ||| self.getD (i - 1 - lw) 0 >>> sh) 0
      _ _ i i (by rw [List.map_id']; exact List.nodup_range')
      (List.mem_range'.mpr ⟨i - (lw + 1), by omega, by omega⟩) rfl (by rwa [hlen])
  · apply getD_foldl_set_of_forall_ne (fun i => i) (fun i w => w ||| self.getD (i - 1 - lw) 0 >>> sh)
    intro j hj
    obtain ⟨t, -, rfl⟩ := List.mem_range'.mp hj
    omega

/-- Word `i` of `overflowing_shl`: word `i - left_words` shifted left, with the
    bits from the word below it when the shift has bits. -/
theorem getD_shl_words (self : List UInt64) (LIMBS s : ℕ) {i : ℕ} (hi : i < LIMBS) :
    (shl_words self LIMBS s).getD i 0 =
      if s / 64 ≤ i then
        self.getD (i - s / 64) 0 <<< (s % 64).toUInt64 |||
          (if 0 < s % 64 ∧ s / 64 < i then
            self.getD (i - 1 - s / 64) 0 >>> (64 - s % 64).toUInt64 else 0)
      else 0 := by
  have hfirst := getD_shl_first_loop self LIMBS (s / 64) (s % 64).toUInt64 hi
  dsimp only [shl_words]
  by_cases hls : 0 < s % 64
  · rw [if_pos hls, getD_shl_second_loop self _ LIMBS (s / 64) _
      (by simp only [length_foldl_set, List.length_replicate]) hi, hfirst]
    by_cases h1 : s / 64 ≤ i
    · by_cases h2 : s / 64 < i
      · simp only [h1, h2, hls, and_self, if_true]
      · simp only [h1, h2, and_false, if_true, if_false, UInt64.or_zero]
    · simp only [h1, show ¬ s / 64 < i by omega, if_false]
  · rw [if_neg hls, hfirst]
    simp only [hls, false_and, if_false, UInt64.or_zero]

/-- **BIT BY BIT, LEFT**: bit `k` of word `i` of `overflowing_shl` is bit
    `64 * i + k - s` of the number, or zero below the shift. -/
theorem testBit_shl_words (self : List UInt64) (LIMBS s : ℕ) {i k : ℕ} (hi : i < LIMBS)
    (hk : k < 64) :
    ((shl_words self LIMBS s).getD i 0).toNat.testBit k =
      (decide (s ≤ 64 * i + k) && (value self).testBit (64 * i + k - s)) := by
  have hls : s % 64 < 64 := Nat.mod_lt _ (by norm_num)
  rw [getD_shl_words self LIMBS s hi, testBit_value_eq]
  by_cases h1 : s / 64 ≤ i
  · rw [if_pos h1, UInt64.toNat_or, Nat.testBit_or, testBit_shiftLeft_word _ hls hk]
    by_cases hks : s % 64 ≤ k
    · -- the bit comes from word `i - left_words`, and nothing crosses over into it
      have hle : s ≤ 64 * i + k := by omega
      have hq : (64 * i + k - s) / 64 = i - s / 64 := by omega
      have hr : (64 * i + k - s) % 64 = k - s % 64 := by omega
      have hcross : (if 0 < s % 64 ∧ s / 64 < i then
          self.getD (i - 1 - s / 64) 0 >>> (64 - s % 64).toUInt64 else 0).toNat.testBit k =
            false := by
        split_ifs
        · rw [testBit_shiftRight_word _ _ (by omega)]
          exact testBit_word_of_le _ (by omega)
        · simp
      rw [hcross, hq, hr]
      simp [hks, hle]
    · by_cases h2 : s / 64 < i
      · -- the bit crosses over from word `i - 1 - left_words`
        have hle : s ≤ 64 * i + k := by omega
        have hq : (64 * i + k - s) / 64 = i - 1 - s / 64 := by omega
        have hr : (64 * i + k - s) % 64 = 64 - s % 64 + k := by omega
        rw [if_pos ⟨by omega, h2⟩, testBit_shiftRight_word _ _ (by omega), hq, hr]
        simp [hks, hle]
      · -- word `left_words` below the shift
        have hlt : ¬ s ≤ 64 * i + k := by omega
        rw [if_neg (fun h => h2 h.2)]
        simp [hks, hlt]
  · have hlt : ¬ s ≤ 64 * i + k := by omega
    rw [if_neg h1]
    simp [hlt]

/-- **SHIFT LEFT**: the words of `overflowing_shl` denote the number times
    `2 ^ s`, modulo the width. -/
theorem shl_words_value (self : List UInt64) (LIMBS s : ℕ) :
    value (shl_words self LIMBS s) = value self * 2 ^ s % 2 ^ (64 * LIMBS) := by
  apply Nat.eq_of_testBit_eq
  intro m
  rw [Nat.testBit_mod_two_pow, Nat.testBit_mul_two_pow, testBit_value_eq (shl_words self LIMBS s)]
  by_cases hm : m < 64 * LIMBS
  · rw [testBit_shl_words self LIMBS s (by omega) (Nat.mod_lt _ (by norm_num)),
      Nat.div_add_mod m 64]
    simp [hm]
  · -- no word holds bit `m`
    rw [List.getD_eq_default _ _ (by rw [shl_words_length]; omega)]
    simp [hm]

/-- The first loop of `overflowing_shr`: word `j` is word `j + left_words` shifted
    right, and the words from `LIMBS - left_words` on stay zero. -/
theorem getD_shr_first_loop (self : List UInt64) (LIMBS lw : ℕ) (sh : UInt64) {j : ℕ}
    (hj : j < LIMBS) :
    ((List.range' lw (LIMBS - lw)).foldl (fun ret i => ret.set (i - lw) (self.getD i 0 >>> sh))
        (List.replicate LIMBS 0)).getD j 0 =
      if j + lw < LIMBS then self.getD (j + lw) 0 >>> sh else 0 := by
  split_ifs with h
  · refine getD_foldl_set_of_mem (fun i => i - lw) (fun i _ => self.getD i 0 >>> sh) 0 _ _
      (j + lw) j ?_ (List.mem_range'.mpr ⟨j, by omega, by omega⟩) (by omega)
      (by rwa [List.length_replicate])
    refine List.Nodup.map_on ?_ List.nodup_range'
    intro x hx y hy hxy
    obtain ⟨t, -, rfl⟩ := List.mem_range'.mp hx
    obtain ⟨u, -, rfl⟩ := List.mem_range'.mp hy
    omega
  · have hne : ∀ i ∈ List.range' lw (LIMBS - lw), i - lw ≠ j := by
      intro i hi
      obtain ⟨t, ht, rfl⟩ := List.mem_range'.mp hi
      omega
    calc _ = (List.replicate LIMBS (0 : UInt64)).getD j 0 :=
          getD_foldl_set_of_forall_ne (fun i => i - lw) (fun i _ => self.getD i 0 >>> sh) 0 _ _ j hne
      _ = 0 := List.getD_replicate _ hj

/-- The second loop of `overflowing_shr`: below word `LIMBS - left_words - 1`,
    the bits that cross over from the word above are ORed in. -/
theorem getD_shr_second_loop (self ret : List UInt64) (LIMBS lw : ℕ) (sh : UInt64) {j : ℕ}
    (hlen : ret.length = LIMBS) (hj : j < LIMBS) :
    ((List.range' (lw + 1) (LIMBS - (lw + 1))).foldl
        (fun ret i => ret.set (i - lw - 1) (ret.getD (i - lw - 1) 0 ||| self.getD i 0 <<< sh))
        ret).getD j 0 =
      if j + lw + 1 < LIMBS then ret.getD j 0 ||| self.getD (j + lw + 1) 0 <<< sh
      else ret.getD j 0 := by
  split_ifs with h
  · refine getD_foldl_set_of_mem (fun i => i - lw - 1) (fun i w => w ||| self.getD i 0 <<< sh) 0
      _ _ (j + lw + 1) j ?_ (List.mem_range'.mpr ⟨j, by omega, by omega⟩) (by omega)
      (by rwa [hlen])
    refine List.Nodup.map_on ?_ List.nodup_range'
    intro x hx y hy hxy
    obtain ⟨t, -, rfl⟩ := List.mem_range'.mp hx
    obtain ⟨u, -, rfl⟩ := List.mem_range'.mp hy
    omega
  · apply getD_foldl_set_of_forall_ne (fun i => i - lw - 1) (fun i w => w ||| self.getD i 0 <<< sh)
    intro i hi
    obtain ⟨t, ht, rfl⟩ := List.mem_range'.mp hi
    omega

/-- Word `j` of `overflowing_shr`: word `j + left_words` shifted right, with the
    bits from the word above it when the shift has bits. -/
theorem getD_shr_words (self : List UInt64) (LIMBS s : ℕ) {j : ℕ} (hj : j < LIMBS) :
    (shr_words self LIMBS s).getD j 0 =
      if j + s / 64 < LIMBS then
        self.getD (j + s / 64) 0 >>> (s % 64).toUInt64 |||
          (if 0 < s % 64 ∧ j + s / 64 + 1 < LIMBS then
            self.getD (j + s / 64 + 1) 0 <<< (64 - s % 64).toUInt64 else 0)
      else 0 := by
  have hfirst := getD_shr_first_loop self LIMBS (s / 64) (s % 64).toUInt64 hj
  dsimp only [shr_words]
  by_cases hls : 0 < s % 64
  · rw [if_pos hls, getD_shr_second_loop self _ LIMBS (s / 64) _
      (by simp only [length_foldl_set, List.length_replicate]) hj, hfirst]
    by_cases h1 : j + s / 64 < LIMBS
    · by_cases h2 : j + s / 64 + 1 < LIMBS
      · simp only [h1, h2, hls, and_self, if_true]
      · simp only [h1, h2, and_false, if_true, if_false, UInt64.or_zero]
    · simp only [h1, show ¬ j + s / 64 + 1 < LIMBS by omega, if_false]
  · rw [if_neg hls, hfirst]
    simp only [hls, false_and, if_false, UInt64.or_zero]

/-- **BIT BY BIT, RIGHT**: bit `k` of word `j` of `overflowing_shr` is bit
    `64 * j + k + s` of the number. -/
theorem testBit_shr_words (self : List UInt64) (LIMBS s : ℕ) (hlen : self.length = LIMBS)
    {j k : ℕ} (hj : j < LIMBS) (hk : k < 64) :
    ((shr_words self LIMBS s).getD j 0).toNat.testBit k = (value self).testBit (64 * j + k + s) := by
  have hls : s % 64 < 64 := Nat.mod_lt _ (by norm_num)
  -- a word past the end of `self` has no bits
  have hpast : ∀ q, LIMBS ≤ q → self.getD q 0 = 0 := fun q hq =>
    List.getD_eq_default _ _ (by omega)
  rw [getD_shr_words self LIMBS s hj, testBit_value_eq]
  by_cases h1 : j + s / 64 < LIMBS
  · rw [if_pos h1, UInt64.toNat_or, Nat.testBit_or, testBit_shiftRight_word _ _ hls]
    by_cases hks : k + s % 64 < 64
    · -- the bit comes from word `j + left_words`, and nothing crosses over into it
      have hq : (64 * j + k + s) / 64 = j + s / 64 := by omega
      have hr : (64 * j + k + s) % 64 = s % 64 + k := by omega
      have hcross : (if 0 < s % 64 ∧ j + s / 64 + 1 < LIMBS then
          self.getD (j + s / 64 + 1) 0 <<< (64 - s % 64).toUInt64 else 0).toNat.testBit k =
            false := by
        split_ifs
        · rw [testBit_shiftLeft_word _ (by omega) hk]
          simp only [Bool.and_eq_false_imp, decide_eq_true_eq]
          omega
        · simp
      rw [hcross, hq, hr, Bool.or_false]
    · -- the bit crosses over from word `j + left_words + 1`
      have hq : (64 * j + k + s) / 64 = j + s / 64 + 1 := by omega
      have hr : (64 * j + k + s) % 64 = k - (64 - s % 64) := by omega
      rw [testBit_word_of_le _ (by omega), Bool.false_or, hq, hr]
      by_cases h2 : j + s / 64 + 1 < LIMBS
      · rw [if_pos ⟨by omega, h2⟩, testBit_shiftLeft_word _ (by omega) hk]
        simp only [show 64 - s % 64 ≤ k by omega, decide_true, Bool.true_and]
      · rw [if_neg (fun h => h2 h.2), hpast _ (by omega)]
        simp
  · rw [if_neg h1, hpast _ (by omega)]
    simp

/-- **SHIFT RIGHT**: the words of `overflowing_shr` denote the number divided by
    `2 ^ s`. -/
theorem shr_words_value (self : List UInt64) (LIMBS s : ℕ) (hlen : self.length = LIMBS) :
    value (shr_words self LIMBS s) = value self / 2 ^ s := by
  apply Nat.eq_of_testBit_eq
  intro m
  rw [Nat.testBit_div_two_pow, testBit_value_eq (shr_words self LIMBS s)]
  by_cases hm : m / 64 < LIMBS
  · rw [testBit_shr_words self LIMBS s hlen hm (Nat.mod_lt _ (by norm_num)), Nat.div_add_mod m 64]
  · -- no word holds bit `m`, and the number has no bit from `BITS` on
    have hlt : value self < 2 ^ (m + s) :=
      lt_of_lt_of_le (value_lt self) (Nat.pow_le_pow_right (by norm_num) (by omega))
    rw [List.getD_eq_default _ _ (by rw [shr_words_length]; omega), Nat.testBit_lt_two_pow hlt]
    simp

/-! ## Comparison -/

/-- Two numbers of two digits in base `B`: the high digits decide, and the low
    ones only when the high ones are equal. -/
theorem compare_add_mul {a c x y B : ℕ} (ha : a < B) (hc : c < B) :
    compare (a + B * x) (c + B * y) = (compare x y).then (compare a c) := by
  rcases lt_trichotomy x y with hxy | rfl | hxy
  · have hB : B * (x + 1) ≤ B * y := Nat.mul_le_mul_left B hxy
    have hlt : a + B * x < c + B * y := by rw [Nat.mul_succ] at hB; omega
    rw [compare_lt_iff_lt.mpr hlt, compare_lt_iff_lt.mpr hxy]
    rfl
  · -- equal high digits: the low ones decide
    rw [compare_eq_iff_eq.mpr (rfl : x = x)]
    show compare (a + B * x) (c + B * x) = compare a c
    rcases lt_trichotomy a c with hac | rfl | hac
    · rw [compare_lt_iff_lt.mpr hac, compare_lt_iff_lt.mpr (by omega)]
    · exact (compare_eq_iff_eq.mpr rfl).trans (compare_eq_iff_eq.mpr rfl).symm
    · rw [compare_gt_iff_gt.mpr hac, compare_gt_iff_gt.mpr (by omega)]
  · have hB : B * (y + 1) ≤ B * x := Nat.mul_le_mul_left B hxy
    have hgt : c + B * y < a + B * x := by rw [Nat.mul_succ] at hB; omega
    rw [compare_gt_iff_gt.mpr hgt, compare_gt_iff_gt.mpr hxy]
    rfl

/-- **ITERATOR ORDER**: comparing two word lists of one length from the most
    significant word compares the numbers they denote. -/
theorem iter_cmp_reverse : ∀ (rx ry : List UInt64), rx.length = ry.length →
    iter_cmp rx ry = compare (value rx.reverse) (value ry.reverse)
  | [], [], _ => (compare_eq_iff_eq.mpr rfl).symm
  | x :: rx, y :: ry, h => by
      have hlen : rx.length = ry.length := by simpa using h
      have hx : value rx.reverse < 2 ^ (64 * rx.length) := by
        simpa using value_lt rx.reverse
      have hy : value ry.reverse < 2 ^ (64 * rx.length) := by
        simpa [hlen] using value_lt ry.reverse
      rw [iter_cmp, iter_cmp_reverse rx ry hlen, List.reverse_cons, List.reverse_cons,
        value_append, value_append, List.length_reverse, List.length_reverse, ← hlen]
      simp only [value_cons, value_nil, Nat.mul_zero, Nat.add_zero]
      rw [compare_add_mul hx hy, UInt64.compare_eq_toNat_compare_toNat]
  | [], _ :: _, h => absurd h (by simp)
  | _ :: _, [], h => absurd h (by simp)

/-! ## Bytes -/

/-- `u64::from_le_bytes` reads the bytes as a little-endian number, modulo
    `2 ^ 64`. -/
theorem u64_from_le_bytes_toNat : ∀ bytes : List UInt8,
    (u64_from_le_bytes bytes).toNat = Nat.ofDigits (2 ^ 8) (bytes.map UInt8.toNat) % 2 ^ 64
  | [] => rfl
  | b :: bytes => by
      have ih := u64_from_le_bytes_toNat bytes
      have hstep : u64_from_le_bytes (b :: bytes) =
          (u64_from_le_bytes bytes <<< 8) ||| b.toUInt64 := rfl
      rw [hstep, toNat_shift_byte, ih, List.map_cons, Nat.ofDigits_cons, Nat.add_mod, Nat.mul_mod,
        Nat.mod_mod, ← Nat.mul_mod, ← Nat.add_mod]
      congr 1
      ring

theorem length_u64_to_le_bytes (w : UInt64) : (u64_to_le_bytes w).length = 8 := by
  rw [u64_to_le_bytes, List.length_map, List.length_range]

theorem length_u64_to_be_bytes (w : UInt64) : (u64_to_be_bytes w).length = 8 := by
  rw [u64_to_be_bytes, List.length_reverse, length_u64_to_le_bytes]

/-- `u64::from_le_bytes` undoes `u64::to_le_bytes`. -/
theorem u64_from_le_bytes_to_le_bytes (w : UInt64) : u64_from_le_bytes (u64_to_le_bytes w) = w := by
  have hbyte : ∀ i ∈ List.range 8, ((w >>> (8 * i).toUInt64).toUInt8).toNat =
      w.toNat / (2 ^ 8) ^ i % 2 ^ 8 := fun i hi => toNat_byte w (List.mem_range.mp hi)
  rw [← UInt64.toNat_inj, u64_from_le_bytes_toNat, u64_to_le_bytes, List.map_map,
    Function.comp_def, List.map_congr_left hbyte, ofDigits_low_digits, Nat.mod_mod_of_dvd _ (by norm_num),
    Nat.mod_eq_of_lt w.toNat_lt]

/-- `u64::to_le_bytes` undoes `u64::from_le_bytes` on eight bytes. -/
theorem u64_to_le_bytes_from_le_bytes (bytes : List UInt8) (h : bytes.length = 8) :
    u64_to_le_bytes (u64_from_le_bytes bytes) = bytes := by
  have hdigits : ∀ x ∈ bytes.map UInt8.toNat, x < 2 ^ 8 := by
    intro x hx
    obtain ⟨b, -, rfl⟩ := List.mem_map.mp hx
    exact b.toNat_lt
  have hlt : Nat.ofDigits (2 ^ 8) (bytes.map UInt8.toNat) < 2 ^ 64 := by
    have := Nat.ofDigits_lt_base_pow_length (by norm_num) hdigits
    rwa [List.length_map, h, ← pow_mul] at this
  apply List.ext_getElem (by rw [length_u64_to_le_bytes, h])
  intro i hi _
  have hi8 : i < 8 := by rwa [length_u64_to_le_bytes] at hi
  simp only [u64_to_le_bytes, List.getElem_map, List.getElem_range]
  rw [← UInt8.toNat_inj, toNat_byte _ hi8, u64_from_le_bytes_toNat, Nat.mod_eq_of_lt hlt, ofDigits_div_pow_mod _ _ hdigits,
    List.getD_eq_getElem _ _ (by rwa [List.length_map, h]), List.getElem_map]

/-- `u64::from_be_bytes` undoes `u64::to_be_bytes`. -/
theorem u64_from_be_bytes_to_be_bytes (w : UInt64) : u64_from_be_bytes (u64_to_be_bytes w) = w := by
  rw [u64_from_be_bytes, u64_to_be_bytes, List.reverse_reverse, u64_from_le_bytes_to_le_bytes]

/-- `u64::to_be_bytes` undoes `u64::from_be_bytes` on eight bytes. -/
theorem u64_to_be_bytes_from_be_bytes (bytes : List UInt8) (h : bytes.length = 8) :
    u64_to_be_bytes (u64_from_be_bytes bytes) = bytes := by
  rw [u64_to_be_bytes, u64_from_be_bytes,
    u64_to_le_bytes_from_le_bytes _ (by rw [List.length_reverse, h]), List.reverse_reverse]

/-- Chunk `i` of words written eight bytes each is the bytes of word `i`. -/
theorem chunk_flatMap (f : UInt64 → List UInt8) (hf : ∀ w, (f w).length = 8) :
    ∀ (l : List UInt64) (i : ℕ), i < l.length → chunk (l.flatMap f) i = f (l.getD i 0)
  | [], i, h => absurd h (Nat.not_lt_zero i)
  | w :: ws, 0, _ => by
      rw [chunk, Nat.mul_zero, List.drop_zero, List.flatMap_cons, List.getD_cons_zero,
        List.take_left' (hf w)]
  | w :: ws, i + 1, h => by
      rw [chunk, List.flatMap_cons, List.getD_cons_succ,
        show 8 * (i + 1) = (f w).length + 8 * i by rw [hf w]; ring, ← List.drop_drop,
        List.drop_left, ← chunk, chunk_flatMap f hf ws i (by simpa using h)]

theorem length_flatMap_eight (f : UInt64 → List UInt8) (hf : ∀ w, (f w).length = 8) :
    ∀ l : List UInt64, (l.flatMap f).length = 8 * l.length
  | [] => rfl
  | w :: ws => by
      rw [List.flatMap_cons, List.length_append, hf w, length_flatMap_eight f hf ws,
        List.length_cons]
      ring

/-- A chunk inside `8 * n` bytes has eight bytes. -/
theorem length_chunk {bytes : List UInt8} {n i : ℕ} (h : bytes.length = 8 * n) (hi : i < n) :
    (chunk bytes i).length = 8 := by
  rw [chunk, List.length_take, List.length_drop, h]
  omega

/-- `8 * n` bytes are their first `n` chunks put back together. -/
theorem flatMap_chunk : ∀ (n : ℕ) (bytes : List UInt8), bytes.length = 8 * n →
    (List.range n).flatMap (chunk bytes) = bytes
  | 0, bytes, h => by
      rw [Nat.mul_zero, List.length_eq_zero_iff] at h
      rw [h]
      rfl
  | n + 1, bytes, h => by
      have hrest : (bytes.drop 8).length = 8 * n := by rw [List.length_drop, h]; omega
      have hshift : ∀ i, chunk bytes (i + 1) = chunk (bytes.drop 8) i := by
        intro i
        rw [chunk, chunk, List.drop_drop, show 8 * (i + 1) = 8 + 8 * i by ring]
      rw [List.range_succ_eq_map, List.flatMap_cons, List.flatMap_map]
      simp only [Nat.succ_eq_add_one, hshift]
      rw [flatMap_chunk n _ hrest, chunk, Nat.mul_zero, List.drop_zero, List.take_append_drop]

namespace Uint

variable {LIMBS : ℕ}

/-- **SUBTRACTION**: `overflowing_sub` returns the difference modulo `2 ^ BITS`,
    and its flag says exactly whether the subtrahend was the larger. -/
theorem overflowing_sub_value (a b : Uint LIMBS) :
    (a.overflowing_sub b).1.to_nat = (a.to_nat + 2 ^ BITS LIMBS - b.to_nat) % 2 ^ BITS LIMBS ∧
      ((a.overflowing_sub b).2 = true ↔ a.to_nat < b.to_nat) := by
  have h := sub_words_value a.words b.words false (by rw [a.length_words, b.length_words])
  rw [a.length_words] at h
  change (a.overflowing_sub b).1.to_nat + b.to_nat + 0 =
      a.to_nat + (if (a.overflowing_sub b).2 then 2 ^ BITS LIMBS else 0) at h
  rw [Nat.add_zero] at h
  exact sub_mod_and_flag_of_value (to_nat_lt _) (to_nat_lt b) h

/-- **ADDING A WORD**: for a width of at least one word, `overflowing_add_u64`
    returns the sum modulo `2 ^ BITS`, and its flag says exactly whether the sum
    does not fit. -/
theorem overflowing_add_u64_value (a : Uint LIMBS) (c : UInt64) (h : 0 < LIMBS) :
    ∃ r flag, a.overflowing_add_u64 c = .ok (r, flag) ∧
      r.to_nat = (a.to_nat + c.toNat) % 2 ^ BITS LIMBS ∧
        (flag = true ↔ 2 ^ BITS LIMBS ≤ a.to_nat + c.toNat) := by
  obtain ⟨_ | ⟨w, ws⟩, hlen⟩ := a
  · rw [List.length_nil] at hlen
    omega
  · refine ⟨_, _, rfl, ?_⟩
    set first := KashMath.overflowing_add_u64 w c
    set rest := carry_words ws first.2
    have hword : first.1.toNat + (if first.2 then 2 ^ 64 else 0) = w.toNat + c.toNat :=
      KashMath.overflowing_add_u64_value w c
    have hrest : value rest.1 + (if rest.2 then 2 ^ (64 * ws.length) else 0) =
        value ws + (if first.2 then 1 else 0) := carry_words_value ws first.2
    apply mod_and_flag_of_value (to_nat_lt _)
    show value (first.1 :: rest.1) + (if rest.2 then 2 ^ BITS LIMBS else 0) =
      value (w :: ws) + c.toNat
    rw [value_cons, value_cons, BITS, ← hlen, List.length_cons, Nat.mul_succ, pow_add]
    cases hr : rest.2 <;> cases hc : first.2 <;>
      simp only [hr, hc, Bool.false_eq_true, if_false, if_true] at hrest hword ⊢ <;> linarith

/-- **MULTIPLYING BY A WORD**: `carrying_mul_u64` returns the product modulo
    `2 ^ BITS`, and the product divided by `2 ^ BITS` as its carry word. -/
theorem carrying_mul_u64_value (a : Uint LIMBS) (c : UInt64) :
    (a.carrying_mul_u64 c).1.to_nat = a.to_nat * c.toNat % 2 ^ BITS LIMBS ∧
      (a.carrying_mul_u64 c).2.toNat = a.to_nat * c.toNat / 2 ^ BITS LIMBS := by
  obtain ⟨h, hlt⟩ := mul_u64_words_value c a.words 0 (by norm_num)
  rw [a.length_words, Nat.add_zero] at h
  change (a.carrying_mul_u64 c).1.to_nat + 2 ^ BITS LIMBS * (mul_u64_words c a.words 0).2 =
    a.to_nat * c.toNat at h
  have hr : (a.carrying_mul_u64 c).1.to_nat < 2 ^ BITS LIMBS := to_nat_lt _
  have hcarry : (a.carrying_mul_u64 c).2.toNat = (mul_u64_words c a.words 0).2 := by
    show ((mul_u64_words c a.words 0).2.toUInt64).toNat = _
    rw [Nat.toUInt64_eq, UInt64.toNat_ofNat', Nat.mod_eq_of_lt hlt]
  rw [hcarry, ← h]
  constructor
  · rw [Nat.add_mul_mod_self_left, Nat.mod_eq_of_lt hr]
  · rw [Nat.add_mul_div_left _ _ (Nat.two_pow_pos _), Nat.div_eq_of_lt hr, Nat.zero_add]

/-- `overflowing_mul_u64`: its flag, the carry word not zero, says exactly
    whether the product does not fit. -/
theorem overflowing_mul_u64_value (a : Uint LIMBS) (c : UInt64) :
    (a.overflowing_mul_u64 c).1.to_nat = a.to_nat * c.toNat % 2 ^ BITS LIMBS ∧
      ((a.overflowing_mul_u64 c).2 = true ↔ 2 ^ BITS LIMBS ≤ a.to_nat * c.toNat) := by
  obtain ⟨hword, hcarry⟩ := carrying_mul_u64_value a c
  refine ⟨hword, ?_⟩
  have hpos : 0 < 2 ^ BITS LIMBS := Nat.two_pow_pos _
  show ((a.carrying_mul_u64 c).2 != 0) = true ↔ _
  rw [bne_iff_ne, ne_eq, ← UInt64.toNat_inj, hcarry, UInt64.toNat_zero, Nat.div_eq_zero_iff]
  omega

/-- **SHIFT LEFT**: `overflowing_shl` returns the number times `2 ^ (s % BITS)`
    modulo `2 ^ BITS`, and its flag says whether `s` was at least `BITS`. -/
theorem overflowing_shl_value (a : Uint LIMBS) (s : ℕ) :
    (a.overflowing_shl s).1.to_nat = a.to_nat * 2 ^ (s % BITS LIMBS) % 2 ^ BITS LIMBS ∧
      ((a.overflowing_shl s).2 = true ↔ BITS LIMBS ≤ s) :=
  ⟨shl_words_value _ _ _, decide_eq_true_iff⟩

/-- **SHIFT RIGHT**: `overflowing_shr` returns the number divided by
    `2 ^ (s % BITS)`, and its flag says whether `s` was at least `BITS`. -/
theorem overflowing_shr_value (a : Uint LIMBS) (s : ℕ) :
    (a.overflowing_shr s).1.to_nat = a.to_nat / 2 ^ (s % BITS LIMBS) ∧
      ((a.overflowing_shr s).2 = true ↔ BITS LIMBS ≤ s) :=
  ⟨shr_words_value _ _ _ a.length_words, decide_eq_true_iff⟩

/-- **ORDER**: `cmp` compares the numbers the words denote. -/
theorem cmp_eq_compare (a b : Uint LIMBS) : a.cmp b = compare a.to_nat b.to_nat := by
  rw [cmp, iter_cmp_reverse _ _ (by
      rw [List.length_reverse, List.length_reverse, a.length_words, b.length_words]),
    List.reverse_reverse, List.reverse_reverse]
  rfl

theorem ext_words {a b : Uint LIMBS} (h : a.words = b.words) : a = b := by
  cases a
  cases b
  cases h
  rfl

theorem length_to_be_bytes (a : Uint LIMBS) : a.to_be_bytes.length = BYTES LIMBS := by
  rw [to_be_bytes, length_flatMap_eight _ length_u64_to_be_bytes, List.length_reverse,
    a.length_words, BYTES]

/-- `from_le_bytes` undoes `to_le_bytes`. -/
theorem from_le_bytes_to_le_bytes (a : Uint LIMBS) : from_le_bytes a.to_le_bytes = a := by
  apply ext_words
  apply List.ext_getElem (by simp [from_le_bytes, a.length_words])
  intro i _ hi
  simp only [from_le_bytes, List.getElem_map, List.getElem_range]
  rw [to_le_bytes, chunk_flatMap _ length_u64_to_le_bytes _ _ hi, u64_from_le_bytes_to_le_bytes,
    List.getD_eq_getElem _ _ hi]

/-- `to_le_bytes` undoes `from_le_bytes` on `BYTES` bytes. -/
theorem to_le_bytes_from_le_bytes (bytes : List UInt8) (h : bytes.length = BYTES LIMBS) :
    (from_le_bytes bytes : Uint LIMBS).to_le_bytes = bytes := by
  have hchunk : ∀ i ∈ List.range LIMBS,
      u64_to_le_bytes (u64_from_le_bytes (chunk bytes i)) = chunk bytes i :=
    fun i hi => u64_to_le_bytes_from_le_bytes _ (length_chunk h (List.mem_range.mp hi))
  show ((List.range LIMBS).map fun i => u64_from_le_bytes (chunk bytes i)).flatMap
    u64_to_le_bytes = bytes
  rw [List.flatMap_map, List.flatMap_congr hchunk, flatMap_chunk LIMBS bytes h]

/-- `from_be_bytes` undoes `to_be_bytes`. -/
theorem from_be_bytes_to_be_bytes (a : Uint LIMBS) : from_be_bytes a.to_be_bytes = a := by
  apply ext_words
  show ((List.range LIMBS).map fun i => u64_from_be_bytes (chunk a.to_be_bytes i)).reverse =
    a.words
  rw [List.reverse_eq_iff]
  apply List.ext_getElem (by simp [a.length_words])
  intro i _ hi
  rw [List.getElem_map, List.getElem_range, to_be_bytes,
    chunk_flatMap _ length_u64_to_be_bytes _ _ hi, u64_from_be_bytes_to_be_bytes,
    List.getD_eq_getElem _ _ hi]

/-- `to_be_bytes` undoes `from_be_bytes` on `BYTES` bytes. -/
theorem to_be_bytes_from_be_bytes (bytes : List UInt8) (h : bytes.length = BYTES LIMBS) :
    (from_be_bytes bytes : Uint LIMBS).to_be_bytes = bytes := by
  have hchunk : ∀ i ∈ List.range LIMBS,
      u64_to_be_bytes (u64_from_be_bytes (chunk bytes i)) = chunk bytes i :=
    fun i hi => u64_to_be_bytes_from_be_bytes _ (length_chunk h (List.mem_range.mp hi))
  show ((List.range LIMBS).map fun i => u64_from_be_bytes (chunk bytes i)).reverse.reverse.flatMap
    u64_to_be_bytes = bytes
  rw [List.reverse_reverse, List.flatMap_map, List.flatMap_congr hchunk,
    flatMap_chunk LIMBS bytes h]

/-- The bytes before the first nonzero one are zeros. -/
theorem take_findIdx_ne_zero (bytes : List UInt8) :
    bytes.take (bytes.findIdx (· != 0)) = List.replicate (bytes.findIdx (· != 0)) 0 := by
  rw [List.eq_replicate_iff, List.length_take, Nat.min_eq_left List.findIdx_le_length]
  refine ⟨rfl, ?_⟩
  intro b hb
  obtain ⟨j, hj, rfl⟩ := List.getElem_of_mem hb
  rw [List.length_take] at hj
  have hzero := List.not_of_lt_findIdx (lt_of_lt_of_le hj (Nat.min_le_left _ _))
  rw [List.getElem_take]
  simpa using hzero

/-- `from_be_bytes_var` undoes `to_be_bytes_var`: the zeros it strips are the
    padding it puts back. -/
theorem from_be_bytes_var_to_be_bytes_var (a : Uint LIMBS) :
    from_be_bytes_var a.to_be_bytes_var = .ok a := by
  have hlen := length_to_be_bytes a
  have hle : a.to_be_bytes.findIdx (· != 0) ≤ BYTES LIMBS := hlen ▸ List.findIdx_le_length
  have hvar : a.to_be_bytes_var = a.to_be_bytes.drop (a.to_be_bytes.findIdx (· != 0)) := by
    rw [to_be_bytes_var, List.findIdx_eq_getD_findIdx?]
  rw [hvar, from_be_bytes_var, if_neg (by rw [List.length_drop]; omega), List.length_drop, hlen,
    Nat.sub_sub_self hle, ← take_findIdx_ne_zero, List.take_append_drop, from_be_bytes_to_be_bytes]

/-- **THE WORD OPERATIONS ARE EXACT**: at every width, addition, subtraction,
    adding a word, multiplying by a word and both shifts return the exact result
    modulo `2 ^ BITS` with the exact carry, borrow or overflow flag; `cmp` is the
    order of the numbers; and the byte conversions round-trip. -/
theorem word_ops_exact (a b : Uint LIMBS) (c : UInt64) (s : ℕ) :
    ((a.overflowing_add b).1.to_nat = (a.to_nat + b.to_nat) % 2 ^ BITS LIMBS ∧
        ((a.overflowing_add b).2 = true ↔ 2 ^ BITS LIMBS ≤ a.to_nat + b.to_nat)) ∧
      ((a.overflowing_sub b).1.to_nat =
          (a.to_nat + 2 ^ BITS LIMBS - b.to_nat) % 2 ^ BITS LIMBS ∧
        ((a.overflowing_sub b).2 = true ↔ a.to_nat < b.to_nat)) ∧
      ((0 < LIMBS ∧ ∃ r flag, a.overflowing_add_u64 c = .ok (r, flag) ∧
          r.to_nat = (a.to_nat + c.toNat) % 2 ^ BITS LIMBS ∧
          (flag = true ↔ 2 ^ BITS LIMBS ≤ a.to_nat + c.toNat)) ∨
        (LIMBS = 0 ∧ a.overflowing_add_u64 c = .error .index_out_of_bounds)) ∧
      ((a.carrying_mul_u64 c).1.to_nat = a.to_nat * c.toNat % 2 ^ BITS LIMBS ∧
        (a.carrying_mul_u64 c).2.toNat = a.to_nat * c.toNat / 2 ^ BITS LIMBS) ∧
      ((a.overflowing_mul_u64 c).1.to_nat = a.to_nat * c.toNat % 2 ^ BITS LIMBS ∧
        ((a.overflowing_mul_u64 c).2 = true ↔ 2 ^ BITS LIMBS ≤ a.to_nat * c.toNat)) ∧
      ((a.overflowing_shl s).1.to_nat = a.to_nat * 2 ^ (s % BITS LIMBS) % 2 ^ BITS LIMBS ∧
        ((a.overflowing_shl s).2 = true ↔ BITS LIMBS ≤ s)) ∧
      ((a.overflowing_shr s).1.to_nat = a.to_nat / 2 ^ (s % BITS LIMBS) ∧
        ((a.overflowing_shr s).2 = true ↔ BITS LIMBS ≤ s)) ∧
      a.cmp b = compare a.to_nat b.to_nat ∧
      from_le_bytes a.to_le_bytes = a ∧ from_be_bytes a.to_be_bytes = a ∧
      from_be_bytes_var a.to_be_bytes_var = .ok a ∧
      ∀ bytes : List UInt8, bytes.length = BYTES LIMBS →
        (from_le_bytes bytes : Uint LIMBS).to_le_bytes = bytes ∧
          (from_be_bytes bytes : Uint LIMBS).to_be_bytes = bytes := by
  refine ⟨mod_and_flag_of_value (to_nat_lt _) (overflowing_add_sum a b),
    overflowing_sub_value a b, ?_, carrying_mul_u64_value a c, overflowing_mul_u64_value a c,
    overflowing_shl_value a s, overflowing_shr_value a s, cmp_eq_compare a b,
    from_le_bytes_to_le_bytes a, from_be_bytes_to_be_bytes a,
    from_be_bytes_var_to_be_bytes_var a,
    fun bytes h => ⟨to_le_bytes_from_le_bytes bytes h, to_be_bytes_from_be_bytes bytes h⟩⟩
  rcases Nat.eq_zero_or_pos LIMBS with h0 | hpos
  · -- no word `0` to add into
    right
    refine ⟨h0, ?_⟩
    obtain ⟨_ | ⟨w, ws⟩, hlen⟩ := a
    · rfl
    · rw [List.length_cons] at hlen
      omega
  · exact Or.inl ⟨hpos, overflowing_add_u64_value a c hpos⟩

end Uint

end KashMath
