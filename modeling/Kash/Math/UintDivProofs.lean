import Kash.Math.UintWordProofs

/-! # What `div_rem` and `div_rem_u64` compute

    `div_rem` is bitwise long division. It shifts the divisor left by the
    difference of the bit counts, so the shifted divisor is at most the dividend
    and loses no bit (`bits_eq_size`, `overflowing_shl_value`). Then it walks the
    shift down to zero, subtracting the shifted divisor wherever it fits. Before
    the pass at `shift` the state satisfies `DivState`: the shifted divisor is
    exact, what is left is below twice it, the quotient so far has no bit at
    `shift` or below, and quotient times divisor plus what is left is the
    dividend. One pass keeps it one bit lower (`div_rem_step_spec`), and after
    the last pass what is left is below the divisor (`div_rem_loop_spec`).

    `div_rem_u64` divides word by word from the top, with the remainder so far
    as the high half of each `u128` dividend (`div_rem_u64_loop_value`).

    A zero divisor panics in both, and nothing else does (`div_rem_exact`). -/

namespace KashMath

open Limbs KashScript

/-! ## The number of bits -/

/-- A nonzero digit `w` at place `2 ^ k` over a lower part below `2 ^ k`: the
    number has `k` bits more than `w`. -/
theorem size_add_mul_two_pow {a w k : ℕ} (ha : a < 2 ^ k) (hw : 0 < w) :
    (a + w * 2 ^ k).size = k + w.size := by
  have hsize : 0 < w.size := Nat.size_pos.mpr hw
  apply le_antisymm
  · rw [Nat.size_le]
    have hw' : w + 1 ≤ 2 ^ w.size := Nat.lt_size_self w
    calc a + w * 2 ^ k < (w + 1) * 2 ^ k := by rw [Nat.succ_mul]; omega
      _ ≤ 2 ^ w.size * 2 ^ k := Nat.mul_le_mul_right _ hw'
      _ = 2 ^ (k + w.size) := by rw [pow_add, Nat.mul_comm]
  · -- the top bit of `w` is bit `k + w.size - 1` of the number
    have htop : 2 ^ (w.size - 1) ≤ w := Nat.lt_size.mp (by omega)
    have hlt : k + w.size - 1 < (a + w * 2 ^ k).size := by
      rw [Nat.lt_size]
      calc 2 ^ (k + w.size - 1) = 2 ^ (w.size - 1) * 2 ^ k := by
            rw [← pow_add]
            congr 1
            omega
        _ ≤ w * 2 ^ k := Nat.mul_le_mul_right _ htop
        _ ≤ a + w * 2 ^ k := Nat.le_add_left _ _
    omega

/-- The loop of `bits` over the first `n` words from the top: the bit count of
    the number they denote. -/
theorem bits_loop_take (words : List UInt64) : ∀ n : ℕ, n ≤ words.length →
    bits_loop words (List.range n).reverse = (value (words.take n)).size
  | 0, _ => by simp [bits_loop]
  | n + 1, h => by
      have hlow : value (words.take n) < 2 ^ (64 * n) :=
        lt_of_lt_of_le (value_lt _)
          (Nat.pow_le_pow_right (by norm_num) (Nat.mul_le_mul_left _ (List.length_take_le n words)))
      rw [List.range_succ, List.reverse_append, List.reverse_singleton, List.singleton_append,
        bits_loop, value_take_succ]
      by_cases hw : words.getD n 0 = 0
      · rw [if_neg (not_not.mpr hw), bits_loop_take words n (by omega), hw, UInt64.toNat_zero,
          Nat.zero_mul, Nat.add_zero]
      · -- the top nonzero word decides
        have hpos : 0 < (words.getD n 0).toNat :=
          Nat.pos_of_ne_zero (fun h0 => hw (UInt64.toNat_inj.mp (h0.trans UInt64.toNat_zero.symm)))
        have hle : (words.getD n 0).toNat.size ≤ 64 := Nat.size_le.mpr (words.getD n 0).toNat_lt
        rw [if_pos hw, size_add_mul_two_pow hlow hpos, leading_zeros]
        omega

namespace Uint

variable {LIMBS : ℕ}

/-- **BITS**: `bits` is the bit count of the number. -/
theorem bits_eq_size (x : Uint LIMBS) : x.bits = x.to_nat.size := by
  rw [bits, bits_loop_take x.words LIMBS (by rw [x.length_words]),
    List.take_of_length_le (by rw [x.length_words])]
  rfl

theorem to_nat_ZERO : (ZERO : Uint LIMBS).to_nat = 0 := value_replicate_zero LIMBS

/-- `overflowing_sub` without a borrow is the plain difference. -/
theorem overflowing_sub_of_le {a b : Uint LIMBS} (h : b.to_nat ≤ a.to_nat) :
    (a.overflowing_sub b).1.to_nat = a.to_nat - b.to_nat := by
  have ha := to_nat_lt a
  rw [(overflowing_sub_value a b).1, show a.to_nat + 2 ^ BITS LIMBS - b.to_nat =
      a.to_nat - b.to_nat + 2 ^ BITS LIMBS by omega, Nat.add_mod_right, Nat.mod_eq_of_lt (by omega)]

/-- **ONE QUOTIENT BIT**: setting a clear bit below `BITS` adds its power of two. -/
theorem set_bit_value (ret : Uint LIMBS) {shift : ℕ} (hs : shift < BITS LIMBS)
    (hbit : ret.to_nat.testBit shift = false) :
    ∃ r, ret.set_bit shift = .ok r ∧ r.to_nat = ret.to_nat + 2 ^ shift := by
  have hk : shift / 64 < LIMBS := by
    rw [BITS] at hs
    omega
  refine ⟨_, if_pos hk, ?_⟩
  -- the word gets its bit `shift % 64`, which was clear
  set w := ret.words.getD (shift / 64) 0
  have hwbit : w.toNat.testBit (shift % 64) = false := by
    rw [← testBit_value_eq]
    exact hbit
  have hone : ((1 : UInt64) <<< (shift % 64).toUInt64).toNat = 2 ^ (shift % 64) := by
    rw [UInt64.toNat_shiftLeft, Nat.toUInt64_eq, UInt64.toNat_ofNat', UInt64.toNat_one,
      Nat.mod_eq_of_lt (show shift % 64 < 2 ^ 64 by omega),
      Nat.mod_eq_of_lt (Nat.mod_lt _ (by norm_num)), Nat.one_shiftLeft,
      Nat.mod_eq_of_lt (Nat.pow_lt_pow_right (by norm_num) (Nat.mod_lt _ (by norm_num)))]
  have hnew : (w ||| 1 <<< (shift % 64).toUInt64).toNat = w.toNat + 2 ^ (shift % 64) := by
    rw [UInt64.toNat_or, hone, or_two_pow_of_testBit_false hwbit]
  have hset := value_set ret.words (shift / 64) (w ||| 1 <<< (shift % 64).toUInt64)
    (by rw [ret.length_words]; exact hk)
  have hpow : 2 ^ (shift % 64) * 2 ^ (64 * (shift / 64)) = 2 ^ shift := by
    rw [← pow_add]
    congr 1
    omega
  rw [hnew] at hset
  show value (ret.words.set (shift / 64) (w ||| 1 <<< (shift % 64).toUInt64)) =
    value ret.words + 2 ^ shift
  rw [← hpow]
  linarith

/-! ## Long division -/

/-- The state of the `div_rem` loop before the pass at `shift`, dividing `n` by
    `d`. -/
structure DivState (n d shift : ℕ) (shift_copy sub_copy ret : Uint LIMBS) : Prop where
  shift_copy_eq : shift_copy.to_nat = d * 2 ^ shift
  sub_lt : sub_copy.to_nat < d * 2 ^ (shift + 1)
  ret_dvd : 2 ^ (shift + 1) ∣ ret.to_nat
  sum_eq : n = ret.to_nat * d + sub_copy.to_nat

/-- **ONE PASS**: where the shifted divisor fits, the pass sets quotient bit
    `shift` and subtracts it; either way what is left drops below the shifted
    divisor, and no other panic is possible. -/
theorem div_rem_step_spec {n d shift : ℕ} {shift_copy sub_copy ret : Uint LIMBS} (hd : 0 < d)
    (h : DivState n d shift shift_copy sub_copy ret) :
    ∃ sub' ret', div_rem_step shift shift_copy sub_copy ret = .ok (sub', ret') ∧
      sub'.to_nat < d * 2 ^ shift ∧ 2 ^ shift ∣ ret'.to_nat ∧
        n = ret'.to_nat * d + sub'.to_nat := by
  have hsub := h.sub_lt
  have hsum := h.sum_eq
  have hpow : d * 2 ^ (shift + 1) = d * 2 ^ shift + d * 2 ^ shift := by rw [pow_succ]; ring
  have hdvd : 2 ^ shift ∣ ret.to_nat := dvd_trans (pow_dvd_pow 2 (Nat.le_succ shift)) h.ret_dvd
  by_cases hge : d * 2 ^ shift ≤ sub_copy.to_nat
  · -- the shifted divisor fits: set the bit and subtract
    have hcmp : sub_copy.cmp shift_copy ≠ .lt := by
      rw [cmp_eq_compare, h.shift_copy_eq, Ne, compare_lt_iff_lt]
      omega
    have hfits : shift < BITS LIMBS := by
      have hlt : 2 ^ shift < 2 ^ BITS LIMBS :=
        calc 2 ^ shift ≤ d * 2 ^ shift := Nat.le_mul_of_pos_left _ hd
          _ = shift_copy.to_nat := h.shift_copy_eq.symm
          _ < 2 ^ BITS LIMBS := to_nat_lt _
      exact (Nat.pow_lt_pow_iff_right (by norm_num)).mp hlt
    have hbit : ret.to_nat.testBit shift = false := by
      obtain ⟨m, hm⟩ := h.ret_dvd
      rw [hm, Nat.mul_comm, Nat.testBit_mul_two_pow]
      simp
    obtain ⟨r, hr, hrv⟩ := set_bit_value ret hfits hbit
    have hsub' : (sub_copy.overflowing_sub shift_copy).1.to_nat = sub_copy.to_nat - d * 2 ^ shift := by
      rw [overflowing_sub_of_le (by rw [h.shift_copy_eq]; exact hge), h.shift_copy_eq]
    refine ⟨(sub_copy.overflowing_sub shift_copy).1, r, ?_, ?_, ?_, ?_⟩
    · rw [div_rem_step, if_pos hcmp, hr]
      rfl
    · rw [hsub']
      omega
    · rw [hrv]
      exact Nat.dvd_add hdvd (dvd_refl _)
    · rw [hrv, hsub', Nat.add_mul, Nat.mul_comm (2 ^ shift) d, hsum]
      omega
  · -- the shifted divisor does not fit: nothing changes
    refine ⟨sub_copy, ret, ?_, by omega, hdvd, hsum⟩
    rw [div_rem_step, if_neg (by rw [not_not, cmp_eq_compare, h.shift_copy_eq, compare_lt_iff_lt]; omega)]
    rfl

/-- **THE LOOP**: from any state of the loop, the passes down to shift zero end
    with the quotient and a remainder below the divisor. -/
theorem div_rem_loop_spec {n d : ℕ} (hd : 0 < d) (hbits : 2 ≤ BITS LIMBS) :
    ∀ (shift : ℕ) (shift_copy sub_copy ret : Uint LIMBS),
      DivState n d shift shift_copy sub_copy ret →
        ∃ q r, div_rem_loop shift shift_copy sub_copy ret = .ok (q, r) ∧
          n = q.to_nat * d + r.to_nat ∧ r.to_nat < d
  | 0, shift_copy, sub_copy, ret, h => by
      obtain ⟨sub', ret', hstep, hlt, -, hsum⟩ := div_rem_step_spec hd h
      refine ⟨ret', sub', ?_, hsum, by simpa using hlt⟩
      rw [div_rem_loop, hstep]
      rfl
  | shift + 1, shift_copy, sub_copy, ret, h => by
      obtain ⟨sub', ret', hstep, hlt, hdvd, hsum⟩ := div_rem_step_spec hd h
      -- the divisor moves down one bit, exactly
      have hshr : (shift_copy.overflowing_shr 1).1.to_nat = d * 2 ^ shift := by
        rw [(overflowing_shr_value _ 1).1, Nat.mod_eq_of_lt (by omega), h.shift_copy_eq, pow_succ,
          ← Nat.mul_assoc, pow_one, Nat.mul_div_cancel _ (by norm_num)]
      obtain ⟨q, r, hrun, hqr⟩ :=
        div_rem_loop_spec hd hbits shift _ sub' ret' ⟨hshr, hlt, hdvd, hsum⟩
      refine ⟨q, r, ?_, hqr⟩
      rw [div_rem_loop, hstep]
      exact hrun

/-- **LONG DIVISION**: for a nonzero divisor, `div_rem` returns the quotient and
    the remainder. The divisor shifted to the dividend's top bit loses nothing,
    and the dividend is below twice it. -/
theorem div_rem_value (a b : Uint LIMBS) (hb : 0 < b.to_nat) :
    ∃ q r, a.div_rem b = .ok (q, r) ∧ a.to_nat = q.to_nat * b.to_nat + r.to_nat ∧
      r.to_nat < b.to_nat := by
  have hbits_b : b.bits ≠ 0 := by
    rw [bits_eq_size]
    exact (Nat.size_pos.mpr hb).ne'
  have ha_size : a.to_nat.size ≤ BITS LIMBS := Nat.size_le.mpr (to_nat_lt a)
  have hb_top : 2 ^ (b.to_nat.size - 1) ≤ b.to_nat :=
    Nat.lt_size.mp (by have := Nat.size_pos.mpr hb; omega)
  have ha_lt : a.to_nat < 2 ^ a.to_nat.size := Nat.lt_size_self _
  have hb_lt : b.to_nat < 2 ^ b.to_nat.size := Nat.lt_size_self _
  by_cases hlt : a.bits < b.bits
  · -- the dividend is below the divisor
    refine ⟨ZERO, a, ?_, by rw [to_nat_ZERO, Nat.zero_mul, Nat.zero_add], ?_⟩
    · simp only [div_rem, hbits_b, hlt, if_false, if_true]
    · rw [bits_eq_size, bits_eq_size] at hlt
      calc a.to_nat < 2 ^ a.to_nat.size := ha_lt
        _ ≤ 2 ^ (b.to_nat.size - 1) := Nat.pow_le_pow_right (by norm_num) (by omega)
        _ ≤ b.to_nat := hb_top
  · -- long division from the difference of the bit counts
    rw [bits_eq_size, bits_eq_size] at hlt
    have hbits : 2 ≤ BITS LIMBS := by
      have := Nat.size_pos.mpr hb
      have := Nat.size_le.mpr (to_nat_lt b)
      rw [BITS] at this ⊢
      omega
    have hshift : a.to_nat.size - b.to_nat.size < BITS LIMBS := by
      have := Nat.size_pos.mpr hb
      omega
    have hfit : b.to_nat * 2 ^ (a.to_nat.size - b.to_nat.size) < 2 ^ BITS LIMBS :=
      calc b.to_nat * 2 ^ (a.to_nat.size - b.to_nat.size)
          < 2 ^ b.to_nat.size * 2 ^ (a.to_nat.size - b.to_nat.size) :=
            Nat.mul_lt_mul_of_pos_right hb_lt (Nat.two_pow_pos _)
        _ = 2 ^ a.to_nat.size := by rw [← pow_add]; congr 1; omega
        _ ≤ 2 ^ BITS LIMBS := Nat.pow_le_pow_right (by norm_num) ha_size
    have hstart : DivState a.to_nat b.to_nat (a.to_nat.size - b.to_nat.size)
        (b.overflowing_shl (a.to_nat.size - b.to_nat.size)).1 a ZERO := by
      refine ⟨?_, ?_, ?_, ?_⟩
      · rw [(overflowing_shl_value b _).1, Nat.mod_eq_of_lt hshift, Nat.mod_eq_of_lt hfit]
      · calc a.to_nat < 2 ^ a.to_nat.size := ha_lt
          _ = 2 ^ (b.to_nat.size - 1) * 2 ^ (a.to_nat.size - b.to_nat.size + 1) := by
            rw [← pow_add]
            congr 1
            have := Nat.size_pos.mpr hb
            omega
          _ ≤ b.to_nat * 2 ^ (a.to_nat.size - b.to_nat.size + 1) := Nat.mul_le_mul_right _ hb_top
      · rw [to_nat_ZERO]
        exact dvd_zero _
      · rw [to_nat_ZERO, Nat.zero_mul, Nat.zero_add]
    have hsize_b : b.to_nat.size ≠ 0 := by
      rw [← bits_eq_size]
      exact hbits_b
    obtain ⟨q, r, hrun, hqr⟩ := div_rem_loop_spec hb hbits _ _ _ _ hstart
    refine ⟨q, r, ?_, hqr⟩
    rw [← hrun]
    simp only [div_rem, bits_eq_size, hsize_b, hlt, if_false]

/-! ## Division by a word -/

/-- **WORD BY WORD FROM THE TOP**: for words given from the most significant and a
    remainder below the divisor, the quotient words times the divisor plus the
    final remainder make up the remainder in front of the words. -/
theorem div_rem_u64_loop_value (other : UInt64) (ho : 0 < other.toNat) :
    ∀ (ds : List UInt64) (rem : UInt64), rem.toNat < other.toNat →
      value (div_rem_u64_loop other ds rem).1.reverse * other.toNat +
          (div_rem_u64_loop other ds rem).2.toNat =
        rem.toNat * 2 ^ (64 * ds.length) + value ds.reverse ∧
      (div_rem_u64_loop other ds rem).2.toNat < other.toNat
  | [], rem, hrem => by simp [div_rem_u64_loop, hrem]
  | d :: ds, rem, hrem => by
      -- the `u128` dividend: the remainder is its high word
      have hn : (rem.toNat <<< 64 ||| d.toNat) = rem.toNat * 2 ^ 64 + d.toNat := by
        rw [← Nat.shiftLeft_add_eq_or_of_lt d.toNat_lt, Nat.shiftLeft_eq]
      set n := rem.toNat <<< 64 ||| d.toNat
      have hn_lt : n < 2 ^ 64 * other.toNat :=
        calc n = rem.toNat * 2 ^ 64 + d.toNat := hn
          _ < (rem.toNat + 1) * 2 ^ 64 := by rw [Nat.succ_mul]; exact Nat.add_lt_add_left d.toNat_lt _
          _ ≤ other.toNat * 2 ^ 64 := Nat.mul_le_mul_right _ hrem
          _ = 2 ^ 64 * other.toNat := Nat.mul_comm _ _
      have hq : ((n / other.toNat).toUInt64).toNat = n / other.toNat := by
        rw [Nat.toUInt64_eq, UInt64.toNat_ofNat', Nat.mod_eq_of_lt ((Nat.div_lt_iff_lt_mul ho).mpr hn_lt)]
      have hr_lt : n % other.toNat < other.toNat := Nat.mod_lt _ ho
      have hr : ((n % other.toNat).toUInt64).toNat = n % other.toNat := by
        rw [Nat.toUInt64_eq, UInt64.toNat_ofNat',
          Nat.mod_eq_of_lt (lt_trans hr_lt other.toNat_lt)]
      obtain ⟨ih, hlt⟩ := div_rem_u64_loop_value other ho ds (n % other.toNat).toUInt64 (by rw [hr]; exact hr_lt)
      set rest := div_rem_u64_loop other ds (n % other.toNat).toUInt64
      have hstep : div_rem_u64_loop other (d :: ds) rem = ((n / other.toNat).toUInt64 :: rest.1, rest.2) := rfl
      have hlen : rest.1.length = ds.length := div_rem_u64_loop_length other ds _
      rw [hstep]
      refine ⟨?_, hlt⟩
      rw [hr] at ih
      show (value ((n / other.toNat).toUInt64 :: rest.1).reverse) * other.toNat + rest.2.toNat =
        rem.toNat * 2 ^ (64 * (ds.length + 1)) + value (d :: ds).reverse
      rw [List.reverse_cons, List.reverse_cons, value_append, value_append, List.length_reverse,
        List.length_reverse, hlen, value_cons, value_cons, hq]
      have hdiv := Nat.div_add_mod n other.toNat
      calc (value rest.1.reverse + 2 ^ (64 * ds.length) * (n / other.toNat + 2 ^ 64 * 0)) *
              other.toNat + rest.2.toNat
          = (value rest.1.reverse * other.toNat + rest.2.toNat) +
              2 ^ (64 * ds.length) * (other.toNat * (n / other.toNat)) := by ring
        _ = n % other.toNat * 2 ^ (64 * ds.length) + value ds.reverse +
              2 ^ (64 * ds.length) * (other.toNat * (n / other.toNat)) := by rw [ih]
        _ = 2 ^ (64 * ds.length) * (other.toNat * (n / other.toNat) + n % other.toNat) +
              value ds.reverse := by ring
        _ = 2 ^ (64 * ds.length) * n + value ds.reverse := by rw [hdiv]
        _ = rem.toNat * 2 ^ (64 * (ds.length + 1)) +
              (value ds.reverse + 2 ^ (64 * ds.length) * (d.toNat + 2 ^ 64 * 0)) := by
            rw [hn, Nat.mul_succ, pow_add]
            ring

/-- **DIVISION BY A WORD**: for a nonzero divisor, `div_rem_u64` returns the
    quotient and the remainder. -/
theorem div_rem_u64_value (a : Uint LIMBS) (c : UInt64) (hc : c ≠ 0) :
    ∃ q r, a.div_rem_u64 c = .ok (q, r) ∧ q.to_nat = a.to_nat / c.toNat ∧
      r.toNat = a.to_nat % c.toNat := by
  have hpos : 0 < c.toNat :=
    Nat.pos_of_ne_zero (fun h0 => hc (UInt64.toNat_inj.mp (h0.trans UInt64.toNat_zero.symm)))
  obtain ⟨h, hlt⟩ := div_rem_u64_loop_value c hpos a.words.reverse 0 (by rw [UInt64.toNat_zero]; exact hpos)
  rw [UInt64.toNat_zero, Nat.zero_mul, Nat.zero_add, List.reverse_reverse] at h
  refine ⟨_, _, if_neg (fun h0 => hc h0.1), ?_, ?_⟩
  · show value (div_rem_u64_loop c a.words.reverse 0).1.reverse = value a.words / c.toNat
    rw [← h, Nat.mul_comm, Nat.mul_add_div hpos, Nat.div_eq_of_lt hlt, Nat.add_zero]
  · show (div_rem_u64_loop c a.words.reverse 0).2.toNat = value a.words % c.toNat
    rw [← h, Nat.mul_comm, Nat.mul_add_mod, Nat.mod_eq_of_lt hlt]

/-- **DIVISION IS EXACT**: `div_rem` and `div_rem_u64` return the quotient and
    the remainder for every nonzero divisor, and panic on a zero one:
    `div_rem` at its `assert_ne!`, `div_rem_u64` at its first division. -/
theorem div_rem_exact (a b : Uint LIMBS) (c : UInt64) :
    (b.to_nat = 0 → a.div_rem b = .error .assertion_failed) ∧
      (0 < b.to_nat → ∃ q r, a.div_rem b = .ok (q, r) ∧ q.to_nat = a.to_nat / b.to_nat ∧
        r.to_nat = a.to_nat % b.to_nat) ∧
      (c = 0 → 0 < LIMBS → a.div_rem_u64 c = .error .division_by_zero) ∧
      (c ≠ 0 → ∃ q r, a.div_rem_u64 c = .ok (q, r) ∧ q.to_nat = a.to_nat / c.toNat ∧
        r.toNat = a.to_nat % c.toNat) := by
  refine ⟨fun hb => ?_, fun hb => ?_, fun hc hl => if_pos ⟨hc, hl⟩, div_rem_u64_value a c⟩
  · have hbits : b.bits = 0 := by rw [bits_eq_size, hb, Nat.size_zero]
    simp only [div_rem, hbits, if_true]
  · obtain ⟨q, r, hdr, hsum, hlt⟩ := div_rem_value a b hb
    refine ⟨q, r, hdr, ?_, ?_⟩
    · rw [hsum, Nat.add_comm, Nat.add_mul_div_right _ _ hb, Nat.div_eq_of_lt hlt, Nat.zero_add]
    · rw [hsum, Nat.add_comm, Nat.add_mul_mod_self_right, Nat.mod_eq_of_lt hlt]

end Uint

end KashMath
