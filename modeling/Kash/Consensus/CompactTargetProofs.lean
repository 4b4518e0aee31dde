import Mathlib
import Kash.Consensus.OrderingProofs

/-! # The compact target encoding and the work of a block

    A target is packed into 32 bits as a byte length `e` and the three bytes from
    the top, the mantissa. The encoder `compact_target_bits` moves the mantissa one
    byte down when its top bit (the sign bit of the encoding) would be set;
    `from_compact_target_bits` decodes.

    * `compact_target_bits_toNat` — the encoder in numbers: `compact_parts`;
    * `compact_parts_spec` — the mantissa is the number shifted to three bytes,
      and from four bytes on it has sixteen significant bits at least;
    * `compact_parts_mul` — a normal mantissa shifted back is encoded as itself;
    * `calc_work` is `2 ^ 256 / (T + 1)` for every target `T` of at least `2 ^ 64`. -/

namespace KashGhostdag

/-! ## The `u32` operations of the encoder -/

theorem toNat_or_shiftLeft_24 (c s : UInt32) (hc : c.toNat < 2 ^ 24) (hs : s.toNat < 2 ^ 8) :
    (c ||| s <<< 24).toNat = c.toNat + s.toNat * 2 ^ 24 := by
  have h24 : (24 : UInt32).toNat % 32 = 24 := rfl
  have hfit : s.toNat * 2 ^ 24 < 2 ^ 32 := by omega
  rw [UInt32.toNat_or, UInt32.toNat_shiftLeft, h24, Nat.shiftLeft_eq, Nat.mod_eq_of_lt hfit,
    Nat.lor_comm, ← Nat.shiftLeft_eq, ← Nat.shiftLeft_add_eq_or_of_lt hc, Nat.shiftLeft_eq,
    Nat.add_comm]

theorem toNat_shiftRight_8 (c : UInt32) : (c >>> 8).toNat = c.toNat / 2 ^ 8 := by
  rw [UInt32.toNat_shiftRight, Nat.shiftRight_eq_div_pow]
  rfl

theorem sign_bit_ne_zero_iff (c : UInt32) : c &&& 0x00800000 ≠ 0 ↔ 2 ^ 23 ≤ c.toNat % 2 ^ 24 := by
  have hbit : (0x00800000 : UInt32).toNat = 2 ^ 23 := rfl
  rw [Ne, ← UInt32.toNat_inj, UInt32.toNat_and, hbit, Nat.and_two_pow,
    Nat.testBit_eq_decide_div_mod_eq, UInt32.toNat_zero]
  -- the bit below `2 ^ 24` is the top bit of the low three bytes
  have h : c.toNat % 2 ^ 24 = c.toNat % 2 ^ 23 + 2 ^ 23 * (c.toNat / 2 ^ 23 % 2) := Nat.mod_pow_succ
  have hlow := Nat.mod_lt c.toNat (Nat.two_pow_pos 23)
  by_cases hb : c.toNat / 2 ^ 23 % 2 = 1
  · simp only [hb, decide_true, Bool.toNat_true]
    omega
  · simp only [hb, decide_false, Bool.toNat_false]
    omega

/-! ## The byte length -/

/-- `(bits + 7) / 8` is the byte length: the number is below `2 ^ (8 * size)` and,
    unless it is zero, at least `2 ^ (8 * (size - 1))`. -/
theorem byte_size_spec (x : ℕ) :
    x < 2 ^ (8 * ((bits x + 7) / 8)) ∧ (0 < (bits x + 7) / 8 → 2 ^ (8 * ((bits x + 7) / 8 - 1)) ≤ x) := by
  unfold bits
  constructor
  · exact Nat.size_le.mp (by omega)
  · intro hs
    exact Nat.lt_size.mp (by omega)

theorem byte_size_eq {x s : ℕ} (hlt : x < 2 ^ (8 * s)) (hle : 2 ^ (8 * (s - 1)) ≤ x) (hs : 0 < s) :
    (bits x + 7) / 8 = s := by
  have h₁ := Nat.size_le.mpr hlt
  have h₂ := Nat.lt_size.mpr hle
  unfold bits
  omega

theorem byte_size_le {x : ℕ} (hx : x < 2 ^ 256) : (bits x + 7) / 8 ≤ 32 := by
  have h := Nat.size_le.mpr hx
  unfold bits
  omega

/-! ## The encoder in numbers -/

/-- The mantissa `compact_target_bits` takes before it looks at the sign bit: the
    number shifted so that its top byte is the third. -/
def compact_mantissa (x : ℕ) : ℕ :=
  let size := (bits x + 7) / 8
  if size ≤ 3 then x * 2 ^ (8 * (3 - size)) else x / 2 ^ (8 * (size - 3))

/-- The mantissa and the exponent that `compact_target_bits` packs. -/
def compact_parts (x : ℕ) : ℕ × ℕ :=
  if 2 ^ 23 ≤ compact_mantissa x then (compact_mantissa x / 2 ^ 8, (bits x + 7) / 8 + 1)
  else (compact_mantissa x, (bits x + 7) / 8)

theorem compact_mantissa_lt (x : ℕ) : compact_mantissa x < 2 ^ 24 := by
  obtain ⟨hlt, -⟩ := byte_size_spec x
  unfold compact_mantissa
  dsimp only
  generalize (bits x + 7) / 8 = s at hlt ⊢
  split_ifs with hsmall
  · -- shifted up to three bytes
    calc x * 2 ^ (8 * (3 - s)) < 2 ^ (8 * s) * 2 ^ (8 * (3 - s)) :=
          Nat.mul_lt_mul_of_pos_right hlt (Nat.two_pow_pos _)
      _ = 2 ^ 24 := by rw [← pow_add]; congr 1; omega
  · -- shifted down to three bytes
    rw [Nat.div_lt_iff_lt_mul (Nat.two_pow_pos _), ← pow_add]
    calc x < 2 ^ (8 * s) := hlt
      _ = 2 ^ (24 + 8 * (s - 3)) := by congr 1; omega

/-- From three bytes on the mantissa is the number shifted down to three bytes. -/
theorem compact_mantissa_of_size {x s c : ℕ} (hs : (bits x + 7) / 8 = s) (h3 : 3 ≤ s)
    (hx : x = c * 2 ^ (8 * (s - 3))) : compact_mantissa x = c := by
  unfold compact_mantissa
  dsimp only
  rw [hs, hx]
  split_ifs with hsmall
  · have h : s - 3 = 0 ∧ 3 - s = 0 := by omega
    rw [h.1, h.2, Nat.mul_zero, pow_zero, Nat.mul_one, Nat.mul_one]
  · exact Nat.mul_div_cancel c (Nat.two_pow_pos _)

theorem compact_parts_bounds {x : ℕ} (hx : x < 2 ^ 256) :
    (compact_parts x).1 < 2 ^ 23 ∧ (compact_parts x).2 ≤ 33 := by
  have hcm := compact_mantissa_lt x
  have hs := byte_size_le hx
  unfold compact_parts
  split_ifs with hneg
  · exact ⟨by omega, by omega⟩
  · exact ⟨by omega, by omega⟩

/-- The `u32` mantissa before the sign test is `compact_mantissa`: below `2 ^ 24`,
    neither `as_u64` nor `as u32` cuts it. -/
theorem toNat_compact_u32 {x : ℕ} (hx : x < 2 ^ 256) :
    (if (bits x + 7) / 8 ≤ 3 then (x % 2 ^ 64 * 2 ^ (8 * (3 - (bits x + 7) / 8)) % 2 ^ 64).toUInt32
      else (x / 2 ^ (8 * ((bits x + 7) / 8 - 3) % 256) % 2 ^ 64).toUInt32).toNat =
      compact_mantissa x := by
  have hcm := compact_mantissa_lt x
  have hs := byte_size_le hx
  unfold compact_mantissa at hcm ⊢
  dsimp only at hcm ⊢
  generalize (bits x + 7) / 8 = s at hcm hs ⊢
  split_ifs at hcm ⊢ with hsmall
  · have hx64 : x < 2 ^ 64 :=
      lt_of_le_of_lt (Nat.le_mul_of_pos_right x (Nat.two_pow_pos (8 * (3 - s)))) (by omega)
    rw [Nat.mod_eq_of_lt hx64, Nat.mod_eq_of_lt (by omega), Nat.toUInt32_eq,
      UInt32.toNat_ofNat', Nat.mod_eq_of_lt (by omega)]
  · rw [Nat.mod_eq_of_lt (by omega : 8 * (s - 3) < 256), Nat.mod_eq_of_lt (by omega),
      Nat.toUInt32_eq, UInt32.toNat_ofNat', Nat.mod_eq_of_lt (by omega)]

/-- **THE ENCODER IN NUMBERS**: the bits are the mantissa and, above it, the
    exponent. -/
theorem compact_target_bits_toNat {x : ℕ} (hx : x < 2 ^ 256) :
    (compact_target_bits x).toNat = (compact_parts x).1 + (compact_parts x).2 * 2 ^ 24 := by
  have hc := toNat_compact_u32 hx
  have hcm := compact_mantissa_lt x
  have hs := byte_size_le hx
  unfold compact_target_bits compact_parts
  dsimp only
  generalize (if (bits x + 7) / 8 ≤ 3 then _ else _ : UInt32) = c at hc ⊢
  rw [← hc] at hcm ⊢
  by_cases hneg : c &&& 0x00800000 ≠ 0
  · have hbump : 2 ^ 23 ≤ c.toNat := by
      have h := (sign_bit_ne_zero_iff c).mp hneg
      rwa [Nat.mod_eq_of_lt hcm] at h
    have hshift := toNat_shiftRight_8 c
    rw [if_pos hneg, if_pos hneg, if_pos hbump, toNat_or_shiftLeft_24 _ _ (by omega) (by
        rw [Nat.toUInt32_eq, UInt32.toNat_ofNat']; omega), hshift, Nat.toUInt32_eq,
      UInt32.toNat_ofNat', Nat.mod_eq_of_lt (by omega)]
  · have hbump : ¬2 ^ 23 ≤ c.toNat := fun h =>
      hneg ((sign_bit_ne_zero_iff c).mpr (by rwa [Nat.mod_eq_of_lt hcm]))
    rw [if_neg hneg, if_neg hneg, if_neg hbump, toNat_or_shiftLeft_24 _ _ hcm (by
        rw [Nat.toUInt32_eq, UInt32.toNat_ofNat']; omega), Nat.toUInt32_eq,
      UInt32.toNat_ofNat', Nat.mod_eq_of_lt (by omega)]

/-- The mantissa and the exponent of a `compact_parts` pair: shifted up to three
    bytes while the exponent is at most three, and from four on shifted down,
    with at least sixteen significant bits. -/
theorem compact_parts_spec {x : ℕ} (hx : x < 2 ^ 256) :
    ((compact_parts x).2 ≤ 3 ∧ (compact_parts x).1 = x * 2 ^ (8 * (3 - (compact_parts x).2))) ∨
      (3 < (compact_parts x).2 ∧ (compact_parts x).1 = x / 2 ^ (8 * ((compact_parts x).2 - 3)) ∧
        2 ^ 15 ≤ (compact_parts x).1) := by
  obtain ⟨hlt, hge⟩ := byte_size_spec x
  have hcm := compact_mantissa_lt x
  unfold compact_parts
  unfold compact_mantissa at hcm ⊢
  dsimp only at hcm ⊢
  generalize (bits x + 7) / 8 = s at hlt hge hcm ⊢
  split_ifs at hcm ⊢ with hsmall hneg hneg
  · -- the sign bit moves a mantissa of one or two bytes up by one byte less
    rcases Nat.lt_or_ge s 3 with hs | hs
    · refine Or.inl ⟨by omega, ?_⟩
      rw [show 8 * (3 - s) = 8 * (3 - (s + 1)) + 8 by omega, pow_add, ← Nat.mul_assoc,
        Nat.mul_div_cancel _ (Nat.two_pow_pos 8)]
    · have h3 : s = 3 := by omega
      subst h3
      refine Or.inr ⟨by omega, by rw [Nat.sub_self, Nat.mul_zero, pow_zero, Nat.mul_one]; rfl, ?_⟩
      omega
  · exact Or.inl ⟨hsmall, rfl⟩
  · -- shifting down one byte more
    refine Or.inr ⟨by omega, ?_, by omega⟩
    dsimp only
    rw [Nat.div_div_eq_div_mul, ← pow_add]
    congr 2
    omega
  · refine Or.inr ⟨by omega, rfl, ?_⟩
    rw [Nat.le_div_iff_mul_le (Nat.two_pow_pos _), ← pow_add]
    calc 2 ^ (15 + 8 * (s - 3)) ≤ 2 ^ (8 * (s - 1)) := Nat.pow_le_pow_right (by decide) (by omega)
      _ ≤ x := hge (by omega)

/-- **A NORMAL MANTISSA IS ENCODED AS ITSELF**: a mantissa of sixteen to
    twenty-three bits shifted back by its exponent from four on. With sixteen bits
    the number has one byte less and its three top bytes carry the sign bit. -/
theorem compact_parts_mul {m e : ℕ} (hm : 2 ^ 15 ≤ m) (hm' : m < 2 ^ 23) (he : 4 ≤ e) :
    compact_parts (m * 2 ^ (8 * (e - 3))) = (m, e) := by
  have hpos := Nat.two_pow_pos (8 * (e - 3))
  by_cases h16 : 2 ^ 16 ≤ m
  · have hs : (bits (m * 2 ^ (8 * (e - 3))) + 7) / 8 = e := by
      apply byte_size_eq _ _ (by omega)
      · calc m * 2 ^ (8 * (e - 3)) < 2 ^ 24 * 2 ^ (8 * (e - 3)) := Nat.mul_lt_mul_of_pos_right (by omega) hpos
          _ = 2 ^ (8 * e) := by rw [← pow_add]; congr 1; omega
      · calc 2 ^ (8 * (e - 1)) = 2 ^ 16 * 2 ^ (8 * (e - 3)) := by rw [← pow_add]; congr 1; omega
          _ ≤ m * 2 ^ (8 * (e - 3)) := Nat.mul_le_mul_right _ h16
    have hc := compact_mantissa_of_size hs (by omega) rfl
    unfold compact_parts
    rw [hc, hs, if_neg (by omega)]
  · have hs : (bits (m * 2 ^ (8 * (e - 3))) + 7) / 8 = e - 1 := by
      apply byte_size_eq _ _ (by omega)
      · calc m * 2 ^ (8 * (e - 3)) < 2 ^ 16 * 2 ^ (8 * (e - 3)) := Nat.mul_lt_mul_of_pos_right (by omega) hpos
          _ = 2 ^ (8 * (e - 1)) := by rw [← pow_add]; congr 1; omega
      · calc 2 ^ (8 * (e - 1 - 1)) ≤ 2 ^ (15 + 8 * (e - 3)) := Nat.pow_le_pow_right (by decide) (by omega)
          _ = 2 ^ 15 * 2 ^ (8 * (e - 3)) := pow_add _ _ _
          _ ≤ m * 2 ^ (8 * (e - 3)) := Nat.mul_le_mul_right _ hm
    have hc : compact_mantissa (m * 2 ^ (8 * (e - 3))) = m * 2 ^ 8 := by
      apply compact_mantissa_of_size hs (by omega)
      rw [Nat.mul_assoc, ← pow_add]
      congr 2
      omega
    unfold compact_parts
    rw [hc, hs, if_pos (by omega), Nat.mul_div_cancel _ (Nat.two_pow_pos 8)]
    congr 1
    omega

theorem sign_bit_eq_zero {c : UInt32} (h : c.toNat % 2 ^ 24 < 2 ^ 23) : c &&& 0x00800000 = 0 := by
  by_contra hne
  have := (sign_bit_ne_zero_iff c).mp hne
  omega

/-! ## Decoding what was encoded -/

/-- **THE DECODER ON A PACKED PAIR**: a mantissa below the sign bit, with an
    exponent of at most 33 above it, decodes to the mantissa shifted by the
    exponent. -/
theorem from_compact_target_bits_of_toNat {b : UInt32} {m e : ℕ} (hb : b.toNat = m + e * 2 ^ 24)
    (hm : m < 2 ^ 23) (he : e ≤ 33) :
    from_compact_target_bits b =
      if e ≤ 3 then m / 2 ^ (8 * (3 - e)) else m * 2 ^ (8 * (e - 3)) % 2 ^ 256 := by
  have hexp : b.toNat / 2 ^ 24 = e := by rw [hb]; omega
  have hmant : b.toNat % 2 ^ 24 = m := by rw [hb]; omega
  unfold from_compact_target_bits
  dsimp only
  rw [hexp, hmant]
  split_ifs with hsmall hneg hneg
  · have : m / 2 ^ (8 * (3 - e)) ≤ m := Nat.div_le_self _ _
    omega
  · rw [Nat.zero_mod, pow_zero, Nat.mul_one]
    exact Nat.mod_eq_of_lt (by omega)
  · omega
  · rw [Nat.mod_eq_of_lt (by omega : 8 * (e - 3) < 256)]

/-- **THE COMPACT ENCODING ROUND TRIP**: decoding the bits of `x` clears the bits
    of `x` below its mantissa, which gives a number no larger, with the same bits;
    the sign bit of the bits is clear. -/
theorem compact_target_bits_round_trip (x : ℕ) (hx : x < 2 ^ 256) (b : UInt32)
    (hb : compact_target_bits x = b) :
    from_compact_target_bits b =
        (if (b >>> 24).toNat ≤ 3 then x
          else x >>> (8 * ((b >>> 24).toNat - 3)) <<< (8 * ((b >>> 24).toNat - 3))) ∧
      from_compact_target_bits b ≤ x ∧
      compact_target_bits (from_compact_target_bits b) = b ∧
      b &&& 0x00800000 = 0 := by
  have hspec := compact_parts_spec hx
  obtain ⟨hm, he⟩ := compact_parts_bounds hx
  have hbn : b.toNat = (compact_parts x).1 + (compact_parts x).2 * 2 ^ 24 := by
    rw [← hb]
    exact compact_target_bits_toNat hx
  -- a number whose parts are those of `x` is encoded as `b`
  have hencode : ∀ y, y < 2 ^ 256 → compact_parts y = compact_parts x → compact_target_bits y = b := by
    intro y hy hparts
    rw [← UInt32.toNat_inj, compact_target_bits_toNat hy, hparts, hbn]
  generalize hp : compact_parts x = p at hspec hm he hbn hencode
  obtain ⟨m, e⟩ := p
  dsimp only at hspec hm he hbn
  have hexp : (b >>> 24).toNat = e := by
    rw [UInt32.toNat_shiftRight, Nat.shiftRight_eq_div_pow, hbn]
    show (m + e * 2 ^ 24) / 2 ^ 24 = e
    omega
  have hsign : b &&& 0x00800000 = 0 := sign_bit_eq_zero (by rw [hbn]; omega)
  rw [from_compact_target_bits_of_toNat hbn hm he, hexp]
  rcases hspec with ⟨hsmall, hmx⟩ | ⟨hlarge, hmx, hnorm⟩
  · -- up to three bytes the number comes back whole
    rw [if_pos hsmall, if_pos hsmall, hmx, Nat.mul_div_cancel _ (Nat.two_pow_pos _)]
    exact ⟨rfl, le_rfl, hencode x hx hp, hsign⟩
  · -- from four bytes on the bytes below the mantissa are cleared
    have hyx : m * 2 ^ (8 * (e - 3)) ≤ x := hmx ▸ Nat.div_mul_le_self x _
    have hy : m * 2 ^ (8 * (e - 3)) < 2 ^ 256 := lt_of_le_of_lt hyx hx
    rw [if_neg (by omega), if_neg (by omega), Nat.shiftRight_eq_div_pow, Nat.shiftLeft_eq, ← hmx,
      Nat.mod_eq_of_lt hy]
    exact ⟨rfl, hyx, hencode _ hy (compact_parts_mul hnorm hm (by omega)), hsign⟩

theorem compact_target_bits_round_trip_two_words :
    (2 : ℕ) ^ 100 + 0x123456789 < 2 ^ 256 ∧
      compact_target_bits (2 ^ 100 + 0x123456789) = compact_target_bits (2 ^ 100 + 0x123456789) ∧
      from_compact_target_bits (compact_target_bits (2 ^ 100 + 0x123456789)) =
          (if (compact_target_bits (2 ^ 100 + 0x123456789) >>> 24).toNat ≤ 3 then
              2 ^ 100 + 0x123456789
            else (2 ^ 100 + 0x123456789) >>>
                (8 * ((compact_target_bits (2 ^ 100 + 0x123456789) >>> 24).toNat - 3)) <<<
                (8 * ((compact_target_bits (2 ^ 100 + 0x123456789) >>> 24).toNat - 3))) ∧
        from_compact_target_bits (compact_target_bits (2 ^ 100 + 0x123456789)) ≤
          2 ^ 100 + 0x123456789 ∧
        compact_target_bits (from_compact_target_bits (compact_target_bits (2 ^ 100 + 0x123456789))) =
          compact_target_bits (2 ^ 100 + 0x123456789) ∧
        compact_target_bits (2 ^ 100 + 0x123456789) &&& 0x00800000 = 0 :=
  ⟨by norm_num, rfl, compact_target_bits_round_trip _ (by norm_num) _ rfl⟩

/-- Decoding the bits of a number below `2 ^ 256` gives no more than the number:
    the encoding only clears low bytes. -/
theorem from_compact_target_bits_le {x : ℕ} (hx : x < 2 ^ 256) :
    from_compact_target_bits (compact_target_bits x) ≤ x := by
  have hspec := compact_parts_spec hx
  obtain ⟨hm, he⟩ := compact_parts_bounds hx
  have hbn := compact_target_bits_toNat hx
  generalize compact_parts x = p at hspec hm he hbn
  obtain ⟨m, e⟩ := p
  dsimp only at hspec hm he hbn
  rw [from_compact_target_bits_of_toNat hbn hm he]
  rcases hspec with ⟨hsmall, hmx⟩ | ⟨hlarge, hmx, -⟩
  · rw [if_pos hsmall, hmx, Nat.mul_div_cancel _ (Nat.two_pow_pos _)]
  · rw [if_neg (by omega)]
    calc m * 2 ^ (8 * (e - 3)) % 2 ^ 256 ≤ m * 2 ^ (8 * (e - 3)) := Nat.mod_le _ _
      _ ≤ x := hmx ▸ Nat.div_mul_le_self x _

/-! ## The work of a target -/

/-- A decoded target is zero, or a mantissa below the sign bit shifted by less than
    the width. -/
theorem from_compact_target_bits_cases (b : UInt32) :
    from_compact_target_bits b = 0 ∨
      ∃ mant j, mant ≤ 0x7FFFFF ∧ j < 256 ∧ from_compact_target_bits b = mant * 2 ^ j % 2 ^ 256 := by
  unfold from_compact_target_bits
  dsimp only
  split
  all_goals
    split_ifs with hneg
    · exact Or.inl rfl
    · exact Or.inr ⟨_, _, by omega, Nat.mod_lt _ (by decide), rfl⟩

/-- **NO TARGET IS `2 ^ 256 - 1`** from `2 ^ 64` on: a target that large is shifted,
    so it is even. -/
theorem succ_target_lt {b : UInt32} (h : 2 ^ 64 ≤ from_compact_target_bits b) :
    from_compact_target_bits b + 1 < 2 ^ 256 := by
  have hlt := from_compact_target_bits_lt b
  rcases from_compact_target_bits_cases b with h0 | ⟨mant, j, hmant, -, hT⟩
  · omega
  · rcases Nat.eq_zero_or_pos j with rfl | hj
    · -- an unshifted mantissa is below `2 ^ 23`
      rw [pow_zero, Nat.mul_one] at hT
      have := Nat.mod_le mant (2 ^ 256)
      omega
    · have heven : 2 ∣ from_compact_target_bits b := by
        rw [hT, Nat.dvd_mod_iff (dvd_pow_self 2 (by decide : 256 ≠ 0))]
        exact Dvd.dvd.mul_left (dvd_pow_self 2 hj.ne') mant
      omega

/-- `calc_work` of a target `T` from `2 ^ 64` on is `2 ^ 256 / (T + 1)`: the
    divisor does not wrap, `!T / (T + 1) + 1` is that quotient, and it fits in
    `Uint192`. -/
theorem calc_work_eq_div {b : UInt32} (h : 2 ^ 64 ≤ from_compact_target_bits b) :
    calc_work b = .ok (2 ^ 256 / (from_compact_target_bits b + 1)) := by
  have hlt := succ_target_lt h
  unfold calc_work
  dsimp only
  generalize from_compact_target_bits b = T at h hlt ⊢
  have hquot : (2 ^ 256 - 1 - T) / (T + 1) + 1 = 2 ^ 256 / (T + 1) := by
    rw [← Nat.add_div_right _ (Nat.succ_pos T)]
    congr 1
    omega
  have h192 : 2 ^ 256 / (T + 1) < 2 ^ 192 := by
    rw [Nat.div_lt_iff_lt_mul (Nat.succ_pos T)]
    calc 2 ^ 256 < 2 ^ 192 * (2 ^ 64 + 1) := by norm_num
      _ ≤ 2 ^ 192 * (T + 1) := Nat.mul_le_mul_left _ (by omega)
  rw [Nat.mod_eq_of_lt hlt, if_neg (by omega), hquot, Nat.mod_eq_of_lt (by omega), if_pos h192]
  rfl

/-- **THE WORK OF A LARGE TARGET**: from `2 ^ 64` on, `calc_work` is
    `2 ^ 256 / (T + 1)`, and a larger target never has more work. -/
theorem calc_work_of_large_target (b : UInt32) (h : 2 ^ 64 ≤ from_compact_target_bits b) :
    calc_work b = .ok (2 ^ 256 / (from_compact_target_bits b + 1)) ∧
      ∀ b' : UInt32, from_compact_target_bits b ≤ from_compact_target_bits b' →
        ∃ w w', calc_work b = .ok w ∧ calc_work b' = .ok w' ∧ w' ≤ w := by
  refine ⟨calc_work_eq_div h, fun b' hle => ?_⟩
  refine ⟨_, _, calc_work_eq_div h, calc_work_eq_div (le_trans h hle), ?_⟩
  exact Nat.div_le_div_left (Nat.succ_le_succ hle) (Nat.succ_pos _)

theorem calc_work_of_large_target_genesis_bits :
    2 ^ 64 ≤ from_compact_target_bits 0x1d00ffff ∧
      calc_work 0x1d00ffff = .ok (2 ^ 256 / (from_compact_target_bits 0x1d00ffff + 1)) ∧
      ∀ b' : UInt32, from_compact_target_bits 0x1d00ffff ≤ from_compact_target_bits b' →
        ∃ w w', calc_work 0x1d00ffff = .ok w ∧ calc_work b' = .ok w' ∧ w' ≤ w :=
  ⟨by decide, calc_work_of_large_target 0x1d00ffff (by decide)⟩

end KashGhostdag
