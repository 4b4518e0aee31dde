import Kash.Script.DataStack

/-! # Script numbers: minimal encodings read back

    A script number is written as its magnitude's base-256 digits, low first, with
    the sign in the top bit of the last byte, and a zero byte added when the top
    digit needs that bit (`magnitude_encoding`). Decoding accepts exactly such
    minimal encodings: a byte list whose top byte without its sign bit is not
    zero, unless the byte below it needs the sign bit (`check_minimal_data_encoding`).

    The proof reads both through Mathlib's `Nat.digits 256`: the serializer's loop
    writes the digits (`magnitude_bytes_eq`), and a minimal byte list is the
    encoding of what it reads, since its digits are the magnitude's digits
    (`magnitude_encoding_of_minimal`). So every `i64` but `i64::MIN` survives
    being written and read (`serialize_deserialize_i64`), and every number that
    is read is written back to the bytes it was read from
    (`deserialize_serialize_i64`). -/

namespace KashScript

open ExceptLoops

/-! ## The bits of a byte -/

section Bytes

theorem toNat_or_0x80 {t : UInt8} (h : t.toNat < 128) : (t ||| 0x80).toNat = t.toNat + 128 := by
  rw [UInt8.toNat_or, Nat.lor_comm]
  have h128 : (0x80 : UInt8).toNat = 2 ^ 7 * 1 := rfl
  rw [h128, ← Nat.two_pow_add_eq_or_of_lt (by simpa using h) 1]
  omega

theorem toNat_and_0x7f (x : UInt8) : (x &&& 0x7f).toNat = x.toNat % 128 := by
  rw [UInt8.toNat_and]
  exact Nat.and_two_pow_sub_one_eq_mod x.toNat 7

theorem toNat_shiftRight_7 (x : UInt8) : (x >>> 7).toNat = x.toNat / 128 := by
  rw [UInt8.toNat_shiftRight, Nat.shiftRight_eq_div_pow]
  rfl

/-- The sign bit of a byte's value is clear exactly below `128`. -/
theorem nat_and_0x80_eq_zero {v : ℕ} (h : v < 256) : v &&& 0x80 = 0 ↔ v < 128 := by
  have h128 : (0x80 : ℕ) = 2 ^ 7 := rfl
  rw [h128, Nat.and_two_pow, Nat.testBit_eq_decide_div_mod_eq]
  by_cases hv : v < 128
  · have hbit : v / 128 % 2 = 0 := by omega
    simp [hbit, hv]
  · have hbit : v / 128 % 2 = 1 := by omega
    simp [hbit, hv]

theorem and_0x80_eq_zero (x : UInt8) : x &&& 0x80 = 0 ↔ x.toNat < 128 := by
  rw [← UInt8.toNat_inj, UInt8.toNat_and]
  exact nat_and_0x80_eq_zero (UInt8.toNat_lt x)

end Bytes

/-! ## Little-endian bytes are base-256 digits -/

theorem from_le_bytes_eq_ofDigits (l : List UInt8) :
    from_le_bytes l = Nat.ofDigits 256 (l.map UInt8.toNat) := by
  induction l with
  | nil => rfl
  | cons b l ih =>
      rw [List.map_cons, Nat.ofDigits_cons, ← ih]
      rfl

theorem from_le_bytes_append (l₁ l₂ : List UInt8) :
    from_le_bytes (l₁ ++ l₂) = from_le_bytes l₁ + 256 ^ l₁.length * from_le_bytes l₂ := by
  rw [from_le_bytes_eq_ofDigits, from_le_bytes_eq_ofDigits, from_le_bytes_eq_ofDigits,
    List.map_append, Nat.ofDigits_append, List.length_map]

theorem from_le_bytes_eq_zero (l : List UInt8) : from_le_bytes l = 0 ↔ ∀ b ∈ l, b = 0 := by
  induction l with
  | nil => simp [from_le_bytes]
  | cons b l ih =>
      have hcons : from_le_bytes (b :: l) = b.toNat + 256 * from_le_bytes l := rfl
      rw [hcons, List.forall_mem_cons, ← ih, ← UInt8.toNat_inj, UInt8.toNat_zero]
      omega

/-- The magnitude `deserialize_i64` folds is the top byte's weight plus the
    little-endian value of the bytes below it. -/
theorem magnitude_eq (a : ℕ) (lower : List UInt8) :
    magnitude a lower = a * 256 ^ lower.length + from_le_bytes lower.reverse := by
  induction lower generalizing a with
  | nil => simp [magnitude, from_le_bytes]
  | cons b lower ih =>
      have hstep : magnitude a (b :: lower) = magnitude (a * 256 + b.toNat) lower := rfl
      rw [hstep, ih, List.reverse_cons, from_le_bytes_append, List.length_reverse,
        List.length_cons, pow_succ]
      have hb : from_le_bytes [b] = b.toNat := by simp [from_le_bytes]
      rw [hb]
      ring

/-! ## The encoding of a magnitude -/

/-- The bytes of a magnitude: its base-256 digits, low first, and a zero byte when
    the top digit needs the sign bit. -/
def magnitude_encoding (p : ℕ) : List UInt8 :=
  (Nat.digits 256 p).map UInt8.ofNat ++
    if 128 ≤ (Nat.digits 256 p).getLastD 0 then [0] else []

/-- A byte list ending in `top` is minimal: `top` leaves the sign bit free, and it
    is not zero unless the byte below it needs the sign bit. -/
def Minimal (lower : List UInt8) (top : UInt8) : Prop :=
  top.toNat < 128 ∧ (top ≠ 0 ∨ 128 ≤ (lower.getLastD 0).toNat)

theorem getLastD_of_ne_nil {α : Type} {l : List α} (h : l ≠ []) (a b : α) :
    l.getLastD a = l.getLastD b := by
  rw [List.getLastD_eq_getLast?, List.getLastD_eq_getLast?, List.getLast?_eq_some_getLast h]
  rfl

theorem and_0x80_ne_zero_iff {v : ℕ} (h : v < 256) :
    ((v &&& 0x80) != 0) = decide (128 ≤ v) := by
  by_cases hv : v < 128
  · rw [(nat_and_0x80_eq_zero h).mpr hv]
    simp [hv]
  · have hne : v &&& 0x80 ≠ 0 := fun h0 => hv ((nat_and_0x80_eq_zero h).mp h0)
    simp [hne, not_lt.mp hv]

/-- **THE SERIALIZER'S LOOP**: with enough fuel, `iter::from_fn` writes the encoding
    of a nonzero magnitude. -/
theorem magnitude_bytes_eq :
    ∀ (fuel p : ℕ), 0 < p → p < fuel → ∀ last_saturated : Bool,
      magnitude_bytes fuel p last_saturated = magnitude_encoding p
  | 0, _, _, hfuel, _ => absurd hfuel (Nat.not_lt_zero _)
  | fuel + 1, p, hp, hfuel, last_saturated => by
      rw [magnitude_bytes, if_neg (Nat.pos_iff_ne_zero.mp hp)]
      dsimp only
      rw [and_0x80_ne_zero_iff (Nat.mod_lt p (by norm_num))]
      unfold magnitude_encoding
      rw [Nat.digits_def' (by norm_num) hp, List.map_cons, List.cons_append, List.getLastD_cons]
      by_cases hq : p / 256 = 0
      · -- the last digit: the loop writes the zero byte its sign bit needs
        obtain ⟨fuel, rfl⟩ : ∃ f, fuel = f + 1 := ⟨fuel - 1, by omega⟩
        rw [hq, Nat.digits_zero, magnitude_bytes, if_pos rfl]
        by_cases htop : 128 ≤ p % 256 <;> simp [htop]
      · have hq' : 0 < p / 256 := Nat.pos_of_ne_zero hq
        rw [magnitude_bytes_eq fuel (p / 256) hq' (by omega)]
        unfold magnitude_encoding
        rw [getLastD_of_ne_nil (Nat.digits_ne_nil_iff_ne_zero.mpr hq) (p % 256) 0]

/-- The encoding of a nonzero magnitude is a minimal byte list, and it reads back
    the magnitude. -/
theorem magnitude_encoding_minimal {p : ℕ} (hp : 0 < p) :
    ∃ lower top, magnitude_encoding p = lower ++ [top] ∧ Minimal lower top ∧
      from_le_bytes (lower ++ [top]) = p := by
  have hne : Nat.digits 256 p ≠ [] := Nat.digits_ne_nil_iff_ne_zero.mpr hp.ne'
  obtain ⟨ds, d, hds⟩ := (List.eq_nil_or_concat' _).resolve_left hne
  have hlast : d ≠ 0 := by
    have := Nat.getLast_digit_ne_zero 256 hp.ne'
    simpa [hds] using this
  have hd : d < 256 := Nat.digits_lt_base (by norm_num) (by rw [hds]; simp)
  have hval : Nat.ofDigits 256 (ds ++ [d]) = p := by
    rw [← hds]
    exact Nat.ofDigits_digits 256 p
  have hmap : ∀ l : List ℕ, (∀ x ∈ l, x < 256) → (l.map UInt8.ofNat).map UInt8.toNat = l := by
    intro l hl
    rw [List.map_map]
    conv_rhs => rw [← List.map_id l]
    refine List.map_congr_left fun x hx => ?_
    exact UInt8.toNat_ofNat_of_lt' (hl x hx)
  have hdigits : ∀ x ∈ ds ++ [d], x < 256 := fun x hx =>
    Nat.digits_lt_base (by norm_num) (by rw [hds]; exact hx)
  unfold magnitude_encoding
  rw [hds, List.getLastD_concat]
  by_cases htop : 128 ≤ d
  · -- the top digit needs the sign bit: a zero byte is the top
    refine ⟨(ds ++ [d]).map UInt8.ofNat, 0, by rw [if_pos htop], ⟨by decide, Or.inr ?_⟩, ?_⟩
    · rw [List.map_append, List.map_singleton, List.getLastD_concat, UInt8.toNat_ofNat_of_lt' hd]
      exact htop
    · rw [from_le_bytes_eq_ofDigits, List.map_append, hmap _ hdigits, List.map_singleton,
        UInt8.toNat_zero, Nat.ofDigits_append_zero, hval]
  · refine ⟨ds.map UInt8.ofNat, UInt8.ofNat d, ?_, ⟨?_, Or.inl ?_⟩, ?_⟩
    · rw [if_neg htop, List.append_nil, List.map_append, List.map_singleton]
    · rw [UInt8.toNat_ofNat_of_lt' hd]
      omega
    · intro h0
      have := congrArg UInt8.toNat h0
      rw [UInt8.toNat_ofNat_of_lt' hd] at this
      exact hlast this
    · rw [from_le_bytes_eq_ofDigits, ← List.map_singleton, ← List.map_append,
        hmap _ hdigits, hval]

/-- **MINIMAL ENCODINGS ARE UNIQUE**: a minimal byte list is the encoding of the
    magnitude it reads. -/
theorem magnitude_encoding_of_minimal {lower : List UInt8} {top : UInt8}
    (hmin : Minimal lower top) :
    magnitude_encoding (from_le_bytes (lower ++ [top])) = lower ++ [top] := by
  obtain ⟨htop, hnz⟩ := hmin
  have hbytes : ∀ l : List UInt8, ∀ x ∈ l.map UInt8.toNat, x < 256 := by
    intro l x hx
    obtain ⟨b, -, rfl⟩ := List.mem_map.mp hx
    exact UInt8.toNat_lt b
  have hback : ∀ l : List UInt8, (l.map UInt8.toNat).map UInt8.ofNat = l := by
    intro l
    rw [List.map_map]
    conv_rhs => rw [← List.map_id l]
    exact List.map_congr_left fun b _ => UInt8.ofNat_toNat
  rw [from_le_bytes_eq_ofDigits]
  by_cases hz : top = 0
  · -- a zero top stands for the sign bit the byte below needs
    subst hz
    have hbelow : 128 ≤ (lower.getLastD 0).toNat := hnz.resolve_left (not_not.mpr rfl)
    obtain ⟨ls, b, rfl⟩ : ∃ ls b, lower = ls ++ [b] := by
      rcases List.eq_nil_or_concat' lower with hnil | hcons
      · rw [hnil] at hbelow
        exact absurd hbelow (by decide)
      · exact hcons
    rw [List.getLastD_concat] at hbelow
    have hb : b.toNat ≠ 0 := by omega
    have hval : Nat.ofDigits 256 ((ls ++ [b] ++ [0]).map UInt8.toNat) =
        Nat.ofDigits 256 ((ls ++ [b]).map UInt8.toNat) := by
      rw [List.map_append, List.map_singleton, UInt8.toNat_zero, Nat.ofDigits_append_zero]
    have hdig : Nat.digits 256 (Nat.ofDigits 256 ((ls ++ [b]).map UInt8.toNat)) =
        (ls ++ [b]).map UInt8.toNat := by
      refine Nat.digits_ofDigits 256 (by norm_num) _ (hbytes _) fun h => ?_
      simpa using hb
    rw [hval]
    unfold magnitude_encoding
    rw [hdig, hback, List.map_append, List.map_singleton, List.getLastD_concat, if_pos hbelow]
  · -- a nonzero top is the last digit
    have htop' : top.toNat ≠ 0 := fun h => hz (UInt8.toNat_inj.mp (by rw [h]; rfl))
    have hdig : Nat.digits 256 (Nat.ofDigits 256 ((lower ++ [top]).map UInt8.toNat)) =
        (lower ++ [top]).map UInt8.toNat := by
      refine Nat.digits_ofDigits 256 (by norm_num) _ (hbytes _) fun h => ?_
      simpa using htop'
    unfold magnitude_encoding
    rw [hdig, hback, List.map_append, List.map_singleton, List.getLastD_concat,
      if_neg (by omega), List.append_nil]

/-- A minimal byte list reads at least `2^(8·k - 1)` over its `k` lower bytes, and
    less than `2^(8·k + 7)`: its length is fixed by its magnitude. -/
theorem Minimal.bounds {lower : List UInt8} {top : UInt8} (hmin : Minimal lower top) :
    128 * 256 ^ lower.length ≤ 256 * from_le_bytes (lower ++ [top]) ∧
      from_le_bytes (lower ++ [top]) < 128 * 256 ^ lower.length := by
  obtain ⟨htop, hnz⟩ := hmin
  have hvalue : from_le_bytes (lower ++ [top]) =
      from_le_bytes lower + 256 ^ lower.length * top.toNat := by
    rw [from_le_bytes_append]
    simp [from_le_bytes]
  have hlow : from_le_bytes lower < 256 ^ lower.length := by
    rw [from_le_bytes_eq_ofDigits]
    have h := Nat.ofDigits_lt_base_pow_length (b := 256) (l := lower.map UInt8.toNat)
      (by norm_num) (fun x hx => by
        obtain ⟨b, -, rfl⟩ := List.mem_map.mp hx
        exact UInt8.toNat_lt b)
    rwa [List.length_map] at h
  refine ⟨?_, ?_⟩
  · by_cases hz : top = 0
    · -- the byte below the top carries the sign-bit weight
      subst hz
      have hbelow : 128 ≤ (lower.getLastD 0).toNat := hnz.resolve_left (not_not.mpr rfl)
      obtain ⟨ls, b, rfl⟩ : ∃ ls b, lower = ls ++ [b] := by
        rcases List.eq_nil_or_concat' lower with hnil | hcons
        · rw [hnil] at hbelow
          exact absurd hbelow (by decide)
        · exact hcons
      rw [List.getLastD_concat] at hbelow
      have hls : from_le_bytes (ls ++ [b]) = from_le_bytes ls + 256 ^ ls.length * b.toNat := by
        rw [from_le_bytes_append]
        simp [from_le_bytes]
      rw [hvalue, hls, List.length_append, List.length_singleton, pow_succ]
      simp only [UInt8.toNat_zero, mul_zero, add_zero]
      nlinarith [Nat.zero_le (from_le_bytes ls), Nat.zero_le (256 ^ ls.length)]
    · have hpos : 1 ≤ top.toNat := Nat.pos_of_ne_zero fun h => hz (UInt8.toNat_inj.mp h)
      rw [hvalue]
      nlinarith [Nat.zero_le (from_le_bytes lower), Nat.zero_le (256 ^ lower.length)]
  · rw [hvalue]
    nlinarith [Nat.zero_le (256 ^ lower.length)]

/-! ## Serializing and deserializing -/

/-- Masking off the sign bit of the byte a sign is put on gives the byte back. -/
theorem sign_byte_and_0x7f {top : UInt8} (htop : top.toNat < 128) (negative : Prop)
    [Decidable negative] : (if negative then top ||| 0x80 else top) &&& 0x7f = top := by
  rw [← UInt8.toNat_inj, toNat_and_0x7f]
  split_ifs
  · rw [toNat_or_0x80 htop]
    omega
  · omega

theorem sign_byte_shiftRight_7 {top : UInt8} (htop : top.toNat < 128) (negative : Prop)
    [Decidable negative] :
    ((if negative then top ||| 0x80 else top) >>> 7).toNat = if negative then 1 else 0 := by
  rw [toNat_shiftRight_7]
  split_ifs
  · rw [toNat_or_0x80 htop]
    omega
  · omega

/-- Every byte is its value below the sign bit, with the sign bit put back when set. -/
theorem eq_sign_byte (msb : UInt8) :
    msb = if 128 ≤ msb.toNat then (msb &&& 0x7f) ||| 0x80 else msb &&& 0x7f := by
  have hlt := UInt8.toNat_lt msb
  have hlow : (msb &&& 0x7f).toNat < 128 := by
    rw [toNat_and_0x7f]
    omega
  rw [← UInt8.toNat_inj]
  split_ifs with hsign
  · rw [toNat_or_0x80 hlow, toNat_and_0x7f]
    omega
  · rw [toNat_and_0x7f]
    omega

/-- `serialize` of a nonzero `i64` other than `i64::MIN`: the encoding of its
    magnitude with the sign put on the top byte. -/
theorem i64_serialize_eq {x : ℤ} (hmin : x ≠ I64_MIN) (hx : x ≠ 0) :
    ∃ lower top, Minimal lower top ∧ from_le_bytes (lower ++ [top]) = x.natAbs ∧
      i64_serialize x = .ok (lower ++ [if x < 0 then top ||| 0x80 else top]) := by
  have hp : 0 < x.natAbs := Int.natAbs_pos.mpr hx
  obtain ⟨lower, top, henc, hmin', hval⟩ := magnitude_encoding_minimal hp
  refine ⟨lower, top, hmin', hval, ?_⟩
  unfold i64_serialize
  rw [if_neg hmin]
  dsimp only
  rw [magnitude_bytes_eq (x.natAbs + 1) x.natAbs hp (Nat.lt_succ_self _) false, henc]
  split
  · rename_i hneg
    rw [List.reverse_append, List.reverse_singleton, List.singleton_append]
    show Except.ok (((top ||| 0x80) :: lower.reverse).reverse) = _
    rw [List.reverse_cons, List.reverse_reverse]
  · rfl

/-- A minimal byte list, with a sign put on its top byte, passes the check. -/
theorem check_minimal_of_minimal {lower : List UInt8} {top msb : UInt8}
    (hmin : Minimal lower top) (hmsb : msb &&& 0x7f = top) :
    check_minimal_data_encoding (lower ++ [msb]) = .ok () := by
  obtain ⟨-, hnz⟩ := hmin
  unfold check_minimal_data_encoding
  rw [List.reverse_append, List.reverse_singleton, List.singleton_append]
  rcases List.eq_nil_or_concat' lower with rfl | ⟨ls, next, rfl⟩
  · -- alone, the top byte is not zero
    have hz : top ≠ 0 := hnz.resolve_right (by decide)
    rw [List.reverse_nil]
    dsimp only
    rw [if_neg (by rw [hmsb]; exact hz)]
  · rw [List.reverse_append, List.reverse_singleton, List.singleton_append]
    dsimp only
    rw [if_neg (by
        rintro ⟨hm, hn⟩
        rw [hmsb] at hm
        rw [List.getLastD_concat] at hnz
        rcases hnz with hz | hbelow
        · exact hz hm
        · exact absurd ((and_0x80_eq_zero next).mp hn) (by omega))]

/-- A byte list that passes the check is minimal. -/
theorem minimal_of_check {lower : List UInt8} {msb : UInt8}
    (h : check_minimal_data_encoding (lower ++ [msb]) = .ok ()) : Minimal lower (msb &&& 0x7f) := by
  refine ⟨by rw [toNat_and_0x7f]; omega, ?_⟩
  unfold check_minimal_data_encoding at h
  rw [List.reverse_append, List.reverse_singleton, List.singleton_append] at h
  rcases List.eq_nil_or_concat' lower with rfl | ⟨ls, next, rfl⟩
  · rw [List.reverse_nil] at h
    dsimp only at h
    split_ifs at h with hz
    exact Or.inl hz
  · rw [List.reverse_append, List.reverse_singleton, List.singleton_append] at h
    dsimp only at h
    split_ifs at h with hz
    rw [List.getLastD_concat]
    -- the top byte is not zero, or the byte below needs the sign bit
    by_cases htop : msb &&& 0x7f = 0
    · exact Or.inr (not_lt.mp fun hn => hz ⟨htop, (and_0x80_eq_zero next).mpr hn⟩)
    · exact Or.inl htop

/-- Two minimal byte lists reading one magnitude are equal. -/
theorem Minimal.eq_of_from_le_bytes {l₁ l₂ : List UInt8} {t₁ t₂ : UInt8} (h₁ : Minimal l₁ t₁)
    (h₂ : Minimal l₂ t₂) (hv : from_le_bytes (l₁ ++ [t₁]) = from_le_bytes (l₂ ++ [t₂])) :
    l₁ = l₂ ∧ t₁ = t₂ := by
  have heq : l₁ ++ [t₁] = l₂ ++ [t₂] := by
    rw [← magnitude_encoding_of_minimal h₁, ← magnitude_encoding_of_minimal h₂, hv]
  exact ⟨List.append_inj_left' heq rfl, List.singleton_inj.mp (List.append_inj_right' heq rfl)⟩

/-- `deserialize_i64` of a minimal byte list with a sign on its top byte. -/
theorem deserialize_i64_of_minimal {lower : List UInt8} {top : UInt8} (hmin : Minimal lower top)
    (negative : Prop) [Decidable negative] (hlen : lower.length < 8) :
    deserialize_i64 (lower ++ [if negative then top ||| 0x80 else top]) =
      .ok ((from_le_bytes (lower ++ [top]) : ℤ) * if negative then -1 else 1) := by
  have hmsb := sign_byte_and_0x7f hmin.1 negative
  unfold deserialize_i64
  rw [if_neg (by rw [List.length_append, List.length_singleton]; omega), List.reverse_append,
    List.reverse_singleton, List.singleton_append]
  dsimp only
  rw [check_minimal_of_minimal hmin hmsb]
  show Except.ok _ = _
  -- the sign is the top bit, the magnitude the rest
  have hsign := sign_byte_shiftRight_7 hmin.1 negative
  have hmag : magnitude (((if negative then top ||| 0x80 else top) &&& 0x7f).toNat)
      lower.reverse = from_le_bytes (lower ++ [top]) := by
    rw [hmsb, magnitude_eq, List.reverse_reverse, List.length_reverse, from_le_bytes_append]
    have htop : from_le_bytes [top] = top.toNat := by simp [from_le_bytes]
    rw [htop]
    ring
  rw [hsign, hmag]
  split_ifs <;> norm_num

/-- An `i64` other than `i64::MIN` has a magnitude below `2^63`. -/
theorem natAbs_lt_of_i64 {x : ℤ} (h₁ : I64_MIN < x) (h₂ : x ≤ I64_MAX) : x.natAbs < 2 ^ 63 := by
  unfold I64_MIN at h₁
  unfold I64_MAX at h₂
  omega

/-- A minimal byte list reading a magnitude below `2^63` has at most seven bytes
    below its top. -/
theorem Minimal.length_lt {lower : List UInt8} {top : UInt8} (hmin : Minimal lower top)
    (hlt : from_le_bytes (lower ++ [top]) < 2 ^ 63) : lower.length < 8 := by
  have hlow := hmin.bounds.1
  have hpow : 256 ^ lower.length < 256 ^ 8 := by
    have : 128 * 256 ^ lower.length < 128 * 256 ^ 8 := by
      calc 128 * 256 ^ lower.length ≤ 256 * from_le_bytes (lower ++ [top]) := hlow
        _ < 256 * 2 ^ 63 := by omega
        _ = 128 * 256 ^ 8 := by norm_num
    omega
  exact (Nat.pow_lt_pow_iff_right (by norm_num)).mp hpow

/-- **WRITE, THEN READ**: every `i64` but `i64::MIN` is written to at most eight
    bytes that pass the minimality check and read back as the number. -/
theorem serialize_deserialize_i64 {x : ℤ} (h₁ : I64_MIN < x) (h₂ : x ≤ I64_MAX) :
    ∃ v, i64_serialize x = .ok v ∧ v.length ≤ 8 ∧ check_minimal_data_encoding v = .ok () ∧
      deserialize_i64 v = .ok x := by
  by_cases hx : x = 0
  · subst hx
    exact ⟨[], rfl, by simp, rfl, rfl⟩
  obtain ⟨lower, top, hmin, hval, hser⟩ := i64_serialize_eq (ne_of_gt h₁) hx
  have hlen : lower.length < 8 := hmin.length_lt (by rw [hval]; exact natAbs_lt_of_i64 h₁ h₂)
  refine ⟨_, hser, by rw [List.length_append, List.length_singleton]; omega,
    check_minimal_of_minimal hmin (sign_byte_and_0x7f hmin.1 _), ?_⟩
  rw [deserialize_i64_of_minimal hmin (x < 0) hlen, hval]
  -- the magnitude with its sign is the number
  congr 1
  split_ifs with hneg
  · omega
  · omega

/-- What a successful read of a non-empty vector knows: its top byte without the
    sign bit closes a minimal encoding of fewer than eight lower bytes, and the
    number is that magnitude with the sign of the top bit. -/
theorem deserialize_i64_cons {lower : List UInt8} {msb : UInt8} {x : ℤ}
    (h : deserialize_i64 (lower ++ [msb]) = .ok x) :
    Minimal lower (msb &&& 0x7f) ∧ lower.length < 8 ∧
      x = (from_le_bytes (lower ++ [msb &&& 0x7f]) : ℤ) * if 128 ≤ msb.toNat then -1 else 1 := by
  have hlen : lower.length < 8 := by
    unfold deserialize_i64 at h
    split at h
    · cases h
    · rename_i hlen8
      rw [List.length_append, List.length_singleton] at hlen8
      omega
  have hcheck : check_minimal_data_encoding (lower ++ [msb]) = .ok () := by
    unfold deserialize_i64 at h
    rw [if_neg (by rw [List.length_append, List.length_singleton]; omega), List.reverse_append,
      List.reverse_singleton, List.singleton_append] at h
    obtain ⟨u, hu, -⟩ := (bind_eq_ok _ _ _).mp h
    exact hu
  have hmin := minimal_of_check hcheck
  -- read the same bytes again through their minimal form
  have hread := deserialize_i64_of_minimal hmin (128 ≤ msb.toNat) hlen
  rw [← eq_sign_byte msb, h] at hread
  exact ⟨hmin, hlen, Except.ok.inj hread⟩

/-- **READ, THEN WRITE**: every number `deserialize_i64` reads is written back to
    the bytes it was read from. -/
theorem deserialize_serialize_i64 {v : List UInt8} {x : ℤ} (h : deserialize_i64 v = .ok x) :
    i64_serialize x = .ok v := by
  rcases List.eq_nil_or_concat' v with hnil | ⟨lower, msb, hv⟩
  · -- the empty vector reads zero, written back as the empty vector
    subst hnil
    cases h
    rfl
  subst hv
  obtain ⟨hmin, hlen, hx⟩ := deserialize_i64_cons h
  -- the magnitude is positive and below `2^63`
  have hbounds := hmin.bounds
  have hpos : 0 < from_le_bytes (lower ++ [msb &&& 0x7f]) := by
    have : 0 < 256 ^ lower.length := Nat.pow_pos (by norm_num)
    omega
  have hlt : from_le_bytes (lower ++ [msb &&& 0x7f]) < 2 ^ 63 := by
    have : 256 ^ lower.length ≤ 256 ^ 7 := Nat.pow_le_pow_right (by norm_num) (by omega)
    omega
  have habs : x.natAbs = from_le_bytes (lower ++ [msb &&& 0x7f]) := by
    rw [hx]
    split_ifs <;> simp
  have hx0 : x ≠ 0 := by
    intro h0
    rw [h0] at habs
    omega
  have hxmin : x ≠ I64_MIN := by
    intro h0
    rw [h0] at habs
    unfold I64_MIN at habs
    omega
  obtain ⟨lower', top', hmin', hval', hser⟩ := i64_serialize_eq hxmin hx0
  obtain ⟨rfl, rfl⟩ := hmin'.eq_of_from_le_bytes hmin (by rw [hval', habs])
  rw [hser]
  -- the sign written is the sign read
  have hneg : x < 0 ↔ 128 ≤ msb.toNat := by
    rw [hx]
    split_ifs <;> omega
  conv_rhs => rw [eq_sign_byte msb]
  simp only [hneg]

/-- The decoder's fold is zero exactly when every byte it reads is. -/
theorem magnitude_eq_zero (a : ℕ) (lower : List UInt8) :
    magnitude a lower = 0 ↔ a = 0 ∧ ∀ b ∈ lower, b = 0 := by
  rw [magnitude_eq]
  have hpow : 0 < 256 ^ lower.length := Nat.pow_pos (by norm_num)
  constructor
  · intro h
    have ha : a = 0 := by
      by_contra ha
      have : 0 < a * 256 ^ lower.length := Nat.mul_pos (Nat.pos_of_ne_zero ha) hpow
      omega
    have hrest : from_le_bytes lower.reverse = 0 := by omega
    rw [from_le_bytes_eq_zero] at hrest
    exact ⟨ha, fun b hb => hrest b (List.mem_reverse.mpr hb)⟩
  · rintro ⟨rfl, hzero⟩
    have : from_le_bytes lower.reverse = 0 :=
      (from_le_bytes_eq_zero _).mpr fun b hb => hzero b (List.mem_reverse.mp hb)
    omega

/-- **THE BOOL READING**: a vector reads `false` exactly when the decoder's fold
    of it is zero: the empty vector, negative zero and zeros with extra bytes. -/
theorem bool_deserialize_eq_false_iff (v : List UInt8) :
    bool_deserialize v = false ↔
      ∀ msb lower, v.reverse = msb :: lower → magnitude (msb &&& 0x7f).toNat lower = 0 := by
  unfold bool_deserialize
  split
  · rename_i hnil
    simp [hnil]
  · rename_i last lower hrev
    -- the reading's two tests are the two parts of a zero fold
    have hfalse : (last &&& 0x7f != 0 || lower.any (· != 0)) = false ↔
        magnitude (last &&& 0x7f).toNat lower = 0 := by
      simp only [magnitude_eq_zero, Bool.or_eq_false_iff, bne_eq_false_iff_eq, List.any_eq_false,
        bne_iff_ne, ne_eq, Decidable.not_not]
      rw [← UInt8.toNat_inj]
      rfl
    rw [hfalse]
    constructor
    · rintro h msb lower' heq
      rw [hrev] at heq
      cases heq
      exact h
    · intro h
      exact h last lower hrev

/-- Script numbers read and write back: every `i64` but `i64::MIN` is written to
    at most eight minimal bytes that read back as it, every accepted vector is
    what its number writes, and the bool reading is false on exactly the zeros. -/
theorem script_number_round_trip :
    (∀ x : ℤ, I64_MIN < x → x ≤ I64_MAX →
      ∃ v, i64_serialize x = .ok v ∧ v.length ≤ 8 ∧ check_minimal_data_encoding v = .ok () ∧
        deserialize_i64 v = .ok x) ∧
    (∀ v x, v.length ≤ 8 → deserialize_i64 v = .ok x → i64_serialize x = .ok v) ∧
    (∀ v, bool_deserialize v = false ↔
      ∀ msb lower, v.reverse = msb :: lower → magnitude (msb &&& 0x7f).toNat lower = 0) :=
  ⟨fun _ h₁ h₂ => serialize_deserialize_i64 h₁ h₂, fun _ _ _ h => deserialize_serialize_i64 h,
    bool_deserialize_eq_false_iff⟩

/-- At the byte boundary: `-255` is written with a sign byte of its own, and negative
    zero reads `false`. -/
theorem script_number_round_trip_sign_byte :
    i64_serialize (-255) = .ok [0xff, 0x80] ∧ bool_deserialize [0, 0x80] = false :=
  ⟨script_number_round_trip.2.1 _ _ (by decide) (by decide),
    (script_number_round_trip.2.2 _).mpr (by
      intro msb lower h
      cases h
      rfl)⟩

end KashScript
