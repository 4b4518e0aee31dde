import Mathlib
import Kash.Address
import Kash.Lib.ExceptLoops
import Kash.Lib.Limbs

/-! # Encoding an address and reading it back

    The two regroupings are one bit buffer (`regroup`): the digits written so far,
    followed by the `bits` bits of the buffer, are always the input digits read so
    far (`Buffered`). So 8-bit bytes become 5-bit digits padded on the right with
    fewer than five zero bits, and reading those digits back as bytes drops the
    padding again (`conv5to8_conv8to5`).

    * `checksum_digits_decode` — the eight checksum digits are the five low bytes of
      the 40-bit `polymod` checksum, and the decoder reads them back as it;
    * `address_round_trip` — the text of an address decodes to the address. -/

namespace KashAddress

/-! ## Big-endian digits -/

/-- The number the big-endian `w`-bit digits `l` denote. -/
def digits_value (w : ℕ) (l : List UInt8) : ℕ :=
  Nat.ofDigits (2 ^ w) (l.reverse.map UInt8.toNat)

variable {w : ℕ}

@[simp] theorem digits_value_nil : digits_value w [] = 0 := rfl

theorem digits_value_append_singleton (l : List UInt8) (d : UInt8) :
    digits_value w (l ++ [d]) = digits_value w l * 2 ^ w + d.toNat := by
  rw [digits_value, List.reverse_append, List.reverse_singleton, List.singleton_append,
    List.map_cons, Nat.ofDigits_cons, digits_value]
  ring

theorem digits_value_append (l₁ l₂ : List UInt8) :
    digits_value w (l₁ ++ l₂) = digits_value w l₁ * 2 ^ (w * l₂.length) + digits_value w l₂ := by
  rw [digits_value, List.reverse_append, List.map_append, Nat.ofDigits_append, List.length_map,
    List.length_reverse, ← pow_mul, digits_value, digits_value]
  ring

theorem digits_value_replicate_zero (n : ℕ) : digits_value w (List.replicate n 0) = 0 := by
  induction n with
  | zero => rfl
  | succ n ih =>
      rw [List.replicate_succ', digits_value_append_singleton, ih, Nat.zero_mul, Nat.zero_add]
      rfl

/-- Digits of a same length and below `2 ^ w` are read from their value. -/
theorem digits_value_inj (hw : 0 < w) {l₁ l₂ : List UInt8} (hlen : l₁.length = l₂.length)
    (h₁ : ∀ d ∈ l₁, d.toNat < 2 ^ w) (h₂ : ∀ d ∈ l₂, d.toNat < 2 ^ w)
    (heq : digits_value w l₁ = digits_value w l₂) : l₁ = l₂ := by
  have hbase : 1 < 2 ^ w := Nat.one_lt_two_pow hw.ne'
  have hbound : ∀ l : List UInt8, (∀ d ∈ l, d.toNat < 2 ^ w) →
      ∀ n ∈ l.reverse.map UInt8.toNat, n < 2 ^ w := by
    intro l hl n hn
    obtain ⟨d, hd, rfl⟩ := List.mem_map.mp hn
    exact hl d (List.mem_reverse.mp hd)
  have hmap := Nat.ofDigits_inj_of_len_eq hbase (by simp [hlen]) (hbound l₁ h₁) (hbound l₂ h₂) heq
  have hinj : Function.Injective UInt8.toNat := fun _ _ h => UInt8.toNat_inj.mp h
  exact List.reverse_injective (List.map_injective_iff.mpr hinj hmap)

/-! ## The 16-bit buffer -/

/-- Shifting a digit into the buffer appends its bits. -/
theorem toNat_shift_in {buff : UInt16} {c : UInt8} {bits width : ℕ} (hbuff : buff.toNat < 2 ^ bits)
    (hc : c.toNat < 2 ^ width) (hwidth : width < 16) (hfit : bits + width ≤ 16) :
    ((buff <<< width.toUInt16) ||| c.toUInt16).toNat = buff.toNat * 2 ^ width + c.toNat := by
  have hw : width.toUInt16.toNat % 16 = width := by
    rw [Nat.toUInt16_eq, UInt16.toNat_ofNat', Nat.mod_eq_of_lt (show width < 2 ^ 16 by omega),
      Nat.mod_eq_of_lt hwidth]
  have hprod : buff.toNat * 2 ^ width < 2 ^ 16 :=
    calc buff.toNat * 2 ^ width < 2 ^ bits * 2 ^ width :=
          Nat.mul_lt_mul_of_pos_right hbuff (Nat.two_pow_pos _)
      _ = 2 ^ (bits + width) := (pow_add _ _ _).symm
      _ ≤ 2 ^ 16 := Nat.pow_le_pow_right (by decide) hfit
  rw [UInt16.toNat_or, UInt16.toNat_shiftLeft, hw, Nat.shiftLeft_eq, Nat.mod_eq_of_lt hprod,
    UInt8.toNat_toUInt16, ← Nat.shiftLeft_eq, ← Nat.shiftLeft_add_eq_or_of_lt hc, Nat.shiftLeft_eq]

theorem toNat_top_bits (buff : UInt16) {k : ℕ} (hk : k < 16) :
    (buff >>> k.toUInt16).toNat = buff.toNat / 2 ^ k := by
  rw [UInt16.toNat_shiftRight, Nat.toUInt16_eq, UInt16.toNat_ofNat',
    Nat.mod_eq_of_lt (show k < 2 ^ 16 by omega), Nat.mod_eq_of_lt hk, Nat.shiftRight_eq_div_pow]

theorem toNat_low_bits (buff : UInt16) {k : ℕ} (hk : k < 16) :
    (buff &&& ((1 <<< k.toUInt16) - 1)).toNat = buff.toNat % 2 ^ k := by
  have hpow : (1 <<< k.toUInt16 : UInt16).toNat = 2 ^ k := by
    rw [UInt16.toNat_shiftLeft, Nat.toUInt16_eq, UInt16.toNat_ofNat',
      Nat.mod_eq_of_lt (show k < 2 ^ 16 by omega), Nat.mod_eq_of_lt hk, UInt16.toNat_one, Nat.shiftLeft_eq, Nat.one_mul,
      Nat.mod_eq_of_lt (Nat.pow_lt_pow_right (by decide) hk)]
  have hone : (1 : UInt16) ≤ 1 <<< k.toUInt16 := by
    rw [UInt16.le_iff_toNat_le, hpow, UInt16.toNat_one]
    exact Nat.one_le_two_pow
  rw [UInt16.toNat_and, UInt16.toNat_sub_of_le _ _ hone, hpow, UInt16.toNat_one,
    Nat.and_two_pow_sub_one_eq_mod]

/-! ## The regrouping loop -/

/-- **THE BUFFER INVARIANT**: the `width`-bit digits `out` written so far, followed
    by the `bits` bits of `buff`, are `len` bits denoting `total`. -/
structure Buffered (width : ℕ) (buff : UInt16) (bits : ℕ) (out : List UInt8) (total len : ℕ) :
    Prop where
  buff_lt : buff.toNat < 2 ^ bits
  value_eq : digits_value width out * 2 ^ bits + buff.toNat = total
  length_eq : width * out.length + bits = len
  digits_lt : ∀ d ∈ out, d.toNat < 2 ^ width

/-- Draining one digit from the top of the buffer keeps the invariant. -/
theorem Buffered.drain_one {width bits : ℕ} {buff : UInt16} {out : List UInt8} {total len : ℕ}
    (h : Buffered width buff bits out total len) (hw : width ≤ bits) (hw8 : width ≤ 8)
    (hbits : bits < 16) :
    Buffered width (buff &&& ((1 <<< (bits - width).toUInt16) - 1)) (bits - width)
      (out ++ [(buff >>> (bits - width).toUInt16).toUInt8]) total len := by
  have hsplit : 2 ^ bits = 2 ^ width * 2 ^ (bits - width) := by
    rw [← pow_add]
    congr 1
    omega
  have htop : buff.toNat / 2 ^ (bits - width) < 2 ^ width := by
    rw [Nat.div_lt_iff_lt_mul (Nat.two_pow_pos _), ← hsplit]
    exact h.buff_lt
  have hdigit : (buff >>> (bits - width).toUInt16).toUInt8.toNat = buff.toNat / 2 ^ (bits - width) := by
    rw [UInt16.toNat_toUInt8, toNat_top_bits buff (by omega), Nat.mod_eq_of_lt]
    exact lt_of_lt_of_le htop (Nat.pow_le_pow_right (by decide) hw8)
  refine ⟨?_, ?_, ?_, ?_⟩
  · rw [toNat_low_bits buff (by omega)]
    exact Nat.mod_lt _ (Nat.two_pow_pos _)
  · rw [toNat_low_bits buff (by omega), digits_value_append_singleton, hdigit, ← h.value_eq, hsplit]
    have := Nat.div_add_mod buff.toNat (2 ^ (bits - width))
    rw [Nat.add_mul, Nat.add_assoc, Nat.mul_comm (buff.toNat / _), Nat.mul_assoc, this]
  · rw [List.length_append, List.length_singleton, ← h.length_eq]
    rw [Nat.mul_add, Nat.mul_one]
    omega
  · intro d hd
    rcases List.mem_append.mp hd with hd | hd
    · exact h.digits_lt d hd
    · rw [List.mem_singleton.mp hd, hdigit]
      exact htop

/-- **THE DRAIN LOOP**: with more fuel than bits, `drain_bits` writes every full
    digit of the buffer and keeps the invariant; fewer than `width` bits stay. The
    induction is on the fuel; each step takes `width` bits out. -/
theorem drain_bits_spec {width : ℕ} (hw : 0 < width) (hw8 : width ≤ 8) :
    ∀ (fuel : ℕ) (buff : UInt16) (bits : ℕ) (out : List UInt8) (total len : ℕ),
      bits < fuel → bits < 16 → Buffered width buff bits out total len →
      ∀ buff' bits' out', drain_bits width fuel buff bits out = (buff', bits', out') →
        bits' < width ∧ Buffered width buff' bits' out' total len
  | 0, _, _, _, _, _, hfuel, _, _, _, _, _, _ => absurd hfuel (Nat.not_lt_zero _)
  | fuel + 1, buff, bits, out, total, len, hfuel, hbits, h, buff', bits', out', hrun => by
      rw [drain_bits] at hrun
      split_ifs at hrun with hfull
      · exact drain_bits_spec hw hw8 fuel _ (bits - width) _ total len (by omega) (by omega)
          (h.drain_one hfull hw8 hbits) buff' bits' out' hrun
      · cases hrun
        exact ⟨by omega, h⟩

/-- **THE REGROUPING LOOP**: every input digit is shifted in and drained, so the
    invariant goes from the digits read to the digits read and the input. The
    induction is on the input digits. -/
theorem regroup_spec {in_width out_width : ℕ} (hin : in_width ≤ 8) (hout : 0 < out_width)
    (hout8 : out_width ≤ 8) :
    ∀ (cs : List UInt8) (buff : UInt16) (bits : ℕ) (out : List UInt8) (total len : ℕ),
      bits < out_width → Buffered out_width buff bits out total len →
      (∀ c ∈ cs, c.toNat < 2 ^ in_width) →
      ∀ buff' bits' out', regroup in_width out_width cs buff bits out = (buff', bits', out') →
        bits' < out_width ∧
          Buffered out_width buff' bits' out' (total * 2 ^ (in_width * cs.length) + digits_value in_width cs)
            (len + in_width * cs.length)
  | [], buff, bits, out, total, len, hbits, h, _, buff', bits', out', hrun => by
      cases hrun
      rw [List.length_nil, Nat.mul_zero, pow_zero, Nat.mul_one, digits_value_nil, Nat.add_zero,
        Nat.add_zero]
      exact ⟨hbits, h⟩
  | c :: cs, buff, bits, out, total, len, hbits, h, hcs, buff', bits', out', hrun => by
      have hc := hcs c List.mem_cons_self
      -- shifting `c` in appends its `in_width` bits
      have hin' : Buffered out_width ((buff <<< in_width.toUInt16) ||| c.toUInt16) (bits + in_width)
          out (total * 2 ^ in_width + c.toNat) (len + in_width) := by
        have hshift := toNat_shift_in h.buff_lt hc (by omega) (by omega)
        refine ⟨?_, ?_, ?_, h.digits_lt⟩
        · rw [hshift, pow_add]
          calc buff.toNat * 2 ^ in_width + c.toNat < buff.toNat * 2 ^ in_width + 2 ^ in_width := by omega
            _ = (buff.toNat + 1) * 2 ^ in_width := by ring
            _ ≤ 2 ^ bits * 2 ^ in_width := Nat.mul_le_mul_right _ h.buff_lt
        · rw [hshift, ← h.value_eq, pow_add]
          ring
        · rw [← h.length_eq]
          omega
      obtain ⟨hbits₁, hdrained⟩ := drain_bits_spec hout hout8 (bits + in_width + 1) _ (bits + in_width)
        out _ _ (by omega) (by omega) hin' _ _ _ rfl
      rw [regroup] at hrun
      obtain ⟨hbits', hrest⟩ := regroup_spec hin hout hout8 cs _ _ _ _ _ hbits₁ hdrained
        (fun c' hc' => hcs c' (List.mem_cons_of_mem c hc')) buff' bits' out' hrun
      refine ⟨hbits', ?_⟩
      have hval : (total * 2 ^ in_width + c.toNat) * 2 ^ (in_width * cs.length) +
          digits_value in_width cs = total * 2 ^ (in_width * (c :: cs).length) +
            digits_value in_width (c :: cs) := by
        rw [show c :: cs = [c] ++ cs from rfl, digits_value_append, List.length_append,
          List.length_singleton, show digits_value in_width [c] = c.toNat by
            rw [digits_value, List.reverse_singleton, List.map_singleton, Nat.ofDigits_singleton]]
        rw [Nat.mul_add, Nat.mul_one, pow_add]
        ring
      have hlen : len + in_width + in_width * cs.length = len + in_width * (c :: cs).length := by
        rw [List.length_cons]
        ring
      rw [← hval, ← hlen]
      exact hrest

theorem digits_value_lt (hw : 0 < w) {l : List UInt8} (h : ∀ d ∈ l, d.toNat < 2 ^ w) :
    digits_value w l < 2 ^ (w * l.length) := by
  have hbound := Nat.ofDigits_lt_base_pow_length (b := 2 ^ w) (l := l.reverse.map UInt8.toNat)
    (Nat.one_lt_two_pow hw.ne') (by
      intro n hn
      obtain ⟨d, hd, rfl⟩ := List.mem_map.mp hn
      exact h d (List.mem_reverse.mp hd))
  rwa [List.length_map, List.length_reverse, ← pow_mul] at hbound

/-- Nothing is read or written yet. -/
theorem buffered_empty (width : ℕ) : Buffered width 0 0 [] 0 0 :=
  ⟨Nat.one_pos, rfl, rfl, fun _ h => absurd h List.not_mem_nil⟩

theorem bytes_lt (l : List UInt8) : ∀ c ∈ l, c.toNat < 2 ^ 8 := fun c _ => UInt8.toNat_lt c

/-- **`conv8to5`**: the 5-bit digits are the bytes followed by fewer than five zero
    bits of padding. -/
theorem conv8to5_spec (payload : List UInt8) :
    ∃ pad, pad < 5 ∧ 5 * (conv8to5 payload).length = 8 * payload.length + pad ∧
      digits_value 5 (conv8to5 payload) = digits_value 8 payload * 2 ^ pad ∧
      ∀ d ∈ conv8to5 payload, d.toNat < 2 ^ 5 := by
  unfold conv8to5
  generalize hr : regroup 8 5 payload 0 0 [] = r
  obtain ⟨buff, bits, out⟩ := r
  obtain ⟨hbits, hb⟩ := regroup_spec (by decide) (by decide) (by decide) payload 0 0 [] 0 0
    (by decide) (buffered_empty 5) (bytes_lt payload) buff bits out hr
  rw [Nat.zero_mul, Nat.zero_add, Nat.zero_add] at hb
  have hlen := hb.length_eq
  dsimp only
  split_ifs with hpos
  · -- the leftover bits, shifted up to a whole digit
    have hpad : 2 ^ 5 = 2 ^ bits * 2 ^ (5 - bits) := by
      rw [← pow_add]
      congr 1
      omega
    have hlast : (buff <<< (5 - bits).toUInt16).toUInt8.toNat = buff.toNat * 2 ^ (5 - bits) := by
      have hlt : buff.toNat * 2 ^ (5 - bits) < 2 ^ 5 := by
        rw [hpad]
        exact Nat.mul_lt_mul_of_pos_right hb.buff_lt (Nat.two_pow_pos _)
      rw [UInt16.toNat_toUInt8, UInt16.toNat_shiftLeft, Nat.toUInt16_eq, UInt16.toNat_ofNat',
        Nat.mod_eq_of_lt (show 5 - bits < 2 ^ 16 by omega), Nat.mod_eq_of_lt (show 5 - bits < 16 by omega),
        Nat.shiftLeft_eq, Nat.mod_eq_of_lt (by omega), Nat.mod_eq_of_lt (by omega)]
    refine ⟨5 - bits, by omega, ?_, ?_, ?_⟩
    · rw [List.length_append, List.length_singleton]
      omega
    · rw [digits_value_append_singleton, hlast, ← hb.value_eq, hpad]
      ring
    · intro d hd
      rcases List.mem_append.mp hd with hd | hd
      · exact hb.digits_lt d hd
      · rw [List.mem_singleton.mp hd, hlast, hpad]
        exact Nat.mul_lt_mul_of_pos_right hb.buff_lt (Nat.two_pow_pos _)
  · -- no bits are left over
    have hzero : bits = 0 := by omega
    subst hzero
    have hbuff : buff.toNat = 0 := by
      have := hb.buff_lt
      omega
    refine ⟨0, by omega, by omega, ?_, hb.digits_lt⟩
    have := hb.value_eq
    rw [hbuff, pow_zero, Nat.mul_one, Nat.add_zero] at this
    rw [this, pow_zero, Nat.mul_one]

/-- **`conv5to8`**: of 5-bit digits, the bytes and fewer than eight bits left over
    make the digits. -/
theorem conv5to8_spec {digits : List UInt8} (h : ∀ d ∈ digits, d.toNat < 2 ^ 5) :
    ∃ bits rest, bits < 8 ∧ rest < 2 ^ bits ∧
      8 * (conv5to8 digits).length + bits = 5 * digits.length ∧
      digits_value 8 (conv5to8 digits) * 2 ^ bits + rest = digits_value 5 digits ∧
      ∀ d ∈ conv5to8 digits, d.toNat < 2 ^ 8 := by
  unfold conv5to8
  generalize hr : regroup 5 8 digits 0 0 [] = r
  obtain ⟨buff, bits, out⟩ := r
  obtain ⟨hbits, hb⟩ := regroup_spec (by decide) (by decide) (by decide) digits 0 0 [] 0 0
    (by decide) (buffered_empty 8) h buff bits out hr
  rw [Nat.zero_mul, Nat.zero_add, Nat.zero_add] at hb
  exact ⟨bits, buff.toNat, hbits, hb.buff_lt, hb.length_eq, hb.value_eq, hb.digits_lt⟩

/-- **THE REGROUPING ROUND TRIP**: reading the 5-bit digits of bytes back as bytes
    gives the bytes: the padding is fewer than eight bits, and it is zero. -/
theorem conv5to8_conv8to5 (payload : List UInt8) : conv5to8 (conv8to5 payload) = payload := by
  obtain ⟨pad, hpad, hlen₅, hval₅, hdigits₅⟩ := conv8to5_spec payload
  obtain ⟨bits, rest, hbits, hrest, hlen₈, hval₈, hdigits₈⟩ := conv5to8_spec hdigits₅
  -- the lengths: as many bytes, and the padding is what is left over
  have hsame : (conv5to8 (conv8to5 payload)).length = payload.length ∧ bits = pad := by omega
  obtain ⟨hlen, rfl⟩ := hsame
  -- the values: the leftover bits are zero, so the bytes denote the same number
  have hval : digits_value 8 (conv5to8 (conv8to5 payload)) = digits_value 8 payload := by
    have hpos := Nat.two_pow_pos bits
    have h₁ : (digits_value 8 (conv5to8 (conv8to5 payload)) * 2 ^ bits + rest) / 2 ^ bits =
        digits_value 8 (conv5to8 (conv8to5 payload)) := by
      rw [Nat.add_comm, Nat.add_mul_div_right _ _ hpos, Nat.div_eq_of_lt hrest, Nat.zero_add]
    rw [hval₈, hval₅, Nat.mul_div_cancel _ hpos] at h₁
    exact h₁.symm
  exact digits_value_inj (by decide) hlen hdigits₈ (bytes_lt payload) hval

/-! ## The checksum -/

/-- A conditional xor with a generator below `2 ^ 40` stays below `2 ^ 40`. -/
theorem toNat_xor_if_lt {p : Prop} [Decidable p] {x g : UInt64} (hx : x.toNat < 2 ^ 40)
    (hg : g.toNat < 2 ^ 40) : (if p then x ^^^ g else x).toNat < 2 ^ 40 := by
  split_ifs
  · rw [UInt64.toNat_xor]
    exact Nat.xor_lt_two_pow hx hg
  · exact hx

/-- One step of `polymod` keeps 40 bits: the five bits shifted out are folded back
    in through generators of 40 bits. -/
theorem polymod_step_lt (c : UInt64) (d : UInt8) : (polymod_step c d).toNat < 2 ^ 40 := by
  have hmask : (0x07ffffffff : UInt64).toNat = 2 ^ 35 - 1 := rfl
  have hfive : (5 : UInt64).toNat % 64 = 5 := rfl
  have hshift : (((c &&& 0x07ffffffff) <<< 5) ^^^ d.toUInt64).toNat < 2 ^ 40 := by
    rw [UInt64.toNat_xor, UInt8.toNat_toUInt64, UInt64.toNat_shiftLeft, UInt64.toNat_and, hmask,
      Nat.and_two_pow_sub_one_eq_mod, hfive, Nat.shiftLeft_eq]
    have hlow := Nat.mod_lt c.toNat (Nat.two_pow_pos 35)
    have hd := UInt8.toNat_lt d
    exact Nat.xor_lt_two_pow (by omega) (by omega)
  unfold polymod_step
  dsimp only
  refine toNat_xor_if_lt ?_ (by decide)
  refine toNat_xor_if_lt ?_ (by decide)
  refine toNat_xor_if_lt ?_ (by decide)
  refine toNat_xor_if_lt ?_ (by decide)
  exact toNat_xor_if_lt hshift (by decide)

theorem polymod_lt (values : List UInt8) : (polymod values).toNat < 2 ^ 40 := by
  have hfold : ∀ (vs : List UInt8) (c : UInt64), c.toNat < 2 ^ 40 →
      (vs.foldl polymod_step c).toNat < 2 ^ 40 := by
    intro vs
    induction vs with
    | nil => exact fun _ hc => hc
    | cons v vs ih => exact fun c _ => ih _ (polymod_step_lt c v)
  rw [polymod, UInt64.toNat_xor]
  exact Nat.xor_lt_two_pow (hfold values 1 (by decide)) (by decide)

/-! ## `u64` bytes -/

/-- `u64::from_be_bytes` reads the bytes as a big-endian number, modulo `2 ^ 64`. -/
theorem from_be_bytes_toNat (l : List UInt8) : (from_be_bytes l).toNat = digits_value 8 l % 2 ^ 64 := by
  -- the fold from `acc`: the bytes go below what `acc` already holds
  have hfold : ∀ (l : List UInt8) (acc : UInt64),
      (l.foldl (fun (acc : UInt64) (b : UInt8) => (acc <<< 8) ||| b.toUInt64) acc).toNat =
        (acc.toNat * 2 ^ (8 * l.length) + digits_value 8 l) % 2 ^ 64 := by
    intro l
    induction l with
    | nil =>
        intro acc
        rw [List.foldl_nil, List.length_nil, Nat.mul_zero, pow_zero, Nat.mul_one, digits_value_nil,
          Nat.add_zero, Nat.mod_eq_of_lt acc.toNat_lt]
    | cons b l ih =>
        intro acc
        have hcons : digits_value 8 (b :: l) = b.toNat * 2 ^ (8 * l.length) + digits_value 8 l := by
          rw [show b :: l = [b] ++ l from rfl, digits_value_append]
          rfl
        rw [List.foldl_cons, ih, Limbs.toNat_shift_byte, hcons, List.length_cons, Nat.mul_succ, pow_add,
          Nat.add_mod, Nat.mul_mod, Nat.mod_mod, ← Nat.mul_mod, ← Nat.add_mod]
        congr 1
        ring
  rw [from_be_bytes, hfold, UInt64.toNat_zero, Nat.zero_mul, Nat.zero_add]

/-- `u64::to_be_bytes` writes the number as eight big-endian bytes. -/
theorem digits_value_to_be_bytes (x : UInt64) : digits_value 8 (to_be_bytes x) = x.toNat := by
  have hbyte : ∀ i ∈ List.range 8, ((x >>> (8 * i).toUInt64).toUInt8).toNat =
      x.toNat / (2 ^ 8) ^ i % 2 ^ 8 := fun i hi => Limbs.toNat_byte x (List.mem_range.mp hi)
  rw [digits_value, to_be_bytes, ← List.map_reverse, List.reverse_reverse, List.map_map,
    Function.comp_def, List.map_congr_left hbyte, Limbs.ofDigits_low_digits, Nat.mod_eq_of_lt]
  exact x.toNat_lt

theorem length_to_be_bytes (x : UInt64) : (to_be_bytes x).length = 8 := by
  rw [to_be_bytes, List.length_map, List.length_reverse, List.length_range]

/-- **THE CHECKSUM DIGITS DECODE TO THE CHECKSUM**: the encoder writes the five low
    bytes of the 40-bit checksum as eight 5-bit digits, and the decoder, reading
    them as bytes behind three zero bytes, gets the checksum back. -/
theorem checksum_digits_decode (payload pfx : List UInt8) :
    (conv8to5 ((to_be_bytes (checksum payload pfx)).drop 3)).length = 8 ∧
      from_be_bytes (List.replicate 3 0 ++
          conv5to8 (conv8to5 ((to_be_bytes (checksum payload pfx)).drop 3))) =
        checksum payload pfx := by
  have hc := polymod_lt (pfx ++ [0] ++ payload ++ List.replicate 8 0)
  rw [← checksum] at hc
  generalize checksum payload pfx = c at hc ⊢
  have hdrop : ((to_be_bytes c).drop 3).length = 5 := by
    rw [List.length_drop, length_to_be_bytes]
  refine ⟨?_, ?_⟩
  · obtain ⟨pad, hpad, hlen, -, -⟩ := conv8to5_spec ((to_be_bytes c).drop 3)
    omega
  · rw [conv5to8_conv8to5, ← UInt64.toNat_inj, from_be_bytes_toNat, digits_value_append,
      digits_value_replicate_zero, Nat.zero_mul, Nat.zero_add]
    -- the three top bytes are zero, so the five low ones are the whole checksum
    have hsplit := digits_value_to_be_bytes c
    rw [← List.take_append_drop 3 (to_be_bytes c), digits_value_append, hdrop] at hsplit
    have hlow := digits_value_lt (w := 8) (by decide) (bytes_lt ((to_be_bytes c).drop 3))
    rw [hdrop] at hlow
    norm_num at hsplit hlow
    omega

/-! ## The text -/

/-- The letter of every 5-bit digit is one ASCII byte, which `REV_CHARSET` maps back
    to the digit. -/
theorem charset_letter (n : ℕ) (hn : n < 32) :
    String.utf8EncodeChar (Char.ofNat (CHARSET.getD n 0).toNat) = [CHARSET.getD n 0] ∧
      REV_CHARSET.getD (CHARSET.getD n 0).toNat 100 = n.toUInt8 := by
  have hall : ∀ n < 32, String.utf8EncodeChar (Char.ofNat (CHARSET.getD n 0).toNat) =
      [CHARSET.getD n 0] ∧ REV_CHARSET.getD (CHARSET.getD n 0).toNat 100 = n.toUInt8 := by
    decide +kernel
  exact hall n hn

theorem utf8_bytes_letters {ds : List UInt8} (h : ∀ d ∈ ds, d.toNat < 2 ^ 5) :
    utf8_bytes (ds.map fun c => Char.ofNat (CHARSET.getD c.toNat 0).toNat) =
      ds.map fun c => CHARSET.getD c.toNat 0 := by
  induction ds with
  | nil => rfl
  | cons d ds ih =>
      have hd := (charset_letter d.toNat (h d List.mem_cons_self)).1
      rw [List.map_cons, utf8_bytes, List.flatMap_cons, ← utf8_bytes, hd,
        ih (fun d' hd' => h d' (List.mem_cons_of_mem d hd')), List.map_cons]
      rfl

theorem decode_digits_letters {ds : List UInt8} (h : ∀ d ∈ ds, d.toNat < 2 ^ 5) :
    decode_digits (ds.map fun c => CHARSET.getD c.toNat 0) = .ok ds := by
  induction ds with
  | nil => rfl
  | cons d ds ih =>
      have hd₅ := h d List.mem_cons_self
      have hd := (charset_letter d.toNat hd₅).2
      rw [Nat.toUInt8_eq, UInt8.ofNat_toNat] at hd
      have hne : d ≠ 100 := fun h100 => by
        rw [h100] at hd₅
        exact absurd hd₅ (by decide)
      rw [List.map_cons, decode_digits, hd, if_neg hne, ih (fun d' hd' => h d' (List.mem_cons_of_mem d hd'))]
      rfl

theorem colon_not_mem_as_str (pfx : Prefix) : ':' ∉ pfx.as_str := by
  cases pfx <;> decide

theorem Prefix.try_from_as_str (pfx : Prefix) : Prefix.try_from pfx.as_str = .ok pfx := by
  cases pfx <;> decide

theorem Version.try_from_to_u8 (version : Version) : Version.try_from version.to_u8 = .ok version := by
  cases version <;> decide

/-- The first colon of a text is the one after a prefix without colons. -/
theorem split_once_append {s : List Char} (t : List Char) (h : ':' ∉ s) :
    split_once (s ++ [':'] ++ t) = some (s, t) := by
  have hidx : (s ++ [':'] ++ t).idxOf? ':' = some s.length := by
    induction s with
    | nil => simp [List.idxOf?_cons]
    | cons c s ih =>
        have hc : c ≠ ':' := fun hc => h (hc ▸ List.mem_cons_self)
        rw [List.cons_append, List.cons_append, List.idxOf?_cons, if_neg (by simpa using hc),
          ih (fun h' => h (List.mem_cons_of_mem c h'))]
        rfl
  rw [split_once, hidx]
  simp

/-- **DECODING THE TEXT**: the text of an address, prefix, colon, payload digits and
    checksum digits, is read back to the address. -/
theorem try_from_to_string (pfx : Prefix) (version : Version) (payload : List UInt8)
    (hlen : payload.length = version.public_key_len) :
    Address.try_from (Address.to_string ⟨pfx, version, payload⟩) = .ok ⟨pfx, version, payload⟩ := by
  obtain ⟨-, -, -, -, hdigits⟩ := conv8to5_spec (version.to_u8 :: payload)
  obtain ⟨hcs_len, hcs⟩ := checksum_digits_decode (conv8to5 (version.to_u8 :: payload)) (fivebit_pfx pfx)
  obtain ⟨-, -, -, -, hcs_digits⟩ := conv8to5_spec
    ((to_be_bytes (checksum (conv8to5 (version.to_u8 :: payload)) (fivebit_pfx pfx))).drop 3)
  have hround := conv5to8_conv8to5 (version.to_u8 :: payload)
  unfold Address.to_string Address.encode_payload
  dsimp only
  generalize conv8to5 ((to_be_bytes (checksum (conv8to5 (version.to_u8 :: payload))
    (fivebit_pfx pfx))).drop 3) = cs at hcs_len hcs hcs_digits ⊢
  generalize conv8to5 (version.to_u8 :: payload) = digits at hdigits hcs hcs_digits hround ⊢
  have hall : ∀ d ∈ digits ++ cs, d.toNat < 2 ^ 5 := fun d hd =>
    (List.mem_append.mp hd).elim (hdigits d) (hcs_digits d)
  rw [Address.try_from, split_once_append _ (colon_not_mem_as_str pfx)]
  dsimp only
  rw [Prefix.try_from_as_str, ExceptLoops.ok_mapError, ExceptLoops.ok_bind]
  unfold Address.decode_payload
  dsimp only
  rw [utf8_bytes_letters hall, decode_digits_letters hall, ExceptLoops.ok_mapError, ExceptLoops.ok_bind]
  -- the last eight digits are the checksum, and the digits before them the payload
  have hbytes : (List.map (fun c => CHARSET.getD c.toNat 0) (digits ++ cs)).length = digits.length + 8 := by
    rw [List.length_map, List.length_append, hcs_len]
  rw [hbytes, if_neg (by omega), Nat.add_sub_cancel, List.take_left, List.drop_left, hcs,
    if_neg (not_not.mpr rfl), hround]
  dsimp only
  rw [Version.try_from_to_u8, ExceptLoops.ok_mapError, ExceptLoops.ok_bind, Address.new, if_pos hlen,
    ExceptLoops.ok_mapError]

/-- **THE ADDRESS ROUND TRIP**: an address of the right key length reads back from
    its text; regrouping bytes into 5-bit digits and back gives the bytes; and the
    eight checksum digits read back as the checksum the encoder wrote. -/
theorem address_round_trip (pfx : Prefix) (version : Version) (payload : List UInt8)
    (hlen : payload.length = version.public_key_len) :
    (∃ a, Address.new pfx version payload = .ok a ∧ Address.try_from (Address.to_string a) = .ok a) ∧
      (∀ x : List UInt8, conv5to8 (conv8to5 x) = x) ∧
      ∀ digits pfx5 : List UInt8,
        (conv8to5 ((to_be_bytes (checksum digits pfx5)).drop 3)).length = 8 ∧
          from_be_bytes (List.replicate 3 0 ++
              conv5to8 (conv8to5 ((to_be_bytes (checksum digits pfx5)).drop 3))) =
            checksum digits pfx5 :=
  ⟨⟨⟨pfx, version, payload⟩, if_pos hlen, try_from_to_string pfx version payload hlen⟩,
    conv5to8_conv8to5, checksum_digits_decode⟩

theorem address_round_trip_zero_key :
    (List.replicate 32 (0 : UInt8)).length = Version.PubKey.public_key_len ∧
      (∃ a, Address.new .Mainnet .PubKey (List.replicate 32 0) = .ok a ∧
          Address.try_from (Address.to_string a) = .ok a) ∧
      (∀ x : List UInt8, conv5to8 (conv8to5 x) = x) ∧
      ∀ digits pfx5 : List UInt8,
        (conv8to5 ((to_be_bytes (checksum digits pfx5)).drop 3)).length = 8 ∧
          from_be_bytes (List.replicate 3 0 ++
              conv5to8 (conv8to5 ((to_be_bytes (checksum digits pfx5)).drop 3))) =
            checksum digits pfx5 :=
  ⟨rfl, address_round_trip .Mainnet .PubKey (List.replicate 32 0) rfl⟩

end KashAddress
