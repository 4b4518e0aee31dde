import Kash.Lib.Limbs
import Kash.Script.Opcodes

/-! # Fixed-width integers (`kash_math::construct_uint!`, `uint.rs`)

    `construct_uint!(Name, LIMBS)` builds a little-endian integer of `LIMBS`
    64-bit words: `Uint192` (3 words, the blue work), `Uint256`, `Uint320` and
    `Uint3072`. Here the width is a parameter and a value is its word list,
    which carries its length.

    `overflowing_add` adds word by word with a carry. `overflowing_mul` is the
    schoolbook product: row `j` adds `self * other[j]` shifted by `j` words,
    but only into the words below `LIMBS`: the products `self[i] * other[j]`
    with `i + j ≥ LIMBS` are never formed. Its flag is the carry out of the top
    word of some row. The product word list is exact modulo `2 ^ BITS`
    (`overflowing_mul_value`), and a raised flag means the product does not fit
    (`overflowing_mul_flag_sound`); a product whose overflow sits only in the
    skipped words leaves the flag down (`overflowing_mul_misses_overflow`). -/

namespace KashMath

open Limbs

/-- `construct_uint!(Name, LIMBS)`: `LIMBS` little-endian `u64` words. -/
structure Uint (LIMBS : ℕ) where
  words : List UInt64
  length_words : words.length = LIMBS
  deriving DecidableEq

variable {LIMBS : ℕ}

namespace Uint

/-- `BITS`. -/
def BITS (LIMBS : ℕ) : ℕ := 64 * LIMBS

/-- The number the words denote. -/
def to_nat (x : Uint LIMBS) : ℕ := value x.words

/-- `ZERO`. -/
def ZERO : Uint LIMBS := ⟨List.replicate LIMBS 0, List.length_replicate⟩

/-- The number of words of `Uint192`, the type of the blue work. -/
def UINT192_LIMBS : ℕ := 3

theorem to_nat_lt (x : Uint LIMBS) : x.to_nat < 2 ^ BITS LIMBS := by
  have h := value_lt x.words
  rwa [x.length_words] at h

end Uint

/-! ## Addition -/

/-- `u64::overflowing_add`: the wrapped sum and whether it wrapped. -/
def overflowing_add_u64 (lhs rhs : UInt64) : UInt64 × Bool :=
  (lhs + rhs, decide (2 ^ 64 ≤ lhs.toNat + rhs.toNat))

/-- `carrying_add_u64`: the low word of `lhs + rhs + carry`, and whether it
    carried. -/
def carrying_add_u64 (lhs rhs : UInt64) (carry : Bool) : UInt64 × Bool :=
  let (a, b) := overflowing_add_u64 lhs rhs
  let (c, d) := overflowing_add_u64 a (if carry then 1 else 0)
  (c, b != d)

/-- The loop of `overflowing_add` over the words from the least significant. -/
def add_words : List UInt64 → List UInt64 → Bool → List UInt64 × Bool
  | x :: xs, y :: ys, carry =>
      let (z, carry) := carrying_add_u64 x y carry
      let (zs, carry) := add_words xs ys carry
      (z :: zs, carry)
  | _, _, carry => ([], carry)

theorem add_words_length : ∀ (xs ys : List UInt64) (carry : Bool),
    (add_words xs ys carry).1.length = min xs.length ys.length
  | x :: xs, y :: ys, carry => by
      simp only [add_words, List.length_cons, add_words_length xs ys, Nat.succ_min_succ]
  | [], _, _ => by simp [add_words]
  | _ :: _, [], _ => by simp [add_words]

/-! ## Multiplication -/

/-- The `while i + j < LIMBS` loop of `overflowing_mul` for row `j`, with `k`
    iterations left: `result[i + j]` becomes the low word of
    `self[i] * other[j] + result[i + j] + carry`, and its high word is the next
    carry. -/
def mul_row (self : List UInt64) (other_j : UInt64) (j : ℕ) :
    ℕ → ℕ → List UInt64 → UInt64 → List UInt64 × UInt64
  | 0, _, result, carry => (result, carry)
  | k + 1, i, result, carry =>
      let n := (self.getD i 0).toNat * other_j.toNat + (result.getD (i + j) 0).toNat + carry.toNat
      mul_row self other_j j k (i + 1) (result.set (i + j) n.toUInt64) (n / 2 ^ 64).toUInt64

/-- One row of `overflowing_mul`: the row from `i = 0` with no carry, and the
    flag raised when it ends with a carry. -/
def mul_step (LIMBS : ℕ) (self other : List UInt64) (acc : List UInt64 × Bool) (j : ℕ) :
    List UInt64 × Bool :=
  let (result, carry) := mul_row self (other.getD j 0) j (LIMBS - j) 0 acc.1 0
  (result, acc.2 || carry != 0)

/-- The rows of `overflowing_mul` over the words. -/
def overflowing_mul_words (LIMBS : ℕ) (self other : List UInt64) : List UInt64 × Bool :=
  (List.range LIMBS).foldl (mul_step LIMBS self other) (List.replicate LIMBS 0, false)

theorem mul_row_length (self : List UInt64) (other_j : UInt64) (j : ℕ) :
    ∀ (k i : ℕ) (result : List UInt64) (carry : UInt64),
      (mul_row self other_j j k i result carry).1.length = result.length
  | 0, _, _, _ => rfl
  | k + 1, i, result, carry => by
      rw [mul_row, mul_row_length self other_j j k, List.length_set]

theorem overflowing_mul_words_length (self other : List UInt64) :
    (overflowing_mul_words LIMBS self other).1.length = LIMBS := by
  have h : ∀ (js : List ℕ) (acc : List UInt64 × Bool), acc.1.length = LIMBS →
      (js.foldl (mul_step LIMBS self other) acc).1.length = LIMBS := by
    intro js
    induction js with
    | nil => intro acc h; exact h
    | cons j js ih =>
        intro acc h
        rw [List.foldl_cons]
        apply ih
        rw [mul_step, mul_row_length, h]
  exact h _ _ List.length_replicate

/-! ## Subtraction -/

/-- `u64::overflowing_sub`: the wrapped difference and whether it wrapped. -/
def overflowing_sub_u64 (lhs rhs : UInt64) : UInt64 × Bool :=
  (lhs - rhs, decide (lhs.toNat < rhs.toNat))

/-- `borrowing_sub_u64`: the low word of `lhs - rhs - borrow`, and whether it
    borrowed. -/
def borrowing_sub_u64 (lhs rhs : UInt64) (borrow : Bool) : UInt64 × Bool :=
  let (a, b) := overflowing_sub_u64 lhs rhs
  let (c, d) := overflowing_sub_u64 a (if borrow then 1 else 0)
  (c, b != d)

/-- The loop of `overflowing_sub` over the words from the least significant. -/
def sub_words : List UInt64 → List UInt64 → Bool → List UInt64 × Bool
  | x :: xs, y :: ys, borrow =>
      let (z, borrow) := borrowing_sub_u64 x y borrow
      let (zs, borrow) := sub_words xs ys borrow
      (z :: zs, borrow)
  | _, _, borrow => ([], borrow)

theorem sub_words_length : ∀ (xs ys : List UInt64) (borrow : Bool),
    (sub_words xs ys borrow).1.length = min xs.length ys.length
  | x :: xs, y :: ys, borrow => by
      simp only [sub_words, List.length_cons, sub_words_length xs ys, Nat.succ_min_succ]
  | [], _, _ => by simp [sub_words]
  | _ :: _, [], _ => by simp [sub_words]

/-! ## Adding a word -/

/-- The `for i in 1..LIMBS` loop of `overflowing_add_u64`: a carry adds one to the
    next word, and the loop breaks at the first word that does not carry. -/
def carry_words : List UInt64 → Bool → List UInt64 × Bool
  | ws, false => (ws, false)
  | [], true => ([], true)
  | w :: ws, true =>
      let (w, carry) := overflowing_add_u64 w 1
      let (ws, carry) := carry_words ws carry
      (w :: ws, carry)

theorem carry_words_length : ∀ (ws : List UInt64) (carry : Bool),
    (carry_words ws carry).1.length = ws.length
  | ws, false => by cases ws <;> rfl
  | [], true => rfl
  | w :: ws, true => by simp only [carry_words, List.length_cons, carry_words_length ws]

/-! ## Multiplying by a word -/

/-- The loop of `carrying_mul_u64`. The `u128` number `carry + other * self[i]` is
    kept in `ℕ`: it stays below `2 ^ 128`, so its checked arithmetic never
    overflows. The word keeps its low half, and `(n >> 64) & u64::MAX` is the
    next carry. -/
def mul_u64_words (other : UInt64) : List UInt64 → ℕ → List UInt64 × ℕ
  | [], carry => ([], carry)
  | w :: ws, carry =>
      let n := carry + other.toNat * w.toNat
      let (ws, carry) := mul_u64_words other ws (n >>> 64 &&& (2 ^ 64 - 1))
      (n.toUInt64 :: ws, carry)

theorem mul_u64_words_length (other : UInt64) : ∀ (ws : List UInt64) (carry : ℕ),
    (mul_u64_words other ws carry).1.length = ws.length
  | [], _ => rfl
  | w :: ws, carry => by simp only [mul_u64_words, List.length_cons, mul_u64_words_length other ws]

/-! ## Shifts

    Both shifts take the shift modulo `BITS` and split it into whole words
    (`left_words`) and bits (`left_shifts`). The first loop moves every word by
    the whole words and shifts it by the bits; when the bits are not zero, the
    second loop ORs in the bits that cross over from the neighbouring word. -/

/-- The words of `overflowing_shl` for a shift `s` already taken modulo `BITS`. -/
def shl_words (self : List UInt64) (LIMBS s : ℕ) : List UInt64 :=
  let left_words := s / 64
  let left_shifts := s % 64
  let ret := (List.range' left_words (LIMBS - left_words)).foldl
    (fun ret i => ret.set i (self.getD (i - left_words) 0 <<< left_shifts.toUInt64))
    (List.replicate LIMBS 0)
  if 0 < left_shifts then
    let left_over := 64 - left_shifts
    (List.range' (left_words + 1) (LIMBS - (left_words + 1))).foldl
      (fun ret i => ret.set i
        (ret.getD i 0 ||| self.getD (i - 1 - left_words) 0 >>> left_over.toUInt64))
      ret
  else ret

/-- The words of `overflowing_shr` for a shift `s` already taken modulo `BITS`. -/
def shr_words (self : List UInt64) (LIMBS s : ℕ) : List UInt64 :=
  let left_words := s / 64
  let left_shifts := s % 64
  let ret := (List.range' left_words (LIMBS - left_words)).foldl
    (fun ret i => ret.set (i - left_words) (self.getD i 0 >>> left_shifts.toUInt64))
    (List.replicate LIMBS 0)
  if 0 < left_shifts then
    let left_over := 64 - left_shifts
    (List.range' (left_words + 1) (LIMBS - (left_words + 1))).foldl
      (fun ret i => ret.set (i - left_words - 1)
        (ret.getD (i - left_words - 1) 0 ||| self.getD i 0 <<< left_over.toUInt64))
      ret
  else ret

theorem shl_words_length (self : List UInt64) (LIMBS s : ℕ) :
    (shl_words self LIMBS s).length = LIMBS := by
  dsimp only [shl_words]
  split <;> simp only [length_foldl_set, List.length_replicate]

theorem shr_words_length (self : List UInt64) (LIMBS s : ℕ) :
    (shr_words self LIMBS s).length = LIMBS := by
  dsimp only [shr_words]
  split <;> simp only [length_foldl_set, List.length_replicate]

/-! ## Comparison -/

/-- `Iterator::cmp`: the first pair that differs decides, and a sequence that
    ends first is the smaller. -/
def iter_cmp : List UInt64 → List UInt64 → Ordering
  | [], [] => .eq
  | [], _ :: _ => .lt
  | _ :: _, [] => .gt
  | x :: xs, y :: ys => (compare x y).then (iter_cmp xs ys)

/-! ## Bytes -/

/-- `u64::to_le_bytes`: the eight bytes from the least significant. -/
def u64_to_le_bytes (w : UInt64) : List UInt8 :=
  (List.range 8).map fun i => (w >>> (8 * i).toUInt64).toUInt8

/-- `u64::from_le_bytes`. -/
def u64_from_le_bytes (bytes : List UInt8) : UInt64 :=
  bytes.foldr (fun b acc => (acc <<< 8) ||| b.toUInt64) 0

/-- `u64::to_be_bytes`. -/
def u64_to_be_bytes (w : UInt64) : List UInt8 := (u64_to_le_bytes w).reverse

/-- `u64::from_be_bytes`. -/
def u64_from_be_bytes (bytes : List UInt8) : UInt64 := u64_from_le_bytes bytes.reverse

/-- Chunk `i` of `chunks_exact(8)`: bytes `8 * i` to `8 * i + 8`. -/
def chunk (bytes : List UInt8) (i : ℕ) : List UInt8 := (bytes.drop (8 * i)).take 8

/-- `TryFromSliceError`. -/
inductive TryFromSliceError
  | mk
  deriving DecidableEq, Repr

/-! ## Bits -/

/-- `u64::leading_zeros`. -/
def leading_zeros (w : UInt64) : ℕ := 64 - w.toNat.size

/-- The loop of `bits` over `enumerate().rev()`: the first nonzero word from the
    top decides. -/
def bits_loop (words : List UInt64) : List ℕ → ℕ
  | [] => 0
  | i :: is =>
      if words.getD i 0 ≠ 0 then 64 * (i + 1) - leading_zeros (words.getD i 0)
      else bits_loop words is

/-! ## Division by a word -/

/-- The `for_each` of `div_rem_u64` over the words from the most significant: the
    remainder so far and the next word make a `u128`, which is divided by
    `other`. -/
def div_rem_u64_loop (other : UInt64) : List UInt64 → UInt64 → List UInt64 × UInt64
  | [], rem => ([], rem)
  | d :: ds, rem =>
      let n := rem.toNat <<< 64 ||| d.toNat
      let (ds, rem) := div_rem_u64_loop other ds (n % other.toNat).toUInt64
      ((n / other.toNat).toUInt64 :: ds, rem)

theorem div_rem_u64_loop_length (other : UInt64) : ∀ (ds : List UInt64) (rem : UInt64),
    (div_rem_u64_loop other ds rem).1.length = ds.length
  | [], _ => rfl
  | d :: ds, rem => by
      simp only [div_rem_u64_loop, List.length_cons, div_rem_u64_loop_length other ds]

namespace Uint

/-- `overflowing_add`. -/
def overflowing_add (self other : Uint LIMBS) : Uint LIMBS × Bool :=
  (⟨(add_words self.words other.words false).1, by
      rw [add_words_length, self.length_words, other.length_words, Nat.min_self]⟩,
    (add_words self.words other.words false).2)

/-- `overflowing_mul`. -/
def overflowing_mul (self other : Uint LIMBS) : Uint LIMBS × Bool :=
  (⟨(overflowing_mul_words LIMBS self.words other.words).1, overflowing_mul_words_length _ _⟩,
    (overflowing_mul_words LIMBS self.words other.words).2)

open KashScript

/-- `overflowing_sub`. -/
def overflowing_sub (self other : Uint LIMBS) : Uint LIMBS × Bool :=
  (⟨(sub_words self.words other.words false).1, by
      rw [sub_words_length, self.length_words, other.length_words, Nat.min_self]⟩,
    (sub_words self.words other.words false).2)

/-- `overflowing_add_u64`: `other` goes into word `0` and the carry runs up. Word
    `0` of a zero-word integer is out of bounds. -/
def overflowing_add_u64 (self : Uint LIMBS) (other : UInt64) :
    Except PanicSite (Uint LIMBS × Bool) :=
  match self with
  | ⟨[], _⟩ => .error .index_out_of_bounds
  | ⟨w :: ws, h⟩ =>
      .ok (⟨(KashMath.overflowing_add_u64 w other).1 ::
          (carry_words ws (KashMath.overflowing_add_u64 w other).2).1, by
          rw [List.length_cons, carry_words_length, ← h, List.length_cons]⟩,
        (carry_words ws (KashMath.overflowing_add_u64 w other).2).2)

/-- `carrying_mul_u64`. -/
def carrying_mul_u64 (self : Uint LIMBS) (other : UInt64) : Uint LIMBS × UInt64 :=
  (⟨(mul_u64_words other self.words 0).1, by rw [mul_u64_words_length, self.length_words]⟩,
    (mul_u64_words other self.words 0).2.toUInt64)

/-- `overflowing_mul_u64`. -/
def overflowing_mul_u64 (self : Uint LIMBS) (other : UInt64) : Uint LIMBS × Bool :=
  ((self.carrying_mul_u64 other).1, (self.carrying_mul_u64 other).2 != 0)

/-- `overflowing_shl`: the flag says whether the shift was at least `BITS`. -/
def overflowing_shl (self : Uint LIMBS) (s : ℕ) : Uint LIMBS × Bool :=
  (⟨shl_words self.words LIMBS (s % BITS LIMBS), shl_words_length _ _ _⟩,
    decide (BITS LIMBS ≤ s))

/-- `overflowing_shr`. -/
def overflowing_shr (self : Uint LIMBS) (s : ℕ) : Uint LIMBS × Bool :=
  (⟨shr_words self.words LIMBS (s % BITS LIMBS), shr_words_length _ _ _⟩,
    decide (BITS LIMBS ≤ s))

/-- `Ord::cmp`: the words compared from the most significant. -/
def cmp (self other : Uint LIMBS) : Ordering :=
  iter_cmp self.words.reverse other.words.reverse

/-- `BYTES`. -/
def BYTES (LIMBS : ℕ) : ℕ := 8 * LIMBS

/-- `to_le_bytes`: each word's bytes, from the least significant word. -/
def to_le_bytes (self : Uint LIMBS) : List UInt8 := self.words.flatMap u64_to_le_bytes

/-- `to_be_bytes`: each word's big-endian bytes, from the most significant word. -/
def to_be_bytes (self : Uint LIMBS) : List UInt8 := self.words.reverse.flatMap u64_to_be_bytes

/-- `from_le_bytes`: word `i` is read from chunk `i`. -/
def from_le_bytes (bytes : List UInt8) : Uint LIMBS :=
  ⟨(List.range LIMBS).map fun i => u64_from_le_bytes (chunk bytes i), by simp⟩

/-- `from_be_bytes`: chunk `i` fills the words from the most significant. -/
def from_be_bytes (bytes : List UInt8) : Uint LIMBS :=
  ⟨((List.range LIMBS).map fun i => u64_from_be_bytes (chunk bytes i)).reverse, by simp⟩

/-- `to_be_bytes_var`: the big-endian bytes from the first nonzero one. -/
def to_be_bytes_var (self : Uint LIMBS) : List UInt8 :=
  let bytes := self.to_be_bytes
  let start := (bytes.findIdx? (· != 0)).getD bytes.length
  bytes.drop start

/-- `from_be_bytes_var`: at most `BYTES` bytes, padded with zeros in front. -/
def from_be_bytes_var (bytes : List UInt8) : Except TryFromSliceError (Uint LIMBS) :=
  if BYTES LIMBS < bytes.length then .error .mk
  else .ok (from_be_bytes (List.replicate (BYTES LIMBS - bytes.length) 0 ++ bytes))

/-- `bits`: the least number of bits that holds the value. -/
def bits (self : Uint LIMBS) : ℕ := bits_loop self.words (List.range LIMBS).reverse

/-- `ret[shift / 64] |= 1 << (shift % 64)`. -/
def set_bit (ret : Uint LIMBS) (shift : ℕ) : Except PanicSite (Uint LIMBS) :=
  if shift / 64 < LIMBS then
    .ok ⟨ret.words.set (shift / 64) (ret.words.getD (shift / 64) 0 ||| 1 <<< (shift % 64).toUInt64),
      by rw [List.length_set, ret.length_words]⟩
  else .error .index_out_of_bounds

/-- One pass of the `div_rem` loop at `shift`: where the shifted divisor fits,
    the quotient bit is set and the divisor subtracted. -/
def div_rem_step (shift : ℕ) (shift_copy sub_copy ret : Uint LIMBS) :
    Except PanicSite (Uint LIMBS × Uint LIMBS) :=
  if sub_copy.cmp shift_copy ≠ .lt then do
    let ret ← set_bit ret shift
    pure ((sub_copy.overflowing_sub shift_copy).1, ret)
  else pure (sub_copy, ret)

/-- The `loop` of `div_rem`, from `shift` down to `0`; the divisor is shifted
    right by one between passes. -/
def div_rem_loop : ℕ → Uint LIMBS → Uint LIMBS → Uint LIMBS →
    Except PanicSite (Uint LIMBS × Uint LIMBS)
  | 0, shift_copy, sub_copy, ret => do
      let (sub_copy, ret) ← div_rem_step 0 shift_copy sub_copy ret
      pure (ret, sub_copy)
  | shift + 1, shift_copy, sub_copy, ret => do
      let (sub_copy, ret) ← div_rem_step (shift + 1) shift_copy sub_copy ret
      div_rem_loop shift (shift_copy.overflowing_shr 1).1 sub_copy ret

/-- `div_rem`: bitwise long division, the quotient and the remainder. -/
def div_rem (self other : Uint LIMBS) : Except PanicSite (Uint LIMBS × Uint LIMBS) :=
  let my_bits := self.bits
  let your_bits := other.bits
  -- `assert_ne!(your_bits, 0)`
  if your_bits = 0 then .error .assertion_failed
  else if my_bits < your_bits then .ok (ZERO, self)
  else
    let shift := my_bits - your_bits
    div_rem_loop shift (other.overflowing_shl shift).1 self ZERO

/-- `div_rem_u64`. The first `n / other` panics on a zero divisor. -/
def div_rem_u64 (self : Uint LIMBS) (other : UInt64) : Except PanicSite (Uint LIMBS × UInt64) :=
  if other = 0 ∧ 0 < LIMBS then .error .division_by_zero
  else
    .ok (⟨(div_rem_u64_loop other self.words.reverse 0).1.reverse, by
        rw [List.length_reverse, div_rem_u64_loop_length, List.length_reverse, self.length_words]⟩,
      (div_rem_u64_loop other self.words.reverse 0).2)

/-! ## The operators

    `Add` and `Mul<u64>` keep the wrapped result: their overflow checks are
    `debug_assert!`s, which a release build leaves out. `Sum` adds with `Add`. -/

/-- `Add`. -/
def add (self other : Uint LIMBS) : Uint LIMBS := (self.overflowing_add other).1

/-- `Mul<u64>`. -/
def mul_u64 (self : Uint LIMBS) (other : UInt64) : Uint LIMBS := (self.overflowing_mul_u64 other).1

/-- `Div<u64>`: the quotient of `div_rem_u64`. -/
def div_u64 (self : Uint LIMBS) (other : UInt64) : Except PanicSite (Uint LIMBS) := do
  let (quotient, _) ← self.div_rem_u64 other
  pure quotient

/-- `Sum`: the first element, or `ZERO`, with every later one added to it. -/
def sum : List (Uint LIMBS) → Uint LIMBS
  | [] => ZERO
  | first :: rest => rest.foldl add first

/-- `Ord::min`: `other` when `self` compares greater. -/
def min (self other : Uint LIMBS) : Uint LIMBS := if self.cmp other = .gt then other else self

/-- The words of a number, least significant first. Where the model holds a
    `Uint256` as the number it denotes, these are its words. -/
def of_nat (x : ℕ) : Uint LIMBS :=
  ⟨(List.range LIMBS).map fun i => (x / 2 ^ (64 * i)).toUInt64, by simp⟩

/-! ## Conversions between widths (`kash_math/src/lib.rs`) -/

/-- `TryFromIntError`. -/
inductive TryFromIntError
  | mk
  deriving DecidableEq, Repr

/-- `From<Uint256> for Uint320`: the four words, and zero above them. -/
def from_uint256 (u : Uint 4) : Uint 5 :=
  ⟨u.words ++ [0], by rw [List.length_append, u.length_words, List.length_singleton]⟩

theorem to_nat_from_uint256 (u : Uint 4) : (from_uint256 u).to_nat = u.to_nat := by
  show value (u.words ++ [0]) = value u.words
  rw [value_append, value_cons, value_nil, UInt64.toNat_zero, Nat.mul_zero, Nat.add_zero,
    Nat.mul_zero, Nat.add_zero]

/-- `TryFrom<Uint320> for Uint256`: the low four words, unless the top one is
    not zero. -/
def try_from_uint320 (value : Uint 5) : Except TryFromIntError (Uint 4) :=
  if value.words.getD 4 0 ≠ 0 then .error .mk
  else .ok ⟨value.words.take 4, by rw [List.length_take, value.length_words]; rfl⟩

end Uint

end KashMath
