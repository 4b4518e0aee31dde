import Mathlib

/-! # Little-endian words

    A list of 64-bit words read least significant first denotes a natural
    number. Writing one word changes that number by the difference of the two
    words at the word's place, a prefix of the list denotes the number modulo
    its width, and `n` words denote less than `2 ^ (64 * n)`. These are the facts
    a schoolbook multiplication over word arrays is proved with.

    Nothing here knows what the words hold. -/

namespace Limbs

/-- The number little-endian 64-bit words denote. -/
def value : List UInt64 → ℕ
  | [] => 0
  | w :: ws => w.toNat + 2 ^ 64 * value ws

@[simp] theorem value_nil : value [] = 0 := rfl

@[simp] theorem value_cons (w : UInt64) (ws : List UInt64) :
    value (w :: ws) = w.toNat + 2 ^ 64 * value ws := rfl

theorem value_replicate_zero (n : ℕ) : value (List.replicate n 0) = 0 := by
  induction n with
  | zero => rfl
  | succ n ih => simp [List.replicate_succ, ih]

/-- `n` words denote less than `2 ^ (64 * n)`. -/
theorem value_lt (l : List UInt64) : value l < 2 ^ (64 * l.length) := by
  induction l with
  | nil => simp
  | cons w ws ih =>
      have hw : w.toNat < 2 ^ 64 := w.toNat_lt
      rw [value_cons, List.length_cons, Nat.mul_succ, pow_add]
      calc w.toNat + 2 ^ 64 * value ws
          < 2 ^ 64 + 2 ^ 64 * value ws := by omega
        _ = 2 ^ 64 * (value ws + 1) := by ring
        _ ≤ 2 ^ 64 * 2 ^ (64 * ws.length) := Nat.mul_le_mul_left _ ih
        _ = 2 ^ (64 * ws.length) * 2 ^ 64 := Nat.mul_comm _ _

/-- A list splits into its first `k` words and the rest, shifted by `k` words. -/
theorem value_take_drop : ∀ (l : List UInt64) (k : ℕ),
    value l = value (l.take k) + 2 ^ (64 * k) * value (l.drop k)
  | [], k => by simp
  | w :: ws, 0 => by simp
  | w :: ws, k + 1 => by
      rw [List.take_succ_cons, List.drop_succ_cons, value_cons, value_cons,
        value_take_drop ws k, Nat.mul_succ, pow_add]
      ring

/-- The first `k` words denote the number modulo `2 ^ (64 * k)`. -/
theorem value_take (l : List UInt64) (k : ℕ) : value (l.take k) = value l % 2 ^ (64 * k) := by
  have hlt : value (l.take k) < 2 ^ (64 * k) :=
    lt_of_lt_of_le (value_lt _)
      (Nat.pow_le_pow_right (by norm_num) (Nat.mul_le_mul_left _ (List.length_take_le k l)))
  rw [value_take_drop l k, Nat.add_mul_mod_self_left, Nat.mod_eq_of_lt hlt]

/-- A prefix denotes at most the whole. -/
theorem value_take_le (l : List UInt64) (k : ℕ) : value (l.take k) ≤ value l := by
  rw [value_take]
  exact Nat.mod_le _ _

/-- One more word of a prefix adds that word at its place. -/
theorem value_take_succ : ∀ (l : List UInt64) (k : ℕ),
    value (l.take (k + 1)) = value (l.take k) + (l.getD k 0).toNat * 2 ^ (64 * k)
  | [], k => by simp
  | w :: ws, 0 => by simp
  | w :: ws, k + 1 => by
      rw [List.take_succ_cons, List.take_succ_cons, value_cons, value_cons,
        value_take_succ ws k, List.getD_cons_succ, Nat.mul_succ, pow_add]
      ring

/-- The words from `i` on, `k + 1` of them: the word at `i` and `k` more. -/
theorem value_drop_take_succ : ∀ (l : List UInt64) (i k : ℕ),
    value ((l.drop i).take (k + 1)) =
      (l.getD i 0).toNat + 2 ^ 64 * value ((l.drop (i + 1)).take k)
  | [], i, k => by simp
  | w :: ws, 0, k => by simp
  | w :: ws, i + 1, k => by
      rw [List.drop_succ_cons, List.drop_succ_cons, List.getD_cons_succ]
      exact value_drop_take_succ ws i k

/-- **WRITE ONE WORD**: replacing the word at `k` changes the number by the
    difference of the two words, at place `k`. -/
theorem value_set : ∀ (l : List UInt64) (k : ℕ) (w : UInt64), k < l.length →
    value (l.set k w) + (l.getD k 0).toNat * 2 ^ (64 * k) = value l + w.toNat * 2 ^ (64 * k)
  | [], k, w, h => absurd h (Nat.not_lt_zero k)
  | v :: vs, 0, w, _ => by simp; ring
  | v :: vs, k + 1, w, h => by
      have ih := value_set vs k w (by simpa using h)
      rw [List.set_cons_succ, value_cons, value_cons, List.getD_cons_succ, Nat.mul_succ, pow_add]
      calc v.toNat + 2 ^ 64 * value (vs.set k w) + (vs.getD k 0).toNat * (2 ^ (64 * k) * 2 ^ 64)
          = v.toNat + 2 ^ 64 * (value (vs.set k w) + (vs.getD k 0).toNat * 2 ^ (64 * k)) := by
            ring
        _ = v.toNat + 2 ^ 64 * (value vs + w.toNat * 2 ^ (64 * k)) := by rw [ih]
        _ = v.toNat + 2 ^ 64 * value vs + w.toNat * (2 ^ (64 * k) * 2 ^ 64) := by ring

/-- A list splits anywhere: the second part starts at the first part's width. -/
theorem value_append : ∀ (l₁ l₂ : List UInt64),
    value (l₁ ++ l₂) = value l₁ + 2 ^ (64 * l₁.length) * value l₂
  | [], l₂ => by simp
  | w :: ws, l₂ => by
      rw [List.cons_append, value_cons, value_cons, value_append ws l₂, List.length_cons,
        Nat.mul_succ, pow_add]
      ring

/-- Lists of one length that denote one number are equal. -/
theorem value_inj : ∀ {l₁ l₂ : List UInt64}, l₁.length = l₂.length → value l₁ = value l₂ → l₁ = l₂
  | [], [], _, _ => rfl
  | w₁ :: ws₁, w₂ :: ws₂, hlen, h => by
      rw [value_cons, value_cons] at h
      have hw : w₁.toNat = w₂.toNat := by
        have h₁ := congrArg (· % 2 ^ 64) h
        simpa only [Nat.add_mul_mod_self_left, Nat.mod_eq_of_lt (UInt64.toNat_lt _)] using h₁
      have hws : value ws₁ = value ws₂ := by
        rw [hw] at h
        exact Nat.eq_of_mul_eq_mul_left (Nat.two_pow_pos 64) (Nat.add_left_cancel h)
      rw [UInt64.toNat_inj.mp hw, value_inj (Nat.succ.inj hlen) hws]
  | [], _ :: _, hlen, _ => absurd hlen (by simp)
  | _ :: _, [], hlen, _ => absurd hlen (by simp)

/-- The words `x / 2 ^ (64 * i)`, cut to 64 bits, for `i < n` denote `x` modulo
    `2 ^ (64 * n)`. -/
theorem value_range_map_div (x : ℕ) : ∀ n : ℕ,
    value ((List.range n).map fun i => (x / 2 ^ (64 * i)).toUInt64) = x % 2 ^ (64 * n)
  | 0 => by rw [List.range_zero, List.map_nil, value_nil, Nat.mul_zero, pow_zero, Nat.mod_one]
  | n + 1 => by
      rw [List.range_succ, List.map_append, value_append, value_range_map_div x n,
        List.length_map, List.length_range, List.map_singleton, value_cons, value_nil,
        Nat.mul_zero, Nat.add_zero, Nat.toUInt64_eq, UInt64.toNat_ofNat', Nat.mul_succ, pow_add,
        Nat.mod_mul]

/-- **BIT `64 * i + k`** of the number is bit `k` of word `i`. -/
theorem testBit_value : ∀ (l : List UInt64) (i k : ℕ), k < 64 →
    (value l).testBit (64 * i + k) = (l.getD i 0).toNat.testBit k
  | [], i, k, _ => by simp
  | w :: ws, 0, k, hk => by
      rw [value_cons, Nat.add_comm, Nat.testBit_two_pow_mul_add _ w.toNat_lt, if_pos (by omega)]
      simp
  | w :: ws, i + 1, k, hk => by
      rw [value_cons, Nat.add_comm, Nat.testBit_two_pow_mul_add _ w.toNat_lt, if_neg (by omega),
        List.getD_cons_succ, ← testBit_value ws i k hk]
      congr 1
      omega

/-- Setting a bit that is clear adds its power of two. -/
theorem or_two_pow_of_testBit_false {x b : ℕ} (h : x.testBit b = false) :
    x ||| 2 ^ b = x + 2 ^ b := by
  have hpos : 0 < 2 ^ b := Nat.two_pow_pos b
  -- below bit `b + 1` only the bits under `b` are set
  have hlow : x % 2 ^ (b + 1) < 2 ^ b := by
    have hbit : x / 2 ^ b % 2 = 0 := by
      rw [Nat.testBit_eq_decide_div_mod_eq, decide_eq_false_iff_not] at h
      omega
    rw [Nat.mod_pow_succ, hbit, Nat.mul_zero, Nat.add_zero]
    exact Nat.mod_lt _ hpos
  have hsum : 2 ^ b * 1 + x % 2 ^ (b + 1) < 2 ^ (b + 1) := by
    have : 2 ^ (b + 1) = 2 * 2 ^ b := pow_succ' 2 b
    omega
  calc x ||| 2 ^ b
      = (2 ^ (b + 1) * (x / 2 ^ (b + 1)) ||| x % 2 ^ (b + 1)) ||| 2 ^ b := by
        rw [← Nat.two_pow_add_eq_or_of_lt (Nat.mod_lt _ (Nat.two_pow_pos _)), Nat.div_add_mod]
    _ = 2 ^ (b + 1) * (x / 2 ^ (b + 1)) ||| (2 ^ b * 1 ||| x % 2 ^ (b + 1)) := by
        rw [Nat.mul_one, Nat.or_assoc, Nat.or_comm (x % _)]
    _ = 2 ^ (b + 1) * (x / 2 ^ (b + 1)) + (2 ^ b * 1 + x % 2 ^ (b + 1)) := by
        rw [← Nat.two_pow_add_eq_or_of_lt hlow, ← Nat.two_pow_add_eq_or_of_lt hsum]
    _ = x + 2 ^ b := by
        have := Nat.div_add_mod x (2 ^ (b + 1))
        omega

/-- Bit `m` of the number is bit `m % 64` of word `m / 64`. -/
theorem testBit_value_eq (l : List UInt64) (m : ℕ) :
    (value l).testBit m = (l.getD (m / 64) 0).toNat.testBit (m % 64) := by
  conv_lhs => rw [← Nat.div_add_mod m 64]
  exact testBit_value l _ _ (Nat.mod_lt _ (by norm_num))

/-! ## The bytes of a word -/

/-- Shifting a byte into a word from below. -/
theorem toNat_shift_byte (acc : UInt64) (b : UInt8) :
    ((acc <<< 8) ||| b.toUInt64).toNat = (acc.toNat * 2 ^ 8 + b.toNat) % 2 ^ 64 := by
  have h8 : (8 : UInt64).toNat % 64 = 8 := rfl
  have hmod : acc.toNat * 2 ^ 8 % 2 ^ 64 = 2 ^ 8 * (acc.toNat % 2 ^ 56) := by
    rw [Nat.mul_comm, show (2 : ℕ) ^ 64 = 2 ^ 8 * 2 ^ 56 by norm_num, Nat.mul_mod_mul_left]
  rw [UInt64.toNat_or, UInt64.toNat_shiftLeft, UInt8.toNat_toUInt64, h8, Nat.shiftLeft_eq, hmod,
    ← Nat.two_pow_add_eq_or_of_lt (UInt8.toNat_lt b)]
  have := UInt8.toNat_lt b
  omega

/-- Byte `i` of a word, read by shifting it down: its base-`2 ^ 8` digit `i`. -/
theorem toNat_byte (x : UInt64) {i : ℕ} (hi : i < 8) :
    ((x >>> (8 * i).toUInt64).toUInt8).toNat = x.toNat / (2 ^ 8) ^ i % 2 ^ 8 := by
  rw [UInt64.toNat_toUInt8, UInt64.toNat_shiftRight, Nat.toUInt64_eq, UInt64.toNat_ofNat',
    Nat.mod_eq_of_lt (show 8 * i < 2 ^ 64 by omega), Nat.mod_eq_of_lt (show 8 * i < 64 by omega),
    Nat.shiftRight_eq_div_pow, ← pow_mul]

/-! ## Loops that write each word once

    A loop `for i in is { ret[idx(i)] = f(i, ret[idx(i)]) }` over indices that
    are all different leaves at `idx(i)` the value `f` computes from the word
    that was there before the loop, and every other word as it was. -/

section Writes

variable {α β : Type*} (idx : β → ℕ)

theorem length_foldl_set (g : β → List α → α) : ∀ (is : List β) (r : List α),
    (is.foldl (fun r i => r.set (idx i) (g i r)) r).length = r.length
  | [], _ => rfl
  | i :: is, r => by rw [List.foldl_cons, length_foldl_set g is, List.length_set]

variable (f : β → α → α) (d : α)

/-- A word no step writes keeps its value. -/
theorem getD_foldl_set_of_forall_ne : ∀ (is : List β) (r : List α) (j : ℕ),
    (∀ i ∈ is, idx i ≠ j) →
      (is.foldl (fun r i => r.set (idx i) (f i (r.getD (idx i) d))) r).getD j d = r.getD j d
  | [], _, _, _ => rfl
  | i :: is, r, j, h => by
      rw [List.foldl_cons,
        getD_foldl_set_of_forall_ne is _ j (fun i' hi' => h i' (List.mem_cons_of_mem _ hi')),
        List.getD_eq_getElem?_getD, List.getElem?_set_ne (h i List.mem_cons_self),
        ← List.getD_eq_getElem?_getD]

/-- The word step `i` writes is `f i` of the word before the loop: no other step
    writes it. -/
theorem getD_foldl_set_of_mem : ∀ (is : List β) (r : List α) (i : β) (j : ℕ),
    (is.map idx).Nodup → i ∈ is → idx i = j → j < r.length →
      (is.foldl (fun r i => r.set (idx i) (f i (r.getD (idx i) d))) r).getD j d =
        f i (r.getD j d)
  | [], _, _, _, _, hi, _, _ => absurd hi List.not_mem_nil
  | i' :: is, r, i, j, hnd, hi, hj, hlt => by
      subst hj
      rw [List.map_cons, List.nodup_cons, List.mem_map] at hnd
      rw [List.foldl_cons]
      rcases List.mem_cons.mp hi with rfl | hi
      · -- written by the first step, and by none after it
        have hne : ∀ k ∈ is, idx k ≠ idx i := fun k hk hki => hnd.1 ⟨k, hk, hki⟩
        rw [getD_foldl_set_of_forall_ne idx f d is _ _ hne, List.getD_eq_getElem?_getD,
          List.getElem?_set_self hlt, Option.getD_some]
      · have hne : idx i' ≠ idx i := fun h => hnd.1 ⟨i, hi, h.symm⟩
        rw [getD_foldl_set_of_mem is _ i _ hnd.2 hi rfl (by rwa [List.length_set]),
          List.getD_eq_getElem?_getD, List.getElem?_set_ne hne, ← List.getD_eq_getElem?_getD]

end Writes

/-! ## Digits -/

/-- The first `n` base-`b` digits of `x` make up `x` modulo `b ^ n`. -/
theorem ofDigits_low_digits (b x : ℕ) : ∀ n : ℕ,
    Nat.ofDigits b ((List.range n).map fun i => x / b ^ i % b) = x % b ^ n
  | 0 => by rw [List.range_zero, List.map_nil, Nat.ofDigits_nil, pow_zero, Nat.mod_one]
  | n + 1 => by
      rw [List.range_succ, List.map_append, Nat.ofDigits_append, ofDigits_low_digits b x n,
        List.map_singleton, Nat.ofDigits_singleton, List.length_map, List.length_range,
        @Nat.mod_pow_succ x b n]

/-- Digit `i` of a number written with digits below `b` is the `i`-th of them. -/
theorem ofDigits_div_pow_mod {b : ℕ} : ∀ (l : List ℕ) (i : ℕ), (∀ x ∈ l, x < b) →
    Nat.ofDigits b l / b ^ i % b = l.getD i 0
  | [], i, _ => by simp
  | x :: l, 0, h => by
      have hx : x < b := h x List.mem_cons_self
      rw [Nat.ofDigits_cons, pow_zero, Nat.div_one, Nat.add_mul_mod_self_left,
        Nat.mod_eq_of_lt hx, List.getD_cons_zero]
  | x :: l, i + 1, h => by
      have hx : x < b := h x List.mem_cons_self
      rw [Nat.ofDigits_cons, pow_succ', ← Nat.div_div_eq_div_mul,
        Nat.add_mul_div_left _ _ (by omega), Nat.div_eq_of_lt hx, Nat.zero_add,
        ofDigits_div_pow_mod l i (fun y hy => h y (List.mem_cons_of_mem _ hy)), List.getD_cons_succ]

end Limbs
