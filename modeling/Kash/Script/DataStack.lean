import Mathlib
import Kash.Script.Opcodes
import Kash.Lib.ExceptLoops

/-! # The data stack (`kash_txscript::data_stack`)

    A stack is a `Vec<Vec<u8>>` whose top is its last element; the model keeps
    that order in a list. Numbers on the stack are little-endian sign-magnitude
    byte strings (`OpcodeData<i64>`), at most four bytes long when an opcode reads
    them, and booleans are byte strings that are not (negative) zero.

    The `Vec` operations the code uses (`split_off`, `drain`, `extend_from_within`,
    `remove`, `insert`, indexing) panic out of range; here they return the panic,
    and the theorems below show that every guard in front of them keeps them in
    range. The same holds of the `i64` arithmetic of the numeric opcodes: it is
    done on `ℤ` and `to_i64` returns the overflow panic (the release profile
    keeps overflow checks). -/

namespace KashScript

open ExceptLoops

/-- `Stack`: the top is the last element. -/
abbrev Stack := List (List UInt8)

/-! ## Machine integers -/

def I64_MIN : ℤ := -2 ^ 63
def I64_MAX : ℤ := 2 ^ 63 - 1
def I32_MIN : ℤ := -2 ^ 31
def I32_MAX : ℤ := 2 ^ 31 - 1

/-- An `i64` result: overflow panics. -/
def to_i64 (x : ℤ) : Except EngineFault ℤ :=
  if I64_MIN ≤ x ∧ x ≤ I64_MAX then .ok x else .error (.panics .arithmetic_overflow)

/-- An `i32` result: overflow panics. -/
def to_i32 (x : ℤ) : Except EngineFault ℤ :=
  if I32_MIN ≤ x ∧ x ≤ I32_MAX then .ok x else .error (.panics .arithmetic_overflow)

/-- `u64::checked_add`. -/
def checked_add (a b : UInt64) : Option UInt64 :=
  if a.toNat + b.toNat < 2 ^ 64 then some (a + b) else none

/-- A `u64` addition. The release profile keeps overflow checks, so overflow panics. -/
def u64_add (a b : UInt64) : Except PanicSite UInt64 :=
  match checked_add a b with
  | some s => .ok s
  | none => .error .arithmetic_overflow

/-- A `u64` computed by additions of `u64`s. Every partial sum is at most the
    whole, so the additions overflow, and panic, exactly when the exact sum does not
    fit; the model adds in `ℕ` and checks once. -/
def u64_of_sum (n : ℕ) : Except PanicSite UInt64 :=
  if n < 2 ^ 64 then .ok n.toUInt64 else .error .arithmetic_overflow

/-- A `u64` multiplication: overflow panics. -/
def u64_mul (a b : UInt64) : Except PanicSite UInt64 :=
  if a.toNat * b.toNat < 2 ^ 64 then .ok (a * b) else .error .arithmetic_overflow

/-- A `u64` division: division by zero panics. -/
def u64_div (a b : UInt64) : Except PanicSite UInt64 :=
  if b = 0 then .error .division_by_zero else .ok (a / b)

/-- `u64::saturating_mul`. -/
def saturating_mul (a b : UInt64) : UInt64 :=
  if a.toNat * b.toNat < 2 ^ 64 then a * b else UInt64.ofNat (2 ^ 64 - 1)

/-- `u64::saturating_add`. -/
def saturating_add (a b : UInt64) : UInt64 :=
  match checked_add a b with
  | some s => s
  | none => UInt64.ofNat (2 ^ 64 - 1)

/-- `u64::saturating_sub`. -/
def saturating_sub (a b : UInt64) : UInt64 := if b ≤ a then a - b else 0

theorem checked_add_eq_some {a b s : UInt64} (h : checked_add a b = some s) :
    s.toNat = a.toNat + b.toNat := by
  unfold checked_add at h
  split at h
  · rename_i hfit
    cases h
    rw [UInt64.toNat_add]
    exact Nat.mod_eq_of_lt hfit
  · cases h

theorem u64_of_sum_ok {n : ℕ} {r : UInt64} (h : u64_of_sum n = .ok r) : r.toNat = n := by
  unfold u64_of_sum at h
  split at h
  · rename_i hfit
    cases h
    exact Nat.mod_eq_of_lt hfit
  · cases h

/-- A `u64` addition that fits succeeds. -/
theorem u64_add_of_lt {a b : UInt64} (h : a.toNat + b.toNat < 2 ^ 64) :
    u64_add a b = .ok (a + b) := by
  rw [u64_add, checked_add, if_pos h]

theorem u64_add_ok {a b s : UInt64} (h : u64_add a b = .ok s) : s.toNat = a.toNat + b.toNat := by
  unfold u64_add at h
  split at h
  · rename_i s' hs
    cases h
    exact checked_add_eq_some hs
  · cases h

/-- A `u64` product that fits succeeds. -/
theorem u64_mul_of_lt {a b : UInt64} (h : a.toNat * b.toNat < 2 ^ 64) :
    u64_mul a b = .ok (a * b) :=
  if_pos h

theorem toNat_mul_of_lt {a b : UInt64} (h : a.toNat * b.toNat < 2 ^ 64) :
    (a * b).toNat = a.toNat * b.toNat := by
  rw [UInt64.toNat_mul, Nat.mod_eq_of_lt h]

theorem to_i64_of_bounds {x : ℤ} (h₁ : I64_MIN ≤ x) (h₂ : x ≤ I64_MAX) : to_i64 x = .ok x :=
  if_pos ⟨h₁, h₂⟩

theorem to_i32_of_bounds {x : ℤ} (h₁ : I32_MIN ≤ x) (h₂ : x ≤ I32_MAX) : to_i32 x = .ok x :=
  if_pos ⟨h₁, h₂⟩

/-! ## Numbers (`OpcodeData<i64>`, `OpcodeData<i32>`, `OpcodeData<bool>`) -/

/-- `DEFAULT_SCRIPT_NUM_LEN`: the longest number an opcode reads. -/
def DEFAULT_SCRIPT_NUM_LEN : ℕ := 4

/-- `check_minimal_data_encoding`: the most significant byte, without its sign bit,
    is not zero unless the byte below it needs the sign bit. -/
def check_minimal_data_encoding (v : List UInt8) : Except TxScriptError Unit :=
  match v.reverse with
  | [] => .ok ()
  | [msb] =>
      if msb &&& 0x7f = 0 then .error (.NotMinimalData (.numeric_not_minimal v)) else .ok ()
  | msb :: next :: _ =>
      if msb &&& 0x7f = 0 ∧ next &&& 0x80 = 0 then
        .error (.NotMinimalData (.numeric_not_minimal v))
      else .ok ()

/-- The magnitude of a number: the most significant byte without its sign bit, then
    each lower byte, most significant first. The Rust fold is over `i64`; on at
    most eight bytes it never leaves `0..2^63`, so it is the fold over `ℕ`. -/
def magnitude (first_byte : ℕ) (lower : List UInt8) : ℕ :=
  lower.foldl (fun accum item => accum * 256 + item.toNat) first_byte

/-- `deserialize_i64`. -/
def deserialize_i64 (v : List UInt8) : Except TxScriptError ℤ :=
  if v.length > 8 then .error (.NotMinimalData (.numeric_longer_than_8 v))
  else
    match v.reverse with
    | [] => .ok 0
    | msb :: lower => do
        check_minimal_data_encoding v
        let sign : ℤ := 1 - 2 * ((msb >>> 7).toNat : ℤ)
        let first_byte := (msb &&& 0x7f).toNat
        .ok (magnitude first_byte lower * sign)

/-- `<Vec<u8> as OpcodeData<i64>>::deserialize`: at most four bytes. -/
def i64_deserialize (v : List UInt8) : Except TxScriptError ℤ :=
  if v.length > DEFAULT_SCRIPT_NUM_LEN then .error (.NumberTooBig (.script_number v))
  else deserialize_i64 v

/-- The bytes `iter::from_fn` produces from a magnitude: the low byte first, and a
    zero byte after a last byte whose high bit is set. Each byte divides the
    magnitude by 256, so `positive + 1` steps of fuel run the loop to its end. -/
def magnitude_bytes : ℕ → ℕ → Bool → List UInt8
  | 0, _, _ => []
  | fuel + 1, positive, last_saturated =>
      if positive = 0 then (if last_saturated then [0] else [])
      else
        let value := positive % 256
        UInt8.ofNat value :: magnitude_bytes fuel (positive / 256) ((value &&& 0x80) != 0)

/-- `<Vec<u8> as OpcodeData<i64>>::serialize`. Its `abs` overflows on `i64::MIN`,
    and its `last_mut()` is `unreachable!()` on an empty vector. -/
def i64_serialize (x : ℤ) : Except EngineFault (List UInt8) :=
  if x = I64_MIN then .error (.panics .serialize_i64_min)
  else
    let positive := x.natAbs
    let number_vec := magnitude_bytes (positive + 1) positive false
    if x < 0 then
      match number_vec.reverse with
      | [] => .error (.panics .unreachable_code)
      | num :: rest => .ok ((num ||| 0x80) :: rest).reverse
    else .ok number_vec

/-- `<Vec<u8> as OpcodeData<i32>>::deserialize`: the `i64`, clamped to the `i32`
    range (the `try_from` after the clamp cannot fail). -/
def i32_deserialize (v : List UInt8) : Except TxScriptError ℤ := do
  let res ← i64_deserialize v
  .ok (max I32_MIN (min res I32_MAX))

/-- `<Vec<u8> as OpcodeData<bool>>::deserialize`: not zero and not negative zero. -/
def bool_deserialize (v : List UInt8) : Bool :=
  match v.reverse with
  | [] => false
  | last :: lower => last &&& 0x7f != 0 || lower.any (· != 0)

/-- `<Vec<u8> as OpcodeData<bool>>::serialize`. -/
def bool_serialize : Bool → List UInt8
  | true => [1]
  | false => []

/-! ## `Vec` operations that panic out of range -/

/-- `Vec::split_off(at)`: the part before `at` stays, the rest is returned. -/
def split_off (s : Stack) (idx : ℕ) : Except EngineFault (Stack × Stack) :=
  if idx ≤ s.length then .ok (s.take idx, s.drop idx) else .error (.panics .index_out_of_bounds)

/-- `Vec::drain(lo..hi)`: the drained elements and what remains. -/
def drain (s : Stack) (lo hi : ℕ) : Except EngineFault (Stack × Stack) :=
  if lo ≤ hi ∧ hi ≤ s.length then .ok ((s.drop lo).take (hi - lo), s.take lo ++ s.drop hi)
  else .error (.panics .index_out_of_bounds)

/-- `Vec::extend_from_within(lo..hi)`. -/
def extend_from_within (s : Stack) (lo hi : ℕ) : Except EngineFault Stack :=
  if lo ≤ hi ∧ hi ≤ s.length then .ok (s ++ (s.drop lo).take (hi - lo))
  else .error (.panics .index_out_of_bounds)

/-- `Vec::remove(i)`: the element and what remains. -/
def vec_remove (s : Stack) (i : ℕ) : Except EngineFault (List UInt8 × Stack) :=
  match s[i]? with
  | some x => .ok (x, s.eraseIdx i)
  | none => .error (.panics .index_out_of_bounds)

/-- `Vec::insert(i, x)`. -/
def vec_insert (s : Stack) (i : ℕ) (x : List UInt8) : Except EngineFault Stack :=
  if i ≤ s.length then .ok (s.insertIdx i x) else .error (.panics .index_out_of_bounds)

/-- `s[i]`. -/
def vec_index (s : Stack) (i : ℕ) : Except EngineFault (List UInt8) :=
  match s[i]? with
  | some x => .ok x
  | none => .error (.panics .index_out_of_bounds)

/-! ## `DataStack for Stack` -/

/-- `pop_raw::<n>`: the top `n` elements, deepest first. -/
def pop_raw (n : ℕ) (s : Stack) : Except EngineFault (Stack × Stack) := do
  if s.length < n then throw (.script (.InvalidStackOperation n s.length))
  let (rest, items) ← split_off s (s.length - n)
  pure (items, rest)

/-- `peek_raw::<n>`. -/
def peek_raw (n : ℕ) (s : Stack) : Except EngineFault Stack :=
  if s.length < n then .error (.script (.InvalidStackOperation n s.length))
  else .ok (s.drop (s.length - n))

/-- `pop_items::<n, T>`: the top `n` elements read as `T`, deepest first. The stack
    is cut before the elements are read. -/
def pop_items {α : Type} (n : ℕ) (deserialize : List UInt8 → Except TxScriptError α)
    (s : Stack) : Except EngineFault (List α × Stack) := do
  let (items, rest) ← pop_raw n s
  let values ← (items.mapM deserialize).mapError .script
  pure (values, rest)

/-- `drop_items::<n>`. -/
def drop_items (n : ℕ) (s : Stack) : Except EngineFault Stack :=
  if s.length ≥ n then .ok (s.take (s.length - n))
  else .error (.script (.InvalidStackOperation n s.length))

/-- `dup_items::<n>`. -/
def dup_items (n : ℕ) (s : Stack) : Except EngineFault Stack :=
  if s.length ≥ n then extend_from_within s (s.length - n) s.length
  else .error (.script (.InvalidStackOperation n s.length))

/-- `over_items::<n>`. -/
def over_items (n : ℕ) (s : Stack) : Except EngineFault Stack :=
  if s.length ≥ 2 * n then extend_from_within s (s.length - 2 * n) (s.length - n)
  else .error (.script (.InvalidStackOperation (2 * n) s.length))

/-- `rot_items::<n>`. -/
def rot_items (n : ℕ) (s : Stack) : Except EngineFault Stack :=
  if s.length ≥ 3 * n then do
    let (drained, rest) ← drain s (s.length - 3 * n) (s.length - 2 * n)
    pure (rest ++ drained)
  else .error (.script (.InvalidStackOperation (3 * n) s.length))

/-- `swap_items::<n>`. -/
def swap_items (n : ℕ) (s : Stack) : Except EngineFault Stack :=
  if s.length ≥ 2 * n then do
    let (drained, rest) ← drain s (s.length - 2 * n) (s.length - n)
    pure (rest ++ drained)
  else .error (.script (.InvalidStackOperation (2 * n) s.length))

/-! ## No operation here panics where the code guards it -/

/-- `s` does not panic and returns a value in `P`. -/
abbrev Safe {α : Type} (P : α → Prop) (x : Except EngineFault α) : Prop :=
  Holds EngineFault.IsPanic P x

@[simp] theorem safe_script_error {α : Type} {P : α → Prop} (e : TxScriptError) :
    Safe P (.error (.script e)) := EngineFault.not_isPanic_script e

theorem split_off_safe (s : Stack) {idx : ℕ} (h : idx ≤ s.length) :
    split_off s idx = .ok (s.take idx, s.drop idx) := if_pos h

theorem pop_raw_safe (n : ℕ) (s : Stack) :
    Safe (fun r => r.1.length = n ∧ r.2 ++ r.1 = s) (pop_raw n s) := by
  unfold pop_raw
  by_cases hlen : s.length < n
  · rw [if_pos hlen]
    exact safe_script_error _
  · rw [if_neg hlen]
    show Safe _ (split_off s (s.length - n) >>= _)
    rw [split_off_safe s (Nat.sub_le _ _)]
    refine ⟨?_, List.take_append_drop _ _⟩
    rw [List.length_drop]
    omega

/-- A successful `mapM` in `Except` keeps the length, and every value it returns is
    a successful image. -/
theorem mapM_ok {α β ε : Type} (f : α → Except ε β) :
    ∀ (l : List α) (l' : List β), l.mapM f = .ok l' →
      l'.length = l.length ∧ ∀ b ∈ l', ∃ a, f a = .ok b := by
  intro l
  induction l with
  | nil =>
      intro l' h
      cases h
      exact ⟨rfl, fun _ hb => absurd hb List.not_mem_nil⟩
  | cons a l ih =>
      intro l' h
      rw [List.mapM_cons] at h
      obtain ⟨b, hb, h⟩ := (bind_eq_ok _ _ _).mp h
      obtain ⟨bs, hbs, h⟩ := (bind_eq_ok _ _ _).mp h
      cases h
      obtain ⟨hlen, hmem⟩ := ih bs hbs
      refine ⟨by rw [List.length_cons, List.length_cons, hlen], ?_⟩
      intro x hx
      rcases List.mem_cons.mp hx with rfl | hx
      · exact ⟨a, hb⟩
      · exact hmem x hx

/-- `pop_items` returns `n` values, each read from a stack element. -/
theorem pop_items_safe {α : Type} (n : ℕ) (deserialize : List UInt8 → Except TxScriptError α)
    (s : Stack) :
    Safe (fun r => r.1.length = n ∧ ∀ x ∈ r.1, ∃ v, deserialize v = .ok x)
      (pop_items n deserialize s) := by
  unfold pop_items
  refine (pop_raw_safe n s).bind ?_
  rintro ⟨items, rest⟩ hr
  dsimp only
  cases hm : items.mapM deserialize with
  | error e => exact safe_script_error e
  | ok values =>
      obtain ⟨hlen, hmem⟩ := mapM_ok deserialize items values hm
      exact ⟨hlen.trans hr.1, hmem⟩

/-- What a successful `pop_items` returns: the top `n` elements, read. -/
theorem pop_items_eq_ok {α : Type} {n : ℕ} {deserialize : List UInt8 → Except TxScriptError α}
    {s rest : Stack} {values : List α} (h : pop_items n deserialize s = .ok (values, rest)) :
    ∃ raw, s = rest ++ raw ∧ raw.length = n ∧ raw.mapM deserialize = .ok values := by
  unfold pop_items at h
  obtain ⟨⟨raw, rest'⟩, hraw, h⟩ := (bind_eq_ok _ _ _).mp h
  obtain ⟨hlen, hs⟩ := (pop_raw_safe n s).of_ok hraw
  obtain ⟨values', hm, h⟩ := (bind_eq_ok _ _ _).mp h
  cases h
  cases hmap : raw.mapM deserialize with
  | error e =>
      rw [hmap] at hm
      cases hm
  | ok v =>
      rw [hmap] at hm
      cases hm
      exact ⟨raw, hs.symm, hlen, hmap⟩

theorem peek_raw_safe (n : ℕ) (s : Stack) : Safe (fun r => r.length = n) (peek_raw n s) := by
  unfold peek_raw
  split
  · exact safe_script_error _
  · show (s.drop (s.length - n)).length = n
    rw [List.length_drop]
    omega

theorem drain_safe (s : Stack) {lo hi : ℕ} (h₁ : lo ≤ hi) (h₂ : hi ≤ s.length) :
    drain s lo hi = .ok ((s.drop lo).take (hi - lo), s.take lo ++ s.drop hi) := if_pos ⟨h₁, h₂⟩

theorem extend_from_within_safe (s : Stack) {lo hi : ℕ} (h₁ : lo ≤ hi) (h₂ : hi ≤ s.length) :
    extend_from_within s lo hi = .ok (s ++ (s.drop lo).take (hi - lo)) := if_pos ⟨h₁, h₂⟩

theorem vec_remove_safe (s : Stack) {i : ℕ} (h : i < s.length) :
    vec_remove s i = .ok (s[i], s.eraseIdx i) := by
  simp [vec_remove, List.getElem?_eq_getElem h]

theorem vec_insert_safe (s : Stack) {i : ℕ} (h : i ≤ s.length) (x : List UInt8) :
    vec_insert s i x = .ok (s.insertIdx i x) := if_pos h

theorem vec_index_safe (s : Stack) {i : ℕ} (h : i < s.length) : vec_index s i = .ok s[i] := by
  simp [vec_index, List.getElem?_eq_getElem h]

theorem drop_items_safe (n : ℕ) (s : Stack) : Safe (fun _ => True) (drop_items n s) := by
  unfold drop_items
  split
  · trivial
  · exact safe_script_error _

theorem dup_items_safe (n : ℕ) (s : Stack) : Safe (fun _ => True) (dup_items n s) := by
  unfold dup_items
  split
  · rw [extend_from_within_safe s (Nat.sub_le _ _) le_rfl]
    trivial
  · exact safe_script_error _

theorem over_items_safe (n : ℕ) (s : Stack) : Safe (fun _ => True) (over_items n s) := by
  unfold over_items
  split
  · rw [extend_from_within_safe s (by omega) (Nat.sub_le _ _)]
    trivial
  · exact safe_script_error _

theorem rot_items_safe (n : ℕ) (s : Stack) : Safe (fun _ => True) (rot_items n s) := by
  unfold rot_items
  split
  · rw [drain_safe s (by omega) (Nat.sub_le _ _)]
    trivial
  · exact safe_script_error _

theorem swap_items_safe (n : ℕ) (s : Stack) : Safe (fun _ => True) (swap_items n s) := by
  unfold swap_items
  split
  · rw [drain_safe s (by omega) (Nat.sub_le _ _)]
    trivial
  · exact safe_script_error _

/-! ## Numbers read from the stack are small -/

/-- Appending bytes below a magnitude under `c` keeps it under `c` times their
    weight. -/
theorem magnitude_lt (lower : List UInt8) :
    ∀ (a c : ℕ), a < c → magnitude a lower < c * 256 ^ lower.length := by
  induction lower with
  | nil =>
      intro a c h
      simpa [magnitude] using h
  | cons b lower ih =>
      intro a c h
      have hb : b.toNat < 256 := UInt8.toNat_lt b
      -- the next byte fills the place the shift opens
      have hstep : a * 256 + b.toNat < c * 256 := by omega
      have := ih (a * 256 + b.toNat) (c * 256) hstep
      calc magnitude a (b :: lower) = magnitude (a * 256 + b.toNat) lower := rfl
        _ < c * 256 * 256 ^ lower.length := this
        _ = c * 256 ^ (b :: lower).length := by rw [List.length_cons, pow_succ]; ring

/-- **NUMBERS ARE SMALL**: a number an opcode reads is strictly between `-2^31` and
    `2^31`. -/
theorem i64_deserialize_bounds {v : List UInt8} {x : ℤ} (h : i64_deserialize v = .ok x) :
    -2 ^ 31 < x ∧ x < 2 ^ 31 := by
  unfold i64_deserialize at h
  split at h
  · cases h
  rename_i hlen
  unfold deserialize_i64 at h
  rw [if_neg (by unfold DEFAULT_SCRIPT_NUM_LEN at hlen; omega)] at h
  have hrev : v.reverse.length ≤ 4 := by
    rw [List.length_reverse]
    unfold DEFAULT_SCRIPT_NUM_LEN at hlen
    omega
  split at h
  · cases h
    norm_num
  rename_i msb lower hv
  obtain ⟨_, -, h⟩ := (bind_eq_ok _ _ _).mp h
  cases h
  have hlower : lower.length ≤ 3 := by
    rw [hv, List.length_cons] at hrev
    omega
  have hfirst : (msb &&& 0x7f).toNat < 128 := by
    rw [UInt8.toNat_and]
    exact lt_of_le_of_lt Nat.and_le_right (by decide)
  -- the magnitude has at most three bytes below a seven-bit top byte
  have hmag : magnitude (msb &&& 0x7f).toNat lower < 2 ^ 31 := by
    calc magnitude (msb &&& 0x7f).toNat lower < 128 * 256 ^ lower.length :=
          magnitude_lt lower _ _ hfirst
      _ ≤ 128 * 256 ^ 3 := by gcongr; norm_num
      _ = 2 ^ 31 := by norm_num
  have hsign : (msb >>> 7).toNat ≤ 1 := by
    have := UInt8.toNat_lt msb
    have h7 : (7 : UInt8).toNat % 8 = 7 := rfl
    rw [UInt8.toNat_shiftRight, h7, Nat.shiftRight_eq_div_pow]
    omega
  have hmag' : ((magnitude (msb &&& 0x7f).toNat lower : ℕ) : ℤ) < 2 ^ 31 := by exact_mod_cast hmag
  rcases Nat.le_one_iff_eq_zero_or_eq_one.mp hsign with h0 | h1
  · simp only [h0, Nat.cast_zero, mul_zero, sub_zero]
    constructor <;> omega
  · simp only [h1, Nat.cast_one, mul_one]
    constructor <;> omega

/-! ## Numbers written to the stack -/

/-- A nonzero magnitude writes at least one byte. -/
theorem magnitude_bytes_ne_nil {fuel positive : ℕ} (hf : 0 < fuel) (hp : 0 < positive)
    (last_saturated : Bool) : magnitude_bytes fuel positive last_saturated ≠ [] := by
  obtain ⟨fuel, rfl⟩ := Nat.exists_eq_add_of_lt hf
  rw [Nat.zero_add, magnitude_bytes, if_neg (Nat.pos_iff_ne_zero.mp hp)]
  exact List.cons_ne_nil _ _

/-- **SERIALIZE DOES NOT PANIC** on every number but `i64::MIN`. -/
theorem i64_serialize_safe {x : ℤ} (h : x ≠ I64_MIN) : Safe (fun _ => True) (i64_serialize x) := by
  unfold i64_serialize
  rw [if_neg h]
  dsimp only
  split
  · rename_i hneg
    have hp : 0 < x.natAbs := Int.natAbs_pos.mpr (by omega)
    have hne := magnitude_bytes_ne_nil (Nat.succ_pos x.natAbs) hp false
    split
    · rename_i hrev
      exact absurd (List.reverse_eq_nil_iff.mp hrev) hne
    · trivial
  · trivial

end KashScript
