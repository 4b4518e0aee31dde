import Mathlib
import Kash.Script.ScriptBuilder
import Kash.Script.NumberProofs
import Kash.Script.OpcodeStreamProofs

/-! # The builder writes canonical pushes

    `add_raw_data` writes one opcode, `push_opcode data`: `Op0` for nothing or the
    byte `0`, `Op1..Op16` or `Op1Negate` for one byte that names a small number, and
    otherwise the data behind the shortest `OpData#`/`OpPushData1/2/4` that carries
    it. This file proves that

    * the bytes written are `canonical_data_size data` long and read back as that
      one opcode (`push_opcode_serialize_length`, `push_opcode_fits`);
    * the engine runs the opcode as a push of the data, of `[]` for the byte `0`
      (the same number): `execute_push_opcode`;
    * `add_i64` writes an opcode that pushes the number's serialization.

    The engine applies `check_minimal_data_push` only to `OpData1..OpPushData4`
    (`execute_opcode`), and there the check passes. The small-number opcodes carry
    no data, and the check on its own rejects them. -/

namespace KashScript

open codes PrefixCode

/-- The opcode byte of a push of `data_len` bytes: `OpData#`, or the smallest
    `OpPushData#` whose count holds the length (the second cascade of
    `add_raw_data`). -/
def data_push_value (data_len : ℕ) : UInt8 :=
  if data_len ≤ OP_DATA_MAX_VAL.toNat then (OP_DATA_MIN_VAL - 1) + UInt8.ofNat data_len
  else if data_len ≤ 255 then OpPushData1
  else if data_len ≤ 65535 then OpPushData2
  else OpPushData4

/-- The opcode `add_raw_data` writes for the data. -/
def push_opcode (data : List UInt8) : Opcode :=
  let data_len := data.length
  if data_len = 0 ∨ (data_len = 1 ∧ data.headD 0 = 0) then ⟨Op0, []⟩
  else if data_len = 1 ∧ data.headD 0 ≤ OP_SMALL_INT_MAX_VAL then
    ⟨(Op1 - 1) + data.headD 0, []⟩
  else if data_len = 1 ∧ data.headD 0 = OP_1_NEGATE_VAL then ⟨Op1Negate, []⟩
  else ⟨data_push_value data_len, data⟩

/-! ## Opcode bytes and their length fields -/

theorem OP_DATA_MAX_VAL_toNat : OP_DATA_MAX_VAL.toNat = 75 := rfl

theorem toNat_op_data {n : ℕ} (h : n ≤ 75) :
    ((OP_DATA_MIN_VAL - 1) + UInt8.ofNat n).toNat = n := by
  have hzero : OP_DATA_MIN_VAL - 1 = 0 := by decide
  rw [hzero, UInt8.zero_add, UInt8.toNat_ofNat']
  omega

theorem toNat_small_int {d : UInt8} (h : d ≤ OP_SMALL_INT_MAX_VAL) :
    ((Op1 - 1) + d).toNat = 0x50 + d.toNat := by
  have hd : d.toNat ≤ 16 := UInt8.le_iff_toNat_le.mp h
  have h50 : (Op1 - 1).toNat = 0x50 := rfl
  rw [UInt8.toNat_add, h50]
  omega

/-- `OpData1..OpData75` carry as many bytes as their value. -/
theorem length_spec_of_op_data {v : UInt8} (h₁ : 1 ≤ v.toNat) (h₂ : v.toNat ≤ 75) :
    length_spec v = .fixed (v.toNat + 1) := by
  unfold length_spec
  rw [if_pos ⟨h₁, h₂⟩]

/-- An opcode byte outside `OpData1..OpPushData4` has no data. -/
theorem length_spec_of_no_data {v : UInt8} (h : v.toNat = 0 ∨ 0x4f ≤ v.toNat) :
    length_spec v = .fixed 1 := by
  have hcount : ∀ w : UInt8, 1 ≤ w.toNat → w.toNat ≤ 0x4e → v ≠ w := by
    rintro w hw₁ hw₂ rfl
    omega
  unfold length_spec
  rw [if_neg (by omega), if_neg (hcount _ (by decide) (by decide)),
    if_neg (hcount _ (by decide) (by decide)), if_neg (hcount _ (by decide) (by decide))]

theorem serialize_no_data {v : UInt8} (h : v.toNat = 0 ∨ 0x4f ≤ v.toNat) :
    (⟨v, []⟩ : Opcode).serialize = [v] :=
  Opcode.serialize_fixed (length_spec_of_no_data h)

theorem fits_no_data {v : UInt8} (h : v.toNat = 0 ∨ 0x4f ≤ v.toNat) : (⟨v, []⟩ : Opcode).Fits :=
  (Opcode.fits_fixed (length_spec_of_no_data h)).mpr rfl

theorem data_push_value_bounds {n : ℕ} (h : 1 ≤ n) :
    1 ≤ (data_push_value n).toNat ∧ (data_push_value n).toNat ≤ 0x4e := by
  unfold data_push_value
  split_ifs with h₁
  · rw [OP_DATA_MAX_VAL_toNat] at h₁
    rw [toNat_op_data h₁]
    exact ⟨h, by omega⟩
  all_goals decide

theorem length_spec_data_push_value {n : ℕ} (h : 1 ≤ n) :
    length_spec (data_push_value n) =
      if n ≤ OP_DATA_MAX_VAL.toNat then .fixed (n + 1)
      else if n ≤ 255 then .var 1 else if n ≤ 65535 then .var 2 else .var 4 := by
  unfold data_push_value
  split_ifs with h₁
  · rw [OP_DATA_MAX_VAL_toNat] at h₁
    have hv := toNat_op_data h₁
    rw [length_spec_of_op_data (by omega) (by omega), hv]
  all_goals rfl

/-- A data push writes its byte, its count and the data, as `add_raw_data` does. -/
theorem serialize_data_push {data : List UInt8} (h : 1 ≤ data.length) :
    (⟨data_push_value data.length, data⟩ : Opcode).serialize =
      (if data.length ≤ OP_DATA_MAX_VAL.toNat then
          [(OP_DATA_MIN_VAL - 1) + UInt8.ofNat data.length]
        else if data.length ≤ 255 then [OpPushData1, UInt8.ofNat data.length]
        else if data.length ≤ 65535 then OpPushData2 :: leBytes 2 data.length
        else OpPushData4 :: leBytes 4 data.length) ++ data := by
  have hspec := length_spec_data_push_value h
  unfold data_push_value at hspec ⊢
  split_ifs at hspec ⊢
  · rw [Opcode.serialize_fixed hspec]
    rfl
  all_goals
    rw [Opcode.serialize_var hspec]
    rfl

/-! ## What `add_raw_data` writes -/

/-- `add_raw_data` appends what `push_opcode` writes. -/
theorem add_raw_data_eq (sb : ScriptBuilder) (data : List UInt8) :
    sb.add_raw_data data = ⟨sb.script ++ (push_opcode data).serialize⟩ := by
  unfold ScriptBuilder.add_raw_data push_opcode
  dsimp only
  -- the three one-byte opcodes, then the data push, whose header is `serialize_data_push`
  by_cases h₀ : data.length = 0 ∨ (data.length = 1 ∧ data.headD 0 = 0)
  · rw [if_pos h₀, if_pos h₀, serialize_no_data (by decide)]
  rw [if_neg h₀, if_neg h₀]
  by_cases h₁ : data.length = 1 ∧ data.headD 0 ≤ OP_SMALL_INT_MAX_VAL
  · rw [if_pos h₁, if_pos h₁, serialize_no_data (by rw [toNat_small_int h₁.2]; omega)]
  rw [if_neg h₁, if_neg h₁]
  by_cases h₂ : data.length = 1 ∧ data.headD 0 = OP_1_NEGATE_VAL
  · rw [if_pos h₂, if_pos h₂, serialize_no_data (by decide)]
  rw [if_neg h₂, if_neg h₂, serialize_data_push (Nat.pos_of_ne_zero fun h => h₀ (Or.inl h)),
    List.append_assoc]

/-- The data `canonical_data_size` counts as one byte, nothing or one byte up to 16
    or `0x81`, is written as one opcode with no data. -/
theorem push_opcode_of_small {data : List UInt8}
    (h : data.length = 0 ∨
      (data.length = 1 ∧ (data.headD 0 ≤ OP_SMALL_INT_MAX_VAL ∨ data.headD 0 = OP_1_NEGATE_VAL))) :
    ∃ v : UInt8, push_opcode data = ⟨v, []⟩ ∧ (v.toNat = 0 ∨ (0x4f ≤ v.toNat ∧ v.toNat ≤ 0x60)) := by
  unfold push_opcode
  dsimp only
  split_ifs with h₀ h₁ h₂
  · exact ⟨Op0, rfl, by decide⟩
  · refine ⟨_, rfl, Or.inr ?_⟩
    have hd : (data.headD 0).toNat ≤ 16 := UInt8.le_iff_toNat_le.mp h₁.2
    rw [toNat_small_int h₁.2]
    omega
  · exact ⟨Op1Negate, rfl, by decide⟩
  · exfalso
    rcases h with h | ⟨hlen, hsmall | hneg⟩
    · exact h₀ (Or.inl h)
    · exact h₁ ⟨hlen, hsmall⟩
    · exact h₂ ⟨hlen, hneg⟩

/-- Any other data is written whole, behind `data_push_value`. -/
theorem push_opcode_of_not_small {data : List UInt8}
    (h : ¬ (data.length = 0 ∨
      (data.length = 1 ∧ (data.headD 0 ≤ OP_SMALL_INT_MAX_VAL ∨ data.headD 0 = OP_1_NEGATE_VAL)))) :
    push_opcode data = ⟨data_push_value data.length, data⟩ := by
  have hzero : (0 : UInt8) ≤ OP_SMALL_INT_MAX_VAL := by decide
  unfold push_opcode
  dsimp only
  rw [if_neg (fun h₀ => h (h₀.imp id fun ⟨hl, hz⟩ => ⟨hl, Or.inl (by rw [hz]; exact hzero)⟩)),
    if_neg (fun h₁ => h (Or.inr ⟨h₁.1, Or.inl h₁.2⟩)),
    if_neg (fun h₂ => h (Or.inr ⟨h₂.1, Or.inr h₂.2⟩))]

/-! ## Length, reading back, and the minimality check -/

/-- The bytes written are as many as `canonical_data_size` counts. -/
theorem push_opcode_serialize_length (data : List UInt8) :
    (push_opcode data).serialize.length = canonical_data_size data := by
  unfold canonical_data_size
  dsimp only
  by_cases hsmall : data.length = 0 ∨
      (data.length = 1 ∧ (data.headD 0 ≤ OP_SMALL_INT_MAX_VAL ∨ data.headD 0 = OP_1_NEGATE_VAL))
  · obtain ⟨v, hop, hv⟩ := push_opcode_of_small hsmall
    rw [if_pos hsmall, hop, serialize_no_data (by omega)]
    rfl
  · have hlen : 1 ≤ data.length := Nat.pos_of_ne_zero fun h => hsmall (Or.inl h)
    rw [if_neg hsmall, push_opcode_of_not_small hsmall, serialize_data_push hlen]
    split_ifs <;> simp <;> omega

/-- What `add_raw_data` writes reads back as that one opcode when the length fits
    the `u32` count of `OpPushData4`. -/
theorem push_opcode_fits {data : List UInt8} (h : data.length < 256 ^ 4) :
    (push_opcode data).Fits := by
  by_cases hsmall : data.length = 0 ∨
      (data.length = 1 ∧ (data.headD 0 ≤ OP_SMALL_INT_MAX_VAL ∨ data.headD 0 = OP_1_NEGATE_VAL))
  · obtain ⟨v, hop, hv⟩ := push_opcode_of_small hsmall
    rw [hop]
    exact fits_no_data (by omega)
  · have hlen : 1 ≤ data.length := Nat.pos_of_ne_zero fun h => hsmall (Or.inl h)
    rw [push_opcode_of_not_small hsmall]
    have hspec := length_spec_data_push_value hlen
    split_ifs at hspec
    · exact (Opcode.fits_fixed hspec).mpr (by simp)
    · exact (Opcode.fits_var hspec).mpr (by dsimp only; omega)
    · exact (Opcode.fits_var hspec).mpr (by dsimp only; omega)
    · exact (Opcode.fits_var hspec).mpr h

theorem is_push_opcode_iff (op : Opcode) : op.is_push_opcode = true ↔ op.value.toNat ≤ 0x60 := by
  unfold Opcode.is_push_opcode
  rw [decide_eq_true_iff, UInt8.le_iff_toNat_le]
  rfl

theorem push_opcode_is_push_opcode (data : List UInt8) : (push_opcode data).is_push_opcode = true := by
  rw [is_push_opcode_iff]
  by_cases hsmall : data.length = 0 ∨
      (data.length = 1 ∧ (data.headD 0 ≤ OP_SMALL_INT_MAX_VAL ∨ data.headD 0 = OP_1_NEGATE_VAL))
  · obtain ⟨v, hop, hv⟩ := push_opcode_of_small hsmall
    rw [hop]
    dsimp only
    omega
  · have hlen : 1 ≤ data.length := Nat.pos_of_ne_zero fun h => hsmall (Or.inl h)
    have hb := data_push_value_bounds hlen
    rw [push_opcode_of_not_small hsmall]
    dsimp only
    omega

/-- A data push of data that no small-number opcode names passes the check. -/
theorem check_data_push {data : List UInt8}
    (h : ¬ (data.length = 0 ∨
      (data.length = 1 ∧ (data.headD 0 ≤ OP_SMALL_INT_MAX_VAL ∨ data.headD 0 = OP_1_NEGATE_VAL)))) :
    (⟨data_push_value data.length, data⟩ : Opcode).check_minimal_data_push = .ok () := by
  unfold Opcode.check_minimal_data_push Opcode.len
  rcases data with _ | ⟨d, _ | ⟨d', rest⟩⟩
  · exact absurd (Or.inl rfl) h
  · -- one byte that names no small number: `OpData1`
    have hd : ¬ (d ≤ OP_SMALL_INT_MAX_VAL ∨ d = OP_1_NEGATE_VAL) := fun hd => h (Or.inr ⟨rfl, hd⟩)
    rw [not_or] at hd
    have hone : data_push_value 1 = OpData1 := rfl
    simp only [List.length_singleton, hone]
    rw [if_neg (fun hs => hd.1 hs.2), if_neg hd.2, if_neg (by decide)]
  · -- two bytes or more: `OpData#` up to 75, then `OpPushData1`, then `OpPushData2/4`
    have h75 : OpData75.toNat = 75 := rfl
    simp only [List.length_cons, h75]
    unfold data_push_value
    rw [OP_DATA_MAX_VAL_toNat]
    by_cases h₁ : rest.length + 1 + 1 ≤ 75
    · rw [if_pos h₁, if_pos h₁, toNat_op_data h₁, if_neg (not_not.mpr rfl)]
    rw [if_neg h₁, if_neg h₁]
    by_cases h₂ : rest.length + 1 + 1 ≤ 255
    · rw [if_pos h₂, if_pos h₂, if_neg (not_not.mpr rfl)]
    rw [if_neg h₂, if_neg h₂]
    by_cases h₃ : rest.length + 1 + 1 ≤ 65535
    · rw [if_pos h₃, if_neg (fun h => h.2 rfl)]
    · rw [if_neg h₃, if_neg (fun h => h₃ h.1.le)]

theorem checked_range_iff (v : UInt8) : (0 < v ∧ v ≤ 0x4e) ↔ (1 ≤ v.toNat ∧ v.toNat ≤ 0x4e) := by
  rw [UInt8.lt_iff_toNat_lt, UInt8.le_iff_toNat_le]
  rfl

/-- Where the engine applies `check_minimal_data_push`, to `OpData1..OpPushData4`, the
    opcode `add_raw_data` writes passes it. -/
theorem push_opcode_check {data : List UInt8}
    (hv : 0 < (push_opcode data).value ∧ (push_opcode data).value ≤ 0x4e) :
    (push_opcode data).check_minimal_data_push = .ok () := by
  by_cases hsmall : data.length = 0 ∨
      (data.length = 1 ∧ (data.headD 0 ≤ OP_SMALL_INT_MAX_VAL ∨ data.headD 0 = OP_1_NEGATE_VAL))
  · -- the data-less opcodes lie outside the range the engine checks
    obtain ⟨v, hop, hv'⟩ := push_opcode_of_small hsmall
    rw [hop, checked_range_iff] at hv
    dsimp only at hv
    omega
  · rw [push_opcode_of_not_small hsmall]
    exact check_data_push hsmall

/-! ## Running the push -/

theorem count_opcode_of_push {vm : TxScriptEngine} {op : Opcode} (hpush : op.is_push_opcode = true)
    (hlen : op.len ≤ MAX_SCRIPT_ELEMENT_SIZE) : count_opcode vm op = .ok vm := by
  unfold count_opcode
  rw [hpush, if_neg (by decide), if_neg (by omega)]
  rfl

/-- A push short enough for the engine, run in a taken branch, runs as its own body
    once it passes the check the engine applies. -/
theorem execute_opcode_of_push (c : Crypto) {vm : TxScriptEngine} {op : Opcode}
    (hpush : op.is_push_opcode = true) (hlen : op.len ≤ MAX_SCRIPT_ELEMENT_SIZE)
    (hexec : vm.is_executing = true)
    (hcheck : 0 < op.value ∧ op.value ≤ 0x4e → op.check_minimal_data_push = .ok ()) :
    execute_opcode c vm op = op.execute c vm := by
  unfold execute_opcode
  rw [count_opcode_of_push hpush hlen, ExceptLoops.ok_bind, if_pos (by rw [hexec]; rfl)]
  split_ifs with hv
  · rw [hcheck hv]
  · rfl

theorem decode_of_push_data {v : UInt8} (h₁ : 1 ≤ v.toNat) (h₂ : v.toNat ≤ 0x4e) :
    decode v = .push_data := by
  have hfalse : v ≠ OpFalse := by
    rintro rfl
    exact absurd h₁ (by decide)
  unfold decode
  rw [if_neg hfalse, if_pos (UInt8.le_iff_toNat_le.mpr h₂)]

theorem decode_of_small_int {v : UInt8} (h₁ : 0x51 ≤ v.toNat) (h₂ : v.toNat ≤ 0x60) :
    decode v = .small_int (v.toNat - 0x50) := by
  have hfalse : v ≠ OpFalse := by
    rintro rfl
    exact absurd h₁ (by decide)
  have hdata : ¬ v ≤ OpPushData4 := fun h => by
    have h4e : OpPushData4.toNat = 0x4e := rfl
    have := UInt8.le_iff_toNat_le.mp h
    omega
  unfold decode
  rw [if_neg hfalse, if_neg hdata,
    if_pos ⟨UInt8.le_iff_toNat_le.mpr h₁, UInt8.le_iff_toNat_le.mpr h₂⟩]

theorem execute_data_push (c : Crypto) (vm : TxScriptEngine) {op : Opcode}
    (h₁ : 1 ≤ op.value.toNat) (h₂ : op.value.toNat ≤ 0x4e) :
    op.execute c vm = .ok { vm with dstack := vm.dstack ++ [op.data] } := by
  unfold Opcode.execute
  rw [decode_of_push_data h₁ h₂]
  rfl

theorem execute_small_int (c : Crypto) (vm : TxScriptEngine) {op : Opcode}
    (h₁ : 0x51 ≤ op.value.toNat) (h₂ : op.value.toNat ≤ 0x60) :
    op.execute c vm = with_dstack vm (push_number (op.value.toNat - 0x50 : ℕ)) := by
  unfold Opcode.execute
  rw [decode_of_small_int h₁ h₂]
  rfl

theorem with_dstack_push_number {vm : TxScriptEngine} {n : ℤ} {bytes : List UInt8}
    (h : i64_serialize n = .ok bytes) :
    with_dstack vm (push_number n) = .ok { vm with dstack := vm.dstack ++ [bytes] } := by
  unfold with_dstack push_number
  rw [h]
  rfl

/-- A number up to 127 is written as its own byte. -/
theorem i64_serialize_small {k : ℕ} (h₀ : 0 < k) (h : k < 128) :
    i64_serialize k = .ok [UInt8.ofNat k] := by
  unfold i64_serialize
  rw [if_neg (by unfold I64_MIN; omega)]
  dsimp only
  rw [if_neg (by omega), Int.natAbs_natCast, magnitude_bytes_eq (k + 1) k h₀ (by omega) false]
  unfold magnitude_encoding
  rw [Nat.digits_of_lt 256 k (by omega) (by omega)]
  have hlast : [k].getLastD 0 = k := rfl
  rw [hlast, if_neg (by omega)]
  rfl

theorem push_opcode_len_le (data : List UInt8) : (push_opcode data).len ≤ data.length := by
  unfold push_opcode Opcode.len
  dsimp only
  split_ifs <;> simp

/-- The opcode `add_raw_data` writes runs as a push of the data, the byte `0` pushed
    as `[]`. -/
theorem push_opcode_execute (c : Crypto) (vm : TxScriptEngine) (data : List UInt8) :
    (push_opcode data).execute c vm =
      .ok { vm with dstack := vm.dstack ++ [if data = [0] then [] else data] } := by
  unfold push_opcode
  dsimp only
  by_cases h₀ : data.length = 0 ∨ (data.length = 1 ∧ data.headD 0 = 0)
  · -- `Op0` pushes `[]`, and the data is `[]` or `[0]`
    rw [if_pos h₀]
    rcases h₀ with h | ⟨h, hz⟩
    · rw [List.eq_nil_of_length_eq_zero h]
      rfl
    · obtain ⟨d, rfl⟩ := List.length_eq_one_iff.mp h
      rw [List.headD_cons] at hz
      subst hz
      rfl
  have hne : data ≠ [0] := fun h => h₀ (Or.inr (by rw [h]; exact ⟨rfl, rfl⟩))
  rw [if_neg h₀, if_neg hne]
  by_cases h₁ : data.length = 1 ∧ data.headD 0 ≤ OP_SMALL_INT_MAX_VAL
  · -- `Op1..Op16` push the byte as a number
    rw [if_pos h₁]
    obtain ⟨d, rfl⟩ := List.length_eq_one_iff.mp h₁.1
    rw [List.headD_cons] at h₁ h₀ ⊢
    have hd : d.toNat ≤ 16 := UInt8.le_iff_toNat_le.mp h₁.2
    have hpos : 0 < d.toNat := Nat.pos_of_ne_zero fun hz =>
      h₀ (Or.inr ⟨rfl, UInt8.toNat_inj.mp (by rw [hz]; rfl)⟩)
    have hv := toNat_small_int h₁.2
    rw [execute_small_int c vm (by dsimp only; omega) (by dsimp only; omega)]
    dsimp only
    rw [hv, Nat.add_sub_cancel_left, with_dstack_push_number (i64_serialize_small hpos (by omega)),
      UInt8.ofNat_toNat]
  rw [if_neg h₁]
  by_cases h₂ : data.length = 1 ∧ data.headD 0 = OP_1_NEGATE_VAL
  · -- `Op1Negate` pushes `-1`, the byte `0x81`
    rw [if_pos h₂]
    obtain ⟨d, rfl⟩ := List.length_eq_one_iff.mp h₂.1
    rw [List.headD_cons] at h₂
    rw [h₂.2]
    rfl
  · -- the data pushes: `OpData#` and `OpPushData#` push what they carry
    rw [if_neg h₂]
    have hb := data_push_value_bounds (Nat.pos_of_ne_zero fun h => h₀ (Or.inl h))
    exact execute_data_push c vm hb.1 hb.2

/-- Run in a taken branch, the opcode `add_raw_data` writes pushes the data, the byte
    `0` as `[]`. -/
theorem execute_push_opcode (c : Crypto) {vm : TxScriptEngine} {data : List UInt8}
    (hlen : data.length ≤ MAX_SCRIPT_ELEMENT_SIZE) (hexec : vm.is_executing = true) :
    execute_opcode c vm (push_opcode data) =
      .ok { vm with dstack := vm.dstack ++ [if data = [0] then [] else data] } := by
  rw [execute_opcode_of_push c (push_opcode_is_push_opcode data)
    ((push_opcode_len_le data).trans hlen) hexec push_opcode_check]
  exact push_opcode_execute c vm data

/-- One opcode that fits its length field is read back alone. -/
theorem parse_script_serialize {op : Opcode} (hfit : op.Fits) : parse_script op.serialize = [.ok op] := by
  have h := parse_script_flatMap_serialize [op] (by simpa using hfit) []
  rwa [List.flatMap_cons, List.flatMap_nil, List.append_nil, List.append_nil] at h

/-! ## `add_data` and `add_i64` -/

/-- A successful `add_data` carried at most `MAX_SCRIPT_ELEMENT_SIZE` bytes and appended
    `push_opcode data`. -/
theorem add_data_eq_ok {sb sb' : ScriptBuilder} {data : List UInt8}
    (h : sb.add_data data = .ok sb') :
    data.length ≤ MAX_SCRIPT_ELEMENT_SIZE ∧ sb' = ⟨sb.script ++ (push_opcode data).serialize⟩ := by
  unfold ScriptBuilder.add_data at h
  dsimp only at h
  split_ifs at h with hsize hlen
  cases h
  exact ⟨Nat.le_of_not_lt hlen, add_raw_data_eq sb data⟩

/-- No number is written as the byte `0`: zero is the empty vector. -/
theorem i64_serialize_ne_zero_byte {n : ℤ} {bytes : List UInt8} (h : i64_serialize n = .ok bytes) :
    bytes ≠ [0] := by
  rintro rfl
  by_cases hmin : n = I64_MIN
  · unfold i64_serialize at h
    rw [if_pos hmin] at h
    cases h
  by_cases hzero : n = 0
  · subst hzero
    have h0 : i64_serialize 0 = .ok [] := by decide
    rw [h0] at h
    cases h
  -- a minimal encoding with its sign byte passes the check that `[0]` fails
  obtain ⟨lower, top, hminimal, -, hser⟩ := i64_serialize_eq hmin hzero
  have hcheck := check_minimal_of_minimal hminimal (sign_byte_and_0x7f hminimal.1 (n < 0))
  rw [Except.ok.inj (hser.symm.trans h)] at hcheck
  exact absurd hcheck (by decide)

/-- The byte `add_i64` writes for `-1` and `1..16`: `Op1Negate` and `Op1..Op16`. -/
theorem toNat_add_i64_small {n : ℤ} (h : n = -1 ∨ (1 ≤ n ∧ n ≤ 16)) :
    (UInt8.ofInt ((Op1.toNat : ℤ) - 1 + n)).toNat = (0x50 + n).toNat := by
  have h51 : Op1.toNat = 0x51 := rfl
  unfold UInt8.ofInt
  rw [UInt8.toNat_ofNat', h51]
  omega

/-- What a successful `add_i64` appends: one opcode that the engine runs, in a taken
    branch, as a push of the number's serialization. -/
theorem add_i64_eq_ok {sb sb' : ScriptBuilder} {n : ℤ} (h : sb.add_i64 n = .ok sb') :
    ∃ (op : Opcode) (bytes : List UInt8), i64_serialize n = .ok bytes ∧
      sb'.script = sb.script ++ op.serialize ∧ op.Fits ∧ op.is_push_opcode = true ∧
      (0 < op.value ∧ op.value ≤ 0x4e → op.check_minimal_data_push = .ok ()) ∧
      ∀ (c : Crypto) (vm : TxScriptEngine), vm.is_executing = true →
        execute_opcode c vm op = .ok { vm with dstack := vm.dstack ++ [bytes] } := by
  unfold ScriptBuilder.add_i64 at h
  split_ifs at h with hsize hzero hsmall
  · -- `Op0` pushes `[]`, the serialization of `0`
    cases h
    subst hzero
    have hcheck : 0 < Op0 ∧ Op0 ≤ 0x4e → (⟨Op0, []⟩ : Opcode).check_minimal_data_push = .ok () :=
      fun hv => absurd hv (by decide)
    refine ⟨⟨Op0, []⟩, [], by decide, rfl, fits_no_data (by decide), rfl, hcheck,
      fun c vm hexec => ?_⟩
    rw [execute_opcode_of_push c rfl (by decide) hexec hcheck]
    rfl
  · -- `Op1Negate` and `Op1..Op16` run `push_number n` itself
    cases h
    have hv := toNat_add_i64_small hsmall
    set v := UInt8.ofInt ((Op1.toNat : ℤ) - 1 + n)
    have hrange : 0x4f ≤ v.toNat ∧ v.toNat ≤ 0x60 := by omega
    have hcheck : 0 < v ∧ v ≤ 0x4e → (⟨v, []⟩ : Opcode).check_minimal_data_push = .ok () :=
      fun hr => absurd ((checked_range_iff v).mp hr).2 (by omega)
    have hpush : (⟨v, []⟩ : Opcode).is_push_opcode = true := (is_push_opcode_iff _).mpr hrange.2
    have hrun : ∀ (c : Crypto) (vm : TxScriptEngine),
        (⟨v, []⟩ : Opcode).execute c vm = with_dstack vm (push_number n) := by
      intro c vm
      rcases hsmall with rfl | ⟨h₁, h₂⟩
      · rfl
      · rw [execute_small_int c vm (by dsimp only; omega) (by dsimp only; omega)]
        dsimp only
        rw [hv, show ((0x50 + n).toNat - 0x50 : ℕ) = n by omega]
    obtain ⟨lower, top, -, -, hbytes⟩ := i64_serialize_eq (by unfold I64_MIN; omega) hzero
    refine ⟨⟨v, []⟩, _, hbytes, (congrArg _ (serialize_no_data (by omega))).symm,
      fits_no_data (by omega), hpush, hcheck, fun c vm hexec => ?_⟩
    rw [execute_opcode_of_push c hpush (Nat.zero_le _) hexec hcheck, hrun c vm,
      with_dstack_push_number hbytes]
  · -- the serialization pushed as data, never the byte `0`
    split at h
    · cases h
    · rename_i bytes hbytes
      rw [ExceptLoops.mapError_eq_ok] at h
      obtain ⟨hlen, rfl⟩ := add_data_eq_ok h
      refine ⟨push_opcode bytes, bytes, hbytes, rfl,
        push_opcode_fits (hlen.trans_lt (by decide)), push_opcode_is_push_opcode bytes,
        push_opcode_check, fun c vm hexec => ?_⟩
      rw [execute_push_opcode c hlen hexec, if_neg (i64_serialize_ne_zero_byte hbytes)]

/-- The builder's pushes: a successful `add_data` appends `canonical_data_size` bytes
    that read back as one push opcode, which passes the minimality check wherever the
    engine applies it and, run in a taken branch, pushes the data (the byte `0` as
    `[]`); a successful `add_i64` appends one such push of the number's
    serialization. -/
theorem add_data_canonical_push :
    (∀ (sb sb' : ScriptBuilder) (data : List UInt8), sb.add_data data = .ok sb' →
      ∃ op : Opcode, sb'.script = sb.script ++ op.serialize ∧
        op.serialize.length = canonical_data_size data ∧
        parse_script op.serialize = [.ok op] ∧ op.is_push_opcode = true ∧
        (0 < op.value ∧ op.value ≤ 0x4e → op.check_minimal_data_push = .ok ()) ∧
        ∀ (c : Crypto) (vm : TxScriptEngine), vm.is_executing = true →
          execute_opcode c vm op =
            .ok { vm with dstack := vm.dstack ++ [if data = [0] then [] else data] }) ∧
    (∀ (sb sb' : ScriptBuilder) (n : ℤ), sb.add_i64 n = .ok sb' →
      ∃ (op : Opcode) (bytes : List UInt8), i64_serialize n = .ok bytes ∧
        sb'.script = sb.script ++ op.serialize ∧
        parse_script op.serialize = [.ok op] ∧ op.is_push_opcode = true ∧
        (0 < op.value ∧ op.value ≤ 0x4e → op.check_minimal_data_push = .ok ()) ∧
        ∀ (c : Crypto) (vm : TxScriptEngine), vm.is_executing = true →
          execute_opcode c vm op = .ok { vm with dstack := vm.dstack ++ [bytes] }) := by
  refine ⟨fun sb sb' data h => ?_, fun sb sb' n h => ?_⟩
  · obtain ⟨hlen, rfl⟩ := add_data_eq_ok h
    exact ⟨push_opcode data, rfl, push_opcode_serialize_length data,
      parse_script_serialize (push_opcode_fits (hlen.trans_lt (by decide))),
      push_opcode_is_push_opcode data, push_opcode_check,
      fun c vm hexec => execute_push_opcode c hlen hexec⟩
  · obtain ⟨op, bytes, hbytes, hscript, hfit, hpush, hcheck, hrun⟩ := add_i64_eq_ok h
    exact ⟨op, bytes, hbytes, hscript, parse_script_serialize hfit, hpush, hcheck, hrun⟩

/-- `add_data [5]` writes `Op5`, which the engine runs as a push of `[5]`. -/
theorem add_data_canonical_push_op5 :
    ∃ op : Opcode, ScriptBuilder.script ⟨[0x55]⟩ = ScriptBuilder.new.script ++ op.serialize ∧
      op.serialize.length = canonical_data_size [5] ∧
      parse_script op.serialize = [.ok op] ∧ op.is_push_opcode = true ∧
      (0 < op.value ∧ op.value ≤ 0x4e → op.check_minimal_data_push = .ok ()) ∧
      ∀ (c : Crypto) (vm : TxScriptEngine), vm.is_executing = true →
        execute_opcode c vm op =
          .ok { vm with dstack := vm.dstack ++ [if [5] = [0] then [] else [5]] } :=
  add_data_canonical_push.1 ScriptBuilder.new ⟨[0x55]⟩ [5] (by decide)

/-- `add_data [5]` writes `Op5` with no data, and `check_minimal_data_push` on its own
    rejects it as an empty push that is not `OpFalse`. -/
theorem add_data_small_int_fails_minimal_check :
    ScriptBuilder.new.add_data [5] = .ok ⟨[0x55]⟩ ∧
      parse_script [0x55] = [.ok ⟨0x55, []⟩] ∧
      (⟨0x55, []⟩ : Opcode).check_minimal_data_push =
        .error (.NotMinimalData (.not_op_false ⟨0x55, []⟩)) := by
  decide

end KashScript
