import Mathlib
import Kash.Script.Opcodes

/-!
# The opcode stream is a prefix code

`parse_script` reads a script one `deserialize_next_opcode` at a time, and
`Opcode.serialize` writes an opcode back as its byte, its count for
`OpPushData1/2/4`, and its data. This file proves that the two are inverse:

* `serialize_of_deserialize_opcode` — an opcode read from the front of a stream
  writes back exactly the bytes it was read from;
* `deserialize_opcode_serialize` — an opcode whose data fits its length field is
  read back from the front of any stream, with the rest of the stream left;
* `deserialize_opcode_truncated` — a push cut short at the end of a script is an
  error, `MalformedPush` or `MalformedPushSize`, and consumes what is left.

The reading of the whole script is a fuelled loop; `parse_script_cons` takes its
fuel away, and the three results above then lift along the list of opcodes by
induction on it.
-/

namespace KashScript

open PrefixCode codes

/-! ## Little-endian counts -/

/-- Reading the `w` bytes `leBytes` writes gives the number modulo `256 ^ w`. -/
theorem from_le_bytes_leBytes (w n : ℕ) : from_le_bytes (leBytes w n) = n % 256 ^ w := by
  induction w generalizing n with
  | zero => simp [leBytes, from_le_bytes, Nat.mod_one]
  | succ w ih =>
      have hlow : (UInt8.ofNat n).toNat = n % 256 := UInt8.toNat_ofNat'
      have hrest : from_le_bytes (leBytes w (n / 256)) = n / 256 % 256 ^ w := ih (n / 256)
      simp only [from_le_bytes, leBytes, List.foldr_cons] at hrest ⊢
      rw [hlow, hrest, pow_succ', Nat.mod_mul]

/-- Writing back the number a byte string reads gives the byte string. -/
theorem leBytes_from_le_bytes (bytes : List UInt8) :
    leBytes bytes.length (from_le_bytes bytes) = bytes := by
  induction bytes with
  | nil => rfl
  | cons b bytes ih =>
      have hval : from_le_bytes (b :: bytes) = b.toNat + 256 * from_le_bytes bytes := rfl
      rw [List.length_cons, leBytes, hval]
      -- the low byte is `b`, the quotient the number of the rest
      have hlow : UInt8.ofNat (b.toNat + 256 * from_le_bytes bytes) = b := by
        rw [← UInt8.toNat_inj, UInt8.toNat_ofNat', Nat.add_mul_mod_self_left,
          Nat.mod_eq_of_lt b.toNat_lt]
      have hdiv : (b.toNat + 256 * from_le_bytes bytes) / 256 = from_le_bytes bytes := by
        have := b.toNat_lt
        omega
      rw [hlow, hdiv, ih]

/-- A byte string of `w` bytes reads a number below `256 ^ w`. -/
theorem from_le_bytes_lt (bytes : List UInt8) : from_le_bytes bytes < 256 ^ bytes.length := by
  induction bytes with
  | nil => simp [from_le_bytes]
  | cons b bytes ih =>
      have hval : from_le_bytes (b :: bytes) = b.toNat + 256 * from_le_bytes bytes := rfl
      have hb := b.toNat_lt
      rw [hval, List.length_cons, pow_succ']
      omega

/-! ## One opcode -/

/-- An opcode's data fits its length field: the fixed length of `OpData1..75` and
    of every non-push opcode, or a count that the `u8`/`u16`/`u32` field of
    `OpPushData1/2/4` can hold. -/
def Opcode.Fits (op : Opcode) : Prop :=
  match length_spec op.value with
  | .fixed length => op.data.length = length - 1
  | .var width => op.data.length < 256 ^ width

instance (op : Opcode) : Decidable op.Fits := by
  unfold Opcode.Fits
  split <;> infer_instance

theorem Opcode.fits_fixed {op : Opcode} {length : ℕ}
    (hspec : length_spec op.value = .fixed length) : op.Fits ↔ op.data.length = length - 1 := by
  unfold Opcode.Fits
  rw [hspec]

theorem Opcode.fits_var {op : Opcode} {width : ℕ} (hspec : length_spec op.value = .var width) :
    op.Fits ↔ op.data.length < 256 ^ width := by
  unfold Opcode.Fits
  rw [hspec]

theorem Opcode.serialize_fixed {op : Opcode} {length : ℕ}
    (hspec : length_spec op.value = .fixed length) : op.serialize = op.value :: op.data := by
  unfold Opcode.serialize
  rw [hspec]

theorem Opcode.serialize_var {op : Opcode} {width : ℕ}
    (hspec : length_spec op.value = .var width) :
    op.serialize = op.value :: (leBytes width op.data.length ++ op.data) := by
  unfold Opcode.serialize
  rw [hspec]

/-- The errors of a push cut short. -/
def IsMalformedPush : TxScriptError → Prop
  | .MalformedPush _ _ => True
  | .MalformedPushSize _ => True
  | _ => False

/-- **READ, THEN WRITE**: an opcode read from a stream fits its field, and writes
    back exactly the bytes it was read from. -/
theorem serialize_of_deserialize_opcode {value : UInt8} {it rest : List UInt8} {op : Opcode}
    (h : deserialize_opcode value it = (.ok op, rest)) :
    op.Fits ∧ op.serialize ++ rest = value :: it := by
  unfold deserialize_opcode at h
  split at h <;> dsimp only at h
  · -- a fixed length: the data is the next `length - 1` bytes
    rename_i length hspec
    split at h
    · cases h
    rename_i hlen
    obtain ⟨hop, hrest⟩ := Prod.mk.inj h
    cases hop
    cases hrest
    refine ⟨(Opcode.fits_fixed hspec).mpr (not_not.mp hlen), ?_⟩
    rw [Opcode.serialize_fixed hspec, List.cons_append, List.take_append_drop]
  · -- a counted push: `width` bytes of count, then that many bytes of data
    rename_i width hspec
    split at h
    · cases h
    rename_i hwidth
    split at h
    · cases h
    rename_i hlen
    obtain ⟨hop, hrest⟩ := Prod.mk.inj h
    cases hop
    cases hrest
    have hwidth' : (it.take width).length = width := not_not.mp hwidth
    have hlen' : ((it.drop width).take (from_le_bytes (it.take width))).length =
        from_le_bytes (it.take width) := not_not.mp hlen
    -- the count read back is the count written, and it fits its `width` bytes
    have hbytes : leBytes width (from_le_bytes (it.take width)) = it.take width := by
      have := leBytes_from_le_bytes (it.take width)
      rwa [hwidth'] at this
    have hlt : from_le_bytes (it.take width) < 256 ^ width := by
      have := from_le_bytes_lt (it.take width)
      rwa [hwidth'] at this
    refine ⟨(Opcode.fits_var hspec).mpr (by rw [hlen']; exact hlt), ?_⟩
    rw [Opcode.serialize_var hspec, hlen', hbytes, List.cons_append, List.append_assoc,
      List.take_append_drop, List.take_append_drop]

/-- **WRITE, THEN READ**: an opcode that fits its field is read back from the front
    of any stream its bytes begin. -/
theorem deserialize_opcode_serialize (op : Opcode) (hfit : op.Fits) (rest : List UInt8) :
    deserialize_next_opcode (op.serialize ++ rest) = some (.ok op, rest) := by
  cases hspec : length_spec op.value with
  | fixed length =>
    rw [Opcode.fits_fixed hspec] at hfit
    rw [Opcode.serialize_fixed hspec]
    simp only [List.cons_append, deserialize_next_opcode, deserialize_opcode, hspec, ← hfit,
      List.take_left', List.drop_left', ne_eq, not_true_eq_false, if_false]
  | var width =>
    rw [Opcode.fits_var hspec] at hfit
    rw [Opcode.serialize_var hspec]
    have hcount : from_le_bytes (leBytes width op.data.length) = op.data.length := by
      rw [from_le_bytes_leBytes, Nat.mod_eq_of_lt hfit]
    simp only [List.cons_append, deserialize_next_opcode, deserialize_opcode, hspec,
      List.append_assoc, List.take_left' (leBytes_length width _),
      List.drop_left' (leBytes_length width _), hcount, List.take_left', List.drop_left',
      leBytes_length, ne_eq, not_true_eq_false, if_false]

/-- **A SHORT PUSH IS AN ERROR**: the bytes of an opcode cut short before their end
    read as `MalformedPush` or `MalformedPushSize`, with nothing left. -/
theorem deserialize_opcode_truncated (op : Opcode) (hfit : op.Fits) {p t : List UInt8}
    (hp : p ++ t = op.serialize) (hne : p ≠ []) (ht : t ≠ []) :
    ∃ e, IsMalformedPush e ∧ deserialize_next_opcode p = some (.error e, []) := by
  obtain ⟨value, it, rfl⟩ := List.exists_cons_of_ne_nil hne
  have htlen : 0 < t.length := List.length_pos_iff.mpr ht
  simp only [deserialize_next_opcode, Option.some.injEq]
  cases hspec : length_spec op.value with
  | fixed length =>
    -- a fixed length: fewer than `length - 1` data bytes are there
    rw [Opcode.fits_fixed hspec] at hfit
    rw [Opcode.serialize_fixed hspec, List.cons_append, List.cons.injEq] at hp
    obtain ⟨rfl, hdata⟩ := hp
    have hshort : it.length < length - 1 := by
      have := congrArg List.length hdata
      rw [List.length_append] at this
      omega
    refine ⟨.MalformedPush (length - 1) it.length, trivial, ?_⟩
    simp only [deserialize_opcode, hspec, List.take_of_length_le hshort.le,
      List.drop_of_length_le hshort.le, ne_eq, hshort.ne, not_false_eq_true, if_true]
  | var width =>
    rw [Opcode.fits_var hspec] at hfit
    rw [Opcode.serialize_var hspec, List.cons_append, List.cons.injEq] at hp
    obtain ⟨rfl, hbody⟩ := hp
    have hlen := congrArg List.length hbody
    simp only [List.length_append, leBytes_length] at hlen
    by_cases hw : it.length < width
    · -- the count itself is cut short
      refine ⟨.MalformedPushSize it, trivial, ?_⟩
      simp only [deserialize_opcode, hspec, List.take_of_length_le hw.le,
        List.drop_of_length_le hw.le, ne_eq, hw.ne, not_false_eq_true, if_true]
    · -- the count is whole, the data is cut short
      have hcount : it.take width = leBytes width op.data.length := by
        have := congrArg (List.take width) hbody
        rwa [List.take_append_of_le_length (by omega),
          List.take_left' (leBytes_length width _)] at this
      have hval : from_le_bytes (leBytes width op.data.length) = op.data.length := by
        rw [from_le_bytes_leBytes, Nat.mod_eq_of_lt hfit]
      have hshort : (it.drop width).length < op.data.length := by
        rw [List.length_drop]
        omega
      refine ⟨.MalformedPush op.data.length (it.drop width).length, trivial, ?_⟩
      simp only [deserialize_opcode, hspec, hcount, leBytes_length, hval, ne_eq,
        not_true_eq_false, if_false, List.take_of_length_le hshort.le,
        List.drop_of_length_le hshort.le, hshort.ne, not_false_eq_true, if_true]

/-! ## The whole script -/

/-- Reading an opcode leaves at most the bytes that were there. -/
theorem deserialize_opcode_rest_length (value : UInt8) (it : List UInt8) :
    (deserialize_opcode value it).2.length ≤ it.length := by
  unfold deserialize_opcode
  split <;> dsimp only
  · simp
  · split
    · simp
    · simp only [List.length_drop]
      omega

/-- Fuel beyond the script's length does not change what is read. -/
theorem parse_opcodes_fuel :
    ∀ fuel₁ fuel₂ (s : List UInt8), s.length ≤ fuel₁ → s.length ≤ fuel₂ →
      parse_opcodes fuel₁ s = parse_opcodes fuel₂ s := by
  intro fuel₁
  induction fuel₁ with
  | zero =>
      intro fuel₂ s h₁ _
      rw [List.length_eq_zero_iff.mp (Nat.le_zero.mp h₁)]
      cases fuel₂ <;> rfl
  | succ fuel₁ ih =>
      intro fuel₂ s h₁ h₂
      cases s with
      | nil => cases fuel₂ <;> rfl
      | cons value it =>
          -- both read the first opcode; the rest is shorter than either fuel
          obtain ⟨fuel₂, rfl⟩ : ∃ f, fuel₂ = f + 1 := ⟨fuel₂ - 1, by simp at h₂; omega⟩
          have hrest := deserialize_opcode_rest_length value it
          simp only [List.length_cons] at h₁ h₂
          simp only [parse_opcodes, deserialize_next_opcode]
          rw [ih fuel₂ _ (by omega) (by omega)]

/-- **ONE STEP OF `parse_script`**: the first opcode, then the script after it. -/
theorem parse_script_cons {s rest : List UInt8} {r : Except TxScriptError Opcode}
    (h : deserialize_next_opcode s = some (r, rest)) : parse_script s = r :: parse_script rest := by
  cases s with
  | nil => cases h
  | cons value it =>
      simp only [deserialize_next_opcode, Option.some.injEq] at h
      have hrest := deserialize_opcode_rest_length value it
      rw [h] at hrest
      simp only [parse_script, List.length_cons, parse_opcodes, deserialize_next_opcode, h]
      rw [parse_opcodes_fuel it.length rest.length rest hrest le_rfl]

/-- An empty script reads no opcode, and a non-empty one at least one. -/
theorem parse_script_eq_nil {s : List UInt8} : parse_script s = [] ↔ s = [] := by
  constructor
  · intro h
    cases s with
    | nil => rfl
    | cons value it =>
        have hstep : deserialize_next_opcode (value :: it) =
            some ((deserialize_opcode value it).1, (deserialize_opcode value it).2) := rfl
        rw [parse_script_cons hstep] at h
        cases h
  · rintro rfl
    rfl

/-- Opcodes that fit, written one after another in front of a script, are read
    back in order before the script. -/
theorem parse_script_flatMap_serialize (ops : List Opcode) (hfit : ∀ op ∈ ops, op.Fits)
    (s : List UInt8) :
    parse_script (ops.flatMap Opcode.serialize ++ s) = ops.map .ok ++ parse_script s := by
  induction ops with
  | nil => rfl
  | cons op ops ih =>
      rw [List.flatMap_cons, List.append_assoc,
        parse_script_cons (deserialize_opcode_serialize op (hfit op List.mem_cons_self) _),
        ih (fun o ho => hfit o (List.mem_cons_of_mem op ho))]
      rfl

/-- A script read without error is what its opcodes write. -/
theorem flatMap_serialize_of_parse_script :
    ∀ (ops : List Opcode) (s : List UInt8), parse_script s = ops.map .ok →
      ops.flatMap Opcode.serialize = s := by
  intro ops
  induction ops with
  | nil =>
      intro s h
      exact (parse_script_eq_nil.mp h).symm
  | cons op ops ih =>
      intro s h
      cases s with
      | nil => cases h
      | cons value it =>
          -- the first opcode is read from the front, the others from what it leaves
          have hnext : deserialize_next_opcode (value :: it) =
              some ((deserialize_opcode value it).1, (deserialize_opcode value it).2) := rfl
          rw [parse_script_cons hnext, List.map_cons, List.cons.injEq] at h
          obtain ⟨hfirst, hrest⟩ := h
          have hstep : deserialize_opcode value it = (.ok op, (deserialize_opcode value it).2) := by
            rw [← hfirst]
          rw [List.flatMap_cons, ih _ hrest]
          exact (serialize_of_deserialize_opcode hstep).2

/-- Every opcode read without error fits its length field: no push is shortened. -/
theorem fits_of_mem_parse_opcodes :
    ∀ fuel (s : List UInt8) (op : Opcode), .ok op ∈ parse_opcodes fuel s → op.Fits := by
  intro fuel
  induction fuel with
  | zero => intro s op h; cases h
  | succ fuel ih =>
      intro s op h
      cases s with
      | nil => cases h
      | cons value it =>
          simp only [parse_opcodes, deserialize_next_opcode, List.mem_cons] at h
          rcases h with hfirst | hrest
          · have hstep : deserialize_opcode value it =
                (.ok op, (deserialize_opcode value it).2) := by
              rw [hfirst]
            exact (serialize_of_deserialize_opcode hstep).1
          · exact ih _ op hrest

/-- A push cut short at the end of a script, after opcodes that fit, is read as
    those opcodes and one error. -/
theorem parse_script_truncated (ops : List Opcode) (hfit : ∀ o ∈ ops, o.Fits) (op : Opcode)
    (hop : op.Fits) {p t : List UInt8} (hp : p ++ t = op.serialize) (hne : p ≠ [])
    (ht : t ≠ []) :
    ∃ e, IsMalformedPush e ∧
      parse_script (ops.flatMap Opcode.serialize ++ p) = ops.map .ok ++ [.error e] := by
  obtain ⟨e, he, hnext⟩ := deserialize_opcode_truncated op hop hp hne ht
  refine ⟨e, he, ?_⟩
  rw [parse_script_flatMap_serialize ops hfit, parse_script_cons hnext]
  rfl

/-- Scripts and opcode lists correspond: a script read without error is what its
    opcodes write, opcodes that fit their length fields are read back from what
    they write, every opcode read fits its field, and a push cut short is an error
    rather than a shorter push. -/
theorem opcode_stream_round_trip :
    (∀ (s : List UInt8) (ops : List Opcode), parse_script s = ops.map .ok →
      ops.flatMap Opcode.serialize = s) ∧
    (∀ ops : List Opcode, (∀ op ∈ ops, op.Fits) →
      parse_script (ops.flatMap Opcode.serialize) = ops.map .ok) ∧
    (∀ (s : List UInt8) (op : Opcode), .ok op ∈ parse_script s → op.Fits) ∧
    (∀ (ops : List Opcode) (op : Opcode) (p t : List UInt8), (∀ o ∈ ops, o.Fits) → op.Fits →
      p ++ t = op.serialize → p ≠ [] → t ≠ [] →
      ∃ e, IsMalformedPush e ∧
        parse_script (ops.flatMap Opcode.serialize ++ p) = ops.map .ok ++ [.error e]) := by
  refine ⟨fun s ops h => flatMap_serialize_of_parse_script ops s h, fun ops hfit => ?_,
    fun s op h => fits_of_mem_parse_opcodes _ s op h,
    fun ops op _ _ hfit hop hp hne ht => parse_script_truncated ops hfit op hop hp hne ht⟩
  have h := parse_script_flatMap_serialize ops hfit []
  rwa [List.append_nil, parse_script_eq_nil.mpr rfl, List.append_nil] at h

/-- An `OpPushData1` of three bytes with its last byte missing reads as one error. -/
theorem opcode_stream_round_trip_short_push_data1 :
    ∃ e, IsMalformedPush e ∧
      parse_script ([] ++ [OpPushData1, 3, 0xaa, 0xbb]) = [] ++ [.error e] :=
  opcode_stream_round_trip.2.2.2 [] ⟨OpPushData1, [0xaa, 0xbb, 0xcc]⟩ [OpPushData1, 3, 0xaa, 0xbb]
    [0xcc] (by simp) (by decide) (by decide) (by simp) (by simp)

end KashScript
