import Mathlib
import Kash.Coinbase
import Kash.Script.OpcodeStreamProofs
import Kash.Pipeline.ParallelValidationProofs

/-! # The coinbase payload is a codec

    A payload is the blue score and the subsidy (eight little-endian bytes each),
    the script public key's version (two), its length (one byte), the script and
    the extra data. `deserialize_coinbase_payload` checks the payload's length
    against `MIN_PAYLOAD_LENGTH` and `max_coinbase_payload_len` before its
    `PayloadParser` reads anything.

    * `deserialize_coinbase_payload_fields` — a payload within the limits, cut at
      its fixed fields, reads as those fields, and the parser never runs past the
      end; so `deserialize_coinbase_payload` never panics;
    * `deserialize_serialize` and `serialize_deserialize` — writing and reading are
      inverse, the payload's length limit the only condition on the first;
    * `modify_serialize` — `modify_coinbase_payload` cuts a written payload
      exactly after the subsidy. -/

namespace KashCoinbase

open KashTx KashHashing KashScript PrefixCode

/-! ## Fixed-width fields -/

theorem toUInt64_from_le_bytes_write_u64 (x : UInt64) : (from_le_bytes (write_u64 x)).toUInt64 = x := by
  unfold write_u64
  rw [from_le_bytes_leBytes, Nat.mod_eq_of_lt (by have := x.toNat_lt; omega), Nat.toUInt64_eq,
    UInt64.ofNat_toNat]

theorem toUInt16_from_le_bytes_write_u16 (x : UInt16) : (from_le_bytes (write_u16 x)).toUInt16 = x := by
  unfold write_u16
  rw [from_le_bytes_leBytes, Nat.mod_eq_of_lt (by have := x.toNat_lt; omega), Nat.toUInt16_eq,
    UInt16.ofNat_toNat]

theorem write_u64_from_le_bytes {bytes : List UInt8} (h : bytes.length = 8) :
    write_u64 (from_le_bytes bytes).toUInt64 = bytes := by
  have hlt := from_le_bytes_lt bytes
  rw [h] at hlt
  unfold write_u64
  rw [Nat.toUInt64_eq, UInt64.toNat_ofNat', Nat.mod_eq_of_lt (by omega), ← h, leBytes_from_le_bytes]

theorem write_u16_from_le_bytes {bytes : List UInt8} (h : bytes.length = 2) :
    write_u16 (from_le_bytes bytes).toUInt16 = bytes := by
  have hlt := from_le_bytes_lt bytes
  rw [h] at hlt
  unfold write_u16
  rw [Nat.toUInt16_eq, UInt16.toNat_ofNat', Nat.mod_eq_of_lt (by omega), ← h, leBytes_from_le_bytes]

theorem toUInt8_from_le_bytes_singleton (b : UInt8) : (from_le_bytes [b]).toUInt8 = b := by
  show (b.toNat + 256 * 0).toUInt8 = b
  rw [Nat.mul_zero, Nat.add_zero, Nat.toUInt8_eq, UInt8.ofNat_toNat]

/-! ## The parser -/

theorem PayloadParser.take_of_le {parser : PayloadParser} {n : ℕ} (h : n ≤ parser.remaining.length) :
    parser.take n = .ok (parser.remaining.take n, ⟨parser.remaining.drop n⟩) := by
  unfold PayloadParser.take
  rw [if_pos h]

/-- A field of `n` bytes in front of the rest is read whole. -/
theorem PayloadParser.take_append {field rest : List UInt8} {n : ℕ} (h : field.length = n) :
    PayloadParser.take ⟨field ++ rest⟩ n = .ok (field, ⟨rest⟩) := by
  rw [PayloadParser.take_of_le (by simp [h]), List.take_left' h, List.drop_left' h]

theorem try_into_array_of_length {n : ℕ} {slice : List UInt8} (h : slice.length = n) :
    try_into_array n slice = .ok slice := by
  unfold try_into_array
  rw [if_pos h]

namespace CoinbaseManager

variable (m : CoinbaseManager)

/-- **THE READ**: a payload within the length limits, cut at its fixed fields, reads
    as those fields after the checks on the script's length. Every `take` of the
    parser lies within the payload and every `try_into` has its width. -/
theorem deserialize_coinbase_payload_fields {blue_score subsidy version rest : List UInt8}
    {len : UInt8} (h₁ : blue_score.length = 8) (h₂ : subsidy.length = 8) (h₃ : version.length = 2)
    (hmax : rest.length + MIN_PAYLOAD_LENGTH ≤ m.max_coinbase_payload_len) :
    m.deserialize_coinbase_payload (blue_score ++ (subsidy ++ (version ++ ([len] ++ rest)))) =
      if len > m.coinbase_payload_script_public_key_max_len then
        .error (.error (.PayloadScriptPublicKeyLenAboveMax len.toNat
          m.coinbase_payload_script_public_key_max_len))
      else if rest.length < len.toNat then
        .error (.error (.PayloadCantContainScriptPublicKey (rest.length + MIN_PAYLOAD_LENGTH)
          (MIN_PAYLOAD_LENGTH + len.toNat)))
      else .ok ⟨(from_le_bytes blue_score).toUInt64, (from_le_bytes subsidy).toUInt64,
        ⟨⟨(from_le_bytes version).toUInt16, rest.take len.toNat⟩, rest.drop len.toNat⟩⟩ := by
  have hlen : (blue_score ++ (subsidy ++ (version ++ ([len] ++ rest)))).length =
      rest.length + MIN_PAYLOAD_LENGTH := by
    simp only [List.length_append, List.length_singleton, h₁, h₂, h₃, MIN_PAYLOAD_LENGTH,
      LENGTH_OF_BLUE_SCORE, LENGTH_OF_SUBSIDY, LENGTH_OF_SCRIPT_PUB_KEY_VERSION,
      LENGTH_OF_SCRIPT_PUB_KEY_LENGTH]
    omega
  have h₄ : [len].length = 1 := rfl
  unfold deserialize_coinbase_payload
  rw [if_neg (by rw [hlen]; omega), if_neg (by rw [hlen]; omega), hlen]
  simp only [LENGTH_OF_BLUE_SCORE, LENGTH_OF_SUBSIDY, LENGTH_OF_SCRIPT_PUB_KEY_VERSION,
    LENGTH_OF_SCRIPT_PUB_KEY_LENGTH, PayloadParser.take_append h₁, PayloadParser.take_append h₂,
    PayloadParser.take_append h₃, PayloadParser.take_append h₄, try_into_array_of_length h₁,
    try_into_array_of_length h₂, try_into_array_of_length h₃, try_into_array_of_length h₄,
    toUInt8_from_le_bytes_singleton, ExceptLoops.ok_mapError, ExceptLoops.ok_bind]
  -- the two checks on the script's length, then its `take`, within what is left
  split_ifs with hgt hshort
  · rfl
  · rfl
  · rw [PayloadParser.take_of_le (Nat.le_of_not_lt hshort)]
    rfl

/-- A payload that passes the length check splits at its fixed fields. -/
theorem payload_split {payload : List UInt8} (h : MIN_PAYLOAD_LENGTH ≤ payload.length) :
    ∃ blue_score subsidy version len rest,
      payload = blue_score ++ (subsidy ++ (version ++ ([len] ++ rest))) ∧
        blue_score.length = 8 ∧ subsidy.length = 8 ∧ version.length = 2 := by
  have hlen : 19 ≤ payload.length := h
  obtain ⟨len, rest, hrest⟩ : ∃ len rest, payload.drop 18 = len :: rest := by
    cases hd : payload.drop 18 with
    | nil =>
        have := congrArg List.length hd
        simp only [List.length_drop, List.length_nil] at this
        omega
    | cons len rest => exact ⟨len, rest, rfl⟩
  refine ⟨payload.take 8, (payload.drop 8).take 8, (payload.drop 16).take 2, len, rest, ?_,
    by simp only [List.length_take]; omega, by simp only [List.length_take, List.length_drop]; omega,
    by simp only [List.length_take, List.length_drop]; omega⟩
  rw [List.singleton_append, ← hrest, show payload.drop 18 = (payload.drop 16).drop 2 by
      rw [List.drop_drop], List.take_append_drop, show payload.drop 16 = (payload.drop 8).drop 8 by
      rw [List.drop_drop], List.take_append_drop, List.take_append_drop]

/-- `deserialize_coinbase_payload` never panics: it fails only with a `CoinbaseError`. -/
theorem deserialize_coinbase_payload_ne_panics (payload : List UInt8) (site : PanicSite) :
    m.deserialize_coinbase_payload payload ≠ .error (.panics site) := by
  by_cases hmin : payload.length < MIN_PAYLOAD_LENGTH
  · unfold deserialize_coinbase_payload
    rw [if_pos hmin]
    exact fun h => by cases h
  by_cases hmax : payload.length > m.max_coinbase_payload_len
  · unfold deserialize_coinbase_payload
    rw [if_neg hmin, if_pos hmax]
    exact fun h => by cases h
  obtain ⟨blue_score, subsidy, version, len, rest, rfl, h₁, h₂, h₃⟩ := payload_split (Nat.le_of_not_lt hmin)
  have hsize : rest.length + MIN_PAYLOAD_LENGTH ≤ m.max_coinbase_payload_len := by
    simp only [List.length_append, List.length_singleton, h₁, h₂, h₃] at hmax
    unfold MIN_PAYLOAD_LENGTH LENGTH_OF_BLUE_SCORE LENGTH_OF_SUBSIDY LENGTH_OF_SCRIPT_PUB_KEY_VERSION
      LENGTH_OF_SCRIPT_PUB_KEY_LENGTH
    omega
  rw [deserialize_coinbase_payload_fields m h₁ h₂ h₃ hsize]
  split_ifs <;> exact fun h => by cases h

/-! ## Writing and reading -/

/-- A payload as `serialize_coinbase_payload` writes it, cut at its fixed fields. -/
theorem serialize_coinbase_payload_eq {data : CoinbaseData} {payload : List UInt8}
    (h : m.serialize_coinbase_payload data = .ok payload) :
    data.miner_data.script_public_key.script.length ≤ m.coinbase_payload_script_public_key_max_len.toNat ∧
      payload = write_u64 data.blue_score ++ (write_u64 data.subsidy ++
        (write_u16 data.miner_data.script_public_key.version ++
          ([UInt8.ofNat data.miner_data.script_public_key.script.length] ++
            (data.miner_data.script_public_key.script ++ data.miner_data.extra_data)))) := by
  unfold serialize_coinbase_payload at h
  dsimp only at h
  split_ifs at h with hlen
  cases h
  exact ⟨Nat.le_of_not_lt hlen, by simp only [miner_data_bytes, List.append_assoc]⟩

theorem serialize_coinbase_payload_ok {data : CoinbaseData}
    (h : data.miner_data.script_public_key.script.length ≤
      m.coinbase_payload_script_public_key_max_len.toNat) :
    m.serialize_coinbase_payload data =
      .ok (write_u64 data.blue_score ++ write_u64 data.subsidy ++ miner_data_bytes data.miner_data) := by
  unfold serialize_coinbase_payload
  rw [if_neg (Nat.not_lt_of_le h)]

/-- Reading a written payload gives its data back, when the payload is within
    `max_coinbase_payload_len`. -/
theorem deserialize_serialize {data : CoinbaseData} {payload : List UInt8}
    (h : m.serialize_coinbase_payload data = .ok payload)
    (hmax : payload.length ≤ m.max_coinbase_payload_len) :
    m.deserialize_coinbase_payload payload = .ok data := by
  obtain ⟨hlen, rfl⟩ := m.serialize_coinbase_payload_eq h
  obtain ⟨blue_score, subsidy, ⟨⟨version, script⟩, extra_data⟩⟩ := data
  dsimp only at hlen hmax ⊢
  have hbound := m.coinbase_payload_script_public_key_max_len.toNat_lt
  have hbyte : (UInt8.ofNat script.length).toNat = script.length := by
    rw [UInt8.toNat_ofNat']
    omega
  have h₆₄ : ∀ x : UInt64, (write_u64 x).length = 8 := fun x => leBytes_length 8 x.toNat
  have h₁₆ : (write_u16 version).length = 2 := leBytes_length 2 version.toNat
  have hsize : (script ++ extra_data).length + MIN_PAYLOAD_LENGTH ≤ m.max_coinbase_payload_len := by
    simp only [List.length_append, List.length_singleton, h₆₄, h₁₆] at hmax ⊢
    unfold MIN_PAYLOAD_LENGTH LENGTH_OF_BLUE_SCORE LENGTH_OF_SUBSIDY LENGTH_OF_SCRIPT_PUB_KEY_VERSION
      LENGTH_OF_SCRIPT_PUB_KEY_LENGTH
    omega
  rw [deserialize_coinbase_payload_fields m (h₆₄ _) (h₆₄ _) h₁₆ hsize]
  -- the length byte is the script's length, within the maximum and what follows
  rw [if_neg (fun hgt => by rw [gt_iff_lt, UInt8.lt_iff_toNat_lt, hbyte] at hgt; omega),
    if_neg (by rw [hbyte, List.length_append]; omega), hbyte, List.take_left' rfl, List.drop_left' rfl,
    toUInt64_from_le_bytes_write_u64, toUInt64_from_le_bytes_write_u64, toUInt16_from_le_bytes_write_u16]

/-- Writing the data of a payload that reads gives the payload back. -/
theorem serialize_deserialize {payload : List UInt8} {data : CoinbaseData}
    (h : m.deserialize_coinbase_payload payload = .ok data) :
    m.serialize_coinbase_payload data = .ok payload := by
  have hmin : MIN_PAYLOAD_LENGTH ≤ payload.length := by
    refine Nat.le_of_not_lt fun hlt => ?_
    unfold deserialize_coinbase_payload at h
    rw [if_pos hlt] at h
    cases h
  have hmax : payload.length ≤ m.max_coinbase_payload_len := by
    refine Nat.le_of_not_lt fun hgt => ?_
    unfold deserialize_coinbase_payload at h
    rw [if_neg (Nat.not_lt_of_le hmin), if_pos hgt] at h
    cases h
  obtain ⟨blue_score, subsidy, version, len, rest, rfl, h₁, h₂, h₃⟩ := payload_split hmin
  have hsize : rest.length + MIN_PAYLOAD_LENGTH ≤ m.max_coinbase_payload_len := by
    simp only [List.length_append, List.length_singleton, h₁, h₂, h₃] at hmax
    unfold MIN_PAYLOAD_LENGTH LENGTH_OF_BLUE_SCORE LENGTH_OF_SUBSIDY LENGTH_OF_SCRIPT_PUB_KEY_VERSION
      LENGTH_OF_SCRIPT_PUB_KEY_LENGTH
    omega
  rw [deserialize_coinbase_payload_fields m h₁ h₂ h₃ hsize] at h
  split_ifs at h with hgt hshort
  cases h
  -- the script read is `len` bytes long, within the maximum
  have hscript : (rest.take len.toNat).length = len.toNat := by
    rw [List.length_take]
    omega
  have hle : len.toNat ≤ m.coinbase_payload_script_public_key_max_len.toNat :=
    Nat.le_of_not_lt fun hlt => hgt (UInt8.lt_iff_toNat_lt.mpr hlt)
  rw [serialize_coinbase_payload_ok m (by dsimp only; omega)]
  dsimp only [miner_data_bytes]
  rw [hscript, UInt8.ofNat_toNat, write_u64_from_le_bytes h₁, write_u64_from_le_bytes h₂,
    write_u16_from_le_bytes h₃]
  simp only [List.append_assoc, List.take_append_drop]

/-- `modify_coinbase_payload` of a written payload writes the same blue score and
    subsidy with the new miner data. -/
theorem modify_serialize {data : CoinbaseData} {payload : List UInt8}
    (h : m.serialize_coinbase_payload data = .ok payload) (miner_data : MinerData) :
    m.modify_coinbase_payload payload miner_data =
      m.serialize_coinbase_payload ⟨data.blue_score, data.subsidy, miner_data⟩ := by
  obtain ⟨-, rfl⟩ := m.serialize_coinbase_payload_eq h
  have hcut : (write_u64 data.blue_score ++ (write_u64 data.subsidy ++ (write_u16
      data.miner_data.script_public_key.version ++ ([UInt8.ofNat
        data.miner_data.script_public_key.script.length] ++ (data.miner_data.script_public_key.script ++
          data.miner_data.extra_data))))).take (LENGTH_OF_BLUE_SCORE + LENGTH_OF_SUBSIDY) =
      write_u64 data.blue_score ++ write_u64 data.subsidy := by
    rw [← List.append_assoc, List.take_left' (by simp [write_u64, LENGTH_OF_BLUE_SCORE, LENGTH_OF_SUBSIDY])]
  unfold modify_coinbase_payload serialize_coinbase_payload
  dsimp only
  rw [hcut]

end CoinbaseManager

/-- The payload is a codec: data whose script fits is written, and read back when
    the payload is within its limit; a payload that reads is what its data writes;
    `modify_coinbase_payload` keeps a written payload's blue score and subsidy; and
    reading never panics. -/
theorem coinbase_payload_round_trip (m : CoinbaseManager) :
    (∀ data : CoinbaseData, data.miner_data.script_public_key.script.length ≤
        m.coinbase_payload_script_public_key_max_len.toNat →
      ∃ payload, m.serialize_coinbase_payload data = .ok payload ∧
        (payload.length ≤ m.max_coinbase_payload_len →
          m.deserialize_coinbase_payload payload = .ok data)) ∧
    (∀ (payload : List UInt8) (data : CoinbaseData), m.deserialize_coinbase_payload payload = .ok data →
      m.serialize_coinbase_payload data = .ok payload) ∧
    (∀ (data : CoinbaseData) (payload : List UInt8) (miner_data : MinerData),
      m.serialize_coinbase_payload data = .ok payload →
      m.modify_coinbase_payload payload miner_data =
        m.serialize_coinbase_payload ⟨data.blue_score, data.subsidy, miner_data⟩) ∧
    (∀ (payload : List UInt8) (site : PanicSite),
      m.deserialize_coinbase_payload payload ≠ .error (.panics site)) :=
  ⟨fun _ hlen => ⟨_, m.serialize_coinbase_payload_ok hlen, m.deserialize_serialize
      (m.serialize_coinbase_payload_ok hlen)⟩,
    fun _ _ h => m.serialize_deserialize h, fun _ _ miner_data h => m.modify_serialize h miner_data,
    m.deserialize_coinbase_payload_ne_panics⟩

/-- Under the mainnet limits, the data of an `OpTrue` script with two bytes of
    extra data is written to a payload within the limit, and read back. -/
theorem coinbase_payload_round_trip_op_true_script :
    ∃ payload, KashPipeline.mainnet_coinbase_manager.serialize_coinbase_payload
        ⟨7, 5, ⟨⟨0, [0x51]⟩, [1, 2]⟩⟩ = .ok payload ∧
      payload.length ≤ KashPipeline.mainnet_coinbase_manager.max_coinbase_payload_len ∧
      KashPipeline.mainnet_coinbase_manager.deserialize_coinbase_payload payload =
        .ok ⟨7, 5, ⟨⟨0, [0x51]⟩, [1, 2]⟩⟩ := by
  obtain ⟨payload, hser, hread⟩ :=
    (coinbase_payload_round_trip KashPipeline.mainnet_coinbase_manager).1
      ⟨7, 5, ⟨⟨0, [0x51]⟩, [1, 2]⟩⟩ (by decide)
  -- the payload is the fixed fields and the three script and data bytes
  have hlen : payload.length ≤ KashPipeline.mainnet_coinbase_manager.max_coinbase_payload_len := by
    obtain ⟨-, rfl⟩ := KashPipeline.mainnet_coinbase_manager.serialize_coinbase_payload_eq hser
    decide
  exact ⟨payload, hser, hlen, hread hlen⟩

end KashCoinbase
