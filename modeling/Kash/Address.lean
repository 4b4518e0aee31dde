import Mathlib

/-! # Addresses (`kash_addresses`, `lib.rs` and `bech32.rs`)

    An address is a prefix, a version and a payload. Its text is the prefix, a
    colon, and the version byte and payload regrouped from 8-bit into 5-bit
    digits, followed by eight 5-bit digits of a 40-bit `polymod` checksum over
    the prefix's low five bits and the payload digits, each digit written as a
    letter of `CHARSET`.

    Decoding reads the text back. A text is a list of characters; `len()` and
    the decoding table see its UTF-8 bytes. Failures are `AddressError`s, or a
    panic: the subtraction `address.len() - 8`, the index `payload_u8[0]`, and
    the length `assert_eq!` of `Address::new`.

    The two regroupings are one loop with two widths (`regroup`): it shifts each
    input digit into a 16-bit buffer and drains every full output digit from its
    top. The output vectors of the source are preallocated at exactly the number
    of digits the loop writes, so they are modelled as the list it appends to. -/

namespace KashAddress

/-- `AddressError`, the variants `Address::try_from` returns. -/
inductive AddressError
  | InvalidPrefix (pfx : List Char)
  | MissingPrefix
  | InvalidVersion (version : UInt8)
  | DecodingError (c : Char)
  | BadChecksum
  deriving DecidableEq, Repr

/-- Where decoding panics. -/
inductive AddressPanic
  /-- `address.len() - 8` on a payload of fewer than eight bytes. -/
  | subtract_with_overflow
  /-- `payload_u8[0]` on an empty payload. -/
  | index_out_of_bounds
  /-- `Address::new`'s `assert_eq!(payload.len(), version.public_key_len())`. -/
  | assertion_failed
  deriving DecidableEq, Repr

/-- How decoding fails: an error it returns, or a panic. -/
inductive AddressFault
  | error (e : AddressError)
  | panics (site : AddressPanic)
  deriving DecidableEq, Repr

/-- `Prefix`, without the two prefixes that exist only in test builds. -/
inductive Prefix
  | Mainnet
  | Testnet
  | Simnet
  | Devnet
  deriving DecidableEq, Repr

/-- `Prefix::as_str`. -/
def Prefix.as_str : Prefix → List Char
  | .Mainnet => "kash".toList
  | .Testnet => "kashtest".toList
  | .Simnet => "kashsim".toList
  | .Devnet => "kashdev".toList

/-- `TryFrom<&str> for Prefix`. -/
def Prefix.try_from (pfx : List Char) : Except AddressError Prefix :=
  if pfx = "kash".toList then .ok .Mainnet
  else if pfx = "kashtest".toList then .ok .Testnet
  else if pfx = "kashsim".toList then .ok .Simnet
  else if pfx = "kashdev".toList then .ok .Devnet
  else .error (.InvalidPrefix pfx)

/-- `Version`. -/
inductive Version
  | PubKey
  | PubKeyECDSA
  | ScriptHash
  deriving DecidableEq, Repr

/-- The `#[repr(u8)]` discriminant. -/
def Version.to_u8 : Version → UInt8
  | .PubKey => 0
  | .PubKeyECDSA => 1
  | .ScriptHash => 8

/-- `TryFrom<u8> for Version`. -/
def Version.try_from (value : UInt8) : Except AddressError Version :=
  if value = 0 then .ok .PubKey
  else if value = 1 then .ok .PubKeyECDSA
  else if value = 8 then .ok .ScriptHash
  else .error (.InvalidVersion value)

/-- `Version::public_key_len`. -/
def Version.public_key_len : Version → ℕ
  | .PubKey => 32
  | .PubKeyECDSA => 33
  | .ScriptHash => 32

/-- `Address`. -/
structure Address where
  pfx : Prefix
  version : Version
  payload : List UInt8
  deriving DecidableEq, Repr

/-- `Address::new`: outside test builds the payload must have the version's
    key length. -/
def Address.new (pfx : Prefix) (version : Version) (payload : List UInt8) :
    Except AddressPanic Address :=
  if payload.length = version.public_key_len then .ok ⟨pfx, version, payload⟩
  else .error .assertion_failed

/-! ## `bech32.rs` -/

/-- `CHARSET`: the letter of every 5-bit digit. -/
def CHARSET : List UInt8 :=
  "qpzry9x8gf2tvdw0s3jn54khce6mua7l".toList.map fun c => c.toNat.toUInt8

/-- `REV_CHARSET`: the digit of every byte below 123, `100` for none. -/
def REV_CHARSET : List UInt8 :=
  [100, 100, 100, 100, 100, 100, 100, 100, 100, 100, 100, 100, 100, 100, 100, 100, 100, 100, 100,
    100, 100, 100, 100, 100, 100, 100, 100, 100, 100, 100, 100, 100, 100, 100, 100, 100, 100, 100,
    100, 100, 100, 100, 100, 100, 100, 100, 100, 100, 15, 100, 10, 17, 21, 20, 26, 30, 7, 5, 100,
    100, 100, 100, 100, 100, 100, 100, 100, 100, 100, 100, 100, 100, 100, 100, 100, 100, 100, 100,
    100, 100, 100, 100, 100, 100, 100, 100, 100, 100, 100, 100, 100, 100, 100, 100, 100, 100, 100,
    29, 100, 24, 13, 25, 9, 8, 23, 100, 18, 22, 31, 27, 19, 100, 1, 0, 3, 16, 11, 28, 12, 14, 6, 4,
    2]

/-- One step of `polymod`: shift in a digit and fold the five bits shifted out
    back in through the generator. -/
def polymod_step (c : UInt64) (d : UInt8) : UInt64 :=
  let c0 := c >>> 35
  let c := ((c &&& 0x07ffffffff) <<< 5) ^^^ d.toUInt64
  let c := if c0 &&& 0x01 != 0 then c ^^^ 0x98f2bc8e61 else c
  let c := if c0 &&& 0x02 != 0 then c ^^^ 0x79b76d99e2 else c
  let c := if c0 &&& 0x04 != 0 then c ^^^ 0xf33e5fb3c4 else c
  let c := if c0 &&& 0x08 != 0 then c ^^^ 0xae2eabe2a8 else c
  if c0 &&& 0x10 != 0 then c ^^^ 0x1e4f43e470 else c

/-- `polymod`. -/
def polymod (values : List UInt8) : UInt64 :=
  values.foldl polymod_step 1 ^^^ 1

/-- `checksum`: `polymod` of the prefix digits, a zero, the payload digits and
    eight zeros. -/
def checksum (payload pfx : List UInt8) : UInt64 :=
  polymod (pfx ++ [0] ++ payload ++ List.replicate 8 0)

/-- The `while bits >= width` loop of the two conversions: take the top `width`
    of the `bits` buffered bits as the next digit, and keep the rest. `fuel`
    bounds the iterations; `bits + 1` is always enough. -/
def drain_bits (width : ℕ) : ℕ → UInt16 → ℕ → List UInt8 → UInt16 × ℕ × List UInt8
  | 0, buff, bits, out => (buff, bits, out)
  | fuel + 1, buff, bits, out =>
      if width ≤ bits then
        drain_bits width fuel (buff &&& ((1 <<< (bits - width).toUInt16) - 1)) (bits - width)
          (out ++ [(buff >>> (bits - width).toUInt16).toUInt8])
      else (buff, bits, out)

/-- The `for` loop of `conv8to5` (`in_width = 8`, `out_width = 5`) and of
    `conv5to8` (the other way): shift in each digit, then drain. -/
def regroup (in_width out_width : ℕ) :
    List UInt8 → UInt16 → ℕ → List UInt8 → UInt16 × ℕ × List UInt8
  | [], buff, bits, out => (buff, bits, out)
  | c :: cs, buff, bits, out =>
      let r := drain_bits out_width (bits + in_width + 1)
        ((buff <<< in_width.toUInt16) ||| c.toUInt16) (bits + in_width) out
      regroup in_width out_width cs r.1 r.2.1 r.2.2

/-- `conv8to5`: bytes to 5-bit digits, the last one padded on the right with
    zeros. -/
def conv8to5 (payload : List UInt8) : List UInt8 :=
  let r := regroup 8 5 payload 0 0 []
  if 0 < r.2.1 then r.2.2 ++ [(r.1 <<< (5 - r.2.1).toUInt16).toUInt8] else r.2.2

/-- `conv5to8`: 5-bit digits to bytes; leftover bits are dropped. -/
def conv5to8 (payload : List UInt8) : List UInt8 :=
  (regroup 5 8 payload 0 0 []).2.2

/-- `u64::to_be_bytes`. -/
def to_be_bytes (x : UInt64) : List UInt8 :=
  (List.range 8).reverse.map fun i => (x >>> (8 * i).toUInt64).toUInt8

/-- `u64::from_be_bytes`. -/
def from_be_bytes (bytes : List UInt8) : UInt64 :=
  bytes.foldl (fun acc b => (acc <<< 8) ||| b.toUInt64) 0

/-- The prefix's bytes with their low five bits. -/
def fivebit_pfx (pfx : Prefix) : List UInt8 :=
  pfx.as_str.map fun c => c.toNat.toUInt8 &&& 0x1f

/-- `Address::encode_payload`. -/
def Address.encode_payload (self : Address) : List Char :=
  let fivebit_payload := conv8to5 (self.version.to_u8 :: self.payload)
  let checksum := checksum fivebit_payload (fivebit_pfx self.pfx)
  (fivebit_payload ++ conv8to5 ((to_be_bytes checksum).drop 3)).map fun c =>
    Char.ofNat (CHARSET.getD c.toNat 0).toNat

/-- `From<&Address> for String`: the prefix, a colon and the encoded payload. -/
def Address.to_string (self : Address) : List Char :=
  self.pfx.as_str ++ [':'] ++ self.encode_payload

/-- The scan of `decode_payload`: every byte through `REV_CHARSET`, stopping at
    the first byte with no digit. -/
def decode_digits : List UInt8 → Except AddressError (List UInt8)
  | [] => .ok []
  | b :: bs =>
      let i := REV_CHARSET.getD b.toNat 100
      if i = 100 then .error (.DecodingError (Char.ofNat b.toNat))
      else (i :: ·) <$> decode_digits bs

/-- The UTF-8 bytes of a text (`str::as_bytes`). -/
def utf8_bytes (s : List Char) : List UInt8 :=
  s.flatMap String.utf8EncodeChar

/-- `Address::decode_payload`. -/
def Address.decode_payload (pfx : Prefix) (address : List Char) : Except AddressFault Address := do
  let bytes := utf8_bytes address
  let address_u5 ← (decode_digits bytes).mapError .error
  if bytes.length < 8 then throw (.panics .subtract_with_overflow)
  let payload_u5 := address_u5.take (bytes.length - 8)
  let checksum_u5 := address_u5.drop (bytes.length - 8)
  let checksum_ := from_be_bytes (List.replicate 3 0 ++ conv5to8 checksum_u5)
  if checksum payload_u5 (fivebit_pfx pfx) ≠ checksum_ then throw (.error .BadChecksum)
  match conv5to8 payload_u5 with
  | [] => throw (.panics .index_out_of_bounds)
  | v :: payload =>
      let version ← (Version.try_from v).mapError .error
      (Address.new pfx version payload).mapError .panics

/-- `str::split_once(':')`: the text before and after the first colon. -/
def split_once (s : List Char) : Option (List Char × List Char) :=
  match s.idxOf? ':' with
  | some i => some (s.take i, s.drop (i + 1))
  | none => none

/-- `TryFrom<&str> for Address`. -/
def Address.try_from (value : List Char) : Except AddressFault Address :=
  match split_once value with
  | some (pfx, payload) => do
      let pfx ← (Prefix.try_from pfx).mapError .error
      Address.decode_payload pfx payload
  | none => .error (.error .MissingPrefix)

end KashAddress
