import Kash.Address
import Kash.Lib.ExceptLoops

/-! # Decoding addresses

    `Address::try_from` is not total: it panics on a payload of fewer than
    eight characters (`address.len() - 8`), on a payload whose checksum is right
    but which decodes to no byte (`payload_u8[0]`), and on a payload of the
    wrong length behind a right checksum (`Address::new`'s assertion). Nor is it
    canonical: `conv5to8` drops the padding bits, so two texts that differ only
    there, each with its own right checksum, decode to the same address. -/

namespace KashAddress

/-- The text of the all-zero mainnet key address. -/
def zero_key_text : List Char :=
  "kash:qqqqqqqqqqqqqqqqqqqqqqqqqqqqqqqqqqqqqqqqqqqqqqqqqqqqq3lruktkz".toList

/-- The same digits with the padding bit of the last one set, and the checksum
    of those digits. -/
def zero_key_padded_text : List Char :=
  "kash:qqqqqqqqqqqqqqqqqqqqqqqqqqqqqqqqqqqqqqqqqqqqqqqqqqqqpzu6h0g9r".toList

/-- Four texts on which decoding is not a codec: `kash:` panics in the
    subtraction, `kash:y0w3d3ys` (the checksum of no digits) panics at
    `payload_u8[0]`, `kash:qpqs3ku7uku4` (version 0 and one byte) panics in
    `Address::new`, and the zero key's text with a padding bit set decodes to
    the zero key, whose text is another. -/
theorem try_from_panics_and_aliases :
    Address.try_from "kash:".toList = .error (.panics .subtract_with_overflow) ∧
    Address.try_from "kash:y0w3d3ys".toList = .error (.panics .index_out_of_bounds) ∧
    Address.try_from "kash:qpqs3ku7uku4".toList = .error (.panics .assertion_failed) ∧
    Address.try_from zero_key_padded_text = .ok ⟨.Mainnet, .PubKey, List.replicate 32 0⟩ ∧
    Address.to_string ⟨.Mainnet, .PubKey, List.replicate 32 0⟩ = zero_key_text ∧
    zero_key_padded_text ≠ zero_key_text := by
  refine ⟨?_, ?_, ?_, ?_, ?_, ?_⟩
  · decide +kernel
  · decide +kernel
  · decide +kernel
  · decide +kernel
  · decide +kernel
  · decide

end KashAddress
