import Kash.UtxoDiff
import Kash.Hashing
import Kash.Lib.MultisetHash

/-! # The UTXO commitment (`kash_muhash::MuHash`, `muhash.rs`)

    A `MuHash` keeps a numerator and a denominator in the multiplicative group of
    `U3072` modulo its prime: adding an element multiplies the numerator by it,
    removing one multiplies the denominator, and `finalize` hashes the numerator
    over the denominator. Here the group is any commutative group `G` and
    `data_to_element` — the `MuHashElementHash` of the bytes stretched by ChaCha20
    into a `U3072` — is a parameter; `value` is the quotient `finalize` commits to.

    `MuHashExtensions` adds the UTXOs a transaction creates and removes the ones it
    spends, each as the element of its `write_utxo` encoding. The commitment of a
    UTXO set is the multiset hash of those encodings (`utxo_set_hash`). -/

namespace KashMuHash

open KashTx KashHashing KashUtxoDiff

/-- `MuHash`. -/
structure MuHash (G : Type) where
  numerator : G
  denominator : G

variable {G : Type} [CommGroup G] (data_to_element : Bytes → G)

/-- `MuHash::new`. -/
def MuHash.new : MuHash G := ⟨1, 1⟩

namespace MuHash

/-- `add_element` (and `add_element_builder` once finalized). -/
def add_element (h : MuHash G) (data : Bytes) : MuHash G :=
  { h with numerator := h.numerator * data_to_element data }

/-- `remove_element` (and `remove_element_builder` once finalized). -/
def remove_element (h : MuHash G) (data : Bytes) : MuHash G :=
  { h with denominator := h.denominator * data_to_element data }

/-- What `finalize` commits to: the numerator over the denominator. -/
def value (h : MuHash G) : G := h.numerator / h.denominator

@[simp] theorem value_add_element (h : MuHash G) (data : Bytes) :
    (h.add_element data_to_element data).value = h.value * data_to_element data := by
  simp only [value, add_element]
  exact mul_div_right_comm _ _ _

@[simp] theorem value_remove_element (h : MuHash G) (data : Bytes) :
    (h.remove_element data_to_element data).value = h.value / data_to_element data := by
  simp only [value, remove_element]
  rw [div_div]

/-- `MuHashExtensions::add_utxo`. -/
def add_utxo (h : MuHash G) (outpoint : TransactionOutpoint) (entry : UtxoEntry) : MuHash G :=
  h.add_element data_to_element (write_utxo entry outpoint)

/-- `MuHashExtensions::add_transaction`: remove the entry of every input, then add
    an entry for every output, at the given DAA score. -/
def add_transaction (h : MuHash G) (tx : PopulatedTransaction) (block_daa_score : UInt64) :
    MuHash G :=
  let tx_id := tx.tx.id
  let h := tx.populated_inputs.foldl
    (fun h (input, entry) => h.remove_element data_to_element
      (write_utxo entry input.previous_outpoint)) h
  tx.tx.outputs.zipIdx.foldl
    (fun h (output, i) =>
      let outpoint : TransactionOutpoint := ⟨tx_id, UInt32.ofNat i⟩
      let entry : UtxoEntry := ⟨output.value, output.script_public_key, block_daa_score,
        tx.tx.is_coinbase, output.asset_type⟩
      h.add_utxo data_to_element outpoint entry) h

end MuHash

/-- The commitment of a UTXO set: the multiset hash of its `write_utxo` encodings. -/
def utxo_set_hash (utxo_set : UtxoCollection) : G :=
  MultisetHash.ofFinmap (fun outpoint entry => data_to_element (write_utxo entry outpoint))
    utxo_set.toFinmap

end KashMuHash
