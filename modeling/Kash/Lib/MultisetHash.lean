import Mathlib

/-! # Multiset hashes of finite maps

    A multiset hash sends every element to a commutative group and a finite
    collection to the product of its elements. It does not depend on the order the
    collection is listed in, and it follows insertions and deletions: inserting a
    fresh entry multiplies by its element, erasing a present entry divides by it.

    Nothing here knows what the maps hold or how elements are computed. -/

namespace MultisetHash

variable {G : Type*} [CommGroup G] {α β : Type*} [DecidableEq α]

/-- The multiset hash of a finite map: the product of the element of every entry. -/
def ofFinmap (e : α → β → G) (m : Finmap fun _ : α => β) : G :=
  (m.entries.map fun s => e s.1 s.2).prod

variable (e : α → β → G)

/-- Inserting a fresh entry multiplies by its element. -/
theorem ofFinmap_insert {m : Finmap fun _ : α => β} {k : α} (v : β) (h : k ∉ m) :
    ofFinmap e (m.insert k v) = e k v * ofFinmap e m := by
  rw [ofFinmap, ofFinmap, Finmap.entries_insert_of_notMem h, Multiset.map_cons,
    Multiset.prod_cons]

/-- A present entry erased and inserted again gives the map back. -/
theorem insert_erase_of_lookup {m : Finmap fun _ : α => β} {k : α} {v : β}
    (h : m.lookup k = some v) : (m.erase k).insert k v = m := by
  apply Finmap.ext_lookup
  intro x
  by_cases hx : x = k
  · subst hx
    rw [Finmap.lookup_insert, h]
  · rw [Finmap.lookup_insert_of_ne _ hx, Finmap.lookup_erase_ne hx]

/-- **ERASE**: erasing a present entry divides by its element. -/
theorem ofFinmap_erase {m : Finmap fun _ : α => β} {k : α} {v : β}
    (h : m.lookup k = some v) : ofFinmap e (m.erase k) = ofFinmap e m / e k v := by
  have hins := ofFinmap_insert e v (Finmap.notMem_erase_self (a := k) (s := m))
  rw [insert_erase_of_lookup h] at hins
  rw [hins, mul_div_cancel_left]

end MultisetHash
