import Mathlib

/-! # Prefix codes over streams

    A hash commits to a value only as far as the stream fed to it determines the
    value. A stream is built by writing field after field; each field's encoding
    is read back from the front of what remains. This file says when that works:
    `Recovers enc key P` states that an encoding `enc a` at the front of a stream
    fixes `key a` (what the encoding keeps of `a`) and the rest of the stream.

    * `Recovers.of_length` — fixed-width fields;
    * `Recovers.flatMap`, `Recovers.counted` — a list of fields, with its length
      known or written in front of it;
    * `recovers_leBytes` — little-endian numbers of a fixed width.

    Nothing here knows what the streams are for. -/

namespace PrefixCode

variable {α β κ : Type*}

/-- Writing `enc a` at the front of a stream fixes `key a` and the rest of the
    stream, for the values `P` admits. -/
def Recovers (enc : α → List β) (key : α → κ) (P : α → Prop) : Prop :=
  ∀ a b r r', P a → P b → enc a ++ r = enc b ++ r' → key a = key b ∧ r = r'

/-- A code whose encodings have one length recovers what equal encodings fix. -/
theorem Recovers.of_length {enc : α → List β} {key : α → κ} {P : α → Prop} (n : ℕ)
    (hlen : ∀ a, P a → (enc a).length = n)
    (hinj : ∀ a b, P a → P b → enc a = enc b → key a = key b) : Recovers enc key P := by
  intro a b r r' ha hb h
  obtain ⟨he, hr⟩ := List.append_inj h (by rw [hlen a ha, hlen b hb])
  exact ⟨hinj a b ha hb he, hr⟩

/-- Lists of one length, written element after element, recover the key of every
    element. -/
theorem Recovers.flatMap {enc : α → List β} {key : α → κ} {P : α → Prop}
    (h : Recovers enc key P) :
    ∀ (l₁ l₂ : List α) (r r' : List β), l₁.length = l₂.length →
      (∀ a ∈ l₁, P a) → (∀ a ∈ l₂, P a) →
      l₁.flatMap enc ++ r = l₂.flatMap enc ++ r' → l₁.map key = l₂.map key ∧ r = r' := by
  intro l₁
  induction l₁ with
  | nil =>
      intro l₂ r r' hlen _ _ he
      cases l₂ with
      | nil => exact ⟨rfl, he⟩
      | cons _ _ => cases hlen
  | cons a l₁ ih =>
      intro l₂ r r' hlen h₁ h₂ he
      cases l₂ with
      | nil => cases hlen
      | cons b l₂ =>
          -- the first element is read first; the rest of the list after it
          rw [List.flatMap_cons, List.flatMap_cons, List.append_assoc,
            List.append_assoc] at he
          obtain ⟨hkey, hrest⟩ := h a b _ _ (h₁ a List.mem_cons_self)
            (h₂ b List.mem_cons_self) he
          obtain ⟨hmap, hr⟩ := ih l₂ r r' (Nat.succ.inj hlen)
            (fun x hx => h₁ x (List.mem_cons_of_mem a hx))
            (fun x hx => h₂ x (List.mem_cons_of_mem b hx)) hrest
          rw [List.map_cons, List.map_cons, hkey, hmap]
          exact ⟨rfl, hr⟩

/-- **COUNTED LISTS**: a list written as its length and then its elements recovers
    the key of every element, when the length and the elements are recovered. -/
theorem Recovers.counted {len : ℕ → List β} {Q : ℕ → Prop} {enc : α → List β}
    {key : α → κ} {P : α → Prop} (hlen : Recovers len id Q) (h : Recovers enc key P) :
    Recovers (fun l : List α => len l.length ++ l.flatMap enc) (List.map key)
      (fun l => Q l.length ∧ ∀ a ∈ l, P a) := by
  intro l₁ l₂ r r' h₁ h₂ he
  rw [List.append_assoc, List.append_assoc] at he
  obtain ⟨hn, he'⟩ := hlen _ _ _ _ h₁.1 h₂.1 he
  exact h.flatMap l₁ l₂ r r' hn h₁.2 h₂.2 he'

/-- Single symbols recover themselves. -/
theorem recovers_singleton : Recovers (fun b : β => [b]) id (fun _ => True) :=
  Recovers.of_length 1 (fun _ _ => rfl) (fun _ _ _ _ h => List.singleton_injective h)

/-- A counted list of symbols recovers the list. -/
theorem Recovers.counted_symbols {len : ℕ → List β} {Q : ℕ → Prop}
    (hlen : Recovers len id Q) :
    Recovers (fun l : List β => len l.length ++ l) id (fun l => Q l.length) := by
  have h := hlen.counted recovers_singleton
  intro l₁ l₂ r r' h₁ h₂ he
  have hflat : ∀ l : List β, l.flatMap (fun b => [b]) = l := fun l => List.flatMap_singleton' l
  obtain ⟨hmap, hr⟩ := h l₁ l₂ r r' ⟨h₁, fun _ _ => trivial⟩ ⟨h₂, fun _ _ => trivial⟩
    (by simp only [hflat]; exact he)
  rw [List.map_id, List.map_id] at hmap
  exact ⟨hmap, hr⟩

/-- An encoding that reads only the key writes equal streams for lists of equal keys. -/
theorem flatMap_eq_of_map_eq (enc : α → List β) (key : α → κ)
    (henc : ∀ a b, key a = key b → enc a = enc b) :
    ∀ l₁ l₂ : List α, l₁.map key = l₂.map key → l₁.flatMap enc = l₂.flatMap enc := by
  intro l₁
  induction l₁ with
  | nil =>
      intro l₂ h
      rw [List.map_nil, eq_comm, List.map_eq_nil_iff] at h
      rw [h]
  | cons a l₁ ih =>
      intro l₂ h
      cases l₂ with
      | nil => cases h
      | cons b l₂ =>
          rw [List.map_cons, List.map_cons, List.cons.injEq] at h
          rw [List.flatMap_cons, List.flatMap_cons, henc a b h.1, ih l₂ h.2]

/-! ## Little-endian numbers -/

/-- The `w` little-endian bytes of `n` (its value modulo `256 ^ w`). -/
def leBytes : ℕ → ℕ → List UInt8
  | 0, _ => []
  | w + 1, n => UInt8.ofNat n :: leBytes w (n / 256)

@[simp] theorem leBytes_length (w n : ℕ) : (leBytes w n).length = w := by
  induction w generalizing n with
  | zero => rfl
  | succ w ih => simp [leBytes, ih]

/-- Numbers below `256 ^ w` have distinct `w`-byte encodings. -/
theorem leBytes_inj (w : ℕ) :
    ∀ n m, n < 256 ^ w → m < 256 ^ w → leBytes w n = leBytes w m → n = m := by
  induction w with
  | zero =>
      intro n m hn hm _
      rw [pow_zero] at hn hm
      omega
  | succ w ih =>
      intro n m hn hm he
      simp only [leBytes, List.cons.injEq] at he
      obtain ⟨hlow, hhigh⟩ := he
      -- the low byte gives the residue, the rest gives the quotient
      have hmod : n % 256 = m % 256 := by
        have := congrArg UInt8.toNat hlow
        simpa [UInt8.toNat_ofNat] using this
      have hdiv : n / 256 = m / 256 := by
        refine ih _ _ ?_ ?_ hhigh
        · rw [pow_succ] at hn
          omega
        · rw [pow_succ] at hm
          omega
      omega

/-- Little-endian numbers of a fixed width are a prefix code. -/
theorem recovers_leBytes (w : ℕ) : Recovers (leBytes w) id (· < 256 ^ w) :=
  Recovers.of_length w (fun n _ => leBytes_length w n)
    (fun n m hn hm h => leBytes_inj w n m hn hm h)

/-- Values read as numbers below `256 ^ w`, one number for each value, are a prefix
    code as `w` little-endian bytes. -/
theorem recovers_leBytes_of {f : α → ℕ} (w : ℕ) (hf : ∀ a b, f a = f b → a = b)
    (hlt : ∀ a, f a < 256 ^ w) : Recovers (fun a => leBytes w (f a)) id (fun _ => True) := by
  intro a b r r' _ _ h
  obtain ⟨hn, hr⟩ := recovers_leBytes w (f a) (f b) r r' (hlt a) (hlt b) h
  exact ⟨hf a b hn, hr⟩

end PrefixCode
