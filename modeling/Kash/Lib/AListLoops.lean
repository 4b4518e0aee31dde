import Mathlib

/-! # Loops over finite maps, whatever order the entries come in

    Code over a hash map walks its entries in an order nobody promises, and most
    of its loops touch only the key they visit: copy the entry somewhere, drop
    the key somewhere else, or stop at the first entry that passes a test. This
    file says once what such loops compute, for every order of the entries of an
    `AList`:

    * `foldl_pointwise` — a fold whose step changes only the visited key computes,
      at each key, one step on the entry stored there (or nothing);
    * `foldl_keys` — the same for a fold over a list of distinct keys;
    * `findSome_isSome_iff` — an early-exit search fails exactly when no stored
      entry passes its test.

    Nothing here knows what the maps hold. -/

namespace AListLoops

variable {α β : Type*} [DecidableEq α]

/-- A finite map with values that do not depend on the key. -/
abbrev Map (α β : Type*) := AList (fun _ : α => β)

/-- The value stored at a key, typed without the dependent family of `AList`. -/
def Map.get (m : Map α β) (k : α) : Option β := m.lookup k

@[simp] theorem get_empty (k : α) : (∅ : Map α β).get k = none := rfl

/-- Inserting changes the one key it names. -/
@[simp] theorem get_insert (m : Map α β) (k k' : α) (v : β) :
    Map.get (m.insert k v) k' = if k' = k then some v else m.get k' := by
  by_cases h : k' = k
  · subst h
    rw [if_pos rfl]
    exact AList.lookup_insert m
  · rw [if_neg h]
    exact AList.lookup_insert_ne h

/-- A one-entry map holds its value at its key only. -/
@[simp] theorem get_singleton (k k' : α) (v : β) :
    Map.get (AList.singleton k v) k' = if k' = k then some v else none := by
  rw [← AList.insert_empty, get_insert, get_empty]

/-- Erasing changes the one key it names. -/
@[simp] theorem get_erase (m : Map α β) (k k' : α) :
    Map.get (m.erase k) k' = if k' = k then none else m.get k' := by
  by_cases h : k' = k
  · subst h
    rw [if_pos rfl]
    exact AList.lookup_erase k' m
  · rw [if_neg h]
    exact AList.lookup_erase_ne h

/-- Membership is a present value. -/
theorem mem_iff_get_isSome (m : Map α β) (k : α) : k ∈ m ↔ (m.get k).isSome = true :=
  AList.lookup_isSome.symm

/-- Entries in the list are what `get` returns. -/
theorem get_eq_some_iff (m : Map α β) (k : α) (v : β) :
    m.get k = some v ↔ (⟨k, v⟩ : Σ _ : α, β) ∈ m.entries :=
  AList.mem_lookup_iff

/-- The fold over an entry list with distinct keys, one key at a time. -/
theorem foldl_pointwise_list {γ δ : Type*} (get : γ → α → δ) (upd : α → β → δ → δ)
    (step : γ → (Σ _ : α, β) → γ)
    (hstep : ∀ acc x k, get (step acc x) k =
      if k = x.1 then upd x.1 x.2 (get acc k) else get acc k) :
    ∀ (l : List (Σ _ : α, β)), l.NodupKeys → ∀ (acc : γ) (k : α),
      get (l.foldl step acc) k =
        match l.dlookup k with
        | some v => upd k v (get acc k)
        | none => get acc k := by
  intro l
  induction l with
  | nil => intro _ acc k; rfl
  | cons x xs ih =>
      intro hnd acc k
      have hxs : xs.NodupKeys := (List.nodupKeys_cons.mp hnd).2
      have hx : x.1 ∉ xs.keys := List.notMem_keys_of_nodupKeys_cons hnd
      rw [List.foldl_cons, ih hxs (step acc x) k, hstep acc x k]
      by_cases hk : k = x.1
      · -- the visited key occurs nowhere later, so the rest of the fold leaves it
        subst hk
        have hnone : xs.dlookup x.1 = none := List.dlookup_eq_none.mpr hx
        obtain ⟨a, b⟩ := x
        rw [hnone, List.dlookup_cons_eq]
        simp
      · rw [if_neg hk, List.dlookup_cons_ne xs x hk]

/-- **POINTWISE FOLD**: a fold over the entries of a map whose step, seen through
    `get`, changes only the key it visits, computes at every key one step with the
    entry stored there — in whatever order the entries are listed. -/
theorem foldl_pointwise {γ δ : Type*} (get : γ → α → δ) (upd : α → β → δ → δ)
    (step : γ → (Σ _ : α, β) → γ)
    (hstep : ∀ acc x k, get (step acc x) k =
      if k = x.1 then upd x.1 x.2 (get acc k) else get acc k)
    (m : Map α β) (acc : γ) (k : α) :
    get (m.entries.foldl step acc) k =
      match m.get k with
      | some v => upd k v (get acc k)
      | none => get acc k :=
  foldl_pointwise_list get upd step hstep m.entries m.nodupKeys acc k

/-- **KEYED FOLD**: a fold over distinct keys whose step, seen through `get`,
    changes only the key it visits computes one step at every listed key and
    leaves every other key alone. -/
theorem foldl_keys {γ δ : Type*} (get : γ → α → δ) (upd : α → δ → δ) (step : γ → α → γ)
    (hstep : ∀ acc x k, get (step acc x) k = if k = x then upd x (get acc k) else get acc k) :
    ∀ (l : List α), l.Nodup → ∀ (acc : γ) (k : α),
      get (l.foldl step acc) k = if k ∈ l then upd k (get acc k) else get acc k := by
  intro l
  induction l with
  | nil =>
      intro _ acc k
      rw [if_neg List.not_mem_nil]
      rfl
  | cons x xs ih =>
      intro hnd acc k
      obtain ⟨hx, hxs⟩ := List.nodup_cons.mp hnd
      rw [List.foldl_cons, ih hxs, hstep]
      by_cases hk : k = x
      · -- the visited key occurs nowhere later
        subst hk
        rw [if_neg hx, if_pos rfl, if_pos List.mem_cons_self]
      · rw [if_neg hk]
        simp only [List.mem_cons, hk, false_or]

/-- An early-exit search over the entries finds something exactly when some
    stored entry passes its test. -/
theorem findSome_isSome_iff {γ : Type*} (m : Map α β) (f : (Σ _ : α, β) → Option γ) :
    (m.entries.findSome? f).isSome ↔ ∃ k v, m.get k = some v ∧ (f ⟨k, v⟩).isSome := by
  rw [List.findSome?_isSome_iff]
  constructor
  · rintro ⟨⟨k, v⟩, hmem, hf⟩
    exact ⟨k, v, (get_eq_some_iff m k v).mpr hmem, hf⟩
  · rintro ⟨k, v, hget, hf⟩
    exact ⟨⟨k, v⟩, (get_eq_some_iff m k v).mp hget, hf⟩

/-- An early-exit search that fails has found no stored entry passing its test. -/
theorem findSome_eq_none_iff {γ : Type*} (m : Map α β) (f : (Σ _ : α, β) → Option γ) :
    m.entries.findSome? f = none ↔ ∀ k v, m.get k = some v → f ⟨k, v⟩ = none := by
  rw [← Option.not_isSome_iff_eq_none, findSome_isSome_iff]
  constructor
  · intro h k v hget
    rw [← Option.not_isSome_iff_eq_none]
    exact fun hf => h ⟨k, v, hget, hf⟩
  · rintro h ⟨k, v, hget, hf⟩
    rw [h k v hget] at hf
    exact Bool.false_ne_true hf

end AListLoops
