import Kash.TxData
import Kash.Lib.AListLoops
import Mathlib

/-! # Block template selection (`mining/src/block_template`)

    `TransactionsSelector` picks transactions for a block template at random,
    each with a weight `p` (its value cubed). `CandidateList` lays the weights
    end to end: candidate `i` owns the range `[start, end]`, and a draw `r` in
    `[0, total_p)` picks the candidate whose range holds it (`find`, a binary
    search). A picked candidate is marked for deletion rather than removed;
    `used_count` and `used_p` count the marked candidates and their weight, and
    the list is rebuilt without them (`rebalanced`) once they hold 95% of the
    weight.

    A picked transaction that would exceed the block mass stops the selection.
    One in a subnetwork other than the native and built-in ones that would
    exceed its gas limit marks itself and every later candidate of its
    subnetwork, counting each in `used_count` whether or not it was already
    marked.

    The `f64` weights are numbers of an ordered field `P` here, computed
    exactly (a zero mass, which `f64` divides into infinity, gives weight zero
    here); `rng.gen::<f64>()` is a sequence of draws in `[0, 1)` given as an
    argument. `sort_by` and `sort` are stable, as insertion sort is, so the three
    give one order. The `while` loops of `select_transactions` and `find` have no
    bound in the source; here they run at most `fuel` iterations and report
    `out_of_fuel` beyond. Indexing out of bounds, unsigned subtraction below zero,
    fee overflow and the assertions and `expect`s are the faults they stop at.
    The `Stopwatch`, the trace messages and `is_successful` are left out. -/

namespace KashSelector

open KashTx AListLoops

/-- Where selection stops short. -/
inductive SelectorFault
  /-- Indexing a `Vec` out of its bounds, or `get_mut(..).unwrap()` on none. -/
  | index_out_of_bounds
  /-- An unsigned subtraction below zero (`usize` or `u64`). -/
  | subtract_with_overflow
  /-- `total_fees += ...` past `u64::MAX`. -/
  | add_with_overflow
  /-- `assert_eq!(self.transactions.len(), self.selectable_txs.len())`. -/
  | lengths_differ
  /-- `expect("only previously selected txs can be rejected (and only once)")`. -/
  | not_selected
  /-- `expect("previously selected txs have an entry")`. -/
  | no_gas_entry
  /-- A loop of the model ran out of its iteration bound. -/
  | out_of_fuel
  deriving DecidableEq, Repr

/-- `v[i]`. -/
def vec_index {α : Type} (v : List α) (i : ℕ) : Except SelectorFault α :=
  match v[i]? with
  | some a => .ok a
  | none => .error .index_out_of_bounds

/-- `u64::checked_add`. -/
def checked_add (a b : UInt64) : Option UInt64 :=
  if a.toNat + b.toNat < 2 ^ 64 then some (a + b) else none

/-- `a -= b` on `u64`, which panics below zero. -/
def sub_u64 (a b : UInt64) : Except SelectorFault UInt64 :=
  if b ≤ a then .ok (a - b) else .error .subtract_with_overflow

/-- `CandidateTransaction`, with the fields selection reads. -/
structure CandidateTransaction where
  tx : Transaction
  calculated_fee : UInt64
  calculated_mass : UInt64
  deriving DecidableEq

/-- `Policy`. -/
structure Policy where
  max_block_mass : UInt64
  deriving DecidableEq

section

variable {P : Type} [Field P] [LinearOrder P]

/-- `ALPHA`. -/
def ALPHA : ℤ := 3

/-- `REBALANCE_THRESHOLD`. -/
def REBALANCE_THRESHOLD : P := 95 / 100

/-- `SelectableTransaction`. -/
structure SelectableTransaction (P : Type) where
  gas_limit : UInt64
  p : P
  deriving DecidableEq

/-- `SelectableTransaction::new`: the value raised to `alpha` (`powi`). -/
def SelectableTransaction.new (tx_value : P) (gas_limit : UInt64) (alpha : ℤ) :
    SelectableTransaction P :=
  ⟨gas_limit, tx_value ^ alpha⟩

/-- `Candidate`; its `end` is `end_`. -/
structure Candidate (P : Type) where
  index : ℕ
  start : P
  end_ : P
  is_marked_for_deletion : Bool
  deriving DecidableEq

/-- `Candidate::new`. -/
def Candidate.new (index : ℕ) (start end_ : P) : Candidate P := ⟨index, start, end_, false⟩

/-- `CandidateList`. -/
structure CandidateList (P : Type) where
  candidates : List (Candidate P)
  total_p : P
  deriving DecidableEq

/-- One transaction of `CandidateList::new` and of `rebalanced`: a candidate
    whose range starts at the running total and is `current_p` long. -/
def push_candidate (acc : List (Candidate P) × P) (index : ℕ) (current_p : P) :
    List (Candidate P) × P :=
  (acc.1 ++ [Candidate.new index acc.2 (acc.2 + current_p)], acc.2 + current_p)

namespace CandidateList

/-- `CandidateList::new`. -/
def new (selectable_txs : List (SelectableTransaction P)) : CandidateList P :=
  let r := selectable_txs.zipIdx.foldl (fun acc tx => push_candidate acc tx.2 tx.1.p) ([], 0)
  ⟨r.1, r.2⟩

/-- `is_empty`. -/
def is_empty (self : CandidateList P) : Bool := self.candidates.isEmpty

/-- `rebalanced`: the unmarked candidates, laid end to end again. -/
def rebalanced (self : CandidateList P) (selectable_txs : List (SelectableTransaction P)) :
    Except SelectorFault (CandidateList P) := do
  let r ← (self.candidates.filter fun x => !x.is_marked_for_deletion).foldlM
    (fun acc x => do
      let tx ← vec_index selectable_txs x.index
      pure (push_candidate acc x.index tx.p)) ([], 0)
  pure ⟨r.1, r.2⟩

/-- The `loop` of `find` between `min` and `max`, for at most `fuel` iterations. -/
def find_loop (self : CandidateList P) (r : P) : ℕ → ℕ → ℕ → Except SelectorFault ℕ
  | 0, _, _ => .error .out_of_fuel
  | fuel + 1, min, max => do
      let i := (min + max) / 2
      let candidate ← vec_index self.candidates i
      if candidate.end_ < r then find_loop self r fuel (i + 1) max
      else if candidate.start > r then
        if i = 0 then .error .subtract_with_overflow
        else find_loop self r fuel min (i - 1)
      else pure i

/-- `find`: the candidate whose range holds `r`, searched with one iteration
    per candidate. -/
def find (self : CandidateList P) (r : P) : Except SelectorFault ℕ :=
  if self.candidates.length = 0 then .error .subtract_with_overflow
  else self.find_loop r self.candidates.length 0 (self.candidates.length - 1)

end CandidateList

/-- `TransactionsSelector`. -/
structure TransactionsSelector (P : Type) where
  policy : Policy
  transactions : List CandidateTransaction
  selectable_txs : List (SelectableTransaction P)
  selected_txs : List ℕ
  selected_txs_map : Option (Map TransactionId ℕ)
  candidate_list : CandidateList P
  overall_rejections : ℕ
  used_count : ℕ
  used_p : P
  total_mass : UInt64
  total_fees : UInt64
  gas_usage_map : Map SubnetworkId UInt64
  deriving DecidableEq

/-- `calc_tx_value`: fee per mass over the block mass, plus the gas over
    `u64::MAX` outside the native and built-in subnetworks. -/
def calc_tx_value (policy : Policy) (transaction : CandidateTransaction) : P :=
  let mass_limit : P := policy.max_block_mass.toNat
  let mass : P := transaction.calculated_mass.toNat
  let fee : P := transaction.calculated_fee.toNat
  if transaction.tx.subnetwork_id.is_builtin_or_native then fee / mass / mass_limit
  else
    let gas_limit : P := (2 ^ 64 - 1 : ℕ)
    fee / mass / mass_limit + (transaction.tx.gas.toNat : P) / gas_limit

/-- How one iteration of the selection loop ends: `continue` or `break`. -/
inductive Flow (α : Type)
  | next (a : α)
  | stop (a : α)

namespace TransactionsSelector

/-- `TransactionsSelector::new`: the candidates sorted by subnetwork (a stable
    sort), each weighted by its value. -/
def new (policy : Policy) (transactions : List CandidateTransaction) : TransactionsSelector P :=
  let transactions := transactions.insertionSort fun a b => ¬ b.tx.subnetwork_id < a.tx.subnetwork_id
  let selectable_txs := transactions.map fun x =>
    SelectableTransaction.new (calc_tx_value policy x) 0 ALPHA
  { policy, transactions, selectable_txs
    selected_txs := []
    selected_txs_map := none
    candidate_list := CandidateList.new selectable_txs
    overall_rejections := 0
    used_count := 0
    used_p := 0
    total_mass := 0
    total_fees := 0
    gas_usage_map := ∅ }

/-- `reset_selection`. -/
def reset_selection (self : TransactionsSelector P) : Except SelectorFault (TransactionsSelector P) :=
  if self.transactions.length = self.selectable_txs.length then
    .ok { self with selected_txs := [], selected_txs_map := none }
  else .error .lengths_differ

/-- Mark candidate `i`, which holds transaction `transaction_index`, and count it
    in `used_count` and `used_p`. -/
def mark_candidate (self : TransactionsSelector P) (i transaction_index : ℕ) :
    Except SelectorFault (TransactionsSelector P) := do
  let current ← vec_index self.candidate_list.candidates i
  let selectable ← vec_index self.selectable_txs transaction_index
  pure { self with
    candidate_list := { self.candidate_list with
      candidates := self.candidate_list.candidates.set i { current with is_marked_for_deletion := true } }
    used_count := self.used_count + 1
    used_p := self.used_p + selectable.p }

/-- The `for i in selected_candidate_idx..len` loop of the gas branch: mark every
    candidate up to the first of a later subnetwork, already marked or not. -/
def mark_subnetwork (subnetwork_id : SubnetworkId) :
    List ℕ → TransactionsSelector P → Except SelectorFault (TransactionsSelector P)
  | [], self => .ok self
  | i :: is, self => do
      let candidate ← vec_index self.candidate_list.candidates i
      let transaction ← vec_index self.transactions candidate.index
      if subnetwork_id < transaction.tx.subnetwork_id then pure self
      else mark_subnetwork subnetwork_id is (← self.mark_candidate i candidate.index)

/-- The gas check of a picked transaction outside the native and built-in
    subnetworks: within the limit it is charged; beyond it (or on overflow) the
    rest of its subnetwork is marked and the iteration continues. -/
def charge_gas (self : TransactionsSelector P) (selected_candidate_idx : ℕ)
    (selected_candidate : Candidate P) (selected_tx : CandidateTransaction) :
    Except SelectorFault (Flow (TransactionsSelector P)) := do
  let subnetwork_id := selected_tx.tx.subnetwork_id
  let gas_usage := (self.gas_usage_map.get subnetwork_id).getD 0
  let self := { self with gas_usage_map := self.gas_usage_map.insert subnetwork_id gas_usage }
  let within_limit : Except SelectorFault (Option UInt64) :=
    match checked_add gas_usage selected_tx.tx.gas with
    | none => .ok none
    | some next_gas_usage => do
        let selectable ← vec_index self.selectable_txs selected_candidate.index
        pure (if next_gas_usage > selectable.gas_limit then none else some next_gas_usage)
  match ← within_limit with
  | none =>
      let self ← mark_subnetwork subnetwork_id
        (List.range' selected_candidate_idx
          (self.candidate_list.candidates.length - selected_candidate_idx)) self
      pure (.next self)
  | some next_gas_usage =>
      pure (.stop { self with gas_usage_map := self.gas_usage_map.insert subnetwork_id next_gas_usage })

/-- The body of the selection loop after the rebalancing check: draw, and take
    the picked candidate unless it is marked, too heavy or over its gas limit. -/
def select_candidate (self : TransactionsSelector P) (draw : P) :
    Except SelectorFault (Flow (TransactionsSelector P)) := do
  let r := draw * self.candidate_list.total_p
  let selected_candidate_idx ← self.candidate_list.find r
  let selected_candidate ← vec_index self.candidate_list.candidates selected_candidate_idx
  if selected_candidate.is_marked_for_deletion then return .next self
  let selected_tx ← vec_index self.transactions selected_candidate.index
  match checked_add self.total_mass selected_tx.calculated_mass with
  | none => return .stop self
  | some next_total_mass =>
      if next_total_mass > self.policy.max_block_mass then return .stop self
      -- `charge_gas` answers `stop` to go on with the selection below
      let self ← if !selected_tx.tx.subnetwork_id.is_builtin_or_native then
          match ← self.charge_gas selected_candidate_idx selected_candidate selected_tx with
          | .next self => return .next self
          | .stop self => pure self
        else pure self
      let some total_fees := checked_add self.total_fees selected_tx.calculated_fee
        | throw .add_with_overflow
      let self := { self with
        selected_txs := self.selected_txs ++ [selected_candidate.index]
        total_mass := self.total_mass + selected_tx.calculated_mass
        total_fees }
      pure (.next (← self.mark_candidate selected_candidate_idx selected_candidate.index))

/-- One iteration of the selection loop, after its condition held. -/
def select_iteration (self : TransactionsSelector P) (draw : P) :
    Except SelectorFault (Flow (TransactionsSelector P)) := do
  if self.used_p ≥ REBALANCE_THRESHOLD * self.candidate_list.total_p then
    let candidate_list ← self.candidate_list.rebalanced self.selectable_txs
    let self := { self with candidate_list, used_count := 0, used_p := 0 }
    if self.candidate_list.is_empty then return .stop self
    self.select_candidate draw
  else self.select_candidate draw

/-- The `while self.candidate_list.candidates.len() - self.used_count > 0` loop,
    with the `n`-th draw in iteration `n`, for at most `fuel` iterations. -/
def select_loop (draws : ℕ → P) : ℕ → ℕ → TransactionsSelector P →
    Except SelectorFault (TransactionsSelector P)
  | 0, _, _ => .error .out_of_fuel
  | fuel + 1, n, self =>
      -- the condition subtracts in `usize`, which panics below zero
      if self.candidate_list.candidates.length < self.used_count then .error .subtract_with_overflow
      else if self.candidate_list.candidates.length - self.used_count = 0 then .ok self
      else do
        match ← self.select_iteration (draws n) with
        | .next self => select_loop draws fuel (n + 1) self
        | .stop self => pure self

/-- `get_transactions`. -/
def get_transactions (self : TransactionsSelector P) : Except SelectorFault (List Transaction) :=
  self.selected_txs.mapM fun x => do
    let transaction ← vec_index self.transactions x
    pure transaction.tx

/-- `select_transactions`, drawing from `draws`. -/
def select_transactions (self : TransactionsSelector P) (draws : ℕ → P) (fuel : ℕ) :
    Except SelectorFault (TransactionsSelector P × List Transaction) := do
  let self ← self.reset_selection
  let self ← select_loop draws fuel 0 self
  let self := { self with selected_txs := self.selected_txs.insertionSort (· ≤ ·) }
  let transactions ← self.get_transactions
  pure (self, transactions)

/-- The map `reject_selection` builds at its first call after a selection: each
    selected transaction's id to its index. -/
def build_selected_txs_map (self : TransactionsSelector P) :
    Except SelectorFault (Map TransactionId ℕ) :=
  self.selected_txs.foldlM (fun map x => do
    let transaction ← vec_index self.transactions x
    pure (map.insert transaction.tx.id x)) ∅

/-- `reject_selection`. -/
def reject_selection (self : TransactionsSelector P) (tx_id : TransactionId) :
    Except SelectorFault (TransactionsSelector P) := do
  let selected_txs_map ← match self.selected_txs_map with
    | some map => pure map
    | none => self.build_selected_txs_map
  let some tx_index := selected_txs_map.get tx_id | throw .not_selected
  let selected_txs_map := selected_txs_map.erase tx_id
  let tx ← vec_index self.transactions tx_index
  let total_mass ← sub_u64 self.total_mass tx.calculated_mass
  let total_fees ← sub_u64 self.total_fees tx.calculated_fee
  let gas_usage_map ← if !tx.tx.subnetwork_id.is_builtin_or_native then do
      let some gas_usage := self.gas_usage_map.get tx.tx.subnetwork_id | throw .no_gas_entry
      let gas_usage ← sub_u64 gas_usage tx.tx.gas
      pure (self.gas_usage_map.insert tx.tx.subnetwork_id gas_usage)
    else pure self.gas_usage_map
  pure { self with
    selected_txs_map := some selected_txs_map
    total_mass, total_fees, gas_usage_map
    overall_rejections := self.overall_rejections + 1 }

end TransactionsSelector

end

end KashSelector
