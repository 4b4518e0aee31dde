import Kash.Script.EngineProofs

/-! # The condition stack

    `OpIf` and `OpNotIf` push the state of a new branch, `OpElse` negates the top
    (a skipped branch stays skipped) and `OpEndIf` pops it; every other opcode
    leaves the stack alone (`Instr.run_keeps`). `is_executing` reads the top alone.
    It is right because every condition stack the engine builds has one shape
    (`cond_shape`): taken branches, then at most one branch not taken or skipped,
    then skipped branches only. On that shape the top is `True` exactly when every
    entry is (`is_executing_iff`). The shape holds after every opcode of a run
    (`script_run_shape`).

    What the entries mean is stated over the branches the script has opened and not
    closed (`Branch`): a branch is reached when every branch around it was taken as
    it opened, its value chooses an arm, and every `OpElse` since switches arms.
    `Branch.step` says what each conditional does to the open branches, and the
    engine's stack, after every prefix of a run, is the entries of the branches the
    prefix leaves open (`run_branches`); so an opcode runs exactly when every
    enclosing branch is taken (`is_executing_iff_taken`). -/

namespace KashScript

open ExceptLoops KashTx KashHashing codes

/-! ## The shape -/

/-- The condition stacks the engine builds, bottom first: taken branches, then at
    most one branch not taken or skipped, then skipped branches only. -/
def cond_shape : List OpCond → Bool
  | [] => true
  | .True :: rest => cond_shape rest
  | .False :: rest => rest.all (· == .Skip)
  | .Skip :: rest => rest.all (· == .Skip)

/-- **PUSH**: a branch pushed on a well-shaped stack keeps the shape when every
    branch below is taken, or when it is skipped. -/
theorem cond_shape_concat (cs : List OpCond) (c : OpCond) :
    cond_shape (cs ++ [c]) = true ↔
      cond_shape cs = true ∧ ((∀ d ∈ cs, d = .True) ∨ c = .Skip) := by
  induction cs with
  | nil => cases c <;> simp [cond_shape]
  | cons d cs ih =>
      cases d with
      | True => simp [cond_shape, ih]
      | False => simp [cond_shape, List.all_append]
      | Skip => simp [cond_shape, List.all_append]

theorem vec_pop_eq_some {α : Type} {s rest : List α} {x : α} (h : vec_pop s = some (x, rest)) :
    s = rest ++ [x] := by
  unfold vec_pop at h
  cases hl : s.getLast? with
  | none =>
      rw [hl] at h
      cases h
  | some y =>
      rw [hl] at h
      cases h
      obtain ⟨ys, rfl⟩ := List.getLast?_eq_some_iff.mp hl
      rw [List.dropLast_concat]

/-- **IS EXECUTING**: on a well-shaped stack, the top is a taken branch exactly when
    every branch is. -/
theorem is_executing_iff {vm : TxScriptEngine} (hs : cond_shape vm.cond_stack = true) :
    vm.is_executing = true ↔ ∀ c ∈ vm.cond_stack, c = .True := by
  unfold TxScriptEngine.is_executing
  rcases List.eq_nil_or_concat vm.cond_stack with hnil | ⟨rest, c, hcs⟩
  · rw [hnil]
    simp
  · rw [List.concat_eq_append] at hcs
    rw [hcs] at hs ⊢
    obtain ⟨-, hbelow⟩ := (cond_shape_concat rest c).mp hs
    rw [List.getLast?_concat]
    cases c with
    | True =>
        -- a taken top is not skipped, so every branch below is taken
        have hrest : ∀ d ∈ rest, d = .True := hbelow.resolve_right (by decide)
        constructor
        · intro _ d hd
          rcases List.mem_append.mp hd with hd | hd
          · exact hrest d hd
          · exact List.mem_singleton.mp hd
        · intro _
          rfl
    | False => simp
    | Skip => simp

/-! ## The three conditional opcodes -/

section Conditionals

variable {vm vm' : TxScriptEngine}

/-- A branch opened while not executing is skipped. -/
theorem op_if_cond_skip {negate : Bool} {cond : OpCond} {dstack : Stack}
    (h : op_if_cond negate vm = .ok (cond, dstack)) (hexec : vm.is_executing = false) :
    cond = .Skip := by
  unfold op_if_cond at h
  rw [if_neg (by rw [hexec]; decide)] at h
  cases h
  rfl

theorem op_if_shape (negate : Bool) (h : op_if negate vm = .ok vm')
    (hs : cond_shape vm.cond_stack = true) : cond_shape vm'.cond_stack = true := by
  obtain ⟨⟨cond, dstack⟩, hcond, h⟩ := (bind_eq_ok _ _ _).mp h
  cases h
  refine (cond_shape_concat _ _).mpr ⟨hs, ?_⟩
  -- executing: every branch below is taken; otherwise the new branch is skipped
  cases hexec : vm.is_executing with
  | true => exact Or.inl ((is_executing_iff hs).mp hexec)
  | false => exact Or.inr (op_if_cond_skip hcond hexec)

theorem op_else_shape (h : op_else vm = .ok vm') (hs : cond_shape vm.cond_stack = true) :
    cond_shape vm'.cond_stack = true := by
  unfold op_else at h
  split at h
  · rename_i cond rest hpop
    cases h
    rw [vec_pop_eq_some hpop] at hs
    obtain ⟨hrest, hbelow⟩ := (cond_shape_concat rest cond).mp hs
    -- a skipped branch stays skipped when negated
    refine (cond_shape_concat rest cond.negate).mpr ⟨hrest, hbelow.imp_right ?_⟩
    rintro rfl
    rfl
  · cases h

theorem op_end_if_shape (h : op_end_if vm = .ok vm') (hs : cond_shape vm.cond_stack = true) :
    cond_shape vm'.cond_stack = true := by
  unfold op_end_if at h
  split at h
  · rename_i cond rest hpop
    cases h
    rw [vec_pop_eq_some hpop] at hs
    exact ((cond_shape_concat rest cond).mp hs).1
  · cases h

end Conditionals

/-! ## Every other opcode leaves the condition stack alone -/

/-- On success, the engine in the result (`engine` of it) has the condition stack of
    `vm`. -/
def KeepsCond {α : Type} (engine : α → TxScriptEngine) (vm : TxScriptEngine)
    (x : Except EngineFault α) : Prop :=
  Holds (fun _ => False) (fun a => (engine a).cond_stack = vm.cond_stack) x

section Frame

variable {α β : Type} {engine : α → TxScriptEngine} {vm : TxScriptEngine}

theorem keepsCond_error (e : EngineFault) : KeepsCond engine vm (.error e) := not_false

/-- A first computation whose result does not matter. -/
theorem keepsCond_bind {x : Except EngineFault β} {f : β → Except EngineFault α}
    (hf : ∀ b, KeepsCond engine vm (f b)) : KeepsCond engine vm (x >>= f) := by
  cases x with
  | error e => exact not_false
  | ok b => exact hf b

/-- A first computation that returns an engine with the same condition stack, and a
    second that keeps that engine's. -/
theorem KeepsCond.bind {g : β → TxScriptEngine} {x : Except EngineFault β}
    {f : β → Except EngineFault α} (hx : KeepsCond g vm x)
    (hf : ∀ b, KeepsCond engine (g b) (f b)) : KeepsCond engine vm (x >>= f) :=
  Holds.bind hx fun b hb => Holds.mono (hf b) fun _ ha => ha.trans hb

theorem shape_of_keepsCond {x : Except EngineFault TxScriptEngine} {vm' : TxScriptEngine}
    (h : x = .ok vm') (hk : KeepsCond id vm x) (hs : cond_shape vm.cond_stack = true) :
    cond_shape vm'.cond_stack = true := by
  have hcond : vm'.cond_stack = vm.cond_stack := hk.of_ok h
  rw [hcond]
  exact hs

theorem with_dstack_keepsCond (f : Stack → Except EngineFault Stack) :
    KeepsCond id vm (with_dstack vm f) :=
  keepsCond_bind fun _ => rfl

theorem op_to_alt_stack_keepsCond : KeepsCond id vm (op_to_alt_stack vm) := by
  unfold op_to_alt_stack
  exact keepsCond_bind fun _ => keepsCond_bind fun _ => rfl

theorem op_from_alt_stack_keepsCond : KeepsCond id vm (op_from_alt_stack vm) := by
  unfold op_from_alt_stack
  split
  · rfl
  · exact keepsCond_error _

theorem check_signature_with_keepsCond {check_key : Bytes → Except TxScriptError Unit}
    {key_from_slice sig_from_slice : Bytes → Bool}
    {signature_hash : PopulatedTransaction → ℕ → SigHashType → SigHashReusedValues →
      Option (Hash × SigHashReusedValues)} {verify : Bytes → Hash → Bytes → Bool}
    (hash_type : SigHashType) (key sig : Bytes) :
    KeepsCond Prod.snd vm (check_signature_with check_key key_from_slice sig_from_slice
      signature_hash verify vm hash_type key sig) := by
  unfold check_signature_with
  split
  · split
    · exact keepsCond_error _
    · split
      · exact keepsCond_error _
      · split
        · exact keepsCond_error _
        · split
          · exact keepsCond_error _
          · split
            · exact keepsCond_error _
            · rfl
  · exact keepsCond_error _

theorem check_signature_keepsCond (c : Crypto) (ecdsa : Bool) (hash_type : SigHashType)
    (key sig : Bytes) : KeepsCond Prod.snd vm (check_signature c ecdsa vm hash_type key sig) := by
  unfold check_signature
  split
  · exact check_signature_with_keepsCond hash_type key sig
  · exact check_signature_with_keepsCond hash_type key sig

theorem op_check_sig_keepsCond (c : Crypto) (ecdsa : Bool) :
    KeepsCond id vm (op_check_sig c ecdsa vm) := by
  unfold op_check_sig
  refine keepsCond_bind fun ⟨items, dstack⟩ => keepsCond_bind fun ⟨sig, key⟩ => ?_
  dsimp only
  split
  · split
    · exact keepsCond_error _
    · exact (check_signature_keepsCond c ecdsa _ key _).bind fun _ => rfl
  · rfl

/-- The inner loop of the multisig check: each signature check keeps the condition
    stack of the engine it is given. -/
theorem check_keys_keepsCond (c : Crypto) (ecdsa : Bool) (hash_type : SigHashType)
    (signature : Bytes) (num_sigs sig_idx : ℕ) :
    ∀ (pub_keys : List Bytes) (vm : TxScriptEngine),
      KeepsCond Prod.snd vm (check_keys c ecdsa hash_type signature num_sigs sig_idx pub_keys vm) := by
  intro pub_keys
  induction pub_keys with
  | nil =>
      intro vm
      rw [check_keys]
      refine keepsCond_bind fun remaining => ?_
      split
      · rfl
      · exact keepsCond_error _
  | cons pub_key rest ih =>
      intro vm
      rw [check_keys]
      refine keepsCond_bind fun remaining => ?_
      split
      · rfl
      · refine (check_signature_keepsCond c ecdsa hash_type pub_key signature).bind ?_
        rintro ⟨valid, vm'⟩
        dsimp only
        split
        · rfl
        · exact ih vm'

theorem check_signatures_keepsCond (c : Crypto) (ecdsa : Bool) (num_sigs : ℕ) :
    ∀ (signatures : List Bytes) (sig_idx : ℕ) (pub_keys : List Bytes) (vm : TxScriptEngine),
      KeepsCond Prod.snd vm (check_signatures c ecdsa num_sigs sig_idx signatures pub_keys vm) := by
  intro signatures
  induction signatures with
  | nil =>
      intro sig_idx pub_keys vm
      rfl
  | cons signature signatures ih =>
      intro sig_idx pub_keys vm
      rw [check_signatures]
      split
      · rfl
      · split
        · exact keepsCond_error _
        · refine (check_keys_keepsCond c ecdsa _ _ num_sigs sig_idx pub_keys vm).bind ?_
          rintro ⟨outcome, vm'⟩
          dsimp only
          split
          · rfl
          · exact ih (sig_idx + 1) _ vm'

theorem op_check_multisig_keepsCond (c : Crypto) (ecdsa : Bool) :
    KeepsCond id vm (op_check_multisig_schnorr_or_ecdsa c ecdsa vm) := by
  unfold op_check_multisig_schnorr_or_ecdsa
  refine keepsCond_bind fun ⟨items, d⟩ => keepsCond_bind fun num_keys => ?_
  dsimp only
  split
  · exact keepsCond_error _
  split
  · exact keepsCond_error _
  refine keepsCond_bind fun num_ops => ?_
  split
  · exact keepsCond_error _
  split
  · exact keepsCond_error _
  refine keepsCond_bind fun ⟨d, pub_keys⟩ => keepsCond_bind fun ⟨items, d⟩ =>
    keepsCond_bind fun num_sigs => ?_
  dsimp only
  split
  · exact keepsCond_error _
  split
  · exact keepsCond_error _
  split
  · exact keepsCond_error _
  refine keepsCond_bind fun ⟨d, signatures⟩ => ?_
  refine (check_signatures_keepsCond c ecdsa _ _ 0 pub_keys _).bind ?_
  rintro ⟨failed, vm'⟩
  dsimp only
  split
  · exact keepsCond_error _
  · rfl

theorem op_check_lock_time_verify_keepsCond : KeepsCond id vm (op_check_lock_time_verify vm) := by
  unfold op_check_lock_time_verify
  split
  · refine keepsCond_bind fun ⟨stack_lock_time, dstack⟩ => ?_
    dsimp only
    split
    · exact keepsCond_error _
    split
    · exact keepsCond_error _
    split
    · exact keepsCond_error _
    · rfl
  · exact keepsCond_error _

theorem op_check_sequence_verify_keepsCond :
    KeepsCond id vm (op_check_sequence_verify vm) := by
  unfold op_check_sequence_verify
  split
  · refine keepsCond_bind fun ⟨stack_sequence, dstack⟩ => ?_
    dsimp only
    split
    · rfl
    split
    · exact keepsCond_error _
    split
    · exact keepsCond_error _
    · rfl
  · exact keepsCond_error _

end Frame

/-! ## Every opcode keeps the shape -/

section Steps

variable {vm vm' : TxScriptEngine}

/-- The instructions that move the condition stack: the conditionals `execute_opcode`
    runs in a branch not taken, but for the two reserved ones. -/
def Instr.is_branching : Instr → Bool
  | .OpIf | .OpNotIf | .OpElse | .OpEndIf => true
  | _ => false

/-- Only the bytes `is_conditional` lets through in a branch not taken decode to an
    instruction that moves the condition stack. -/
theorem decode_is_branching : ∀ v : UInt8, (decode v).is_branching = true → 0x63 ≤ v ∧ v ≤ 0x68 := by
  decide +kernel

/-- **ONE INSTRUCTION**: every instruction but the four conditionals leaves the
    condition stack as it is. -/
theorem Instr.run_keeps (c : Crypto) (op : Opcode) (i : Instr) (hi : i.is_branching = false)
    (h : i.run c op vm = .ok vm') : vm'.cond_stack = vm.cond_stack := by
  cases i <;> dsimp only [Instr.run] at h
  case OpIf | OpNotIf | OpElse | OpEndIf => cases hi
  case reserved | disabled | invalid | OpReturn => cases h
  case OpNop =>
    cases h
    rfl
  case OpToAltStack => exact op_to_alt_stack_keepsCond.of_ok h
  case OpFromAltStack => exact op_from_alt_stack_keepsCond.of_ok h
  case check_sig ecdsa => exact (op_check_sig_keepsCond c ecdsa).of_ok h
  case OpCheckSigVerify =>
    exact ((op_check_sig_keepsCond c false).bind fun _ => with_dstack_keepsCond _).of_ok h
  case check_multisig ecdsa => exact (op_check_multisig_keepsCond c ecdsa).of_ok h
  case OpCheckMultiSigVerify =>
    exact ((op_check_multisig_keepsCond c false).bind fun _ => with_dstack_keepsCond _).of_ok h
  case OpCheckLockTimeVerify => exact op_check_lock_time_verify_keepsCond.of_ok h
  case OpCheckSequenceVerify => exact op_check_sequence_verify_keepsCond.of_ok h
  -- the rest run a body on the data stack alone
  all_goals exact (with_dstack_keepsCond _).of_ok h

/-- The three conditional opcodes keep the shape, and every other instruction
    leaves the condition stack as it is. -/
theorem Instr.run_shape (c : Crypto) (op : Opcode) (hs : cond_shape vm.cond_stack = true)
    (i : Instr) (h : i.run c op vm = .ok vm') : cond_shape vm'.cond_stack = true := by
  cases i
  case OpIf => exact op_if_shape false h hs
  case OpNotIf => exact op_if_shape true h hs
  case OpElse => exact op_else_shape h hs
  case OpEndIf => exact op_end_if_shape h hs
  all_goals
    rw [Instr.run_keeps c op _ rfl h]
    exact hs

theorem count_opcode_keepsCond (opcode : Opcode) : KeepsCond id vm (count_opcode vm opcode) := by
  unfold count_opcode
  split
  · refine keepsCond_bind fun num_ops => ?_
    split
    · exact keepsCond_error _
    · rfl
  · split
    · exact keepsCond_error _
    · rfl

theorem execute_opcode_shape (c : Crypto) (opcode : Opcode) (h : execute_opcode c vm opcode = .ok vm')
    (hs : cond_shape vm.cond_stack = true) : cond_shape vm'.cond_stack = true := by
  unfold execute_opcode at h
  obtain ⟨vm₁, hcount, h⟩ := (bind_eq_ok _ _ _).mp h
  have hs₁ := shape_of_keepsCond hcount (count_opcode_keepsCond opcode) hs
  split at h
  · split at h
    · split at h
      · cases h
      · exact Instr.run_shape c opcode hs₁ _ h
    · exact Instr.run_shape c opcode hs₁ _ h
  · cases h
    exact hs₁

/-- **STEP**: one iteration of `execute_script` keeps the shape. -/
theorem script_step_shape (c : Crypto) (verify_only_push : Bool)
    (opcode : Except TxScriptError Opcode) (h : script_step c verify_only_push vm opcode = .ok vm')
    (hs : cond_shape vm.cond_stack = true) : cond_shape vm'.cond_stack = true := by
  unfold script_step at h
  split at h
  · cases h
  split at h
  · cases h
  split at h
  · cases h
  split at h
  · cases h
  obtain ⟨vm₁, hexec, h⟩ := (bind_eq_ok _ _ _).mp h
  have hs₁ := execute_opcode_shape c _ hexec hs
  split at h
  · cases h
  · cases h
    exact hs₁

/-- **RUN**: every run of opcodes from a well-shaped condition stack ends on one. -/
theorem script_run_shape (c : Crypto) (verify_only_push : Bool)
    (opcodes : List (Except TxScriptError Opcode))
    (h : opcodes.foldlM (script_step c verify_only_push) vm = .ok vm')
    (hs : cond_shape vm.cond_stack = true) : cond_shape vm'.cond_stack = true :=
  foldlM_invariant (fun vm => cond_shape vm.cond_stack = true) (script_step c verify_only_push)
    (fun _ opcode _ hs h => script_step_shape c verify_only_push opcode h hs) opcodes vm vm' hs h

/-- The guard of `execute_opcode`, read on the engine after the opcode is counted: on
    a well-shaped stack, every enclosing branch is taken or the opcode is a
    conditional. -/
theorem execute_guard_iff {vm₁ : TxScriptEngine} (opcode : Opcode)
    (hs : cond_shape vm.cond_stack = true) (hcond : vm₁.cond_stack = vm.cond_stack) :
    (vm₁.is_executing || opcode.is_conditional) = true ↔
      (∀ e ∈ vm.cond_stack, e = .True) ∨ opcode.is_conditional = true := by
  rw [Bool.or_eq_true, is_executing_iff (hcond ▸ hs), hcond]

/-- Inside a branch not taken, a nested `OpIf` (or `OpNotIf`) is skipped, and its
    `OpElse` leaves it skipped. -/
theorem op_else_of_skipped_op_if {negate : Bool} {vm₁ vm₂ : TxScriptEngine}
    (hexec : vm.is_executing = false) (h₁ : op_if negate vm = .ok vm₁)
    (h₂ : op_else vm₁ = .ok vm₂) :
    vm₂.cond_stack = vm.cond_stack ++ [.Skip] ∧ vm₂.is_executing = false := by
  obtain ⟨⟨cond, dstack⟩, hcond, h₁⟩ := (bind_eq_ok _ _ _).mp h₁
  cases h₁
  rw [op_if_cond_skip hcond hexec] at h₂
  unfold op_else at h₂
  split at h₂
  · rename_i top rest hpop
    cases h₂
    -- the popped top is the skipped branch just pushed
    obtain ⟨hrest, htop⟩ := List.append_inj' (vec_pop_eq_some hpop).symm rfl
    rw [List.singleton_inj] at htop
    subst htop hrest
    refine ⟨rfl, ?_⟩
    unfold TxScriptEngine.is_executing
    rw [List.getLast?_concat]
    rfl
  · cases h₂

end Steps

/-! ## The branches a script opens -/

/-- An open `OpIf` or `OpNotIf`: whether it was reached with every branch around it
    taken, whether its value chose the first arm, and whether an odd number of
    `OpElse` has switched arms since. -/
structure Branch where
  reached : Bool
  first : Bool
  switched : Bool
  deriving DecidableEq, Repr

namespace Branch

/-- The branch runs the arm it is in: it was reached, and that arm is the one its
    value chose. -/
def taken (b : Branch) : Bool := b.reached && (b.first != b.switched)

/-- The condition-stack entry standing for a branch; one not reached is skipped. -/
def entry (b : Branch) : OpCond :=
  if b.reached then (if b.first != b.switched then .True else .False) else .Skip

/-- `OpElse`: the other arm. -/
def switch (b : Branch) : Branch := { b with switched := !b.switched }

/-- What an instruction does to the open branches, innermost last: `OpIf` and
    `OpNotIf` open one, reached when every open branch is taken, whose first arm
    the value `v` chooses (for `OpNotIf`, its negation); `OpElse` switches the
    innermost and `OpEndIf` closes it; no other instruction touches them. -/
def step (bs : List Branch) (v : Bool) : Instr → List Branch
  | .OpIf => bs ++ [⟨bs.all taken, v, false⟩]
  | .OpNotIf => bs ++ [⟨bs.all taken, !v, false⟩]
  | .OpElse =>
      match vec_pop bs with
      | some (b, rest) => rest ++ [b.switch]
      | none => bs
  | .OpEndIf =>
      match vec_pop bs with
      | some (_, rest) => rest
      | none => bs
  | _ => bs

theorem entry_eq_true_iff (b : Branch) : b.entry = .True ↔ b.taken = true := by
  obtain ⟨reached, first, switched⟩ := b
  cases reached <;> cases first <;> cases switched <;> decide

theorem entry_switch (b : Branch) : b.switch.entry = b.entry.negate := by
  obtain ⟨reached, first, switched⟩ := b
  cases reached <;> cases first <;> cases switched <;> rfl

theorem step_of_not_branching (bs : List Branch) (v : Bool) {i : Instr}
    (hi : i.is_branching = false) : step bs v i = bs := by
  cases i <;> first | rfl | cases hi

end Branch

/-- The value an `OpIf` reads: the top of the data stack is the single byte `1`. -/
def branch_value (vm : TxScriptEngine) : Bool := vm.dstack.getLast? == some [1]

theorem vec_pop_map {α β : Type} (f : α → β) (l : List α) :
    vec_pop (l.map f) = (vec_pop l).map fun p => (f p.1, p.2.map f) := by
  unfold vec_pop
  rw [List.getLast?_map, ← List.map_dropLast]
  cases l.getLast? <;> rfl

section Branches

variable {vm vm' : TxScriptEngine} {bs : List Branch}

/-- **EXECUTING**: on a well-shaped stack that stands for the branches `bs`, the
    engine executes exactly when every branch is taken. -/
theorem is_executing_iff_taken (hs : cond_shape vm.cond_stack = true)
    (hbs : vm.cond_stack = bs.map Branch.entry) :
    vm.is_executing = true ↔ ∀ b ∈ bs, b.taken = true := by
  rw [is_executing_iff hs, hbs, List.forall_mem_map]
  simp only [Branch.entry_eq_true_iff]

theorem all_taken_eq (hs : cond_shape vm.cond_stack = true)
    (hbs : vm.cond_stack = bs.map Branch.entry) : bs.all Branch.taken = vm.is_executing := by
  rw [Bool.eq_iff_iff, List.all_eq_true, is_executing_iff_taken hs hbs]

/-- The entry `OpIf` (on `OpNotIf`, negated) pushes is the branch it opens: reached
    when the engine executes, choosing its first arm by the top of the data stack. -/
theorem op_if_cond_entry {negate : Bool} {cond : OpCond} {dstack : Stack}
    (h : op_if_cond negate vm = .ok (cond, dstack)) :
    cond = Branch.entry ⟨vm.is_executing, if negate then !branch_value vm else branch_value vm,
      false⟩ := by
  unfold op_if_cond at h
  split at h
  case isFalse hexec =>
    cases h
    rw [Bool.not_eq_true] at hexec
    rw [hexec]
    rfl
  case isTrue hexec =>
    split at h
    · cases h
    · rename_i cond_buf rest hpop
      have htop : vm.dstack.getLast? = some cond_buf := by
        rw [vec_pop_eq_some hpop, List.getLast?_concat]
      split at h
      · cases h
      · rename_i hlen
        -- a popped boolean is empty or the single byte 1
        split at h
        · rename_i hlast
          cases h
          have hone : cond_buf = [1] := by
            obtain ⟨ys, rfl⟩ := List.getLast?_eq_some_iff.mp hlast
            have : ys = [] := by
              rw [List.length_append, List.length_singleton] at hlen
              exact List.eq_nil_of_length_eq_zero (by omega)
            rw [this]
            rfl
          rw [hexec, branch_value, htop, hone]
          cases negate <;> rfl
        · cases h
        · rename_i hlast
          cases h
          have hnil : cond_buf = [] := List.getLast?_eq_none_iff.mp hlast
          rw [hexec, branch_value, htop, hnil]
          cases negate <;> rfl

theorem op_if_branches (negate : Bool) (hs : cond_shape vm.cond_stack = true)
    (hbs : vm.cond_stack = bs.map Branch.entry) (h : op_if negate vm = .ok vm') :
    vm'.cond_stack = (Branch.step bs (branch_value vm) (if negate then .OpNotIf else .OpIf)).map
      Branch.entry := by
  obtain ⟨⟨cond, dstack⟩, hcond, h⟩ := (bind_eq_ok _ _ _).mp h
  cases h
  rw [op_if_cond_entry hcond, ← all_taken_eq hs hbs]
  cases negate <;> simp [Branch.step, hbs]

theorem op_else_branches (hbs : vm.cond_stack = bs.map Branch.entry)
    (h : op_else vm = .ok vm') :
    vm'.cond_stack = (Branch.step bs (branch_value vm) .OpElse).map Branch.entry := by
  unfold op_else at h
  rw [hbs, vec_pop_map] at h
  unfold Branch.step
  cases hpop : vec_pop bs with
  | none =>
      rw [hpop] at h
      cases h
  | some p =>
      rw [hpop] at h
      cases h
      simp [Branch.entry_switch]

theorem op_end_if_branches (hbs : vm.cond_stack = bs.map Branch.entry)
    (h : op_end_if vm = .ok vm') :
    vm'.cond_stack = (Branch.step bs (branch_value vm) .OpEndIf).map Branch.entry := by
  unfold op_end_if at h
  rw [hbs, vec_pop_map] at h
  unfold Branch.step
  cases hpop : vec_pop bs with
  | none =>
      rw [hpop] at h
      cases h
  | some p =>
      rw [hpop] at h
      cases h
      rfl

/-- **ONE INSTRUCTION, ON THE BRANCHES**: an instruction moves the condition stack
    as `Branch.step` moves the branches it stands for. -/
theorem Instr.run_branches (c : Crypto) (op : Opcode) (i : Instr)
    (hs : cond_shape vm.cond_stack = true) (hbs : vm.cond_stack = bs.map Branch.entry)
    (h : i.run c op vm = .ok vm') :
    vm'.cond_stack = (Branch.step bs (branch_value vm) i).map Branch.entry := by
  cases i
  case OpIf => exact op_if_branches false hs hbs h
  case OpNotIf => exact op_if_branches true hs hbs h
  case OpElse => exact op_else_branches hbs h
  case OpEndIf => exact op_end_if_branches hbs h
  all_goals
    rw [Instr.run_keeps c op _ rfl h, hbs]
    rfl

/-- Counting an opcode touches neither stack. -/
theorem count_opcode_stacks {vm₁ : TxScriptEngine} {opcode : Opcode}
    (h : count_opcode vm opcode = .ok vm₁) :
    vm₁.cond_stack = vm.cond_stack ∧ vm₁.dstack = vm.dstack := by
  unfold count_opcode at h
  split at h
  · obtain ⟨num_ops, -, h⟩ := (bind_eq_ok _ _ _).mp h
    split at h
    · cases h
    · cases h
      exact ⟨rfl, rfl⟩
  · split at h
    · cases h
    · cases h
      exact ⟨rfl, rfl⟩

theorem execute_opcode_branches (c : Crypto) (opcode : Opcode)
    (hs : cond_shape vm.cond_stack = true) (hbs : vm.cond_stack = bs.map Branch.entry)
    (h : execute_opcode c vm opcode = .ok vm') :
    vm'.cond_stack = (Branch.step bs (branch_value vm) (decode opcode.value)).map Branch.entry := by
  unfold execute_opcode at h
  obtain ⟨vm₁, hcount, h⟩ := (bind_eq_ok _ _ _).mp h
  obtain ⟨hcond, hdstack⟩ := count_opcode_stacks hcount
  have hs₁ : cond_shape vm₁.cond_stack = true := hcond ▸ hs
  have hbs₁ : vm₁.cond_stack = bs.map Branch.entry := hcond.trans hbs
  have hvalue : branch_value vm₁ = branch_value vm := by
    unfold branch_value
    rw [hdstack]
  split at h
  · rw [← hvalue]
    split at h
    · split at h
      · cases h
      · exact Instr.run_branches c opcode _ hs₁ hbs₁ h
    · exact Instr.run_branches c opcode _ hs₁ hbs₁ h
  · -- in a branch not taken only the conditionals run
    rename_i hguard
    cases h
    have hnc : opcode.is_conditional = false := by
      cases hc : opcode.is_conditional
      · rfl
      · rw [hc, Bool.or_true] at hguard
        exact absurd rfl hguard
    have hnb : (decode opcode.value).is_branching = false := by
      cases hb : (decode opcode.value).is_branching
      · rfl
      · obtain ⟨hlo, hhi⟩ := decode_is_branching opcode.value hb
        have : opcode.is_conditional = true := by
          unfold Opcode.is_conditional
          simp [hlo, hhi]
        rw [hnc] at this
        cases this
    rw [Branch.step_of_not_branching _ _ hnb]
    exact hbs₁

theorem script_step_branches (c : Crypto) (verify_only_push : Bool) (op : Opcode)
    (hs : cond_shape vm.cond_stack = true) (hbs : vm.cond_stack = bs.map Branch.entry)
    (h : script_step c verify_only_push vm (.ok op) = .ok vm') :
    vm'.cond_stack = (Branch.step bs (branch_value vm) (decode op.value)).map Branch.entry := by
  unfold script_step at h
  dsimp only at h
  split at h
  · cases h
  split at h
  · cases h
  split at h
  · cases h
  obtain ⟨vm₁, hexec, h⟩ := (bind_eq_ok _ _ _).mp h
  split at h
  · cases h
  · cases h
    exact execute_opcode_branches c op hs hbs hexec

end Branches

/-- The branches open after a run of the engine from `vm`, from the branches `bs`
    open at its start: each opcode moves them as `Branch.step` says, with the value
    on top of the data stack of the engine the run has reached; the run stops where
    the engine does. -/
def open_branches (c : Crypto) (verify_only_push : Bool) :
    List Branch → TxScriptEngine → List (Except TxScriptError Opcode) → List Branch
  | bs, _, [] => bs
  | bs, vm, opcode :: rest =>
      match opcode, script_step c verify_only_push vm opcode with
      | .ok op, .ok vm' =>
          open_branches c verify_only_push (Branch.step bs (branch_value vm) (decode op.value)) vm'
            rest
      | _, _ => bs

/-- **THE BRANCHES OF A RUN**: after every run from a well-shaped stack standing for
    the branches `bs`, the stack stands for the branches the run leaves open. -/
theorem run_branches (c : Crypto) (verify_only_push : Bool) :
    ∀ (opcodes : List (Except TxScriptError Opcode)) (vm vmk : TxScriptEngine) (bs : List Branch),
      cond_shape vm.cond_stack = true → vm.cond_stack = bs.map Branch.entry →
      opcodes.foldlM (script_step c verify_only_push) vm = .ok vmk →
      vmk.cond_stack = (open_branches c verify_only_push bs vm opcodes).map Branch.entry
  | [], vm, vmk, bs, _, hbs, h => by
      cases h
      exact hbs
  | opcode :: rest, vm, vmk, bs, hs, hbs, h => by
      obtain ⟨vm₁, h₁, hrest⟩ := (foldlM_cons_eq_ok _ _ _ _ _).mp h
      cases opcode with
      | error e => cases h₁
      | ok op =>
          have hbs₁ := script_step_branches c verify_only_push op hs hbs h₁
          have hs₁ := script_step_shape c verify_only_push _ h₁ hs
          simp only [open_branches, h₁]
          exact run_branches c verify_only_push rest vm₁ vmk _ hs₁ hbs₁ hrest

/-! ## The engine's conditionals -/

/-- **CONDITIONAL EXECUTION**: through every prefix of a script run from a well-shaped
    condition stack (as every run starts, from an empty one), the stack keeps its
    shape and `is_executing` holds exactly when every entry is `True`. The stack
    stands for the branches the prefix leaves open: `OpIf` and `OpNotIf` open one,
    reached when every open branch is taken and choosing its arm by the value they
    pop, `OpElse` switches the innermost and `OpEndIf` closes it; so the engine
    executes exactly when every enclosing branch is taken. An opcode that is not a
    conditional runs (after its minimal-push check) when every enclosing branch is
    taken and is only counted otherwise; an `OpIf` nested in a branch not taken is
    skipped and stays skipped through its `OpElse`; and a script that ends with an
    open branch fails with `ErrUnbalancedConditional`. -/
theorem cond_stack_shape_invariant (c : Crypto) :
    (∀ (vm : TxScriptEngine) (verify_only_push : Bool) (script : Bytes) (k : ℕ)
        (vmk : TxScriptEngine), cond_shape vm.cond_stack = true →
      ((parse_script script).take k).foldlM (script_step c verify_only_push) vm = .ok vmk →
      cond_shape vmk.cond_stack = true ∧
        (vmk.is_executing = true ↔ ∀ e ∈ vmk.cond_stack, e = .True)) ∧
    (∀ (vm : TxScriptEngine) (bs : List Branch) (verify_only_push : Bool) (script : Bytes) (k : ℕ)
        (vmk : TxScriptEngine), cond_shape vm.cond_stack = true → vm.cond_stack = bs.map Branch.entry →
      ((parse_script script).take k).foldlM (script_step c verify_only_push) vm = .ok vmk →
      vmk.cond_stack =
          (open_branches c verify_only_push bs vm ((parse_script script).take k)).map Branch.entry ∧
        (vmk.is_executing = true ↔
          ∀ b ∈ open_branches c verify_only_push bs vm ((parse_script script).take k),
            b.taken = true)) ∧
    (∀ (vm : TxScriptEngine) (opcode : Opcode) (vm₁ : TxScriptEngine),
      cond_shape vm.cond_stack = true → count_opcode vm opcode = .ok vm₁ →
      (((∀ e ∈ vm.cond_stack, e = .True) ∨ opcode.is_conditional = true) →
        execute_opcode c vm opcode =
          if 0 < opcode.value ∧ opcode.value ≤ 0x4e then
            match opcode.check_minimal_data_push with
            | .error e => err e
            | .ok () => opcode.execute c vm₁
          else opcode.execute c vm₁) ∧
      (¬ (∀ e ∈ vm.cond_stack, e = .True) → opcode.is_conditional = false →
        execute_opcode c vm opcode = .ok vm₁)) ∧
    (∀ (vm : TxScriptEngine) (negate : Bool) (vm₁ vm₂ : TxScriptEngine),
      vm.is_executing = false → op_if negate vm = .ok vm₁ → op_else vm₁ = .ok vm₂ →
      vm₂.cond_stack = vm.cond_stack ++ [.Skip] ∧ vm₂.is_executing = false) ∧
    (∀ (vm : TxScriptEngine) (script : Bytes) (verify_only_push : Bool) (vm' : TxScriptEngine),
      (parse_script script).foldlM (script_step c verify_only_push) vm = .ok vm' →
      vm'.cond_stack ≠ [] →
      execute_script c vm script verify_only_push = err .ErrUnbalancedConditional) := by
  refine ⟨?run, ?branches, ?guard, ?nested, ?unbalanced⟩
  case run =>
    intro vm verify_only_push script k vmk hs h
    have hsk := script_run_shape c verify_only_push _ h hs
    exact ⟨hsk, is_executing_iff hsk⟩
  case branches =>
    intro vm bs verify_only_push script k vmk hs hbs h
    have hsk := script_run_shape c verify_only_push _ h hs
    have hbsk := run_branches c verify_only_push _ vm vmk bs hs hbs h
    exact ⟨hbsk, is_executing_iff_taken hsk hbsk⟩
  case guard =>
    intro vm opcode vm₁ hs hcount
    have hcond : vm₁.cond_stack = vm.cond_stack :=
      (@count_opcode_keepsCond vm opcode).of_ok hcount
    have hguard := execute_guard_iff opcode hs hcond
    unfold execute_opcode
    rw [hcount]
    constructor
    · intro htaken
      exact if_pos (hguard.mpr htaken)
    · intro hnot hnc
      refine if_neg fun hg => ?_
      rcases hguard.mp hg with hall | hc
      · exact hnot hall
      · rw [hnc] at hc
        cases hc
  case nested =>
    intro vm negate vm₁ vm₂ hexec h₁ h₂
    exact op_else_of_skipped_op_if hexec h₁ h₂
  case unbalanced =>
    intro vm script verify_only_push vm' hrun hopen
    unfold execute_script
    rw [hrun]
    exact if_pos (by simpa using hopen)

/-- `OP_0 OP_IF OP_IF OP_ELSE OP_ENDIF OP_ENDIF`: a branch not taken holding a nested
    one. -/
def nested_skip : Bytes := [OpFalse, 0x63, 0x63, 0x67, 0x68, 0x68]

/-- The engine after `OP_0 OP_IF OP_IF OP_ELSE`. -/
def nested_skip_after_else : TxScriptEngine :=
  ⟨[], [], .StandAloneScripts [nested_skip], .new, [.False, .Skip], 3⟩

/-- After `OP_0 OP_IF OP_IF OP_ELSE` the outer branch, reached, has chosen its second
    arm; the inner one, not reached, has been switched and stays skipped. -/
theorem cond_stack_shape_invariant_nested_skip :
    ((parse_script nested_skip).take 4).foldlM (script_step inert_crypto false)
        (from_script nested_skip .new) = .ok nested_skip_after_else ∧
      open_branches inert_crypto false [] (from_script nested_skip .new)
          ((parse_script nested_skip).take 4) = [⟨true, false, false⟩, ⟨false, false, true⟩] ∧
      nested_skip_after_else.cond_stack =
        [(⟨true, false, false⟩ : Branch), ⟨false, false, true⟩].map Branch.entry ∧
      (nested_skip_after_else.is_executing = true ↔
        ∀ b ∈ [(⟨true, false, false⟩ : Branch), ⟨false, false, true⟩], b.taken = true) := by
  have hrun : ((parse_script nested_skip).take 4).foldlM (script_step inert_crypto false)
      (from_script nested_skip .new) = .ok nested_skip_after_else := rfl
  have hopen : open_branches inert_crypto false [] (from_script nested_skip .new)
      ((parse_script nested_skip).take 4) = [⟨true, false, false⟩, ⟨false, false, true⟩] := rfl
  have h := (cond_stack_shape_invariant inert_crypto).2.1 _ [] false nested_skip 4 _ rfl rfl hrun
  rw [hopen] at h
  exact ⟨hrun, hopen, h⟩

end KashScript
