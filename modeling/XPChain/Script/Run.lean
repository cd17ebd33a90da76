import XPChain.Script.Interpreter

/-!
# Runs of the interpreter

Spec lemmas for `executeOp`, `evalLoop` and `evalScript`, so that a proof
about a script of a known shape steps through it one instruction at a time
and never unfolds the opcode switch: the loop on a read instruction, an
executed data push, and the operators of the pay-to-script-hash template.

## Main statements

* `evalLoop_step` — the loop on one instruction that reads.
* `executeOp_push` — an executed push puts its bytes on the stack.
* `evalLoop_pushData` — the same, read from a `CScript::operator<<` push.
* `evalScript_payToScriptHash` — `OP_HASH160 <h> OP_EQUAL` replaces the top
  of the stack by whether its `Hash160` is `h`.
-/

set_option autoImplicit false

namespace XPChain

/-! ## Binding interpreter results -/

@[simp] theorem except_ok_bind {ε α β : Type} (a : α) (f : α → Except ε β) :
    (Except.ok a >>= f) = f a := rfl

@[simp] theorem except_error_bind {ε α β : Type} (e : ε) (f : α → Except ε β) :
    (Except.error e >>= f) = Except.error e := rfl

/-! ## Opcode classes -/

theorem not_OP_16_lt_of_le_pushdata4 {c : UInt8} (h : c ≤ OP_PUSHDATA4) : ¬ OP_16 < c := by
  simp only [UInt8.le_iff_toNat_le, UInt8.lt_iff_toNat_lt] at *
  simp at *
  omega

theorem isDisabledOpcode_of_le {c : UInt8} (h : c ≤ OP_16) : isDisabledOpcode c = false := by
  have h' : c.toNat ≤ 0x60 := by simpa [UInt8.le_iff_toNat_le] using h
  simp only [isDisabledOpcode, Bool.or_eq_false_iff, beq_eq_false_iff_ne, ne_eq,
    ← UInt8.toNat_inj]
  simp
  omega

/-! ## The loop -/

@[simp] theorem evalLoop_nil (env : EvalEnv) (fuel : ℕ) (st : EvalState) :
    evalLoop env fuel [] st = .ok st := by
  cases fuel <;> rfl

/-- The loop on a script whose first instruction reads: execute it, then
continue on the rest with one unit of fuel less. -/
theorem evalLoop_step {env : EvalEnv} {fuel : ℕ} {pc : CScript} {st : EvalState}
    {o : ScriptOp} (hpc : pc ≠ []) (h : getScriptOp pc = some o) :
    evalLoop env (fuel + 1) pc st = executeOp env o st >>= evalLoop env fuel o.rest := by
  obtain ⟨c, s, rfl⟩ := List.exists_cons_of_ne_nil hpc
  simp only [evalLoop, h]

/-- An executed push within the limits puts its bytes on the stack and
changes nothing else. -/
theorem executeOp_push {env : EvalEnv} {o : ScriptOp} {st : EvalState}
    (hop : o.opcode ≤ OP_PUSHDATA4) (hexec : st.vfExec.contains false = false)
    (hdata : o.data.length ≤ MAX_SCRIPT_ELEMENT_SIZE)
    (hmin : env.fRequireMinimal = true → checkMinimalPush o.data o.opcode = true)
    (hsize : st.stack.length + 1 + st.altstack.length ≤ MAX_STACK_SIZE) :
    executeOp env o st = .ok (st.withStack (o.data :: st.stack)) := by
  have h16 := not_OP_16_lt_of_le_pushdata4 hop
  have hdis := isDisabledOpcode_of_le (UInt8.not_lt.mp h16)
  have hsep : o.opcode ≠ OP_CODESEPARATOR := by
    rintro heq
    rw [heq] at hop
    exact absurd hop (by decide)
  have hd : ¬ MAX_SCRIPT_ELEMENT_SIZE < o.data.length := by omega
  have hx : false ∉ st.vfExec := by simpa using hexec
  have hsize' : ¬ MAX_STACK_SIZE < st.stack.length + 1 + st.altstack.length := by omega
  by_cases hm : env.fRequireMinimal = true
  · simp [executeOp, h16, hdis, hsep, hx, hop, hd, hm, hmin hm, EvalState.withStack, hsize']
  · simp [executeOp, h16, hdis, hsep, hx, hop, hd, hm, EvalState.withStack, hsize']

/-- A `CScript::operator<<` push, read and executed. -/
theorem evalLoop_pushData {env : EvalEnv} {fuel : ℕ} {b s : valtype} {st : EvalState}
    (hexec : st.vfExec.contains false = false) (hb : b.length ≤ MAX_SCRIPT_ELEMENT_SIZE)
    (hmin : env.fRequireMinimal = true → checkMinimalPush b (pushOpcode b) = true)
    (hsize : st.stack.length + 1 + st.altstack.length ≤ MAX_STACK_SIZE) :
    evalLoop env (fuel + 1) (pushData b ++ s) st =
      evalLoop env fuel s (st.withStack (b :: st.stack)) := by
  have hread := getScriptOp_pushData b s (by simp at hb; omega)
  have hne : pushData b ++ s ≠ [] := by
    simp [pushData, pushPrefix]
    split_ifs <;> simp
  rw [evalLoop_step hne hread,
    executeOp_push (pushOpcode_le_pushdata4 b) hexec hb hmin hsize]
  rfl

/-- A run of pushes within the limits leaves the pushed bytes on the stack,
the last one on top. -/
theorem evalLoop_pushAll (env : EvalEnv) {s : CScript} {bs : List valtype}
    (hbs : ∀ b ∈ bs, b.length ≤ MAX_SCRIPT_ELEMENT_SIZE ∧
      (env.fRequireMinimal = true → checkMinimalPush b (pushOpcode b) = true)) :
    ∀ (st : EvalState), st.vfExec.contains false = false →
      st.stack.length + bs.length + st.altstack.length ≤ MAX_STACK_SIZE → ∀ fuel,
      evalLoop env (fuel + bs.length) (pushAll bs ++ s) st =
        evalLoop env fuel s (st.withStack (bs.reverse ++ st.stack)) := by
  induction bs with
  | nil => intro st _ _ fuel; simp [EvalState.withStack]
  | cons b bs ih =>
    intro st hexec hsize fuel
    obtain ⟨hb, hmin⟩ := hbs b (by simp)
    have ih' := ih (fun b' hb' => hbs b' (by simp [hb'])) (st.withStack (b :: st.stack)) hexec
      (by simp at hsize ⊢; omega) fuel
    rw [List.length_cons, ← Nat.add_assoc, pushAll_cons, List.append_assoc,
      evalLoop_pushData hexec hb hmin (by simp at hsize ⊢; omega), ih']
    simp

/-- An executed operator (not a push) within the count limit: the switch on
a state with the count raised, then the stack size limit. -/
theorem executeOp_operator {env : EvalEnv} {o : ScriptOp} {st : EvalState}
    (hop : OP_16 < o.opcode) (hdata : o.data = []) (hexec : st.vfExec.contains false = false)
    (hcount : st.nOpCount + 1 ≤ MAX_OPS_PER_SCRIPT) (hdis : isDisabledOpcode o.opcode = false)
    (hsep : o.opcode ≠ OP_CODESEPARATOR) :
    executeOp env o st =
      opcodeSwitch env true o.opcode o.rest { st with nOpCount := st.nOpCount + 1 } >>=
        fun st' => if MAX_STACK_SIZE < st'.stack.length + st'.altstack.length then
          .error .STACK_SIZE else .ok st' := by
  have hpush : ¬ o.opcode ≤ OP_PUSHDATA4 := fun h => not_OP_16_lt_of_le_pushdata4 h hop
  have hcount' : ¬ MAX_OPS_PER_SCRIPT < st.nOpCount + 1 := by omega
  have hx : false ∉ st.vfExec := by simpa using hexec
  simp only [executeOp, hdata, List.length_nil, hop, if_true, hdis, hsep, hpush, hx,
    hcount', List.contains_eq_mem, decide_false, Bool.not_false]
  simp

/-- The loop on an executed operator: read by itself, counted, switched on,
and checked against the stack size limit. -/
theorem evalLoop_operator {env : EvalEnv} {fuel : ℕ} {c : UInt8} {s : CScript} {st : EvalState}
    (hc : OP_16 < c) (hexec : st.vfExec.contains false = false)
    (hcount : st.nOpCount + 1 ≤ MAX_OPS_PER_SCRIPT) (hdis : isDisabledOpcode c = false)
    (hsep : c ≠ OP_CODESEPARATOR) :
    evalLoop env (fuel + 1) (c :: s) st =
      (opcodeSwitch env true c s { st with nOpCount := st.nOpCount + 1 } >>=
        fun st' => if MAX_STACK_SIZE < st'.stack.length + st'.altstack.length then
          .error .STACK_SIZE else .ok st') >>= evalLoop env fuel s := by
  have h4 : OP_PUSHDATA4 < c := by
    simp only [UInt8.lt_iff_toNat_lt] at hc ⊢
    simp at hc ⊢
    omega
  rw [evalLoop_step (List.cons_ne_nil _ _) (getScriptOp_cons_of_gt_pushdata4 h4 _),
    executeOp_operator (o := ⟨c, [], s⟩) hc rfl hexec hcount hdis hsep]

/-- `EvalScript` on a script within the size limit: the loop from the initial
state, then the check that every conditional was closed. -/
theorem evalScript_eq {crypto : Crypto} {stack : List valtype} {script : CScript} {flags : ℕ}
    {checker : SignatureChecker} {sv : SigVersion} (h : script.length ≤ MAX_SCRIPT_SIZE) :
    evalScript crypto stack script flags checker sv =
      evalLoop ⟨crypto, flags, checker, sv⟩ script.length script ⟨stack, [], [], 0, script⟩ >>=
        fun st => if !st.vfExec.isEmpty then .error .UNBALANCED_CONDITIONAL else .ok st.stack := by
  simp only [evalScript, if_neg (Nat.not_lt.mpr h)]

/-! ## Pushes and the pay-to-script-hash template -/

/-- A `CScript::operator<<` push of anything but a single byte is minimal. -/
theorem checkMinimalPush_pushOpcode {b : valtype} (h1 : b.length ≠ 1) (h2 : b.length ≤ 520) :
    checkMinimalPush b (pushOpcode b) = true := by
  cases b with
  | nil => decide
  | cons x xs =>
    simp only [List.length_cons, ne_eq, Nat.add_eq_right] at h1 h2
    unfold checkMinimalPush pushOpcode
    simp only [List.isEmpty_cons, List.length_cons, Nat.add_eq_right, h1, false_and, if_false,
      Bool.false_eq_true]
    split_ifs <;> simp_all [UInt8.toNat_ofNat'] <;> omega

theorem opcodeSwitch_hash160 (env : EvalEnv) (pc : CScript) (st : EvalState) :
    opcodeSwitch env true OP_HASH160 pc st = opHash env st OP_HASH160 := rfl

theorem opcodeSwitch_equal (env : EvalEnv) (pc : CScript) (st : EvalState) :
    opcodeSwitch env true OP_EQUAL pc st = opEqual st false := rfl

theorem opHash_hash160 {env : EvalEnv} {st : EvalState} (v : valtype) (rest : List valtype)
    (hst : st.stack = v :: rest) :
    opHash env st OP_HASH160 = .ok (st.withStack (env.crypto.hash160 v :: rest)) := by
  simp [opHash, hst]

/-- `OP_HASH160 <h> OP_EQUAL`, the script of a pay-to-script-hash output,
replaces the top of the stack by whether its `Hash160` is `h`. -/
theorem evalScript_payToScriptHash (crypto : Crypto) (v h : valtype) (rest : List valtype)
    (flags : ℕ) (checker : SignatureChecker) (sv : SigVersion) (hh : h.length = 20)
    (hsize : rest.length + 2 ≤ MAX_STACK_SIZE) :
    evalScript crypto (v :: rest) ([OP_HASH160] ++ pushData h ++ [OP_EQUAL]) flags checker sv =
      .ok (vchBool (decide (crypto.hash160 v = h)) :: rest) := by
  have hlen : ([OP_HASH160] ++ pushData h ++ [OP_EQUAL]).length = 20 + 3 := by
    simp [pushData, pushPrefix, hh]
  -- `MAX_STACK_SIZE` is a `simp` constant: state the bounds as `simp` leaves them
  have hsize : rest.length + 2 ≤ 1000 := hsize
  have hsz1 : ¬ 1000 < rest.length + 1 := by omega
  rw [evalScript_eq (by rw [hlen]; decide), hlen, List.singleton_append, List.cons_append]
  -- `OP_HASH160` replaces the top by its hash
  rw [evalLoop_operator (by decide) rfl (by simp) (by decide) (by decide)]
  simp only [opcodeSwitch_hash160, opHash_hash160 v rest, except_ok_bind,
    EvalState.stack_withStack, EvalState.altstack_withStack, List.length_cons, List.length_nil,
    Nat.add_zero, MAX_STACK_SIZE, hsz1, if_false]
  -- the push of `h`, then `OP_EQUAL` compares it with the hash
  rw [evalLoop_pushData rfl (by simp [hh]) (fun _ => checkMinimalPush_pushOpcode (by simp [hh])
    (by simp [hh])) (by simp; omega)]
  rw [evalLoop_operator (by decide) rfl (by simp) (by decide) (by decide)]
  simp [opcodeSwitch_equal, opEqual, hsz1, EvalState.withStack]

/-- `EvalScript` on a script of pushes within the limits. -/
theorem evalScript_pushAll (crypto : Crypto) (stack : List valtype) (bs : List valtype)
    (flags : ℕ) (checker : SignatureChecker) (sv : SigVersion)
    (hbs : ∀ b ∈ bs, b.length ≤ MAX_SCRIPT_ELEMENT_SIZE ∧
      (hasFlag flags SCRIPT_VERIFY_MINIMALDATA = true →
        checkMinimalPush b (pushOpcode b) = true))
    (hsize : stack.length + bs.length ≤ MAX_STACK_SIZE)
    (hlen : (pushAll bs).length ≤ MAX_SCRIPT_SIZE) :
    evalScript crypto stack (pushAll bs) flags checker sv = .ok (bs.reverse ++ stack) := by
  obtain ⟨k, hk⟩ : ∃ k, (pushAll bs).length = k + bs.length :=
    ⟨(pushAll bs).length - bs.length, by have := length_le_length_pushAll bs; omega⟩
  have hrun := evalLoop_pushAll ⟨crypto, flags, checker, sv⟩ (s := []) hbs
    ⟨stack, [], [], 0, pushAll bs⟩ rfl (by simpa using hsize) k
  rw [List.append_nil] at hrun
  rw [evalScript_eq hlen, hk, hrun]
  simp [EvalState.withStack]

end XPChain
