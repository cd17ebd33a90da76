import XPChain.Script.Verify
import XPChain.Lib.Check
import Mathlib.Data.Nat.Bitwise

/-!
# Script flags are soft forks

Each `SCRIPT_VERIFY_*` flag of `script/interpreter.h` either adds a way for
`EvalScript` or `VerifyScript` to fail, or, for `P2SH` and `WITNESS`, runs
further programs after the checks every spend goes through.  A spend that
passes under a set of flags therefore passes under every subset that meets
`VerifyScript`'s asserts: that is what lets nodes that enforce fewer rules
follow a chain validated under more.

Flag sets are the source's bit masks; `F ⊆ F'` is `F &&& F' = F`.  The proof
follows the interpreter: for each instruction, the run under `F` passes with
the same state wherever the run under `F'` does (`Check.Looser`), then the
loop, `EvalScript` and the witness programs.  `VerifyScript` has two cases:
the two sets agree on `WITNESS` and `P2SH` and the runs take the same
branches, or the smaller set has no `WITNESS` and keeps only the checks that
come first in both runs.

## Main definitions

* `ValidFlags` — the flag sets `VerifyScript` accepts without a failed `assert`.

## Main statements

* `executeOp_looser`, `evalScript_looser` — fewer flags, same pass.
* `verifyWitnessProgram_looser`.
* `verifyScript_looser_of_eq`, `verifyScript_looser_of_not_witness` — the two
  cases of `VerifyScript`.
* `verifyScript_softFork` — a spend valid under `F'` is valid under every
  consistent `F ⊆ F'`.
-/

set_option autoImplicit false

namespace XPChain

open Check

theorem hasFlag_mono {F F' : ℕ} (hF : F &&& F' = F) {f : ℕ} (h : hasFlag F f = true) :
    hasFlag F' f = true := by
  simp only [hasFlag, bne_iff_ne, ne_eq] at h ⊢
  intro h0
  apply h
  rw [← hF, Nat.land_assoc, h0, Nat.and_zero]

theorem CScriptNum.ofVch_of_imp {vch : valtype} {r r' : Bool} {n : ℕ} {v : ℤ}
    (hr : r = true → r' = true) (h : CScriptNum.ofVch vch r' n = some v) :
    CScriptNum.ofVch vch r n = some v := by
  unfold CScriptNum.ofVch at h ⊢
  cases r <;> cases r' <;> simp_all

/-- `OP_CHECKLOCKTIMEVERIFY` leaves the state as it is when it passes. -/
theorem opCheckLockTimeVerify_eq_ok {env : EvalEnv} {st st' : EvalState}
    (h : opCheckLockTimeVerify env st = .ok st') : st' = st := by
  unfold opCheckLockTimeVerify at h
  split_ifs at h
  · exact (Except.ok.inj h).symm
  · generalize st.stack = stack at h
    cases stack with
    | nil => cases h
    | cons top tail =>
      dsimp only at h
      cases hn : scriptNum env top 5 with
      | error e => rw [hn] at h; cases h
      | ok n =>
        rw [hn] at h
        dsimp only [bind, Except.bind] at h
        split_ifs at h
        exact (Except.ok.inj h).symm

/-- `OP_CHECKSEQUENCEVERIFY` leaves the state as it is when it passes. -/
theorem opCheckSequenceVerify_eq_ok {env : EvalEnv} {st st' : EvalState}
    (h : opCheckSequenceVerify env st = .ok st') : st' = st := by
  unfold opCheckSequenceVerify at h
  split_ifs at h
  · exact (Except.ok.inj h).symm
  · generalize st.stack = stack at h
    cases stack with
    | nil => cases h
    | cons top tail =>
      dsimp only at h
      cases hn : scriptNum env top 5 with
      | error e => rw [hn] at h; cases h
      | ok n =>
        rw [hn] at h
        dsimp only [bind, Except.bind] at h
        split_ifs at h <;> exact (Except.ok.inj h).symm

/-! ## One instruction -/

section mono
variable {env : EvalEnv} {F' : ℕ} (hF : env.flags &&& F' = env.flags)
include hF

theorem scriptNum_looser (vch : valtype) (n : ℕ) :
    Looser (scriptNum env vch n) (scriptNum { env with flags := F' } vch n) := by
  intro v h
  unfold scriptNum at h ⊢
  cases h' : CScriptNum.ofVch vch (EvalEnv.fRequireMinimal { env with flags := F' }) n with
  | none => rw [h'] at h; cases h
  | some w =>
    rw [h'] at h
    simp only [EvalEnv.fRequireMinimal] at h' ⊢
    rw [CScriptNum.ofVch_of_imp (hasFlag_mono hF) h']
    exact h


theorem opCheckLockTimeVerify_looser (st : EvalState) :
    Looser (opCheckLockTimeVerify env st) (opCheckLockTimeVerify { env with flags := F' } st) := by
  by_cases h : hasFlag env.flags SCRIPT_VERIFY_CHECKLOCKTIMEVERIFY = true
  · have h' : hasFlag F' SCRIPT_VERIFY_CHECKLOCKTIMEVERIFY = true := hasFlag_mono hF h
    unfold opCheckLockTimeVerify
    simp only [h, h', Bool.not_true, Bool.false_eq_true, if_false]
    generalize st.stack = stack
    cases stack with
    | nil => exact Looser.refl _
    | cons top tail => exact Looser.bind (scriptNum_looser hF top 5) fun _ => Looser.refl _
  · -- without the flag the opcode is a NOP
    have hnop : opCheckLockTimeVerify env st = .ok st := by
      rw [opCheckLockTimeVerify, if_pos (by simpa using h)]
    rw [hnop]
    exact Looser.of_ok fun _ => opCheckLockTimeVerify_eq_ok

theorem opCheckSequenceVerify_looser (st : EvalState) :
    Looser (opCheckSequenceVerify env st) (opCheckSequenceVerify { env with flags := F' } st) := by
  by_cases h : hasFlag env.flags SCRIPT_VERIFY_CHECKSEQUENCEVERIFY = true
  · have h' : hasFlag F' SCRIPT_VERIFY_CHECKSEQUENCEVERIFY = true := hasFlag_mono hF h
    unfold opCheckSequenceVerify
    simp only [h, h', Bool.not_true, Bool.false_eq_true, if_false]
    generalize st.stack = stack
    cases stack with
    | nil => exact Looser.refl _
    | cons top tail => exact Looser.bind (scriptNum_looser hF top 5) fun _ => Looser.refl _
  · have hnop : opCheckSequenceVerify env st = .ok st := by
      rw [opCheckSequenceVerify, if_pos (by simpa using h)]
    rw [hnop]
    exact Looser.of_ok fun _ => opCheckSequenceVerify_eq_ok

theorem opIf_looser (st : EvalState) (fExec notIf : Bool) :
    Looser (opIf env st fExec notIf) (opIf { env with flags := F' } st fExec notIf) := by
  unfold opIf
  refine Looser.ite (Looser.refl _) ?_
  generalize st.stack = stack
  cases stack with
  | nil => exact Looser.refl _
  | cons vch rest =>
    refine Looser.guard ?_ (Looser.refl _)
    simp only [Bool.and_eq_true]
    exact fun ⟨⟨hv, hmin⟩, hlen⟩ => ⟨⟨hv, hasFlag_mono hF hmin⟩, hlen⟩

theorem opPickRoll_looser (st : EvalState) (roll : Bool) :
    Looser (opPickRoll env st roll) (opPickRoll { env with flags := F' } st roll) := by
  unfold opPickRoll
  generalize st.stack = stack
  rcases stack with _ | ⟨top, _ | ⟨vch, rest⟩⟩
  · exact Looser.refl _
  · exact Looser.refl _
  · exact Looser.bind (Looser.map _ (scriptNum_looser hF top 4)) fun _ => Looser.refl _

theorem opNumericUnary_looser (st : EvalState) (opcode : UInt8) :
    Looser (opNumericUnary env st opcode) (opNumericUnary { env with flags := F' } st opcode) := by
  unfold opNumericUnary
  generalize st.stack = stack
  cases stack with
  | nil => exact Looser.refl _
  | cons top rest => exact Looser.bind (scriptNum_looser hF top 4) fun _ => Looser.refl _

theorem opNumericBinary_looser (st : EvalState) (opcode : UInt8) :
    Looser (opNumericBinary env st opcode) (opNumericBinary { env with flags := F' } st opcode) := by
  unfold opNumericBinary
  generalize st.stack = stack
  rcases stack with _ | ⟨top, _ | ⟨below, rest⟩⟩
  · exact Looser.refl _
  · exact Looser.refl _
  · exact Looser.bind (scriptNum_looser hF below 4) fun _ =>
      Looser.bind (scriptNum_looser hF top 4) fun _ => Looser.refl _

theorem opWithin_looser (st : EvalState) :
    Looser (opWithin env st) (opWithin { env with flags := F' } st) := by
  unfold opWithin
  generalize st.stack = stack
  rcases stack with _ | ⟨x3, _ | ⟨x2, _ | ⟨x1, rest⟩⟩⟩
  · exact Looser.refl _
  · exact Looser.refl _
  · exact Looser.refl _
  · exact Looser.bind (scriptNum_looser hF x1 4) fun _ => Looser.bind (scriptNum_looser hF x2 4) fun _ =>
      Looser.bind (scriptNum_looser hF x3 4) fun _ => Looser.refl _

theorem checkSignatureEncoding_looser (crypto : Crypto) (sig : valtype) :
    Looser (checkSignatureEncoding crypto sig env.flags) (checkSignatureEncoding crypto sig F') := by
  unfold checkSignatureEncoding
  refine Looser.ite (Looser.refl _) (Looser.guard ?_ (Looser.guard ?_ (Looser.guard ?_ (Looser.refl _)))) <;>
    · simp only [Bool.and_eq_true]
      exact fun ⟨h₁, h₂⟩ => ⟨hasFlag_mono hF h₁, h₂⟩

theorem checkPubKeyEncoding_looser (pk : valtype) (sigversion : SigVersion) :
    Looser (checkPubKeyEncoding pk env.flags sigversion) (checkPubKeyEncoding pk F' sigversion) := by
  unfold checkPubKeyEncoding
  refine Looser.guard ?_ (Looser.guard ?_ (Looser.refl _))
  · simp only [Bool.and_eq_true]
    exact fun ⟨h₁, h₂⟩ => ⟨hasFlag_mono hF h₁, h₂⟩
  · simp only [Bool.and_eq_true]
    exact fun ⟨⟨h₁, h₂⟩, h₃⟩ => ⟨⟨hasFlag_mono hF h₁, h₂⟩, h₃⟩

theorem dropSignatures_looser (scriptCode : CScript) (sigs : List valtype) :
    Looser (dropSignatures env scriptCode sigs) (dropSignatures { env with flags := F' } scriptCode sigs) := by
  unfold dropSignatures
  refine Looser.ite (Looser.refl _) (Looser.foldlM (fun code sig => ?_) sigs scriptCode)
  generalize findAndDelete code (pushData sig) = r
  obtain ⟨code', found⟩ := r
  refine Looser.guard ?_ (Looser.refl _)
  simp only [Bool.and_eq_true]
  exact fun ⟨h₁, h₂⟩ => ⟨h₁, hasFlag_mono hF h₂⟩

theorem opCheckSig_looser (st : EvalState) (verify : Bool) :
    Looser (opCheckSig env st verify) (opCheckSig { env with flags := F' } st verify) := by
  unfold opCheckSig
  generalize st.stack = stack
  rcases stack with _ | ⟨pk, _ | ⟨sig, rest⟩⟩
  · exact Looser.refl _
  · exact Looser.refl _
  · refine Looser.bind (dropSignatures_looser hF _ _) fun code =>
      Looser.bind (checkSignatureEncoding_looser hF _ _) fun _ =>
      Looser.bind (checkPubKeyEncoding_looser hF _ _) fun _ => Looser.guard ?_ (Looser.refl _)
    simp only [Bool.and_eq_true]
    exact fun ⟨⟨h₁, h₂⟩, h₃⟩ => ⟨⟨h₁, hasFlag_mono hF h₂⟩, h₃⟩

theorem checkMultisigLoop_looser (scriptCode : CScript) (keys : List valtype) :
    ∀ sigs, Looser (checkMultisigLoop env scriptCode sigs keys)
      (checkMultisigLoop { env with flags := F' } scriptCode sigs keys) := by
  induction keys with
  | nil => intro sigs; cases sigs <;> exact Looser.refl _
  | cons pk keys ih =>
    intro sigs
    cases sigs with
    | nil => exact Looser.refl _
    | cons sig sigs =>
      rw [checkMultisigLoop, checkMultisigLoop]
      exact Looser.bind (checkSignatureEncoding_looser hF _ _) fun _ =>
        Looser.bind (checkPubKeyEncoding_looser hF _ _) fun _ => Looser.ite (Looser.refl _) (ih _)

theorem multisigCleanup_looser (fSuccess : Bool) :
    ∀ count ikey2 s, Looser (multisigCleanup env fSuccess count ikey2 s)
      (multisigCleanup { env with flags := F' } fSuccess count ikey2 s)
  | 0, _, _ => Looser.refl _
  | _ + 1, _, [] => Looser.refl _
  | count + 1, ikey2, top :: rest => by
    rw [multisigCleanup, multisigCleanup]
    refine Looser.guard ?_ (multisigCleanup_looser fSuccess count (ikey2 - 1) rest)
    simp only [Bool.and_eq_true]
    exact fun ⟨⟨⟨h₁, h₂⟩, h₃⟩, h₄⟩ => ⟨⟨⟨h₁, hasFlag_mono hF h₂⟩, h₃⟩, h₄⟩

theorem opCheckMultisig_looser (st : EvalState) (verify : Bool) :
    Looser (opCheckMultisig env st verify) (opCheckMultisig { env with flags := F' } st verify) := by
  unfold opCheckMultisig
  dsimp only
  cases st.stack.head? with
  | none => exact Looser.refl _
  | some top =>
    refine Looser.bind (Looser.map _ (scriptNum_looser hF top 4)) fun nKeysCount => ?_
    refine Looser.ite (Looser.of_error _ _) ?_
    refine Looser.ite (Looser.of_error _ _) ?_
    refine Looser.ite (Looser.of_error _ _) ?_
    refine Looser.bind (Looser.map _ (scriptNum_looser hF _ 4)) fun nSigsCount => ?_
    refine Looser.ite (Looser.of_error _ _) ?_
    refine Looser.ite (Looser.of_error _ _) ?_
    refine Looser.bind (dropSignatures_looser hF _ _) fun scriptCode => ?_
    refine Looser.bind (checkMultisigLoop_looser hF _ _ _) fun fSuccess => ?_
    refine Looser.bind (multisigCleanup_looser hF _ _ _ _) fun rest => ?_
    cases rest with
    | nil => exact Looser.refl _
    | cons dummy rest =>
      refine Looser.guard ?_ (Looser.refl _)
      simp only [Bool.and_eq_true]
      exact fun ⟨h₁, h₂⟩ => ⟨hasFlag_mono hF h₁, h₂⟩

theorem opcodeSwitch_looser (fExec : Bool) (opcode : UInt8) (pc : CScript) (st : EvalState) :
    Looser (opcodeSwitch env fExec opcode pc st) (opcodeSwitch { env with flags := F' } fExec opcode pc st) := by
  unfold opcodeSwitch
  -- one goal per arm of the switch; the conditions test the opcode only
  repeat' (with_reducible refine Looser.ite ?_ ?_)
  all_goals first
    | exact Looser.refl _
    | exact Looser.guard (hasFlag_mono hF) (Looser.refl _)
    | exact opCheckLockTimeVerify_looser hF st
    | exact opCheckSequenceVerify_looser hF st
    | exact opIf_looser hF st _ _
    | exact opPickRoll_looser hF st _
    | exact opNumericUnary_looser hF st _
    | exact opNumericBinary_looser hF st _
    | exact opWithin_looser hF st
    | exact opCheckSig_looser hF st _
    | exact opCheckMultisig_looser hF st _

theorem executeOp_looser (o : ScriptOp) (st : EvalState) :
    Looser (executeOp env o st) (executeOp { env with flags := F' } o st) := by
  unfold executeOp
  refine Looser.ite (Looser.of_error _ _) ?_
  refine Looser.ite (Looser.of_error _ _) ?_
  refine Looser.ite (Looser.of_error _ _) ?_
  refine Looser.guard_bind (fun ⟨h₁, h₂, h₃⟩ => ⟨h₁, h₂, hasFlag_mono hF h₃⟩) ?_
  -- the rest of the block, with the final stack size check, is copied into each branch
  refine Looser.ite (Looser.guard ?_ (Looser.bind (Looser.refl _) fun st' => ?_))
    (Looser.ite (Looser.bind (opcodeSwitch_looser hF _ _ _ _) fun st' => ?_)
      (Looser.bind (Looser.refl _) fun st' => ?_))
  · -- a push is checked for minimality under `MINIMALDATA`
    simp only [EvalEnv.fRequireMinimal, Bool.and_eq_true]
    exact fun ⟨h₁, h₂⟩ => ⟨hasFlag_mono hF h₁, h₂⟩
  all_goals exact Looser.ite (Looser.of_error _ _) (Looser.refl _)

theorem evalLoop_looser :
    ∀ fuel pc st, Looser (evalLoop env fuel pc st) (evalLoop { env with flags := F' } fuel pc st)
  | _, [], _ => by
    rw [evalLoop, evalLoop]
    exact Looser.refl _
  | 0, _ :: _, _ => Looser.refl _
  | fuel + 1, b :: pc, st => by
    rw [evalLoop, evalLoop]
    cases getScriptOp (b :: pc) with
    | none => exact Looser.refl _
    | some o => exact Looser.bind (executeOp_looser hF o st) fun st' => evalLoop_looser fuel o.rest st'

end mono

/-! ## `EvalScript`, the witness programs and `VerifyScript` -/

/-- `EvalScript` under a subset of the flags passes, with the same stack,
wherever it passes under the larger set. -/
theorem evalScript_looser {crypto : Crypto} {stack : List valtype} {script : CScript} {F F' : ℕ}
    {checker : SignatureChecker} {sigversion : SigVersion} (hF : F &&& F' = F) :
    Looser (evalScript crypto stack script F checker sigversion)
      (evalScript crypto stack script F' checker sigversion) := by
  unfold evalScript
  exact Looser.ite (Looser.refl _) (Looser.bind
    (@evalLoop_looser ⟨crypto, F, checker, sigversion⟩ F' hF _ _ _) fun _ => Looser.refl _)

theorem abort_bind_run_ne {α β : Type} (f : α → ExceptT ScriptError Option β) (b : β) :
    (abort >>= f).run ≠ some (.ok b) := fun h => by cases h

theorem looserT_liftEval {α : Type} {r r' : Except ScriptError α} (h : Looser r r') :
    LooserT (liftEval r) (liftEval r') := fun a ha => by
  simp only [liftEval, ExceptT.run_mk, Option.some.injEq] at ha ⊢
  exact h a ha

theorem execWitnessScript_looser {crypto : Crypto} {stack : List valtype} {scriptPubKey : CScript}
    {F F' : ℕ} {checker : SignatureChecker} (hF : F &&& F' = F) :
    Looser (execWitnessScript crypto stack scriptPubKey F checker)
      (execWitnessScript crypto stack scriptPubKey F' checker) := by
  unfold execWitnessScript
  exact Looser.ite (Looser.of_error _ _) (Looser.bind (evalScript_looser hF) fun _ => Looser.refl _)

theorem verifyWitnessProgram_looser {crypto : Crypto} {witness : CScriptWitness} {witversion : ℕ}
    {program : valtype} {F F' : ℕ} {checker : SignatureChecker} (hF : F &&& F' = F) :
    Looser (verifyWitnessProgram crypto witness witversion program F checker)
      (verifyWitnessProgram crypto witness witversion program F' checker) := by
  unfold verifyWitnessProgram
  refine Looser.ite (Looser.ite ?_ (Looser.ite (Looser.ite (Looser.refl _) (execWitnessScript_looser hF))
    (Looser.refl _))) (Looser.guard (hasFlag_mono hF) (Looser.refl _))
  cases witness.getLast? with
  | none => exact Looser.refl _
  | some scriptPubKey => exact Looser.ite (Looser.refl _) (execWitnessScript_looser hF)

theorem verifyScript_looser_of_eq {crypto : Crypto} {scriptSig scriptPubKey : CScript}
    {witness : CScriptWitness} {F F' : ℕ} {checker : SignatureChecker} (hF : F &&& F' = F)
    (hW : hasFlag F SCRIPT_VERIFY_WITNESS = hasFlag F' SCRIPT_VERIFY_WITNESS)
    (hP : hasFlag F SCRIPT_VERIFY_P2SH = hasFlag F' SCRIPT_VERIFY_P2SH) :
    LooserT (verifyScript crypto scriptSig scriptPubKey witness F checker)
      (verifyScript crypto scriptSig scriptPubKey witness F' checker) := by
  unfold verifyScript
  refine LooserT.guard ?_ (run_throw_bind_ne _ _) ?_
  · simp only [Bool.and_eq_true]
    exact fun ⟨h₁, h₂⟩ => ⟨hasFlag_mono hF h₁, h₂⟩
  refine LooserT.bind (looserT_liftEval (evalScript_looser hF)) fun stack => ?_
  refine LooserT.bind (looserT_liftEval (evalScript_looser hF)) fun stack' => ?_
  cases stack'.head? with
  | none => exact LooserT.refl _
  | some top =>
    refine LooserT.guard id (run_throw_bind_ne _ _) ?_
    -- the bare witness program
    refine LooserT.ite_iff (by rw [hW]) ?_ ?_
    on_goal 1 =>
      rcases isWitnessProgram scriptPubKey with _ | ⟨witversion, program⟩
      on_goal 2 =>
        refine LooserT.guard id (run_throw_bind_ne _ _) ?_
        refine LooserT.bind (looserT_liftEval (verifyWitnessProgram_looser hF)) fun _ => ?_
    -- the pay-to-script-hash block, copied into each branch
    all_goals
      refine LooserT.ite_iff (by rw [hP]) ?_ ?_
      on_goal 1 =>
        refine LooserT.guard id (run_throw_bind_ne _ _) ?_
        rcases stack.head? with _ | pubKey2
        · exact LooserT.of_run_ne (abort_bind_run_ne _)
        refine LooserT.bind (looserT_liftEval (evalScript_looser hF)) fun stack2 => ?_
        rcases stack2.head? with _ | top2
        · exact LooserT.throw_bind _ _ _
        refine LooserT.guard id (run_throw_bind_ne _ _) ?_
        refine LooserT.ite_iff (by rw [hW]) ?_ ?_
        on_goal 1 =>
          rcases isWitnessProgram pubKey2 with _ | ⟨witversion, program⟩
          on_goal 2 =>
            refine LooserT.guard id (run_throw_bind_ne _ _) ?_
            refine LooserT.bind (looserT_liftEval (verifyWitnessProgram_looser hF)) fun _ => ?_
    -- the clean-stack check, copied into each branch
    all_goals
      refine LooserT.ite_imp (hasFlag_mono hF) ?_ ?_ ?_
      on_goal 1 =>
        refine LooserT.ite_iff (by rw [hP]) (LooserT.of_run_ne (abort_bind_run_ne _)) ?_
        refine LooserT.ite_iff (by rw [hW]) (LooserT.of_run_ne (abort_bind_run_ne _)) ?_
        refine LooserT.guard id (run_throw_bind_ne _ _) ?_
      on_goal 2 =>
        refine LooserT.ite_right (LooserT.of_run_ne (abort_bind_run_ne _)) ?_
        refine LooserT.ite_right (LooserT.of_run_ne (abort_bind_run_ne _)) ?_
        refine LooserT.ite_right (LooserT.throw_bind _ _ _) ?_
    -- the unexpected-witness check
    all_goals
      refine LooserT.ite_iff (by rw [hW]) ?_ (LooserT.refl _)
      exact LooserT.ite_iff (by rw [hP]) (LooserT.of_run_ne (abort_bind_run_ne _)) (LooserT.refl _)
theorem verifyScript_looser_of_not_witness {crypto : Crypto} {scriptSig scriptPubKey : CScript}
    {witness : CScriptWitness} {F F' : ℕ} {checker : SignatureChecker} (hF : F &&& F' = F)
    (hW : hasFlag F SCRIPT_VERIFY_WITNESS = false) (hC : hasFlag F SCRIPT_VERIFY_CLEANSTACK = false) :
    LooserT (verifyScript crypto scriptSig scriptPubKey witness F checker)
      (verifyScript crypto scriptSig scriptPubKey witness F' checker) := by
  unfold verifyScript
  -- without the two flags, what follows the legacy checks is `pure ()`
  simp -zeta only [hW, hC, Bool.false_eq_true, if_false]
  refine LooserT.guard ?_ (run_throw_bind_ne _ _) ?_
  · simp only [Bool.and_eq_true]
    exact fun ⟨h₁, h₂⟩ => ⟨hasFlag_mono hF h₁, h₂⟩
  refine LooserT.bind (looserT_liftEval (evalScript_looser hF)) fun stack => ?_
  refine LooserT.bind (looserT_liftEval (evalScript_looser hF)) fun stack' => ?_
  cases stack'.head? with
  | none => exact LooserT.refl _
  | some top =>
    refine LooserT.guard id (run_throw_bind_ne _ _) ?_
    -- the stricter run may go through a bare witness program first
    refine LooserT.ite_right ?_ ?_
    on_goal 1 =>
      rcases isWitnessProgram scriptPubKey with _ | ⟨witversion, program⟩
      on_goal 2 => refine LooserT.ite_right (LooserT.throw_bind _ _ _) (LooserT.bind_right fun _ => ?_)
    all_goals
      refine LooserT.ite_imp ?_ ?_ (LooserT.pure_unit _) (LooserT.pure_unit _)
      · simp only [Bool.and_eq_true]
        exact fun ⟨h₁, h₂⟩ => ⟨hasFlag_mono hF h₁, h₂⟩
      refine LooserT.guard id (run_throw_bind_ne _ _) ?_
      rcases stack.head? with _ | pubKey2
      · exact LooserT.of_run_ne (abort_bind_run_ne _)
      refine LooserT.bind (looserT_liftEval (evalScript_looser hF)) fun stack2 => ?_
      rcases stack2.head? with _ | top2
      · exact LooserT.throw_bind _ _ _
      exact LooserT.guard id (run_throw_bind_ne _ _) (LooserT.pure_unit _)
/-- The flag sets `VerifyScript` runs on without a failed `assert`: `CLEANSTACK`
only with `P2SH` and `WITNESS`, `WITNESS` only with `P2SH`. -/
structure ValidFlags (flags : ℕ) : Prop where
  cleanstack : hasFlag flags SCRIPT_VERIFY_CLEANSTACK = true →
    hasFlag flags SCRIPT_VERIFY_P2SH = true ∧ hasFlag flags SCRIPT_VERIFY_WITNESS = true
  witness : hasFlag flags SCRIPT_VERIFY_WITNESS = true → hasFlag flags SCRIPT_VERIFY_P2SH = true

/-- The script flags are soft forks: a spend `VerifyScript` accepts under a
set of flags it accepts under every consistent subset. -/
theorem verifyScript_softFork {crypto : Crypto} {scriptSig scriptPubKey : CScript}
    {witness : CScriptWitness} {F F' : ℕ} {checker : SignatureChecker} (hF : F &&& F' = F)
    (hvalid : ValidFlags F)
    (h : (verifyScript crypto scriptSig scriptPubKey witness F' checker).run = some (.ok ())) :
    (verifyScript crypto scriptSig scriptPubKey witness F checker).run = some (.ok ()) := by
  by_cases hW : hasFlag F SCRIPT_VERIFY_WITNESS = true
  · -- both sets have `WITNESS` and `P2SH`: the two runs take the same branches
    have hP := hvalid.witness hW
    exact verifyScript_looser_of_eq hF (by rw [hW, hasFlag_mono hF hW]) (by rw [hP, hasFlag_mono hF hP]) () h
  · -- without `WITNESS` there is no `CLEANSTACK`: only the legacy checks remain
    have hC : hasFlag F SCRIPT_VERIFY_CLEANSTACK = false :=
      Bool.eq_false_iff.mpr fun hc => hW (hvalid.cleanstack hc).2
    exact verifyScript_looser_of_not_witness hF (Bool.eq_false_iff.mpr hW) hC () h

theorem verifyScript_softFork_payToScriptHash :
    let redeemScript : CScript := [OP_1]
    let scriptPubKey : CScript := [OP_HASH160] ++ pushData (Crypto.truncating.hash160 redeemScript) ++ [OP_EQUAL]
    let F' := SCRIPT_VERIFY_P2SH ||| SCRIPT_VERIFY_WITNESS ||| SCRIPT_VERIFY_CLEANSTACK
    SCRIPT_VERIFY_P2SH &&& F' = SCRIPT_VERIFY_P2SH ∧ ValidFlags SCRIPT_VERIFY_P2SH ∧
      (verifyScript Crypto.truncating (pushData redeemScript) scriptPubKey [] F' BaseSignatureChecker).run =
        some (.ok ()) ∧
      (verifyScript Crypto.truncating (pushData redeemScript) scriptPubKey [] SCRIPT_VERIFY_P2SH
        BaseSignatureChecker).run = some (.ok ()) := by
  intro redeemScript scriptPubKey F'
  have hvalid : ValidFlags SCRIPT_VERIFY_P2SH := ⟨by decide, by decide⟩
  have hF' : (verifyScript Crypto.truncating (pushData redeemScript) scriptPubKey [] F'
      BaseSignatureChecker).run = some (.ok ()) := by decide +kernel
  exact ⟨by decide, hvalid, hF', verifyScript_softFork (by decide) hvalid hF'⟩

end XPChain
