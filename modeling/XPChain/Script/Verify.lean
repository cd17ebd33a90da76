import XPChain.Script.Standard

/-!
# Verifying a spend

`VerifyScript` of `script/interpreter.cpp` runs the input's `scriptSig`, then
the output's `scriptPubKey` on the stack it leaves, and then the pay-to-script-
hash and segregated-witness programs the output commits to.

Its outcome has three kinds: `true`, `false` with an error code, and a failed
`assert` on an inconsistent flag set (`CLEANSTACK` without `P2SH` and
`WITNESS`, `WITNESS` without `P2SH`).  The model runs in
`ExceptT ScriptError Option`: an `Except.error` is a `false` return and
`none` is an abort.

## Main definitions

* `CScriptWitness` — the witness stack of an input.
* `verifyWitnessProgram` — `VerifyWitnessProgram`.
* `verifyScript` — `VerifyScript`.
-/

set_option autoImplicit false

namespace XPChain

/-- `CScriptWitness::stack`, in serialisation order: its last item is `back()`. -/
abbrev CScriptWitness := List valtype

/-- An interpreter result inside `VerifyScript`: errors are `false` returns. -/
def liftEval {α : Type} (r : Except ScriptError α) : ExceptT ScriptError Option α :=
  ExceptT.mk (some r)

/-- A failed `assert`. -/
def abort {α : Type} : ExceptT ScriptError Option α := ExceptT.lift none

@[simp] theorem liftEval_ok_bind {α β : Type} (a : α) (f : α → ExceptT ScriptError Option β) :
    liftEval (.ok a) >>= f = f a := rfl

@[simp] theorem liftEval_error_bind {α β : Type} (e : ScriptError)
    (f : α → ExceptT ScriptError Option β) : liftEval (.error e) >>= f = throw e := rfl

@[simp] theorem abort_bind {α β : Type} (f : α → ExceptT ScriptError Option β) :
    abort >>= f = abort := rfl

/-- The script `VerifyWitnessProgram` builds for a 20-byte program:
`OP_DUP OP_HASH160 <program> OP_EQUALVERIFY OP_CHECKSIG`. -/
def witnessKeyHashScript (program : valtype) : CScript :=
  [OP_DUP, OP_HASH160] ++ pushData program ++ [OP_EQUALVERIFY, OP_CHECKSIG]

/-- Run a version-0 witness script on its stack (given top first), with the
element size limit and the implicit clean-stack rule. -/
def execWitnessScript (crypto : Crypto) (stack : List valtype) (scriptPubKey : CScript)
    (flags : ℕ) (checker : SignatureChecker) : Except ScriptError Unit := do
  if stack.any (fun e => MAX_SCRIPT_ELEMENT_SIZE < e.length) then .error .PUSH_SIZE
  let stack ← evalScript crypto stack scriptPubKey flags checker .WITNESS_V0
  match stack with
  | [top] => if castToBool top then .ok () else .error .EVAL_FALSE
  | _ => .error .CLEANSTACK

/-- `VerifyWitnessProgram`. -/
def verifyWitnessProgram (crypto : Crypto) (witness : CScriptWitness) (witversion : ℕ)
    (program : valtype) (flags : ℕ) (checker : SignatureChecker) : Except ScriptError Unit :=
  if witversion = 0 then
    if program.length = 32 then
      match witness.getLast? with
      | none => .error .WITNESS_PROGRAM_WITNESS_EMPTY
      | some scriptPubKey =>
        if crypto.sha256 scriptPubKey ≠ program then .error .WITNESS_PROGRAM_MISMATCH
        else execWitnessScript crypto witness.dropLast.reverse scriptPubKey flags checker
    else if program.length = 20 then
      if witness.length ≠ 2 then .error .WITNESS_PROGRAM_MISMATCH
      else execWitnessScript crypto witness.reverse (witnessKeyHashScript program) flags checker
    else .error .WITNESS_PROGRAM_WRONG_LENGTH
  else if hasFlag flags SCRIPT_VERIFY_DISCOURAGE_UPGRADABLE_WITNESS_PROGRAM then
    .error .DISCOURAGE_UPGRADABLE_WITNESS_PROGRAM
  else .ok ()

/-- `VerifyScript(scriptSig, scriptPubKey, witness, flags, checker)`. -/
def verifyScript (crypto : Crypto) (scriptSig scriptPubKey : CScript) (witness : CScriptWitness)
    (flags : ℕ) (checker : SignatureChecker) : ExceptT ScriptError Option Unit := do
  if hasFlag flags SCRIPT_VERIFY_SIGPUSHONLY && !isPushOnly scriptSig then throw .SIG_PUSHONLY
  let stack ← liftEval (evalScript crypto [] scriptSig flags checker .BASE)
  let stackCopy := stack
  let stack ← liftEval (evalScript crypto stack scriptPubKey flags checker .BASE)
  let some top := stack.head? | throw .EVAL_FALSE
  if !castToBool top then throw .EVAL_FALSE
  let mut hadWitness := false
  let mut stack := stack
  -- bare witness programs
  if hasFlag flags SCRIPT_VERIFY_WITNESS then
    if let some (witversion, program) := isWitnessProgram scriptPubKey then
      hadWitness := true
      if !scriptSig.isEmpty then throw .WITNESS_MALLEATED
      liftEval (verifyWitnessProgram crypto witness witversion program flags checker)
      -- `stack.resize(1)` keeps the bottom element
      stack := stack.drop (stack.length - 1)
  -- pay-to-script-hash: run the serialised script on top of the saved stack
  if hasFlag flags SCRIPT_VERIFY_P2SH && isPayToScriptHash scriptPubKey then
    if !isPushOnly scriptSig then throw .SIG_PUSHONLY
    let some pubKey2 := stackCopy.head? | abort
    let stack2 ← liftEval (evalScript crypto stackCopy.tail pubKey2 flags checker .BASE)
    let some top2 := stack2.head? | throw .EVAL_FALSE
    if !castToBool top2 then throw .EVAL_FALSE
    stack := stack2
    if hasFlag flags SCRIPT_VERIFY_WITNESS then
      if let some (witversion, program) := isWitnessProgram pubKey2 then
        hadWitness := true
        if scriptSig ≠ pushData pubKey2 then throw .WITNESS_MALLEATED_P2SH
        liftEval (verifyWitnessProgram crypto witness witversion program flags checker)
        stack := stack.drop (stack.length - 1)
  if hasFlag flags SCRIPT_VERIFY_CLEANSTACK then
    if !hasFlag flags SCRIPT_VERIFY_P2SH then abort
    if !hasFlag flags SCRIPT_VERIFY_WITNESS then abort
    if stack.length ≠ 1 then throw .CLEANSTACK
  if hasFlag flags SCRIPT_VERIFY_WITNESS then
    if !hasFlag flags SCRIPT_VERIFY_P2SH then abort
    if !hadWitness && !witness.isEmpty then throw .WITNESS_UNEXPECTED

end XPChain
