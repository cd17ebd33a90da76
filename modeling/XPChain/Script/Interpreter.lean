import XPChain.Script.Script

/-!
# The script interpreter

`EvalScript` of `script/interpreter.cpp`: the stack machine that runs one
script on a stack, consulting a signature checker and the hash functions.

The stack is a list whose head is the top (`stacktop(-1)`); the same holds for
the alternate stack and for the `vfExec` stack of open conditionals.  Hash
functions and the low-S test of `secp256k1` are parameters (`Crypto`): they live
in `crypto/` and in the vendored library, and no result here depends on what
they compute.  The signature checker is a parameter as in the source, where
`EvalScript` takes a `BaseSignatureChecker&`.

Every way `EvalScript` can return `false` is an `Except.error` with the
`ScriptError` the source sets; exceptions caught by its `catch (...)` (a
`scriptnum_error`) become `UNKNOWN_ERROR`, as there.

## Main definitions

* `ScriptError`, `SigVersion`, `SignatureChecker`, `Crypto`.
* `EvalState` — stack, alternate stack, open conditionals, opcode count and
  the script from the last executed `OP_CODESEPARATOR`.
* `executeOp` — the body of the interpreter loop for one instruction.
* `evalScript` — `EvalScript`.
* `ScanCuts` — the copies `FindAndDelete` removes, as the cuts of its scan.

## Main statements

* `findAndDelete_eq_flatten` — `FindAndDelete` keeps exactly the runs between
  the scan's cuts, and counts the cuts.
-/

set_option autoImplicit false

namespace XPChain

/-! ## Errors, flags and the environment of an evaluation -/

/-- `ScriptError_t`, without the `SCRIPT_ERR_` prefix. -/
inductive ScriptError
  | OK | UNKNOWN_ERROR | EVAL_FALSE | OP_RETURN
  | SCRIPT_SIZE | PUSH_SIZE | OP_COUNT | STACK_SIZE | SIG_COUNT | PUBKEY_COUNT
  | VERIFY | EQUALVERIFY | CHECKMULTISIGVERIFY | CHECKSIGVERIFY | NUMEQUALVERIFY
  | BAD_OPCODE | DISABLED_OPCODE | INVALID_STACK_OPERATION | INVALID_ALTSTACK_OPERATION
  | UNBALANCED_CONDITIONAL
  | NEGATIVE_LOCKTIME | UNSATISFIED_LOCKTIME
  | SIG_HASHTYPE | SIG_DER | MINIMALDATA | SIG_PUSHONLY | SIG_HIGH_S | SIG_NULLDUMMY
  | PUBKEYTYPE | CLEANSTACK | MINIMALIF | SIG_NULLFAIL
  | DISCOURAGE_UPGRADABLE_NOPS | DISCOURAGE_UPGRADABLE_WITNESS_PROGRAM
  | WITNESS_PROGRAM_WRONG_LENGTH | WITNESS_PROGRAM_WITNESS_EMPTY | WITNESS_PROGRAM_MISMATCH
  | WITNESS_MALLEATED | WITNESS_MALLEATED_P2SH | WITNESS_UNEXPECTED | WITNESS_PUBKEYTYPE
  | OP_CODESEPARATOR | SIG_FINDANDDELETE
  deriving DecidableEq, Repr

/-- `SigVersion`. -/
inductive SigVersion
  | BASE | WITNESS_V0
  deriving DecidableEq, Repr

@[simp] abbrev SCRIPT_VERIFY_NONE : ℕ := 0
@[simp] abbrev SCRIPT_VERIFY_P2SH : ℕ := 1 <<< 0
@[simp] abbrev SCRIPT_VERIFY_STRICTENC : ℕ := 1 <<< 1
@[simp] abbrev SCRIPT_VERIFY_DERSIG : ℕ := 1 <<< 2
@[simp] abbrev SCRIPT_VERIFY_LOW_S : ℕ := 1 <<< 3
@[simp] abbrev SCRIPT_VERIFY_NULLDUMMY : ℕ := 1 <<< 4
@[simp] abbrev SCRIPT_VERIFY_SIGPUSHONLY : ℕ := 1 <<< 5
@[simp] abbrev SCRIPT_VERIFY_MINIMALDATA : ℕ := 1 <<< 6
@[simp] abbrev SCRIPT_VERIFY_DISCOURAGE_UPGRADABLE_NOPS : ℕ := 1 <<< 7
@[simp] abbrev SCRIPT_VERIFY_CLEANSTACK : ℕ := 1 <<< 8
@[simp] abbrev SCRIPT_VERIFY_CHECKLOCKTIMEVERIFY : ℕ := 1 <<< 9
@[simp] abbrev SCRIPT_VERIFY_CHECKSEQUENCEVERIFY : ℕ := 1 <<< 10
@[simp] abbrev SCRIPT_VERIFY_WITNESS : ℕ := 1 <<< 11
@[simp] abbrev SCRIPT_VERIFY_DISCOURAGE_UPGRADABLE_WITNESS_PROGRAM : ℕ := 1 <<< 12
@[simp] abbrev SCRIPT_VERIFY_MINIMALIF : ℕ := 1 <<< 13
@[simp] abbrev SCRIPT_VERIFY_NULLFAIL : ℕ := 1 <<< 14
@[simp] abbrev SCRIPT_VERIFY_WITNESS_PUBKEYTYPE : ℕ := 1 <<< 15
@[simp] abbrev SCRIPT_VERIFY_CONST_SCRIPTCODE : ℕ := 1 <<< 16

/-- `flags & f` is non-zero. -/
def hasFlag (flags f : ℕ) : Bool := flags &&& f != 0

/-- The checks `EvalScript` delegates to its `BaseSignatureChecker&`. -/
structure SignatureChecker where
  CheckSig : valtype → valtype → CScript → SigVersion → Bool
  CheckLockTime : ℤ → Bool
  CheckSequence : ℤ → Bool

/-- `BaseSignatureChecker`: every check fails. -/
def BaseSignatureChecker : SignatureChecker :=
  ⟨fun _ _ _ _ => false, fun _ => false, fun _ => false⟩

/-- The primitives of `crypto/` and `secp256k1` that the interpreter calls. -/
structure Crypto where
  ripemd160 : valtype → valtype
  sha1 : valtype → valtype
  sha256 : valtype → valtype
  hash160 : valtype → valtype
  hash256 : valtype → valtype
  /-- `CPubKey::CheckLowS` on a DER signature without its hash type byte. -/
  checkLowS : valtype → Bool
  /-- The digests have their fixed sizes: 20 bytes for `RIPEMD160`, `SHA1`
  and `Hash160`, 32 for `SHA256` and `Hash256`. -/
  length_ripemd160 : ∀ v, (ripemd160 v).length = 20
  length_sha1 : ∀ v, (sha1 v).length = 20
  length_sha256 : ∀ v, (sha256 v).length = 32
  length_hash160 : ∀ v, (hash160 v).length = 20
  length_hash256 : ∀ v, (hash256 v).length = 32

/-- Digests that pad or cut their input to the digest's size: not the real
hash functions, but with their output sizes, to run the model on concrete
inputs whose outcome does not depend on what the digests are. -/
def Crypto.truncating : Crypto where
  ripemd160 v := (v ++ List.replicate 20 0).take 20
  sha1 v := (v ++ List.replicate 20 0).take 20
  sha256 v := (v ++ List.replicate 32 0).take 32
  hash160 v := (v ++ List.replicate 20 0).take 20
  hash256 v := (v ++ List.replicate 32 0).take 32
  checkLowS _ := true
  length_ripemd160 v := by simp
  length_sha1 v := by simp
  length_sha256 v := by simp
  length_hash160 v := by simp
  length_hash256 v := by simp

/-! ## Values on the stack -/

/-- `CastToBool`: true unless every byte is zero, the last one possibly `0x80`
(negative zero). -/
def castToBool : valtype → Bool
  | [] => false
  | [b] => b != 0 && b != 0x80
  | b :: rest => b != 0 || castToBool rest

/-- `vchTrue`. -/
def vchTrue : valtype := [1]

/-- `vchFalse`. -/
def vchFalse : valtype := []

/-- The push of a boolean result. -/
def vchBool (b : Bool) : valtype := if b then vchTrue else vchFalse

/-! ## Encodings checked by signature opcodes -/

/-- `IsValidSignatureEncoding`: strict DER plus a hash type byte (BIP66). -/
def isValidSignatureEncoding (sig : valtype) : Bool :=
  let n := sig.length
  let byteAt := fun i => (sig.getD i 0).toNat
  if n < 9 then false
  else if 73 < n then false
  else if byteAt 0 ≠ 0x30 then false
  else if byteAt 1 ≠ n - 3 then false
  else
    let lenR := byteAt 3
    if n ≤ 5 + lenR then false
    else
      let lenS := byteAt (5 + lenR)
      if lenR + lenS + 7 ≠ n then false
      else if byteAt 2 ≠ 0x02 then false
      else if lenR = 0 then false
      else if byteAt 4 &&& 0x80 ≠ 0 then false
      else if 1 < lenR ∧ byteAt 4 = 0 ∧ byteAt 5 &&& 0x80 = 0 then false
      else if byteAt (lenR + 4) ≠ 0x02 then false
      else if lenS = 0 then false
      else if byteAt (lenR + 6) &&& 0x80 ≠ 0 then false
      else if 1 < lenS ∧ byteAt (lenR + 6) = 0 ∧ byteAt (lenR + 7) &&& 0x80 = 0 then false
      else true

/-- `IsDefinedHashtypeSignature`. -/
def isDefinedHashtypeSignature (sig : valtype) : Bool :=
  match sig.getLast? with
  | none => false
  | some last =>
    let nHashType := (last &&& ~~~0x80).toNat
    1 ≤ nHashType && nHashType ≤ 3

/-- `CheckSignatureEncoding`. -/
def checkSignatureEncoding (crypto : Crypto) (sig : valtype) (flags : ℕ) :
    Except ScriptError Unit :=
  if sig.isEmpty then .ok ()
  else if hasFlag flags (SCRIPT_VERIFY_DERSIG ||| SCRIPT_VERIFY_LOW_S ||| SCRIPT_VERIFY_STRICTENC)
      && !isValidSignatureEncoding sig then .error .SIG_DER
  -- `IsLowDERSignature`; its own DER test cannot fail after the one above
  else if hasFlag flags SCRIPT_VERIFY_LOW_S && !crypto.checkLowS sig.dropLast then
    .error .SIG_HIGH_S
  else if hasFlag flags SCRIPT_VERIFY_STRICTENC && !isDefinedHashtypeSignature sig then
    .error .SIG_HASHTYPE
  else .ok ()

/-- `IsCompressedOrUncompressedPubKey`. -/
def isCompressedOrUncompressedPubKey (pk : valtype) : Bool :=
  if pk.length < 33 then false
  else if pk.headD 0 = 0x04 then pk.length = 65
  else if pk.headD 0 = 0x02 ∨ pk.headD 0 = 0x03 then pk.length = 33
  else false

/-- `IsCompressedPubKey`. -/
def isCompressedPubKey (pk : valtype) : Bool :=
  pk.length = 33 && (pk.headD 0 == 0x02 || pk.headD 0 == 0x03)

/-- `CheckPubKeyEncoding`. -/
def checkPubKeyEncoding (pk : valtype) (flags : ℕ) (sigversion : SigVersion) :
    Except ScriptError Unit :=
  if hasFlag flags SCRIPT_VERIFY_STRICTENC && !isCompressedOrUncompressedPubKey pk then
    .error .PUBKEYTYPE
  else if hasFlag flags SCRIPT_VERIFY_WITNESS_PUBKEYTYPE && sigversion == .WITNESS_V0 &&
      !isCompressedPubKey pk then .error .WITNESS_PUBKEYTYPE
  else .ok ()

/-- `CheckMinimalPush`: the push of `data` used the shortest opcode. -/
def checkMinimalPush (data : valtype) (opcode : UInt8) : Bool :=
  if data.isEmpty then opcode == OP_0
  else if data.length = 1 ∧ 1 ≤ data.headD 0 ∧ data.headD 0 ≤ 16 then false
  else if data.length = 1 ∧ data.headD 0 = 0x81 then false
  else if data.length ≤ 75 then opcode.toNat == data.length
  else if data.length ≤ 255 then opcode == OP_PUSHDATA1
  else if data.length ≤ 65535 then opcode == OP_PUSHDATA2
  else true

/-! ## `FindAndDelete` -/

/-- The inner loop of `FindAndDelete`: skip copies of `b` at the front,
counting them.  The fuel bounds the copies; the script's length suffices. -/
def stripCopies (b : CScript) : ℕ → CScript → CScript × ℕ
  | 0, pc => (pc, 0)
  | fuel + 1, pc =>
    if b.length ≤ pc.length ∧ pc.take b.length = b then
      let r := stripCopies b fuel (pc.drop b.length)
      (r.1, r.2 + 1)
    else (pc, 0)

/-- The outer loop of `FindAndDelete` from `pc`: the bytes kept and the number
of copies removed.  Each round strips copies, then keeps one instruction. -/
def findAndDeleteAux (b : CScript) : ℕ → CScript → CScript × ℕ
  | 0, pc => (pc, 0)
  | fuel + 1, pc =>
    let (pc', n) := stripCopies b pc.length pc
    match getScriptOp pc' with
    | none => (pc', n)
    | some o =>
      let r := findAndDeleteAux b fuel o.rest
      (pc'.take (pc'.length - o.rest.length) ++ r.1, n + r.2)

/-- `FindAndDelete(script, b)`: the script with every opcode-aligned copy of
`b` removed, and their number; the script is unchanged when none is found. -/
def findAndDelete (script b : CScript) : CScript × ℕ :=
  if b.isEmpty then (script, 0)
  else
    let r := findAndDeleteAux b (script.length + 1) script
    if r.2 = 0 then (script, 0) else r

/-- The cuts the `FindAndDelete` scan makes in `pc`, started at an
instruction boundary: `keeps` are the runs of bytes it keeps, and one copy of
`b` was removed between each two of them.  A copy of `b` is removed wherever
one starts at the scan position, so copies that follow a removed one go too;
otherwise the scan keeps one instruction, or, when none reads, the rest of
the script. -/
inductive ScanCuts (b : CScript) : CScript → List CScript → Prop
  | cut {pc : CScript} {keeps : List CScript} : b <+: pc → ScanCuts b (pc.drop b.length) keeps →
      ScanCuts b pc ([] :: keeps)
  | keep {pc ins : CScript} {o : ScriptOp} {k : CScript} {ks : List CScript} : ¬b <+: pc →
      getScriptOp pc = some o → pc = ins ++ o.rest → ScanCuts b o.rest (k :: ks) →
      ScanCuts b pc ((ins ++ k) :: ks)
  | stop {pc : CScript} : ¬b <+: pc → getScriptOp pc = none → ScanCuts b pc [pc]

namespace ScanCuts

variable {b : CScript}

theorem ne_nil {pc : CScript} {keeps : List CScript} (h : ScanCuts b pc keeps) : keeps ≠ [] := by
  cases h <;> simp

theorem intercalate_append_cons (ins k : CScript) (ks : List CScript) :
    b.intercalate ((ins ++ k) :: ks) = ins ++ b.intercalate (k :: ks) := by
  cases ks with
  | nil => simp
  | cons k' ks => simp [List.intercalate_cons_cons]

/-- The removed copies and the kept runs make up the whole script. -/
theorem eq_intercalate {pc : CScript} {keeps : List CScript} (h : ScanCuts b pc keeps) :
    pc = b.intercalate keeps := by
  induction h with
  | @cut pc keeps hpre hrest ih =>
    obtain ⟨k, ks, rfl⟩ := List.exists_cons_of_ne_nil hrest.ne_nil
    rw [List.intercalate_cons_cons, List.nil_append, ← ih]
    conv_lhs => rw [← List.take_append_drop b.length pc, ← List.prefix_iff_eq_take.mp hpre]
  | keep _ _ hins _ ih => rw [intercalate_append_cons, hins, ih]
  | stop => simp

/-- The scan is deterministic: a script has one set of cuts. -/
theorem unique {pc : CScript} {keeps keeps' : List CScript} (h : ScanCuts b pc keeps)
    (h' : ScanCuts b pc keeps') : keeps = keeps' := by
  induction h generalizing keeps' with
  | cut hpre _ ih =>
    cases h' with
    | cut _ hrest' => rw [ih hrest']
    | keep hnot => exact absurd hpre hnot
    | stop hnot => exact absurd hpre hnot
  | keep hnot hop hins _ ih =>
    cases h' with
    | cut hpre => exact absurd hpre hnot
    | keep _ hop' hins' hrest' =>
      rw [hop] at hop'
      cases hop'
      rw [hins] at hins'
      cases List.append_cancel_right hins'
      cases ih hrest'
      rfl
    | stop _ hnone => rw [hop] at hnone; cases hnone
  | stop hnot hnone =>
    cases h' with
    | cut hpre => exact absurd hpre hnot
    | keep _ hop => rw [hnone] at hop; cases hop
    | stop => rfl

/-- Copies of `b` removed one after the other in front of `pc`. -/
theorem cuts {pc : CScript} {keeps : List CScript} (h : ScanCuts b pc keeps) (n : ℕ) :
    ScanCuts b ((List.replicate n b).flatten ++ pc) (List.replicate n [] ++ keeps) := by
  induction n with
  | zero => simpa using h
  | succ n ih =>
    apply cut
    · simp [List.replicate_succ]
    · simpa [List.replicate_succ] using ih

end ScanCuts

theorem prefix_iff_take (b pc : CScript) : b <+: pc ↔ b.length ≤ pc.length ∧ pc.take b.length = b := by
  constructor
  · intro h
    exact ⟨h.length_le, (List.prefix_iff_eq_take.mp h).symm⟩
  · intro h
    rw [List.prefix_iff_eq_take]
    exact h.2.symm

/-- The inner loop removes `n` copies from the front, and stops where no copy
starts. -/
theorem stripCopies_spec {b : CScript} (hb : b ≠ []) {fuel : ℕ} {pc : CScript} (hfuel : pc.length ≤ fuel) :
    pc = (List.replicate (stripCopies b fuel pc).2 b).flatten ++ (stripCopies b fuel pc).1 ∧
      ¬b <+: (stripCopies b fuel pc).1 := by
  induction fuel generalizing pc with
  | zero =>
    have hpc : pc = [] := List.eq_nil_of_length_eq_zero (by omega)
    subst hpc
    refine ⟨rfl, fun h => hb (List.eq_nil_of_prefix_nil h)⟩
  | succ fuel ih =>
    rw [stripCopies]
    split_ifs with hcopy
    · have hlen : 0 < b.length := List.length_pos_of_ne_nil hb
      obtain ⟨heq, hnot⟩ := @ih (pc.drop b.length) (by simp; omega)
      refine ⟨?_, hnot⟩
      rw [List.replicate_succ, List.flatten_cons, List.append_assoc, ← heq]
      conv_lhs => rw [← List.take_append_drop b.length pc, hcopy.2]
    · exact ⟨rfl, fun h => hcopy ((prefix_iff_take b pc).mp h)⟩

/-- The outer loop, with fuel beyond the script's length, keeps what the
scan's cuts keep and counts the cuts. -/
theorem findAndDeleteAux_scanCuts {b : CScript} (hb : b ≠ []) {fuel : ℕ} {pc : CScript}
    (hfuel : pc.length < fuel) :
    ∃ keeps, ScanCuts b pc keeps ∧ findAndDeleteAux b fuel pc = (keeps.flatten, keeps.length - 1) := by
  induction fuel generalizing pc with
  | zero => omega
  | succ fuel ih =>
    obtain ⟨hsplit, hnot⟩ := stripCopies_spec hb (le_refl pc.length)
    generalize hstrip : stripCopies b pc.length pc = r at hsplit hnot
    obtain ⟨pc', n⟩ := r
    dsimp only at hsplit hnot
    have hlen : pc'.length ≤ pc.length := by
      rw [hsplit, List.length_append]
      omega
    rw [findAndDeleteAux, hstrip]
    dsimp only
    cases hop : getScriptOp pc' with
    | none =>
      refine ⟨List.replicate n [] ++ [pc'], hsplit ▸ (ScanCuts.stop hnot hop).cuts n, ?_⟩
      simp
    | some o =>
      obtain ⟨k, -, hk, hrest, -⟩ := getScriptOp_exact hop
      have hins : pc' = pc'.take (pc'.length - o.rest.length) ++ o.rest := by
        rw [hrest, List.length_drop, Nat.sub_sub_self hk, List.take_append_drop]
      have hfuel' : o.rest.length < fuel := by
        have := length_rest_getScriptOp hop
        omega
      obtain ⟨keeps, hcuts, haux⟩ := ih hfuel'
      obtain ⟨k', ks, rfl⟩ := List.exists_cons_of_ne_nil hcuts.ne_nil
      refine ⟨List.replicate n [] ++ ((pc'.take (pc'.length - o.rest.length) ++ k') :: ks),
        hsplit ▸ (ScanCuts.keep hnot hop hins hcuts).cuts n, ?_⟩
      dsimp only
      rw [haux]
      simp

/-- `FindAndDelete` with a non-empty pattern returns exactly what the scan's
cuts keep, and their number; with no cut the script is unchanged. -/
theorem findAndDelete_eq_flatten {b : CScript} (hb : b ≠ []) {S : CScript} {keeps : List CScript}
    (h : ScanCuts b S keeps) : findAndDelete S b = (keeps.flatten, keeps.length - 1) := by
  obtain ⟨keeps', hcuts, haux⟩ := findAndDeleteAux_scanCuts hb (Nat.lt_succ_self S.length)
  cases h.unique hcuts
  rw [findAndDelete, if_neg (by simpa using hb)]
  dsimp only
  rw [haux]
  split_ifs with h0
  · -- one run, no cut: it is the whole script
    obtain ⟨k, ks, rfl⟩ := List.exists_cons_of_ne_nil h.ne_nil
    have hks : ks = [] := List.eq_nil_of_length_eq_zero (by simpa using h0)
    subst hks
    rw [h.eq_intercalate]
    simp
  · rfl

theorem findAndDelete_scanCuts {b : CScript} (hb : b ≠ []) (S R : CScript) (k : ℕ) :
    (findAndDelete S b = (R, k) ↔
      ∃ keeps, ScanCuts b S keeps ∧ S = b.intercalate keeps ∧ R = keeps.flatten ∧ k = keeps.length - 1) ∧
    (findAndDelete S b = (R, 0) → R = S) := by
  obtain ⟨keeps, hcuts, -⟩ := findAndDeleteAux_scanCuts hb (Nat.lt_succ_self S.length)
  have hfd := findAndDelete_eq_flatten hb hcuts
  constructor
  · constructor
    · intro h
      rw [hfd, Prod.mk.injEq] at h
      exact ⟨keeps, hcuts, hcuts.eq_intercalate, h.1.symm, h.2.symm⟩
    · rintro ⟨keeps', hcuts', -, rfl, rfl⟩
      exact findAndDelete_eq_flatten hb hcuts'
  · intro h
    rw [hfd, Prod.mk.injEq] at h
    obtain ⟨k, ks, rfl⟩ := List.exists_cons_of_ne_nil hcuts.ne_nil
    have hks : ks = [] := List.eq_nil_of_length_eq_zero (by simpa using h.2)
    subst hks
    rw [← h.1, hcuts.eq_intercalate]
    simp

theorem findAndDelete_scanCuts_op1 :
    ∃ keeps, ScanCuts [0x51] [0x51, 0x52, 0x51] keeps ∧ [0x51, 0x52, 0x51] = [0x51].intercalate keeps ∧
      [0x52] = keeps.flatten ∧ 2 = keeps.length - 1 :=
  (findAndDelete_scanCuts (by decide) [0x51, 0x52, 0x51] [0x52] 2).1.mp (by decide)

/-! ## The interpreter state and one instruction -/

/-- The local state of `EvalScript`. -/
structure EvalState where
  stack : List valtype
  altstack : List valtype
  vfExec : List Bool
  nOpCount : ℕ
  /-- `CScript(pbegincodehash, pend)`: the script after the last executed
  `OP_CODESEPARATOR`, or the whole script. -/
  pbegincodehash : CScript
  deriving DecidableEq, Repr

/-- The environment of one evaluation: flags, checker, signature version and
the hash functions. -/
structure EvalEnv where
  crypto : Crypto
  flags : ℕ
  checker : SignatureChecker
  sigversion : SigVersion

namespace EvalEnv

/-- `fRequireMinimal`. -/
def fRequireMinimal (env : EvalEnv) : Bool := hasFlag env.flags SCRIPT_VERIFY_MINIMALDATA

end EvalEnv

section ops
variable (env : EvalEnv) (st : EvalState)

/-- Replace the main stack. -/
def EvalState.withStack (st : EvalState) (s : List valtype) : EvalState := { st with stack := s }

@[simp] theorem EvalState.stack_withStack (st : EvalState) (s : List valtype) :
    (st.withStack s).stack = s := rfl

@[simp] theorem EvalState.altstack_withStack (st : EvalState) (s : List valtype) :
    (st.withStack s).altstack = st.altstack := rfl

@[simp] theorem EvalState.vfExec_withStack (st : EvalState) (s : List valtype) :
    (st.withStack s).vfExec = st.vfExec := rfl

@[simp] theorem EvalState.nOpCount_withStack (st : EvalState) (s : List valtype) :
    (st.withStack s).nOpCount = st.nOpCount := rfl

@[simp] theorem EvalState.withStack_withStack (st : EvalState) (s₁ s₂ : List valtype) :
    (st.withStack s₁).withStack s₂ = st.withStack s₂ := rfl

/-- The stack operations that check the depth and rearrange the top: fail
with `INVALID_STACK_OPERATION` below `need` elements, else apply `f`. -/
def stackShuffle (need : ℕ) (f : List valtype → List valtype) : Except ScriptError EvalState :=
  if st.stack.length < need then .error .INVALID_STACK_OPERATION else .ok (st.withStack (f st.stack))

/-- Decode a script number on the stack with the evaluation's minimality rule;
a thrown `scriptnum_error` is caught as `UNKNOWN_ERROR`. -/
def scriptNum (vch : valtype) (nMaxNumSize : ℕ := 4) : Except ScriptError ℤ :=
  match CScriptNum.ofVch vch env.fRequireMinimal nMaxNumSize with
  | none => .error .UNKNOWN_ERROR
  | some n => .ok n

/-- `OP_CHECKLOCKTIMEVERIFY` and `OP_CHECKSEQUENCEVERIFY`: a NOP without their
flag, else a five-byte operand checked against the transaction. -/
def opCheckLockTimeVerify : Except ScriptError EvalState :=
  if !hasFlag env.flags SCRIPT_VERIFY_CHECKLOCKTIMEVERIFY then .ok st
  else match st.stack with
    | [] => .error .INVALID_STACK_OPERATION
    | top :: _ => do
      let nLockTime ← scriptNum env top 5
      if nLockTime < 0 then .error .NEGATIVE_LOCKTIME
      else if !env.checker.CheckLockTime nLockTime then .error .UNSATISFIED_LOCKTIME
      else .ok st

def opCheckSequenceVerify : Except ScriptError EvalState :=
  if !hasFlag env.flags SCRIPT_VERIFY_CHECKSEQUENCEVERIFY then .ok st
  else match st.stack with
    | [] => .error .INVALID_STACK_OPERATION
    | top :: _ => do
      let nSequence ← scriptNum env top 5
      if nSequence < 0 then .error .NEGATIVE_LOCKTIME
      -- `CTxIn::SEQUENCE_LOCKTIME_DISABLE_FLAG`
      else if nSequence.toNat &&& (1 <<< 31) ≠ 0 then .ok st
      else if !env.checker.CheckSequence nSequence then .error .UNSATISFIED_LOCKTIME
      else .ok st

/-- `OP_IF` and `OP_NOTIF`; in an unexecuted branch only a `false` frame is opened. -/
def opIf (fExec notIf : Bool) : Except ScriptError EvalState :=
  if !fExec then .ok { st with vfExec := false :: st.vfExec }
  else match st.stack with
    | [] => .error .UNBALANCED_CONDITIONAL
    | vch :: rest =>
      if env.sigversion == .WITNESS_V0 && hasFlag env.flags SCRIPT_VERIFY_MINIMALIF &&
          (1 < vch.length || (vch.length = 1 && vch.headD 0 != 1)) then .error .MINIMALIF
      else
        let fValue := castToBool vch
        .ok { st with stack := rest, vfExec := (if notIf then !fValue else fValue) :: st.vfExec }

/-- `OP_ELSE`. -/
def opElse : Except ScriptError EvalState :=
  match st.vfExec with
  | [] => .error .UNBALANCED_CONDITIONAL
  | b :: rest => .ok { st with vfExec := (!b) :: rest }

/-- `OP_ENDIF`. -/
def opEndif : Except ScriptError EvalState :=
  match st.vfExec with
  | [] => .error .UNBALANCED_CONDITIONAL
  | _ :: rest => .ok { st with vfExec := rest }

/-- `OP_VERIFY`, and the verify step of the `...VERIFY` opcodes: pop a true
top, or fail with `err`. -/
def popIfTrue (err : ScriptError) : Except ScriptError EvalState :=
  match st.stack with
  | [] => .error .INVALID_STACK_OPERATION
  | top :: rest => if castToBool top then .ok (st.withStack rest) else .error err

/-- `OP_PICK` and `OP_ROLL`. -/
def opPickRoll (roll : Bool) : Except ScriptError EvalState :=
  match st.stack with
  | top :: rest@(_ :: _) => do
    let n ← (scriptNum env top).map CScriptNum.getint
    if n < 0 ∨ rest.length ≤ n.toNat then .error .INVALID_STACK_OPERATION
    else
      let vch := rest.getD n.toNat []
      let rest' := if roll then rest.eraseIdx n.toNat else rest
      .ok (st.withStack (vch :: rest'))
  | _ => .error .INVALID_STACK_OPERATION

/-- `OP_EQUAL` and `OP_EQUALVERIFY`. -/
def opEqual (verify : Bool) : Except ScriptError EvalState :=
  match st.stack with
  | vch2 :: vch1 :: rest =>
    let fEqual := decide (vch1 = vch2)
    let st' := st.withStack (vchBool fEqual :: rest)
    if verify then (if fEqual then .ok (st.withStack rest) else .error .EQUALVERIFY) else .ok st'
  | _ => .error .INVALID_STACK_OPERATION

/-- The one-operand numeric opcodes, `OP_1ADD` to `OP_0NOTEQUAL`. -/
def numericUnary (opcode : UInt8) (bn : ℤ) : ℤ :=
  if opcode = OP_1ADD then bn + 1
  else if opcode = OP_1SUB then bn - 1
  else if opcode = OP_NEGATE then -bn
  else if opcode = OP_ABS then (if bn < 0 then -bn else bn)
  else if opcode = OP_NOT then (if bn = 0 then 1 else 0)
  else (if bn ≠ 0 then 1 else 0)

/-- The two-operand numeric opcodes, `OP_ADD` to `OP_MAX`. -/
def numericBinary (opcode : UInt8) (bn1 bn2 : ℤ) : ℤ :=
  let ofBool := fun (b : Prop) [Decidable b] => if b then (1 : ℤ) else 0
  if opcode = OP_ADD then bn1 + bn2
  else if opcode = OP_SUB then bn1 - bn2
  else if opcode = OP_BOOLAND then ofBool (bn1 ≠ 0 ∧ bn2 ≠ 0)
  else if opcode = OP_BOOLOR then ofBool (bn1 ≠ 0 ∨ bn2 ≠ 0)
  else if opcode = OP_NUMEQUAL ∨ opcode = OP_NUMEQUALVERIFY then ofBool (bn1 = bn2)
  else if opcode = OP_NUMNOTEQUAL then ofBool (bn1 ≠ bn2)
  else if opcode = OP_LESSTHAN then ofBool (bn1 < bn2)
  else if opcode = OP_GREATERTHAN then ofBool (bn1 > bn2)
  else if opcode = OP_LESSTHANOREQUAL then ofBool (bn1 ≤ bn2)
  else if opcode = OP_GREATERTHANOREQUAL then ofBool (bn1 ≥ bn2)
  else if opcode = OP_MIN then (if bn1 < bn2 then bn1 else bn2)
  else (if bn1 > bn2 then bn1 else bn2)

def opNumericUnary (opcode : UInt8) : Except ScriptError EvalState :=
  match st.stack with
  | [] => .error .INVALID_STACK_OPERATION
  | top :: rest => do
    let bn ← scriptNum env top
    .ok (st.withStack (CScriptNum.serialize (numericUnary opcode bn) :: rest))

def opNumericBinary (opcode : UInt8) : Except ScriptError EvalState :=
  match st.stack with
  | top :: below :: rest => do
    let bn1 ← scriptNum env below
    let bn2 ← scriptNum env top
    let st' := st.withStack (CScriptNum.serialize (numericBinary opcode bn1 bn2) :: rest)
    if opcode = OP_NUMEQUALVERIFY then popIfTrue st' .NUMEQUALVERIFY else .ok st'
  | _ => .error .INVALID_STACK_OPERATION

/-- `OP_WITHIN`. -/
def opWithin : Except ScriptError EvalState :=
  match st.stack with
  | x3 :: x2 :: x1 :: rest => do
    let bn1 ← scriptNum env x1
    let bn2 ← scriptNum env x2
    let bn3 ← scriptNum env x3
    .ok (st.withStack (vchBool (decide (bn2 ≤ bn1 ∧ bn1 < bn3)) :: rest))
  | _ => .error .INVALID_STACK_OPERATION

/-- The hash opcodes, `OP_RIPEMD160` to `OP_HASH256`. -/
def opHash (opcode : UInt8) : Except ScriptError EvalState :=
  match st.stack with
  | [] => .error .INVALID_STACK_OPERATION
  | vch :: rest =>
    let h := if opcode = OP_RIPEMD160 then env.crypto.ripemd160 vch
      else if opcode = OP_SHA1 then env.crypto.sha1 vch
      else if opcode = OP_SHA256 then env.crypto.sha256 vch
      else if opcode = OP_HASH160 then env.crypto.hash160 vch
      else env.crypto.hash256 vch
    .ok (st.withStack (h :: rest))

/-- Drop each signature from a pre-segwit script code (`FindAndDelete` of
`CScript(vchSig)`), failing under `CONST_SCRIPTCODE` when one is found. -/
def dropSignatures (scriptCode : CScript) (sigs : List valtype) : Except ScriptError CScript :=
  if env.sigversion != .BASE then .ok scriptCode
  else sigs.foldlM (fun code sig =>
    let (code', found) := findAndDelete code (pushData sig)
    if 0 < found && hasFlag env.flags SCRIPT_VERIFY_CONST_SCRIPTCODE then
      .error .SIG_FINDANDDELETE
    else .ok code') scriptCode

/-- `OP_CHECKSIG` and `OP_CHECKSIGVERIFY`. -/
def opCheckSig (verify : Bool) : Except ScriptError EvalState :=
  match st.stack with
  | vchPubKey :: vchSig :: rest => do
    let scriptCode ← dropSignatures env st.pbegincodehash [vchSig]
    checkSignatureEncoding env.crypto vchSig env.flags
    checkPubKeyEncoding vchPubKey env.flags env.sigversion
    let fSuccess := env.checker.CheckSig vchSig vchPubKey scriptCode env.sigversion
    if !fSuccess && hasFlag env.flags SCRIPT_VERIFY_NULLFAIL && !vchSig.isEmpty then
      .error .SIG_NULLFAIL
    else
      let st' := st.withStack (vchBool fSuccess :: rest)
      if verify then popIfTrue st' .CHECKSIGVERIFY else .ok st'
  | _ => .error .INVALID_STACK_OPERATION

/-- The signature loop of `OP_CHECKMULTISIG`: match signatures to keys in
order, stopping with failure once more signatures remain than keys. -/
def checkMultisigLoop (scriptCode : CScript) :
    List valtype → List valtype → Except ScriptError Bool
  | [], _ => .ok true
  | _ :: _, [] => .ok false
  | vchSig :: sigs, vchPubKey :: keys => do
    checkSignatureEncoding env.crypto vchSig env.flags
    checkPubKeyEncoding vchPubKey env.flags env.sigversion
    let fOk := env.checker.CheckSig vchSig vchPubKey scriptCode env.sigversion
    let sigs' := if fOk then sigs else vchSig :: sigs
    if keys.length < sigs'.length then .ok false
    else checkMultisigLoop scriptCode sigs' keys

/-- The clean-up loop of `OP_CHECKMULTISIG`: pop `count` arguments; once the
`ikey2` key-side arguments are gone, a failed check under `NULLFAIL` requires
the remaining (signature) arguments to be empty. -/
def multisigCleanup (fSuccess : Bool) : ℕ → ℕ → List valtype → Except ScriptError (List valtype)
  | 0, _, s => .ok s
  | count + 1, ikey2, s =>
    match s with
    | [] => .error .UNKNOWN_ERROR
    | top :: rest =>
      if !fSuccess && hasFlag env.flags SCRIPT_VERIFY_NULLFAIL && ikey2 = 0 && !top.isEmpty then
        .error .SIG_NULLFAIL
      else multisigCleanup fSuccess count (ikey2 - 1) rest

/-- `OP_CHECKMULTISIG` and `OP_CHECKMULTISIGVERIFY`:
`[sig ...] num_of_signatures [pubkey ...] num_of_pubkeys -- bool`, with the
extra dummy argument the original implementation consumes. -/
def opCheckMultisig (verify : Bool) : Except ScriptError EvalState := do
  let s := st.stack
  let some top := s.head? | .error .INVALID_STACK_OPERATION
  let nKeysCount ← (scriptNum env top).map CScriptNum.getint
  if nKeysCount < 0 ∨ MAX_PUBKEYS_PER_MULTISIG < nKeysCount then .error .PUBKEY_COUNT
  let nKeys := nKeysCount.toNat
  let nOpCount := st.nOpCount + nKeys
  if MAX_OPS_PER_SCRIPT < nOpCount then .error .OP_COUNT
  -- positions counted from the top, as `stacktop(-i)` counts them
  let i := nKeys + 2
  if s.length < i then .error .INVALID_STACK_OPERATION
  let nSigsCount ← (scriptNum env (s.getD (i - 1) [])).map CScriptNum.getint
  if nSigsCount < 0 ∨ nKeysCount < nSigsCount then .error .SIG_COUNT
  let nSigs := nSigsCount.toNat
  let i := i + 1 + nSigs
  if s.length < i then .error .INVALID_STACK_OPERATION
  let keys := (s.drop 1).take nKeys
  let sigs := (s.drop (nKeys + 2)).take nSigs
  let scriptCode ← dropSignatures env st.pbegincodehash sigs
  let fSuccess ← checkMultisigLoop env scriptCode sigs keys
  let rest ← multisigCleanup env fSuccess (i - 1) (nKeys + 2) s
  match rest with
  | [] => .error .INVALID_STACK_OPERATION
  | dummy :: rest =>
    if hasFlag env.flags SCRIPT_VERIFY_NULLDUMMY && !dummy.isEmpty then .error .SIG_NULLDUMMY
    else
      let st' := { st with stack := vchBool fSuccess :: rest, nOpCount := nOpCount }
      if verify then popIfTrue st' .CHECKMULTISIGVERIFY else .ok st'

end ops

/-- The opcodes `EvalScript` rejects as disabled, executed or not. -/
def isDisabledOpcode (opcode : UInt8) : Bool :=
  opcode == OP_CAT || opcode == OP_SUBSTR || opcode == OP_LEFT || opcode == OP_RIGHT ||
  opcode == OP_INVERT || opcode == OP_AND || opcode == OP_OR || opcode == OP_XOR ||
  opcode == OP_2MUL || opcode == OP_2DIV || opcode == OP_MUL || opcode == OP_DIV ||
  opcode == OP_MOD || opcode == OP_LSHIFT || opcode == OP_RSHIFT

/-- The `switch (opcode)` of `EvalScript`, for an executed non-push opcode or
a conditional.  `pc` is the script after the instruction. -/
def opcodeSwitch (env : EvalEnv) (fExec : Bool) (opcode : UInt8) (pc : CScript)
    (st : EvalState) : Except ScriptError EvalState :=
  if opcode = OP_1NEGATE ∨ (OP_1 ≤ opcode ∧ opcode ≤ OP_16) then
    .ok (st.withStack (CScriptNum.serialize ((opcode.toNat : ℤ) - (OP_1.toNat - 1)) :: st.stack))
  else if opcode = OP_NOP then .ok st
  else if opcode = OP_CHECKLOCKTIMEVERIFY then opCheckLockTimeVerify env st
  else if opcode = OP_CHECKSEQUENCEVERIFY then opCheckSequenceVerify env st
  else if opcode = OP_NOP1 ∨ (OP_NOP4 ≤ opcode ∧ opcode ≤ OP_NOP10) then
    if hasFlag env.flags SCRIPT_VERIFY_DISCOURAGE_UPGRADABLE_NOPS then
      .error .DISCOURAGE_UPGRADABLE_NOPS
    else .ok st
  else if opcode = OP_IF then opIf env st fExec false
  else if opcode = OP_NOTIF then opIf env st fExec true
  else if opcode = OP_ELSE then opElse st
  else if opcode = OP_ENDIF then opEndif st
  else if opcode = OP_VERIFY then popIfTrue st .VERIFY
  else if opcode = OP_RETURN then .error .OP_RETURN
  else if opcode = OP_TOALTSTACK then
    match st.stack with
    | [] => .error .INVALID_STACK_OPERATION
    | top :: rest => .ok { st with stack := rest, altstack := top :: st.altstack }
  else if opcode = OP_FROMALTSTACK then
    match st.altstack with
    | [] => .error .INVALID_ALTSTACK_OPERATION
    | top :: rest => .ok { st with stack := top :: st.stack, altstack := rest }
  else if opcode = OP_2DROP then stackShuffle st 2 (·.drop 2)
  else if opcode = OP_2DUP then stackShuffle st 2 (fun s => s.take 2 ++ s)
  else if opcode = OP_3DUP then stackShuffle st 3 (fun s => s.take 3 ++ s)
  else if opcode = OP_2OVER then stackShuffle st 4 (fun s => (s.drop 2).take 2 ++ s)
  else if opcode = OP_2ROT then
    stackShuffle st 6 (fun s => (s.drop 4).take 2 ++ s.take 4 ++ s.drop 6)
  else if opcode = OP_2SWAP then
    stackShuffle st 4 (fun s => (s.drop 2).take 2 ++ s.take 2 ++ s.drop 4)
  else if opcode = OP_IFDUP then
    stackShuffle st 1 (fun s => if castToBool (s.headD []) then s.take 1 ++ s else s)
  else if opcode = OP_DEPTH then
    .ok (st.withStack (CScriptNum.serialize st.stack.length :: st.stack))
  else if opcode = OP_DROP then stackShuffle st 1 (·.drop 1)
  else if opcode = OP_DUP then stackShuffle st 1 (fun s => s.take 1 ++ s)
  else if opcode = OP_NIP then stackShuffle st 2 (fun s => s.take 1 ++ s.drop 2)
  else if opcode = OP_OVER then stackShuffle st 2 (fun s => (s.drop 1).take 1 ++ s)
  else if opcode = OP_PICK then opPickRoll env st false
  else if opcode = OP_ROLL then opPickRoll env st true
  else if opcode = OP_ROT then
    stackShuffle st 3 (fun s => (s.drop 2).take 1 ++ s.take 2 ++ s.drop 3)
  else if opcode = OP_SWAP then
    stackShuffle st 2 (fun s => (s.drop 1).take 1 ++ s.take 1 ++ s.drop 2)
  else if opcode = OP_TUCK then stackShuffle st 2 (fun s => s.take 2 ++ s.take 1 ++ s.drop 2)
  else if opcode = OP_SIZE then
    match st.stack with
    | [] => .error .INVALID_STACK_OPERATION
    | top :: _ => .ok (st.withStack (CScriptNum.serialize top.length :: st.stack))
  else if opcode = OP_EQUAL then opEqual st false
  else if opcode = OP_EQUALVERIFY then opEqual st true
  else if OP_1ADD ≤ opcode ∧ opcode ≤ OP_0NOTEQUAL ∧ opcode ≠ OP_2MUL ∧ opcode ≠ OP_2DIV then
    opNumericUnary env st opcode
  else if OP_ADD ≤ opcode ∧ opcode ≤ OP_MAX ∧ (opcode < OP_MUL ∨ OP_RSHIFT < opcode) then
    opNumericBinary env st opcode
  else if opcode = OP_WITHIN then opWithin env st
  else if OP_RIPEMD160 ≤ opcode ∧ opcode ≤ OP_HASH256 then opHash env st opcode
  else if opcode = OP_CODESEPARATOR then .ok { st with pbegincodehash := pc }
  else if opcode = OP_CHECKSIG then opCheckSig env st false
  else if opcode = OP_CHECKSIGVERIFY then opCheckSig env st true
  else if opcode = OP_CHECKMULTISIG then opCheckMultisig env st false
  else if opcode = OP_CHECKMULTISIGVERIFY then opCheckMultisig env st true
  else .error .BAD_OPCODE

/-- The body of the interpreter loop for one instruction that has been read:
the size and count limits, disabled opcodes, then a push, the switch, or
nothing in an unexecuted branch, and last the stack size limit. -/
def executeOp (env : EvalEnv) (o : ScriptOp) (st : EvalState) : Except ScriptError EvalState := do
  let fExec := !st.vfExec.contains false
  if MAX_SCRIPT_ELEMENT_SIZE < o.data.length then .error .PUSH_SIZE
  -- OP_RESERVED does not count towards the opcode limit
  let nOpCount := if OP_16 < o.opcode then st.nOpCount + 1 else st.nOpCount
  if OP_16 < o.opcode ∧ MAX_OPS_PER_SCRIPT < nOpCount then .error .OP_COUNT
  if isDisabledOpcode o.opcode then .error .DISABLED_OPCODE
  if o.opcode = OP_CODESEPARATOR ∧ env.sigversion = .BASE ∧
      hasFlag env.flags SCRIPT_VERIFY_CONST_SCRIPTCODE then .error .OP_CODESEPARATOR
  let st := { st with nOpCount := nOpCount }
  let st' ←
    if fExec ∧ o.opcode ≤ OP_PUSHDATA4 then
      if env.fRequireMinimal && !checkMinimalPush o.data o.opcode then .error .MINIMALDATA
      else .ok (st.withStack (o.data :: st.stack))
    else if fExec ∨ (OP_IF ≤ o.opcode ∧ o.opcode ≤ OP_ENDIF) then
      opcodeSwitch env fExec o.opcode o.rest st
    else .ok st
  if MAX_STACK_SIZE < st'.stack.length + st'.altstack.length then .error .STACK_SIZE
  .ok st'

/-- The `while (pc < pend)` loop of `EvalScript`; a failed read is
`BAD_OPCODE`.  The fuel bounds the number of instructions. -/
def evalLoop (env : EvalEnv) : ℕ → CScript → EvalState → Except ScriptError EvalState
  | _, [], st => .ok st
  | 0, _ :: _, _ => .error .UNKNOWN_ERROR
  | fuel + 1, pc@(_ :: _), st =>
    match getScriptOp pc with
    | none => .error .BAD_OPCODE
    | some o => do
      let st' ← executeOp env o st
      evalLoop env fuel o.rest st'

/-- `EvalScript(stack, script, flags, checker, sigversion)`: the final stack,
or the error that made it return `false`. -/
def evalScript (crypto : Crypto) (stack : List valtype) (script : CScript) (flags : ℕ)
    (checker : SignatureChecker) (sigversion : SigVersion) : Except ScriptError (List valtype) :=
  if MAX_SCRIPT_SIZE < script.length then .error .SCRIPT_SIZE
  else do
    let env : EvalEnv := ⟨crypto, flags, checker, sigversion⟩
    let st ← evalLoop env script.length script ⟨stack, [], [], 0, script⟩
    if !st.vfExec.isEmpty then .error .UNBALANCED_CONDITIONAL
    else .ok st.stack

end XPChain
