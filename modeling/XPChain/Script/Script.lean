import XPChain.Lib.LittleEndian

/-!
# Scripts as byte strings

A `CScript` is a byte string read instruction by instruction with
`GetScriptOp`.  This module models that reader, the data pushes
`CScript::operator<<` writes, and the `CScriptNum` integer encoding, all as
the byte-level functions of `script/script.h` and `script/script.cpp`.

A failed read is `none`: in the source it is a `false` return after which the
opcode out-parameter holds `OP_INVALIDOPCODE`.  Callers that look at that
opcode (the signature scan of `MakeBlockHashExcludedSignature`) read it from
there.

Loops that call `GetScriptOp` until the end of a script are written with fuel;
each read consumes at least one byte (`length_rest_getScriptOp`), so the
script's length is always enough fuel.

## Main definitions

* `getScriptOp` — one instruction: opcode, pushed bytes, remaining script.
* `pushData` — `CScript::operator<<(const std::vector<unsigned char>&)`.
* `CScriptNum.serialize`, `CScriptNum.setVch`, `CScriptNum.ofVch` — script numbers.
* `scriptOps` — the whole instruction stream of a script.

## Main statements

* `getScriptOp_exact` — a read takes one instruction's bytes and no more, and
  every shorter part of the script, a truncated push among them, fails.
* `getScriptOp_pushData` — a data push reads back as its bytes.
* `scriptOps_append_pushData` — a push appended to a script that reads to its
  end adds exactly one instruction to its stream.
-/

set_option autoImplicit false

namespace XPChain

open LittleEndian

/-- A stack element or pushed datum (`valtype`). -/
abbrev valtype := List UInt8

/-- A serialised script (`CScript`). -/
abbrev CScript := List UInt8

/-! ## Opcodes

The values of the `opcodetype` enumeration that the model reads or writes. -/

@[simp] abbrev OP_0 : UInt8 := 0x00
@[simp] abbrev OP_PUSHDATA1 : UInt8 := 0x4c
@[simp] abbrev OP_PUSHDATA2 : UInt8 := 0x4d
@[simp] abbrev OP_PUSHDATA4 : UInt8 := 0x4e
@[simp] abbrev OP_1NEGATE : UInt8 := 0x4f
@[simp] abbrev OP_1 : UInt8 := 0x51
@[simp] abbrev OP_16 : UInt8 := 0x60
@[simp] abbrev OP_NOP : UInt8 := 0x61
@[simp] abbrev OP_IF : UInt8 := 0x63
@[simp] abbrev OP_NOTIF : UInt8 := 0x64
@[simp] abbrev OP_ELSE : UInt8 := 0x67
@[simp] abbrev OP_ENDIF : UInt8 := 0x68
@[simp] abbrev OP_VERIFY : UInt8 := 0x69
@[simp] abbrev OP_RETURN : UInt8 := 0x6a
@[simp] abbrev OP_TOALTSTACK : UInt8 := 0x6b
@[simp] abbrev OP_FROMALTSTACK : UInt8 := 0x6c
@[simp] abbrev OP_2DROP : UInt8 := 0x6d
@[simp] abbrev OP_2DUP : UInt8 := 0x6e
@[simp] abbrev OP_3DUP : UInt8 := 0x6f
@[simp] abbrev OP_2OVER : UInt8 := 0x70
@[simp] abbrev OP_2ROT : UInt8 := 0x71
@[simp] abbrev OP_2SWAP : UInt8 := 0x72
@[simp] abbrev OP_IFDUP : UInt8 := 0x73
@[simp] abbrev OP_DEPTH : UInt8 := 0x74
@[simp] abbrev OP_DROP : UInt8 := 0x75
@[simp] abbrev OP_DUP : UInt8 := 0x76
@[simp] abbrev OP_NIP : UInt8 := 0x77
@[simp] abbrev OP_OVER : UInt8 := 0x78
@[simp] abbrev OP_PICK : UInt8 := 0x79
@[simp] abbrev OP_ROLL : UInt8 := 0x7a
@[simp] abbrev OP_ROT : UInt8 := 0x7b
@[simp] abbrev OP_SWAP : UInt8 := 0x7c
@[simp] abbrev OP_TUCK : UInt8 := 0x7d
@[simp] abbrev OP_CAT : UInt8 := 0x7e
@[simp] abbrev OP_SUBSTR : UInt8 := 0x7f
@[simp] abbrev OP_LEFT : UInt8 := 0x80
@[simp] abbrev OP_RIGHT : UInt8 := 0x81
@[simp] abbrev OP_SIZE : UInt8 := 0x82
@[simp] abbrev OP_INVERT : UInt8 := 0x83
@[simp] abbrev OP_AND : UInt8 := 0x84
@[simp] abbrev OP_OR : UInt8 := 0x85
@[simp] abbrev OP_XOR : UInt8 := 0x86
@[simp] abbrev OP_EQUAL : UInt8 := 0x87
@[simp] abbrev OP_EQUALVERIFY : UInt8 := 0x88
@[simp] abbrev OP_1ADD : UInt8 := 0x8b
@[simp] abbrev OP_1SUB : UInt8 := 0x8c
@[simp] abbrev OP_2MUL : UInt8 := 0x8d
@[simp] abbrev OP_2DIV : UInt8 := 0x8e
@[simp] abbrev OP_NEGATE : UInt8 := 0x8f
@[simp] abbrev OP_ABS : UInt8 := 0x90
@[simp] abbrev OP_NOT : UInt8 := 0x91
@[simp] abbrev OP_0NOTEQUAL : UInt8 := 0x92
@[simp] abbrev OP_ADD : UInt8 := 0x93
@[simp] abbrev OP_SUB : UInt8 := 0x94
@[simp] abbrev OP_MUL : UInt8 := 0x95
@[simp] abbrev OP_DIV : UInt8 := 0x96
@[simp] abbrev OP_MOD : UInt8 := 0x97
@[simp] abbrev OP_LSHIFT : UInt8 := 0x98
@[simp] abbrev OP_RSHIFT : UInt8 := 0x99
@[simp] abbrev OP_BOOLAND : UInt8 := 0x9a
@[simp] abbrev OP_BOOLOR : UInt8 := 0x9b
@[simp] abbrev OP_NUMEQUAL : UInt8 := 0x9c
@[simp] abbrev OP_NUMEQUALVERIFY : UInt8 := 0x9d
@[simp] abbrev OP_NUMNOTEQUAL : UInt8 := 0x9e
@[simp] abbrev OP_LESSTHAN : UInt8 := 0x9f
@[simp] abbrev OP_GREATERTHAN : UInt8 := 0xa0
@[simp] abbrev OP_LESSTHANOREQUAL : UInt8 := 0xa1
@[simp] abbrev OP_GREATERTHANOREQUAL : UInt8 := 0xa2
@[simp] abbrev OP_MIN : UInt8 := 0xa3
@[simp] abbrev OP_MAX : UInt8 := 0xa4
@[simp] abbrev OP_WITHIN : UInt8 := 0xa5
@[simp] abbrev OP_RIPEMD160 : UInt8 := 0xa6
@[simp] abbrev OP_SHA1 : UInt8 := 0xa7
@[simp] abbrev OP_SHA256 : UInt8 := 0xa8
@[simp] abbrev OP_HASH160 : UInt8 := 0xa9
@[simp] abbrev OP_HASH256 : UInt8 := 0xaa
@[simp] abbrev OP_CODESEPARATOR : UInt8 := 0xab
@[simp] abbrev OP_CHECKSIG : UInt8 := 0xac
@[simp] abbrev OP_CHECKSIGVERIFY : UInt8 := 0xad
@[simp] abbrev OP_CHECKMULTISIG : UInt8 := 0xae
@[simp] abbrev OP_CHECKMULTISIGVERIFY : UInt8 := 0xaf
@[simp] abbrev OP_NOP1 : UInt8 := 0xb0
@[simp] abbrev OP_CHECKLOCKTIMEVERIFY : UInt8 := 0xb1
@[simp] abbrev OP_CHECKSEQUENCEVERIFY : UInt8 := 0xb2
@[simp] abbrev OP_NOP4 : UInt8 := 0xb3
@[simp] abbrev OP_NOP10 : UInt8 := 0xb9
@[simp] abbrev OP_INVALIDOPCODE : UInt8 := 0xff

/-- `MAX_SCRIPT_ELEMENT_SIZE`. -/
@[simp] abbrev MAX_SCRIPT_ELEMENT_SIZE : ℕ := 520
/-- `MAX_OPS_PER_SCRIPT`. -/
@[simp] abbrev MAX_OPS_PER_SCRIPT : ℕ := 201
/-- `MAX_PUBKEYS_PER_MULTISIG`. -/
@[simp] abbrev MAX_PUBKEYS_PER_MULTISIG : ℤ := 20
/-- `MAX_SCRIPT_SIZE`. -/
@[simp] abbrev MAX_SCRIPT_SIZE : ℕ := 10000
/-- `MAX_STACK_SIZE`. -/
@[simp] abbrev MAX_STACK_SIZE : ℕ := 1000

/-! ## Reading instructions -/

/-- One instruction as `GetScriptOp` returns it: the opcode, the bytes it
pushes (empty for an opcode without operand) and the script after it. -/
structure ScriptOp where
  opcode : UInt8
  data : valtype
  rest : CScript
  deriving DecidableEq, Repr

/-- The operand of a push of `n` bytes, or a failed read when fewer remain. -/
def takeImmediate (opcode : UInt8) (n : ℕ) (pc : CScript) : Option ScriptOp :=
  if pc.length < n then none else some ⟨opcode, pc.take n, pc.drop n⟩

/-- `GetScriptOp`: read the instruction at the front of the script. -/
def getScriptOp : CScript → Option ScriptOp
  | [] => none
  | opcode :: pc =>
    if opcode < OP_PUSHDATA1 then takeImmediate opcode opcode.toNat pc
    else if opcode = OP_PUSHDATA1 then
      match pc with
      | [] => none
      | n :: pc => takeImmediate opcode n.toNat pc
    else if opcode = OP_PUSHDATA2 then
      if pc.length < 2 then none else takeImmediate opcode (leValue (pc.take 2)) (pc.drop 2)
    else if opcode = OP_PUSHDATA4 then
      if pc.length < 4 then none else takeImmediate opcode (leValue (pc.take 4)) (pc.drop 4)
    else some ⟨opcode, [], pc⟩

theorem getScriptOp_cons (opcode : UInt8) (pc : CScript) :
    getScriptOp (opcode :: pc) =
      if opcode < OP_PUSHDATA1 then takeImmediate opcode opcode.toNat pc
      else if opcode = OP_PUSHDATA1 then
        match pc with
        | [] => none
        | n :: pc => takeImmediate opcode n.toNat pc
      else if opcode = OP_PUSHDATA2 then
        if pc.length < 2 then none else takeImmediate opcode (leValue (pc.take 2)) (pc.drop 2)
      else if opcode = OP_PUSHDATA4 then
        if pc.length < 4 then none else takeImmediate opcode (leValue (pc.take 4)) (pc.drop 4)
      else some ⟨opcode, [], pc⟩ := rfl

theorem getScriptOp_cons_of_gt_pushdata4 {opcode : UInt8} (h : OP_PUSHDATA4 < opcode)
    (pc : CScript) : getScriptOp (opcode :: pc) = some ⟨opcode, [], pc⟩ := by
  simp only [UInt8.lt_iff_toNat_lt, OP_PUSHDATA4, UInt8.reduceToNat] at h
  have h1 : ¬ opcode < OP_PUSHDATA1 := by simp [UInt8.lt_iff_toNat_lt]; omega
  have hne : ∀ c : UInt8, c.toNat ≤ 0x4e → opcode ≠ c := by
    rintro c hc rfl; omega
  simp [getScriptOp, h1, hne 0x4c (by decide), hne 0x4d (by decide), hne 0x4e (by decide)]

private theorem length_rest_takeImmediate {opcode : UInt8} {n : ℕ} {pc : CScript}
    {o : ScriptOp} (h : takeImmediate opcode n pc = some o) : o.rest.length ≤ pc.length := by
  unfold takeImmediate at h
  split at h
  · cases h
  · cases h; simp

/-- Every successful read consumes at least one byte. -/
theorem length_rest_getScriptOp {pc : CScript} {o : ScriptOp} (h : getScriptOp pc = some o) :
    o.rest.length < pc.length := by
  cases pc with
  | nil => simp [getScriptOp] at h
  | cons opcode pc =>
    simp only [getScriptOp] at h
    -- each branch reads through `takeImmediate` from a suffix of `pc`, or returns `pc`
    split_ifs at h with h1 h2 h3 h4
    · have := length_rest_takeImmediate h; simp; omega
    · cases pc with
      | nil => simp at h
      | cons n pc => have := length_rest_takeImmediate h; simp; omega
    · have := length_rest_takeImmediate h; simp at this ⊢; omega
    · have := length_rest_takeImmediate h; simp at this ⊢; omega
    · cases h; simp

private theorem takeImmediate_append_of_some {opcode : UInt8} {n : ℕ} {pc : CScript}
    {o : ScriptOp} (h : takeImmediate opcode n pc = some o) (t : CScript) :
    takeImmediate opcode n (pc ++ t) = some ⟨o.opcode, o.data, o.rest ++ t⟩ := by
  unfold takeImmediate at h ⊢
  split at h
  · cases h
  · rename_i hn
    cases h
    have hn' : n ≤ pc.length := Nat.not_lt.mp hn
    have hnt : ¬ (pc ++ t).length < n := by simp; omega
    rw [if_neg hnt, List.take_append_of_le_length hn', List.drop_append_of_le_length hn']

/-- The `OP_PUSHDATA2` and `OP_PUSHDATA4` reads, with a `k`-byte length. -/
private theorem readPrefixed_append_of_some {opcode : UInt8} {k : ℕ} {pc : CScript}
    {o : ScriptOp}
    (h : (if pc.length < k then none else takeImmediate opcode (leValue (pc.take k)) (pc.drop k))
      = some o) (t : CScript) :
    (if (pc ++ t).length < k then none
      else takeImmediate opcode (leValue ((pc ++ t).take k)) ((pc ++ t).drop k)) =
      some ⟨o.opcode, o.data, o.rest ++ t⟩ := by
  split at h
  · cases h
  · rename_i hk
    have hk' : k ≤ pc.length := Nat.not_lt.mp hk
    have hkt : ¬ (pc ++ t).length < k := by simp; omega
    rw [if_neg hkt, List.take_append_of_le_length hk', List.drop_append_of_le_length hk']
    exact takeImmediate_append_of_some h t

/-- A read does not look past the instruction it reads: what follows the
script only extends the rest. -/
theorem getScriptOp_append {pc : CScript} {o : ScriptOp} (h : getScriptOp pc = some o)
    (t : CScript) : getScriptOp (pc ++ t) = some ⟨o.opcode, o.data, o.rest ++ t⟩ := by
  cases pc with
  | nil => simp [getScriptOp] at h
  | cons opcode pc =>
    rw [List.cons_append, getScriptOp_cons]
    rw [getScriptOp_cons] at h
    by_cases h1 : opcode < OP_PUSHDATA1
    · rw [if_pos h1] at h ⊢
      exact takeImmediate_append_of_some h t
    rw [if_neg h1] at h ⊢
    by_cases h2 : opcode = OP_PUSHDATA1
    · rw [if_pos h2] at h ⊢
      cases pc with
      | nil => simp at h
      | cons n pc => exact takeImmediate_append_of_some h t
    rw [if_neg h2] at h ⊢
    by_cases h3 : opcode = OP_PUSHDATA2
    · rw [if_pos h3] at h ⊢
      exact readPrefixed_append_of_some h t
    rw [if_neg h3] at h ⊢
    by_cases h4 : opcode = OP_PUSHDATA4
    · rw [if_pos h4] at h ⊢
      exact readPrefixed_append_of_some h t
    rw [if_neg h4] at h ⊢
    cases h
    rfl

theorem takeImmediate_eq_some {opcode : UInt8} {n : ℕ} {pc : CScript} {o : ScriptOp} :
    takeImmediate opcode n pc = some o ↔ n ≤ pc.length ∧ o = ⟨opcode, pc.take n, pc.drop n⟩ := by
  rw [takeImmediate]
  split_ifs with hn
  · simp only [false_iff, not_and]
    omega
  · rw [Option.some.injEq]
    constructor
    · intro h
      exact ⟨by omega, h.symm⟩
    · intro h
      exact h.2.symm

/-- A push cut short of its operand does not read. -/
theorem takeImmediate_take (opcode : UInt8) {n j : ℕ} (pc : CScript) (hj : j < n) :
    takeImmediate opcode n (pc.take j) = none := by
  rw [takeImmediate, if_pos]
  simp only [List.length_take]
  omega

/-- The `OP_PUSHDATA2` and `OP_PUSHDATA4` reads take the `w` length bytes and
the operand, and nothing shorter reads. -/
private theorem readPrefixed_take {opcode : UInt8} {w : ℕ} {pc : CScript} {o : ScriptOp}
    (h : (if pc.length < w then none else takeImmediate opcode (leValue (pc.take w)) (pc.drop w)) = some o) :
    ∃ k, k ≤ pc.length ∧ o.rest = pc.drop k ∧
      ∀ j < k, (if (pc.take j).length < w then none
        else takeImmediate opcode (leValue ((pc.take j).take w)) ((pc.take j).drop w)) = none := by
  split_ifs at h with hw
  obtain ⟨hn, rfl⟩ := takeImmediate_eq_some.mp h
  simp only [List.length_drop] at hn
  refine ⟨w + leValue (pc.take w), by omega, by rw [List.drop_drop], ?_⟩
  intro j hj
  have hlen : (pc.take j).length = j := by
    rw [List.length_take]
    omega
  by_cases hjw : j < w
  · rw [if_pos (by omega)]
  · have hmin : min w j = w := by omega
    rw [if_neg (by omega), List.take_take, hmin, List.drop_take]
    exact takeImmediate_take opcode _ (by omega)

/-- `GetScriptOp` reads one instruction from the front of the script and no
further: its rest is what follows the first `k` bytes, and every shorter
part of the script, a truncated push among them, fails to read. -/
theorem getScriptOp_exact {pc : CScript} {o : ScriptOp} (h : getScriptOp pc = some o) :
    ∃ k, 0 < k ∧ k ≤ pc.length ∧ o.rest = pc.drop k ∧ ∀ j < k, getScriptOp (pc.take j) = none := by
  cases pc with
  | nil => cases h
  | cons opcode pc =>
    rw [getScriptOp_cons] at h
    by_cases h1 : opcode < OP_PUSHDATA1
    · rw [if_pos h1] at h
      obtain ⟨hn, rfl⟩ := takeImmediate_eq_some.mp h
      refine ⟨opcode.toNat + 1, by omega, by simp only [List.length_cons]; omega, rfl, ?_⟩
      intro j hj
      cases j with
      | zero => rfl
      | succ j =>
        rw [List.take_succ_cons, getScriptOp_cons, if_pos h1]
        exact takeImmediate_take opcode pc (by omega)
    rw [if_neg h1] at h
    by_cases h2 : opcode = OP_PUSHDATA1
    · rw [if_pos h2] at h
      cases pc with
      | nil => cases h
      | cons n pc =>
        obtain ⟨hn, rfl⟩ := takeImmediate_eq_some.mp h
        refine ⟨n.toNat + 2, by omega, by simp only [List.length_cons]; omega, rfl, ?_⟩
        intro j hj
        match j with
        | 0 => rfl
        | 1 => rw [List.take_succ_cons, getScriptOp_cons, if_neg h1, if_pos h2]; rfl
        | j + 2 =>
          rw [List.take_succ_cons, List.take_succ_cons, getScriptOp_cons, if_neg h1, if_pos h2]
          exact takeImmediate_take opcode pc (by omega)
    rw [if_neg h2] at h
    by_cases h3 : opcode = OP_PUSHDATA2
    · rw [if_pos h3] at h
      obtain ⟨k, hk, hrest, htrunc⟩ := readPrefixed_take h
      refine ⟨k + 1, by omega, by simp only [List.length_cons]; omega, hrest, ?_⟩
      intro j hj
      cases j with
      | zero => rfl
      | succ j =>
        rw [List.take_succ_cons, getScriptOp_cons, if_neg h1, if_neg h2, if_pos h3]
        exact htrunc j (by omega)
    rw [if_neg h3] at h
    by_cases h4 : opcode = OP_PUSHDATA4
    · rw [if_pos h4] at h
      obtain ⟨k, hk, hrest, htrunc⟩ := readPrefixed_take h
      refine ⟨k + 1, by omega, by simp only [List.length_cons]; omega, hrest, ?_⟩
      intro j hj
      cases j with
      | zero => rfl
      | succ j =>
        rw [List.take_succ_cons, getScriptOp_cons, if_neg h1, if_neg h2, if_neg h3, if_pos h4]
        exact htrunc j (by omega)
    rw [if_neg h4] at h
    cases h
    refine ⟨1, by omega, by simp, rfl, ?_⟩
    intro j hj
    obtain rfl : j = 0 := by omega
    rfl

/-! ## Writing data pushes -/

/-- The opcode and length bytes `CScript::operator<<` writes before the data. -/
def pushPrefix (b : valtype) : CScript :=
  if b.length < OP_PUSHDATA1.toNat then [UInt8.ofNat b.length]
  else if b.length ≤ 0xff then [OP_PUSHDATA1, UInt8.ofNat b.length]
  else if b.length ≤ 0xffff then OP_PUSHDATA2 :: leBytes 2 b.length
  else OP_PUSHDATA4 :: leBytes 4 b.length

/-- `CScript::operator<<(const std::vector<unsigned char>&)`: the shortest
length form of a push, then the bytes. -/
def pushData (b : valtype) : CScript := pushPrefix b ++ b

/-- `CScript() << b₁ << ... << bₙ`: the pushes of each byte string in turn. -/
def pushAll (bs : List valtype) : CScript := bs.flatMap pushData

@[simp] theorem pushAll_nil : pushAll [] = [] := rfl

@[simp] theorem pushAll_cons (b : valtype) (bs : List valtype) :
    pushAll (b :: bs) = pushData b ++ pushAll bs := rfl

theorem pushData_ne_nil (b : valtype) : pushData b ≠ [] := by
  simp only [pushData, pushPrefix]
  split_ifs <;> simp

/-- The opcode a data push starts with. -/
def pushOpcode (b : valtype) : UInt8 :=
  if b.length < OP_PUSHDATA1.toNat then UInt8.ofNat b.length
  else if b.length ≤ 0xff then OP_PUSHDATA1
  else if b.length ≤ 0xffff then OP_PUSHDATA2
  else OP_PUSHDATA4

theorem pushOpcode_of_lt {b : valtype} (h : b.length < 76) :
    pushOpcode b = UInt8.ofNat b.length := by
  simp [pushOpcode, h]

theorem pushOpcode_le_pushdata4 (b : valtype) : pushOpcode b ≤ OP_PUSHDATA4 := by
  unfold pushOpcode
  split_ifs with h1
  · have : b.length < 76 := by simpa using h1
    simp only [UInt8.le_iff_toNat_le, UInt8.toNat_ofNat']
    simp
    omega
  all_goals decide

private theorem takeImmediate_append (opcode : UInt8) (b s : List UInt8) :
    takeImmediate opcode b.length (b ++ s) = some ⟨opcode, b, s⟩ := by
  simp [takeImmediate]

/-- An `OP_PUSHDATA2` or `OP_PUSHDATA4` operand: a `k`-byte length that fits,
then the bytes. -/
private theorem readPrefixed_leBytes {opcode : UInt8} {k : ℕ} {b : valtype} (s : CScript)
    (hb : b.length < 256 ^ k) :
    (if (leBytes k b.length ++ (b ++ s)).length < k then none
      else takeImmediate opcode (leValue ((leBytes k b.length ++ (b ++ s)).take k))
        ((leBytes k b.length ++ (b ++ s)).drop k)) = some ⟨opcode, b, s⟩ := by
  have hk : (leBytes k b.length).length = k := length_leBytes k b.length
  have hlen : ¬ (leBytes k b.length ++ (b ++ s)).length < k := by simp
  rw [if_neg hlen, List.take_left' hk, List.drop_left' hk, leValue_leBytes_of_lt hb]
  exact takeImmediate_append opcode b s

/-- The reader takes a data push back apart: its opcode, exactly the pushed
bytes, and the script that follows.  Pushes of `2 ^ 32` bytes or more do not
fit the four-byte length field and are excluded. -/
theorem getScriptOp_pushData (b s : valtype) (hb : b.length < 2 ^ 32) :
    getScriptOp (pushData b ++ s) = some ⟨pushOpcode b, b, s⟩ := by
  unfold pushData pushPrefix pushOpcode
  by_cases h1 : b.length < 76
  · -- direct push: the opcode byte is the length itself
    have htn : (UInt8.ofNat b.length).toNat = b.length := by
      rw [UInt8.toNat_ofNat']; omega
    have hlt : UInt8.ofNat b.length < OP_PUSHDATA1 := by
      simp only [UInt8.lt_iff_toNat_lt, htn]; simpa using h1
    simp only [OP_PUSHDATA1, UInt8.reduceToNat, h1, if_true, List.cons_append]
    rw [getScriptOp_cons, if_pos hlt, htn]
    exact takeImmediate_append _ b s
  by_cases h2 : b.length ≤ 0xff
  · have htn : (UInt8.ofNat b.length).toNat = b.length := by
      rw [UInt8.toNat_ofNat']; omega
    simp only [OP_PUSHDATA1, UInt8.reduceToNat, h1, h2, if_false, if_true, List.cons_append,
      List.nil_append]
    simp [getScriptOp, htn, takeImmediate_append]
  by_cases h3 : b.length ≤ 0xffff
  · simp only [OP_PUSHDATA1, UInt8.reduceToNat, h1, h2, h3, if_false, if_true,
      List.cons_append, List.append_assoc]
    rw [getScriptOp_cons, if_neg (by decide), if_neg (by decide), if_pos rfl]
    exact readPrefixed_leBytes _ (by omega)
  · simp only [OP_PUSHDATA1, UInt8.reduceToNat, h1, h2, h3, if_false, List.cons_append,
      List.append_assoc]
    rw [getScriptOp_cons, if_neg (by decide), if_neg (by decide), if_neg (by decide),
      if_pos rfl]
    exact readPrefixed_leBytes _ (by omega)

/-! ## Script numbers -/

/-- The magnitude loop of `CScriptNum::serialize`:
`while (absvalue) { push(absvalue & 0xff); absvalue >>= 8; }` on a
`uint64_t`, so eight rounds are enough fuel. -/
def magnitudeBytes : ℕ → ℕ → List UInt8
  | 0, _ => []
  | fuel + 1, n => if n = 0 then [] else UInt8.ofNat (n % 256) :: magnitudeBytes fuel (n / 256)

/-- `CScriptNum::serialize`: little-endian magnitude, the sign in the top bit of
the last byte, and an extra byte when that bit is taken by the magnitude. -/
def CScriptNum.serialize (value : ℤ) : valtype :=
  if value = 0 then [] else
    let neg := decide (value < 0)
    let result := magnitudeBytes 8 value.natAbs
    let last := result.getLastD 0
    if last &&& 0x80 ≠ 0 then result ++ [if neg then 0x80 else 0]
    else if neg then result.dropLast ++ [last ||| 0x80]
    else result

/-- `CScriptNum::set_vch`: the value of a little-endian sign-magnitude string. -/
def CScriptNum.setVch (vch : valtype) : ℤ :=
  match vch.getLast? with
  | none => 0
  | some last =>
    if last &&& 0x80 ≠ 0 then -((leValue vch - 0x80 * 256 ^ (vch.length - 1) : ℕ) : ℤ)
    else (leValue vch : ℤ)

/-- The minimal-encoding test of the `CScriptNum` constructor: `false` when it
throws `non-minimally encoded script number`. -/
def CScriptNum.isMinimal (vch : valtype) : Bool :=
  match vch.getLast? with
  | none => true
  | some last =>
    if last &&& 0x7f = 0 then
      1 < vch.length && vch.getD (vch.length - 2) 0 &&& 0x80 ≠ 0
    else true

/-- `CScriptNum(vch, fRequireMinimal, nMaxNumSize)`; `none` when it throws
`scriptnum_error`. -/
def CScriptNum.ofVch (vch : valtype) (fRequireMinimal : Bool) (nMaxNumSize : ℕ := 4) :
    Option ℤ :=
  if nMaxNumSize < vch.length then none
  else if fRequireMinimal && !CScriptNum.isMinimal vch then none
  else some (CScriptNum.setVch vch)

/-- `CScriptNum::getint`: the value clamped to the range of `int`. -/
def CScriptNum.getint (value : ℤ) : ℤ := max (-2 ^ 31) (min value (2 ^ 31 - 1))

theorem CScriptNum.getint_of_lt {value : ℤ} (h₁ : -2 ^ 31 ≤ value) (h₂ : value < 2 ^ 31) :
    CScriptNum.getint value = value := by
  simp only [CScriptNum.getint]
  omega

theorem leValue_magnitudeBytes {fuel n : ℕ} (h : n < 256 ^ fuel) :
    leValue (magnitudeBytes fuel n) = n := by
  induction fuel generalizing n with
  | zero => simp_all [magnitudeBytes]
  | succ fuel ih =>
    by_cases hn : n = 0
    · simp [magnitudeBytes, hn]
    · have hdiv : n / 256 < 256 ^ fuel := by rw [pow_succ] at h; omega
      have hmod : (UInt8.ofNat (n % 256)).toNat = n % 256 := by rw [UInt8.toNat_ofNat']; omega
      simp only [magnitudeBytes, if_neg hn, leValue_cons, hmod, ih hdiv]
      omega

theorem length_magnitudeBytes_le {fuel m n : ℕ} (h : n < 256 ^ m) :
    (magnitudeBytes fuel n).length ≤ m := by
  induction fuel generalizing n m with
  | zero => simp [magnitudeBytes]
  | succ fuel ih =>
    by_cases hn : n = 0
    · simp [magnitudeBytes, hn]
    · obtain ⟨m, rfl⟩ : ∃ m', m = m' + 1 := by
        cases m with
        | zero => simp at h; omega
        | succ m => exact ⟨m, rfl⟩
      have hdiv : n / 256 < 256 ^ m := by rw [pow_succ] at h; omega
      simp only [magnitudeBytes, if_neg hn, List.length_cons]
      exact Nat.succ_le_succ (ih hdiv)

theorem getLast?_magnitudeBytes {n : ℕ} (hn : n ≠ 0) :
    (magnitudeBytes 8 n).getLast? = some ((magnitudeBytes 8 n).getLastD 0) := by
  have hne : magnitudeBytes 8 n ≠ [] := by simp [magnitudeBytes, hn]
  rw [List.getLastD_eq_getLast?]
  cases h : (magnitudeBytes 8 n).getLast? with
  | none => exact absurd (List.getLast?_eq_none_iff.mp h) hne
  | some c => rfl

/-- A positive number serialises as its magnitude, with a zero byte added
when the magnitude's top bit would read as a sign. -/
theorem CScriptNum.serialize_natCast {k : ℕ} (hk : k ≠ 0) :
    CScriptNum.serialize k = magnitudeBytes 8 k ++
      if (magnitudeBytes 8 k).getLastD 0 &&& 0x80 = 0 then [] else [0] := by
  have h0 : (k : ℤ) ≠ 0 := by exact_mod_cast hk
  have hneg : ¬ (k : ℤ) < 0 := by omega
  unfold CScriptNum.serialize
  simp only [if_neg h0, Int.natAbs_natCast, hneg, decide_false, Bool.false_eq_true, if_false,
    ne_eq, ite_not]
  split_ifs <;> simp

/-- Non-negative numbers below `2 ^ 64` read back from their serialisation. -/
theorem CScriptNum.setVch_serialize_natCast {k : ℕ} (hk : k < 2 ^ 64) :
    CScriptNum.setVch (CScriptNum.serialize k) = k := by
  rcases Nat.eq_zero_or_pos k with rfl | hpos
  · rfl
  have hmag : leValue (magnitudeBytes 8 k) = k := leValue_magnitudeBytes (by simpa using hk)
  rw [CScriptNum.serialize_natCast hpos.ne']
  by_cases htop : (magnitudeBytes 8 k).getLastD 0 &&& 0x80 = 0
  · rw [if_pos htop, List.append_nil]
    unfold CScriptNum.setVch
    rw [getLast?_magnitudeBytes hpos.ne']
    simp only [ne_eq, htop, not_true_eq_false, if_false, hmag]
  · rw [if_neg htop]
    unfold CScriptNum.setVch
    simp only [List.getLast?_append, List.getLast?_singleton, Option.some_or, UInt8.zero_and,
      ne_eq, not_true_eq_false, if_false, leValue_append, leValue_cons, leValue_nil, hmag]
    simp

/-- Numbers below `2 ^ 31` serialise in at most four bytes. -/
theorem CScriptNum.length_serialize_natCast_le {k : ℕ} (hk : k < 2 ^ 31) :
    (CScriptNum.serialize k).length ≤ 4 := by
  rcases Nat.eq_zero_or_pos k with rfl | hpos
  · simp [CScriptNum.serialize]
  have hmag : leValue (magnitudeBytes 8 k) = k := leValue_magnitudeBytes (by omega)
  rw [CScriptNum.serialize_natCast hpos.ne']
  by_cases htop : (magnitudeBytes 8 k).getLastD 0 &&& 0x80 = 0
  · rw [if_pos htop, List.append_nil]
    exact length_magnitudeBytes_le (by omega)
  · -- a last byte of at least 0x80 leaves room for three magnitude bytes only
    have hc : 128 ≤ ((magnitudeBytes 8 k).getLastD 0).toNat := by
      rw [byte_and_0x80_eq_zero] at htop
      omega
    have hle := le_leValue_of_getLast? (getLast?_magnitudeBytes hpos.ne')
    rw [hmag] at hle
    have h3 : (magnitudeBytes 8 k).length - 1 < 3 := by
      by_contra hge
      have hpow : 256 ^ 3 ≤ 256 ^ ((magnitudeBytes 8 k).length - 1) :=
        Nat.pow_le_pow_right (by decide) (by omega)
      have := Nat.mul_le_mul hc hpow
      omega
    rw [if_neg htop, List.length_append, List.length_singleton]
    omega

/-- `CScript::operator<<(int64_t)`: small numbers as `OP_0`, `OP_1NEGATE` or
`OP_1` to `OP_16`, the rest as a push of their serialisation. -/
def pushInt64 (n : ℤ) : CScript :=
  if n = -1 ∨ (1 ≤ n ∧ n ≤ 16) then [UInt8.ofNat (n + (OP_1.toNat - 1)).toNat]
  else if n = 0 then [OP_0]
  else pushData (CScriptNum.serialize n)

/-! ## Instruction streams and templates -/

/-- The instructions of a script in order, as a loop of `GetScriptOp` calls
reads them; `none` when a read fails before the end. -/
def scriptOpsAux : ℕ → CScript → Option (List ScriptOp)
  | _, [] => some []
  | 0, _ :: _ => none
  | fuel + 1, pc@(_ :: _) =>
    match getScriptOp pc with
    | none => none
    | some o => (scriptOpsAux fuel o.rest).map (o :: ·)

/-- The instruction stream of a script; its length is enough fuel. -/
def scriptOps (s : CScript) : Option (List ScriptOp) := scriptOpsAux s.length s

/-- `CScript::IsPushOnly`: every instruction up to the end reads and is at most `OP_16`. -/
def isPushOnly (s : CScript) : Bool :=
  match scriptOps s with
  | none => false
  | some ops => ops.all (fun o => o.opcode ≤ OP_16)

theorem scriptOpsAux_succ {fuel : ℕ} {pc : CScript} {o : ScriptOp} (hpc : pc ≠ [])
    (h : getScriptOp pc = some o) :
    scriptOpsAux (fuel + 1) pc = (scriptOpsAux fuel o.rest).map (o :: ·) := by
  obtain ⟨c, s, rfl⟩ := List.exists_cons_of_ne_nil hpc
  simp [scriptOpsAux, h]

/-- The pushes of byte strings of fewer than `2 ^ 32` bytes read as pushes,
one instruction each. -/
theorem scriptOpsAux_pushAll {bs : List valtype} (hbs : ∀ b ∈ bs, b.length < 2 ^ 32) :
    ∀ fuel, bs.length ≤ fuel → ∃ ops, scriptOpsAux fuel (pushAll bs) = some ops ∧
      ∀ o ∈ ops, o.opcode ≤ OP_PUSHDATA4 := by
  induction bs with
  | nil => intro fuel _; exact ⟨[], by cases fuel <;> rfl, by simp⟩
  | cons b bs ih =>
    intro fuel hfuel
    obtain ⟨fuel', rfl⟩ : ∃ fuel', fuel = fuel' + 1 := ⟨fuel - 1, by simp at hfuel; omega⟩
    have hread := getScriptOp_pushData b (pushAll bs) (hbs b (by simp))
    obtain ⟨ops, hops, hle⟩ := ih (fun b' hb' => hbs b' (by simp [hb'])) fuel'
      (by simp at hfuel; omega)
    refine ⟨⟨pushOpcode b, b, pushAll bs⟩ :: ops, ?_, ?_⟩
    · rw [pushAll_cons, scriptOpsAux_succ (by simp [pushData_ne_nil]) hread, hops]
      rfl
    · intro o ho
      rcases List.mem_cons.mp ho with rfl | ho
      · exact pushOpcode_le_pushdata4 b
      · exact hle o ho

/-- Every push takes at least a byte. -/
theorem length_le_length_pushAll (bs : List valtype) : bs.length ≤ (pushAll bs).length := by
  induction bs with
  | nil => simp
  | cons b bs ih =>
    have := List.length_pos_of_ne_nil (pushData_ne_nil b)
    simp only [pushAll_cons, List.length_append, List.length_cons]
    omega

theorem isPushOnly_pushAll {bs : List valtype} (hbs : ∀ b ∈ bs, b.length < 2 ^ 32) :
    isPushOnly (pushAll bs) = true := by
  obtain ⟨ops, hops, hle⟩ := scriptOpsAux_pushAll hbs _ (length_le_length_pushAll bs)
  simp only [isPushOnly, scriptOps, hops, List.all_eq_true, decide_eq_true_eq]
  intro o ho
  have hpush := hle o ho
  simp only [UInt8.le_iff_toNat_le, OP_PUSHDATA4, OP_16, UInt8.reduceToNat] at hpush ⊢
  omega

/-- More fuel reads the same stream. -/
theorem scriptOpsAux_mono {fuel : ℕ} {pc : CScript} {ops : List ScriptOp}
    (h : scriptOpsAux fuel pc = some ops) {fuel' : ℕ} (hle : fuel ≤ fuel') :
    scriptOpsAux fuel' pc = some ops := by
  induction fuel generalizing pc ops fuel' with
  | zero =>
    cases pc with
    | nil => cases fuel' <;> simpa [scriptOpsAux] using h
    | cons c pc => simp [scriptOpsAux] at h
  | succ fuel ih =>
    obtain ⟨fuel', rfl⟩ : ∃ k, fuel' = k + 1 := ⟨fuel' - 1, by omega⟩
    cases pc with
    | nil => simpa [scriptOpsAux] using h
    | cons c pc =>
      cases ho : getScriptOp (c :: pc) with
      | none => simp [scriptOpsAux, ho] at h
      | some o =>
        rw [scriptOpsAux_succ (List.cons_ne_nil c pc) ho] at h ⊢
        obtain ⟨ops', hops', rfl⟩ := Option.map_eq_some_iff.mp h
        rw [ih hops' (by omega)]
        rfl

/-- The instruction `o` read from `pc`, followed by `t`. -/
def ScriptOp.extend (t : CScript) (o : ScriptOp) : ScriptOp := ⟨o.opcode, o.data, o.rest ++ t⟩

/-- A script that reads to its end, followed by one that does, reads as the
first's instructions with the second appended to their rests, then the
second's. -/
theorem scriptOpsAux_append {fuel : ℕ} {pc : CScript} {ops : List ScriptOp}
    (h : scriptOpsAux fuel pc = some ops) {fuel₂ : ℕ} {t : CScript} {ops₂ : List ScriptOp}
    (h₂ : scriptOpsAux fuel₂ t = some ops₂) :
    scriptOpsAux (fuel + fuel₂) (pc ++ t) = some (ops.map (ScriptOp.extend t) ++ ops₂) := by
  induction fuel generalizing pc ops with
  | zero =>
    cases pc with
    | nil =>
      simp only [scriptOpsAux, Option.some.injEq] at h
      subst h
      simpa using h₂
    | cons c pc => simp [scriptOpsAux] at h
  | succ fuel ih =>
    cases pc with
    | nil =>
      simp only [scriptOpsAux, Option.some.injEq] at h
      subst h
      simpa using scriptOpsAux_mono h₂ (by omega)
    | cons c pc =>
      cases ho : getScriptOp (c :: pc) with
      | none => simp [scriptOpsAux, ho] at h
      | some o =>
        rw [scriptOpsAux_succ (List.cons_ne_nil c pc) ho] at h
        obtain ⟨ops', hops', rfl⟩ := Option.map_eq_some_iff.mp h
        rw [Nat.add_right_comm, List.cons_append,
          scriptOpsAux_succ (List.cons_ne_nil c (pc ++ t)) (getScriptOp_append ho t), ih hops']
        rfl

theorem scriptOps_append_pushData {P : CScript} {ops : List ScriptOp} (hP : scriptOps P = some ops)
    {b : valtype} (hb : b.length < 2 ^ 32) :
    scriptOps (P ++ pushData b) = some (ops.map (ScriptOp.extend (pushData b)) ++ [⟨pushOpcode b, b, []⟩]) := by
  have hpush : scriptOpsAux 1 (pushData b) = some [⟨pushOpcode b, b, []⟩] := by
    have hread := getScriptOp_pushData b [] hb
    rw [List.append_nil] at hread
    rw [scriptOpsAux_succ (pushData_ne_nil b) hread]
    rfl
  have hlen : 0 < (pushData b).length := List.length_pos_of_ne_nil (pushData_ne_nil b)
  rw [scriptOps, List.length_append]
  exact scriptOpsAux_mono (scriptOpsAux_append hP hpush) (by omega)

theorem getScriptOp_pushData_inverse :
    (∀ (P : CScript) (ops : List ScriptOp) (b : valtype), scriptOps P = some ops → b.length < 2 ^ 32 →
      scriptOps (P ++ pushData b) = some (ops.map (ScriptOp.extend (pushData b)) ++ [⟨pushOpcode b, b, []⟩])) ∧
    ∀ (pc : CScript) (o : ScriptOp), getScriptOp pc = some o →
      ∃ k, 0 < k ∧ k ≤ pc.length ∧ o.rest = pc.drop k ∧ ∀ j < k, getScriptOp (pc.take j) = none :=
  ⟨fun _ _ _ hP hb => scriptOps_append_pushData hP hb, fun _ _ h => getScriptOp_exact h⟩

theorem getScriptOp_pushData_inverse_dup :
    scriptOps ([OP_DUP] ++ pushData [1, 2, 3]) = some [⟨OP_DUP, [], pushData [1, 2, 3]⟩, ⟨3, [1, 2, 3], []⟩] :=
  getScriptOp_pushData_inverse.1 [OP_DUP] [⟨OP_DUP, [], []⟩] [1, 2, 3] (by decide) (by decide)

/-- `CScript::IsPayToScriptHash`: `OP_HASH160 <20 bytes> OP_EQUAL`. -/
def isPayToScriptHash (s : CScript) : Bool :=
  s.length == 23 && s.getD 0 0 == OP_HASH160 && s.getD 1 0 == 0x14 && s.getD 22 0 == OP_EQUAL

/-- `CScript::IsWitnessProgram`: a version opcode and one direct push of 2 to
40 bytes; returns the decoded version and the program. -/
def isWitnessProgram (s : CScript) : Option (ℕ × valtype) :=
  match s with
  | v :: len :: program =>
    if s.length < 4 ∨ 42 < s.length then none
    else if v ≠ OP_0 ∧ (v < OP_1 ∨ OP_16 < v) then none
    else if len.toNat + 2 = s.length then
      some (if v = OP_0 then 0 else v.toNat - (OP_1.toNat - 1), program)
    else none
  | _ => none

/-- `CScript::IsUnspendable`. -/
def isUnspendable (s : CScript) : Bool :=
  (s.headD 0 == OP_RETURN && !s.isEmpty) || MAX_SCRIPT_SIZE < s.length

end XPChain
