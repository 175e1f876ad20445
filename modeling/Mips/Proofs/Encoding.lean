import Mips.MachineInstr.Encoding

/-!
# Reading words back

A word is a concatenation, and each field of it is read where it was put. Operation and function
codes are told apart by their tables, so that the word of an instruction decodes to it.
-/
namespace Mips

theorem Opcode.ofCode?_code (o : Opcode) : ofCode? o.code = some o := by
  cases o with
  | imm op | mem op | branch op | jump op => cases op <;> rfl
  | _ => rfl

theorem FunctionCode.ofCode?_code {table : List FunctionCode}
    (ht : table = mainTable ∨ table = secondTable) {f : FunctionCode} (hf : f ∈ table) :
    ofCode? table f.code = some f := by
  have main : ∀ f ∈ mainTable, ofCode? mainTable f.code = some f := by decide
  have second : ∀ f ∈ secondTable, ofCode? secondTable f.code = some f := by decide
  rcases ht with rfl | rfl
  · exact main f hf
  · exact second f hf

namespace MachineInstr

section RegisterWord

variable (opcode : Opcode) (rs rt rd : Register) (amount : BitVec 5) (function : FunctionCode)

@[simp] theorem opcodeField_registerWord :
    opcodeField (registerWord opcode rs rt rd amount function) = opcode.code := by
  unfold opcodeField registerWord
  rw [BitVec.extractLsb'_append_eq_of_le (by decide),
    BitVec.extractLsb'_append_eq_of_le (by decide),
    BitVec.extractLsb'_append_eq_of_le (by decide), BitVec.extractLsb'_append_eq_of_le (by decide),
    BitVec.extractLsb'_append_eq_left]

@[simp] theorem rsField_registerWord :
    rsField (registerWord opcode rs rt rd amount function) = rs := by
  unfold rsField registerWord
  rw [BitVec.extractLsb'_append_eq_of_le (by decide),
    BitVec.extractLsb'_append_eq_of_le (by decide),
    BitVec.extractLsb'_append_eq_of_le (by decide), BitVec.extractLsb'_append_eq_of_le (by decide),
    BitVec.extractLsb'_append_eq_right]

@[simp] theorem rtField_registerWord :
    rtField (registerWord opcode rs rt rd amount function) = rt := by
  unfold rtField registerWord
  rw [BitVec.extractLsb'_append_eq_of_le (by decide),
    BitVec.extractLsb'_append_eq_of_le (by decide),
    BitVec.extractLsb'_append_eq_of_le (by decide), BitVec.extractLsb'_append_eq_right]

@[simp] theorem rdField_registerWord :
    rdField (registerWord opcode rs rt rd amount function) = rd := by
  unfold rdField registerWord
  rw [BitVec.extractLsb'_append_eq_of_le (by decide),
    BitVec.extractLsb'_append_eq_of_le (by decide),
    BitVec.extractLsb'_append_eq_right]

@[simp] theorem amountField_registerWord :
    amountField (registerWord opcode rs rt rd amount function) = amount := by
  unfold amountField registerWord
  rw [BitVec.extractLsb'_append_eq_of_le (by decide), BitVec.extractLsb'_append_eq_right]

@[simp] theorem functionField_registerWord :
    functionField (registerWord opcode rs rt rd amount function) = function.code := by
  unfold functionField registerWord
  rw [BitVec.extractLsb'_append_eq_right]

end RegisterWord

section ImmediateWord

variable (opcode : Opcode) (rs rt : Register) (value : BitVec 16)

@[simp] theorem opcodeField_immediateWord :
    opcodeField (immediateWord opcode rs rt value) = opcode.code := by
  unfold opcodeField immediateWord
  rw [BitVec.extractLsb'_append_eq_of_le (by decide),
    BitVec.extractLsb'_append_eq_of_le (by decide),
    BitVec.extractLsb'_append_eq_left]

@[simp] theorem rsField_immediateWord : rsField (immediateWord opcode rs rt value) = rs := by
  unfold rsField immediateWord
  rw [BitVec.extractLsb'_append_eq_of_le (by decide),
    BitVec.extractLsb'_append_eq_of_le (by decide),
    BitVec.extractLsb'_append_eq_right]

@[simp] theorem rtField_immediateWord : rtField (immediateWord opcode rs rt value) = rt := by
  unfold rtField immediateWord
  rw [BitVec.extractLsb'_append_eq_of_le (by decide), BitVec.extractLsb'_append_eq_right]

@[simp] theorem immediateField_immediateWord :
    immediateField (immediateWord opcode rs rt value) = value := by
  unfold immediateField immediateWord
  rw [BitVec.extractLsb'_append_eq_right]

end ImmediateWord

@[simp] theorem opcodeField_jumpWord (opcode : Opcode) (target : BitVec 26) :
    opcodeField (jumpWord opcode target) = opcode.code := by
  unfold opcodeField jumpWord
  rw [BitVec.extractLsb'_append_eq_left]

@[simp] theorem targetField_jumpWord (opcode : Opcode) (target : BitVec 26) :
    targetField (jumpWord opcode target) = target := by
  unfold targetField jumpWord
  rw [BitVec.extractLsb'_append_eq_right]

theorem decodeFunction_registerWord {table : List FunctionCode}
    (ht : table = FunctionCode.mainTable ∨ table = FunctionCode.secondTable) (opcode : Opcode)
    (rs rt rd : Register) (amount : BitVec 5) (function : FunctionCode) :
    function ∈ table → decodeFunction table (registerWord opcode rs rt rd amount function) =
      match function with
      | .reg op => ifUnused (amount == 0) (.reg op rd rs rt)
      | .shift op => ifUnused (rs == .zero) (.shift op rd rt amount)
      | .jr => ifUnused (rt == .zero && rd == .zero && amount == 0) (.jr rs)
      | .syscall =>
        ifUnused (rs == .zero && rt == .zero && rd == .zero && amount == 0) .syscall := by
  intro hf
  simp only [decodeFunction, functionField_registerWord, rsField_registerWord,
    rtField_registerWord, rdField_registerWord, amountField_registerWord,
    FunctionCode.ofCode?_code ht hf]
  cases function <;> rfl

theorem decode_special (rs rt rd : Register) (amount : BitVec 5) (function : FunctionCode) :
    decode (registerWord .special rs rt rd amount function) =
      decodeFunction FunctionCode.mainTable (registerWord .special rs rt rd amount function) := by
  rw [decode, opcodeField_registerWord, Opcode.ofCode?_code]

theorem decode_special2 (rs rt rd : Register) (amount : BitVec 5) (function : FunctionCode) :
    decode (registerWord .special2 rs rt rd amount function) =
      decodeFunction FunctionCode.secondTable
        (registerWord .special2 rs rt rd amount function) := by
  rw [decode, opcodeField_registerWord, Opcode.ofCode?_code]

theorem decode_encode (i : MachineInstr) : decode i.encode = .ok i := by
  cases i with
  | reg op rd rs rt =>
    cases op with
    | mul =>
      change decode (registerWord .special2 rs rt rd 0 _) = _
      rw [decode_special2,
        decodeFunction_registerWord (.inr rfl) _ _ _ _ _ _ (by decide)]
      rfl
    | _ =>
      change decode (registerWord .special rs rt rd 0 _) = _
      rw [decode_special,
        decodeFunction_registerWord (.inl rfl) _ _ _ _ _ _ (by decide)]
      rfl
  | shift op rd rt amount =>
    rw [encode, decode_special,
      decodeFunction_registerWord (.inl rfl) _ _ _ _ _ _ (by cases op <;> decide)]
    rfl
  | jr rs =>
    rw [encode, decode_special, decodeFunction_registerWord (.inl rfl) _ _ _ _ _ _ (by decide)]
    rfl
  | syscall => rfl
  | imm op rt rs value => simp [encode, decode, Opcode.ofCode?_code]
  | lui rt value => simp [encode, decode, Opcode.ofCode?_code, ifUnused]
  | mem op rt base offset => simp [encode, decode, Opcode.ofCode?_code]
  | branch op rs rt offset => simp [encode, decode, Opcode.ofCode?_code]
  | jump op target => simp [encode, decode, Opcode.ofCode?_code]

end MachineInstr

end Mips
