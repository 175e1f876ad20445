import Mips.Proofs.Encoding

/-!
# Words are what they decode to

A word is put together again from its fields, provided that the fields which its instruction does
not use are zero. Decoding refuses all other words, so that it is the inverse of encoding: words
that decode and instructions correspond one to one.
-/
namespace Mips

theorem Opcode.ofCode?_eq_some {code : BitVec 6} {o : Opcode} :
    ofCode? code = some o ↔ o.code = code := by
  constructor
  · intro found
    unfold ofCode? at found
    have same := List.find?_some found
    exact beq_iff_eq.1 same
  · rintro rfl
    exact ofCode?_code o

namespace FunctionCode

/-- The operation code of the words that have a function. -/
def opcode : FunctionCode → Opcode
  | reg op => MachineInstr.tableOf op
  | shift _ | jr | syscall => .special

theorem opcode_of_mem_mainTable : ∀ f ∈ mainTable, f.opcode = .special := by decide

theorem opcode_of_mem_secondTable : ∀ f ∈ secondTable, f.opcode = .special2 := by decide

theorem mem_of_ofCode? {table : List FunctionCode} {code : BitVec 6} {f : FunctionCode}
    (found : ofCode? table code = some f) : f ∈ table ∧ f.code = code := by
  unfold ofCode? at found
  have same := List.find?_some found
  exact ⟨List.mem_of_find?_eq_some found, beq_iff_eq.1 same⟩

end FunctionCode

namespace MachineInstr

variable {w : Word} {i : MachineInstr} {opcode : Opcode}

theorem ifUnused_eq_ok {zero : Bool} {j : MachineInstr} :
    ifUnused zero j = .ok i ↔ zero = true ∧ j = i := by
  cases zero with
  | true => simp [ifUnused]
  | false => simp [ifUnused]

/-- The fields of a word are next to each other and leave nothing out. -/
theorem registerWord_fields {function : FunctionCode} (ho : opcode.code = opcodeField w)
    (hf : function.code = functionField w) :
    registerWord opcode (rsField w) (rtField w) (rdField w) (amountField w) function = w := by
  unfold registerWord
  rw [ho, hf]
  unfold opcodeField rsField rtField rdField amountField functionField
  rw [BitVec.extractLsb'_append_extractLsb'_eq_extractLsb' (by decide),
    BitVec.extractLsb'_append_extractLsb'_eq_extractLsb' (by decide),
    BitVec.extractLsb'_append_extractLsb'_eq_extractLsb' (by decide),
    BitVec.extractLsb'_append_extractLsb'_eq_extractLsb' (by decide),
    BitVec.extractLsb'_append_extractLsb'_eq_extractLsb' (by decide), BitVec.extractLsb'_eq_self]

theorem immediateWord_fields (ho : opcode.code = opcodeField w) :
    immediateWord opcode (rsField w) (rtField w) (immediateField w) = w := by
  unfold immediateWord
  rw [ho]
  unfold opcodeField rsField rtField immediateField
  rw [BitVec.extractLsb'_append_extractLsb'_eq_extractLsb' (by decide),
    BitVec.extractLsb'_append_extractLsb'_eq_extractLsb' (by decide),
    BitVec.extractLsb'_append_extractLsb'_eq_extractLsb' (by decide), BitVec.extractLsb'_eq_self]

theorem jumpWord_fields (ho : opcode.code = opcodeField w) :
    jumpWord opcode (targetField w) = w := by
  unfold jumpWord
  rw [ho]
  unfold opcodeField targetField
  rw [BitVec.extractLsb'_append_extractLsb'_eq_extractLsb' (by decide), BitVec.extractLsb'_eq_self]

theorem encode_of_decodeFunction {table : List FunctionCode}
    (home : ∀ f ∈ table, f.opcode = opcode) (ho : opcode.code = opcodeField w)
    (decoded : decodeFunction table w = .ok i) : i.encode = w := by
  unfold decodeFunction at decoded
  cases found : FunctionCode.ofCode? table (functionField w) with
  | none => simp [found] at decoded
  | some f =>
    obtain ⟨member, hf⟩ := FunctionCode.mem_of_ofCode? found
    have whole := registerWord_fields ho hf
    have homed := home f member
    rw [found] at decoded
    cases f with
    | reg op =>
      obtain ⟨zero, rfl⟩ := ifUnused_eq_ok.1 decoded
      rw [beq_iff_eq.1 zero, ← homed] at whole
      exact whole
    | shift op =>
      obtain ⟨zero, rfl⟩ := ifUnused_eq_ok.1 decoded
      rw [beq_iff_eq.1 zero, ← homed] at whole
      exact whole
    | jr =>
      obtain ⟨zero, rfl⟩ := ifUnused_eq_ok.1 decoded
      simp only [Bool.and_eq_true, beq_iff_eq] at zero
      obtain ⟨⟨rt, rd⟩, amount⟩ := zero
      rw [rt, rd, amount, ← homed] at whole
      exact whole
    | syscall =>
      obtain ⟨zero, rfl⟩ := ifUnused_eq_ok.1 decoded
      simp only [Bool.and_eq_true, beq_iff_eq] at zero
      obtain ⟨⟨⟨rs, rt⟩, rd⟩, amount⟩ := zero
      rw [rs, rt, rd, amount, ← homed] at whole
      exact whole

theorem encode_of_decode (decoded : decode w = .ok i) : i.encode = w := by
  unfold decode at decoded
  cases found : Opcode.ofCode? (opcodeField w) with
  | none => simp [found] at decoded
  | some o =>
    have ho := Opcode.ofCode?_eq_some.1 found
    rw [found] at decoded
    cases o with
    | special =>
      exact encode_of_decodeFunction FunctionCode.opcode_of_mem_mainTable ho decoded
    | special2 =>
      exact encode_of_decodeFunction FunctionCode.opcode_of_mem_secondTable ho decoded
    | imm op =>
      cases decoded
      exact immediateWord_fields ho
    | lui =>
      obtain ⟨zero, rfl⟩ := ifUnused_eq_ok.1 decoded
      have whole := immediateWord_fields ho
      rw [beq_iff_eq.1 zero] at whole
      exact whole
    | mem op =>
      cases decoded
      exact immediateWord_fields ho
    | branch op =>
      cases decoded
      exact immediateWord_fields ho
    | jump op =>
      cases decoded
      exact jumpWord_fields ho

theorem encode_injective : Function.Injective encode := by
  intro i j same
  have decoded := congrArg decode same
  rw [decode_encode, decode_encode] at decoded
  exact Except.ok.inj decoded

/-- Every instruction is read back from its word, and every word that is read as an instruction is
the word of this instruction. Hence instructions have different words, and the words that are
refused are those of no instruction. -/
theorem decode_inverts_encode :
    (∀ i : MachineInstr, decode i.encode = .ok i) ∧
    (∀ (w : Word) (i : MachineInstr), decode w = .ok i → i.encode = w) ∧
    Function.Injective encode ∧
    ∀ w : Word, (∃ e, decode w = .error e) ↔ ¬∃ i : MachineInstr, i.encode = w := by
  refine ⟨decode_encode, fun w i => encode_of_decode, encode_injective, fun w => ?_⟩
  constructor
  · rintro ⟨e, refused⟩ ⟨i, rfl⟩
    rw [decode_encode] at refused
    cases refused
  · intro none
    cases decoded : decode w with
    | error e => exact ⟨e, rfl⟩
    | ok i => exact absurd ⟨i, encode_of_decode decoded⟩ none

end MachineInstr

end Mips
