import Mathlib.Data.List.Nodup
import Mips.Proofs.OperandGrammar

/-!
# Signatures

Each mnemonic asks for a list of operands of certain kinds, and its instruction has one argument for
each of them. The reader of instructions goes by the shapes of mnemonics; that it does what the
signatures say is one equivalence between operands and arguments, from which follow both what is
accepted and what comes of it. The same is said of directives, and of both together.
-/
namespace Mips

/-- What an operand is asked for. -/
inductive Kind where
  | register
  /-- The amount of a shift. -/
  | amount
  | word
  | label
  | address
  deriving DecidableEq

/-- What an instruction carries in the place of an operand. -/
inductive Argument where
  | register (r : Register)
  | amount (amount : BitVec 5)
  | word (value : Word)
  | label (label : Label)
  | address (address : Address)
  deriving DecidableEq

def Argument.kind : Argument → Kind
  | register _ => .register
  | amount _ => .amount
  | word _ => .word
  | label _ => .label
  | address _ => .address

/-- The kinds of the operands of a mnemonic, in source order. -/
def Mnemonic.signature : Mnemonic → List Kind
  | reg _ => [.register, .register, .register]
  | shift _ => [.register, .register, .amount]
  | jr => [.register]
  | imm _ => [.register, .register, .word]
  | lui | li => [.register, .word]
  | la => [.register, .label]
  | mem _ => [.register, .address]
  | branch _ => [.register, .register, .label]
  | jump _ => [.label]
  | move => [.register, .register]
  | syscall => []

def Instr.arguments : Instr → List Argument
  | reg _ rd rs rt => [.register rd, .register rs, .register rt]
  | shift _ rd rt amount => [.register rd, .register rt, .amount amount]
  | jr rs => [.register rs]
  | imm _ rt rs value => [.register rt, .register rs, .word value]
  | lui rt value => [.register rt, .word value]
  | li rd value => [.register rd, .word value]
  | la rd label => [.register rd, .label label]
  | mem _ rt address => [.register rt, .address address]
  | branch _ rs rt label => [.register rs, .register rt, .label label]
  | jump _ label => [.label label]
  | move rd rs => [.register rd, .register rs]
  | syscall => []

theorem Instr.kind_arguments (i : Instr) :
    i.arguments.map Argument.kind = i.mnemonic.signature := by
  cases i <;> rfl

theorem Argument.kind_eq_register {a : Argument} : a.kind = .register ↔ ∃ r, a = .register r := by
  cases a <;> simp [kind]

theorem Argument.kind_eq_amount {a : Argument} :
    a.kind = .amount ↔ ∃ amount, a = .amount amount := by
  cases a <;> simp [kind]

theorem Argument.kind_eq_word {a : Argument} : a.kind = .word ↔ ∃ value, a = .word value := by
  cases a <;> simp [kind]

theorem Argument.kind_eq_label {a : Argument} : a.kind = .label ↔ ∃ label, a = .label label := by
  cases a <;> simp [kind]

theorem Argument.kind_eq_address {a : Argument} :
    a.kind = .address ↔ ∃ address, a = .address address := by
  cases a <;> simp [kind]

namespace Operand

/-- The operands that may stand for each kind: a register may go without its dollar sign, and a
memory operand may be a label. -/
inductive Fits : Operand → Kind → Prop
  | register {r : Register} {span : Span} : Fits ⟨.register r, span⟩ .register
  | bareRegister {name : String} {r : Register} {span : Span} :
      Register.ofName? name = some r → Fits ⟨.name name, span⟩ .register
  | amount {n : Int} {span : Span} : Fits ⟨.integer n, span⟩ .amount
  | word {n : Int} {span : Span} : Fits ⟨.integer n, span⟩ .word
  | label {name : String} {span : Span} : Fits ⟨.name name, span⟩ .label
  | access {offset : Int} {base : Register} {span : Span} :
      Fits ⟨.access offset base, span⟩ .address
  | place {name : String} {span : Span} : Fits ⟨.name name, span⟩ .address

/-- What an operand means in the place of an argument. Numbers are taken modulo 2^32, and modulo 32
as the amount of a shift; a label keeps its place in the source. -/
inductive Means : Operand → Argument → Prop
  | register {r : Register} {span : Span} : Means ⟨.register r, span⟩ (.register r)
  | bareRegister {name : String} {r : Register} {span : Span} : Register.ofName? name = some r →
      Means ⟨.name name, span⟩ (.register r)
  | amount {n : Int} {span : Span} : Means ⟨.integer n, span⟩ (.amount (BitVec.ofInt 5 n))
  | word {n : Int} {span : Span} : Means ⟨.integer n, span⟩ (.word (Word.ofInt n))
  | label {name : String} {span : Span} :
      Means ⟨.name name, span⟩ (.label ⟨name, span.start⟩)
  | access {offset : Int} {base : Register} {span : Span} :
      Means ⟨.access offset base, span⟩ (.address (.offset (Word.ofInt offset) base))
  | place {name : String} {span : Span} :
      Means ⟨.name name, span⟩ (.address (.label ⟨name, span.start⟩))

variable {o : Operand}

theorem fits_iff_means {k : Kind} : Fits o k ↔ ∃ a : Argument, a.kind = k ∧ Means o a := by
  constructor
  · intro h
    cases h with
    | register => exact ⟨_, rfl, .register⟩
    | bareRegister found => exact ⟨_, rfl, .bareRegister found⟩
    | amount => exact ⟨_, rfl, .amount⟩
    | word => exact ⟨_, rfl, .word⟩
    | label => exact ⟨_, rfl, .label⟩
    | access => exact ⟨_, rfl, .access⟩
    | place => exact ⟨_, rfl, .place⟩
  · rintro ⟨a, rfl, h⟩
    cases h with
    | register => exact .register
    | bareRegister found => exact .bareRegister found
    | amount => exact .amount
    | word => exact .word
    | label => exact .label
    | access => exact .access
    | place => exact .place

theorem register_eq_ok {r : Register} : o.register = .ok r ↔ Means o (.register r) := by
  obtain ⟨value, span⟩ := o
  constructor
  · intro h
    cases value with
    | register => cases h; exact .register
    | name name =>
      unfold register namedRegister at h
      dsimp only at h
      split at h
      next found =>
        cases h
        exact .bareRegister found
      next => cases h
    | _ => cases h
  · intro h
    cases h with
    | register => rfl
    | bareRegister found => simp only [register, namedRegister, found]

theorem integer_eq_ok {n : Int} : o.integer = .ok n ↔ o.value = .integer n := by
  obtain ⟨value, span⟩ := o
  cases value <;> simp [integer]

theorem shiftAmount_eq_ok {amount : BitVec 5} :
    o.shiftAmount = .ok amount ↔ Means o (.amount amount) := by
  simp only [shiftAmount, map_eq_ok, integer_eq_ok]
  constructor
  · obtain ⟨value, span⟩ := o
    rintro ⟨n, rfl, rfl⟩
    exact .amount
  · rintro ⟨⟩
    exact ⟨_, rfl, rfl⟩

theorem word_eq_ok {value : Word} : o.word = .ok value ↔ Means o (.word value) := by
  simp only [word, map_eq_ok, integer_eq_ok]
  constructor
  · obtain ⟨value, span⟩ := o
    rintro ⟨n, rfl, rfl⟩
    exact .word
  · rintro ⟨⟩
    exact ⟨_, rfl, rfl⟩

theorem label_eq_ok {label : Label} : o.label = .ok label ↔ Means o (.label label) := by
  obtain ⟨value, span⟩ := o
  constructor
  · intro h
    cases value with
    | name name => cases h; exact .label
    | _ => cases h
  · rintro ⟨⟩
    rfl

theorem address_eq_ok {address : Address} :
    o.address = .ok address ↔ Means o (.address address) := by
  obtain ⟨value, span⟩ := o
  constructor
  · intro h
    cases value with
    | access offset base => cases h; exact .access
    | name name => cases h; exact .place
    | _ => cases h
  · rintro ⟨⟩ <;> rfl

end Operand

open Operand in
/-- Operands make up an instruction just if they mean its arguments, one for one. -/
theorem Instr.ofOperands_eq_ok {m : Mnemonic} {span : Span} {operands : List Operand} {i : Instr} :
    ofOperands m span operands = .ok i ↔
      i.mnemonic = m ∧ List.Forall₂ Operand.Means operands i.arguments := by
  constructor
  · intro h
    unfold ofOperands at h
    split at h
    case h_13 => cases h
    all_goals simp only [bind_eq_ok, register_eq_ok, shiftAmount_eq_ok, word_eq_ok, label_eq_ok,
      address_eq_ok, pure, Except.pure, Except.ok.injEq] at h
    case h_1 | h_2 | h_4 | h_9 =>
      obtain ⟨_, first, _, second, _, third, rfl⟩ := h
      exact ⟨rfl, .cons first (.cons second (.cons third .nil))⟩
    case h_5 | h_6 | h_7 | h_8 | h_11 =>
      obtain ⟨_, first, _, second, rfl⟩ := h
      exact ⟨rfl, .cons first (.cons second .nil)⟩
    case h_3 | h_10 =>
      obtain ⟨_, first, rfl⟩ := h
      exact ⟨rfl, .cons first .nil⟩
    case h_12 =>
      subst h
      exact ⟨rfl, .nil⟩
  · rintro ⟨rfl, means⟩
    cases i with
    | reg | shift | imm | branch =>
      obtain _ | ⟨first, _ | ⟨second, _ | ⟨third, _ | _⟩⟩⟩ := means
      simp only [ofOperands, mnemonic, bind_eq_ok, register_eq_ok, shiftAmount_eq_ok, word_eq_ok,
        label_eq_ok]
      exact ⟨_, first, _, second, _, third, rfl⟩
    | lui | li | la | mem | move =>
      obtain _ | ⟨first, _ | ⟨second, _ | _⟩⟩ := means
      simp only [ofOperands, mnemonic, bind_eq_ok, register_eq_ok, word_eq_ok, label_eq_ok,
        address_eq_ok]
      exact ⟨_, first, _, second, rfl⟩
    | jr | jump =>
      obtain _ | ⟨first, _ | _⟩ := means
      simp only [ofOperands, mnemonic, bind_eq_ok, register_eq_ok, label_eq_ok]
      exact ⟨_, first, rfl⟩
    | syscall =>
      cases means
      rfl

open Operand in
theorem Instr.exists_of_fits {m : Mnemonic} {operands : List Operand} (span : Span)
    (fit : List.Forall₂ Fits operands m.signature) :
    ∃ i, ofOperands m span operands = .ok i := by
  cases m with
  | reg | shift | imm | branch =>
    obtain _ | ⟨first, _ | ⟨second, _ | ⟨third, _ | _⟩⟩⟩ := fit
    simp only [fits_iff_means, Argument.kind_eq_register, Argument.kind_eq_amount,
      Argument.kind_eq_word, Argument.kind_eq_label] at first second third
    obtain ⟨_, ⟨_, rfl⟩, first⟩ := first
    obtain ⟨_, ⟨_, rfl⟩, second⟩ := second
    obtain ⟨_, ⟨_, rfl⟩, third⟩ := third
    simp only [ofOperands, bind_eq_ok, register_eq_ok, shiftAmount_eq_ok, word_eq_ok, label_eq_ok]
    exact ⟨_, _, first, _, second, _, third, rfl⟩
  | lui | li | la | mem | move =>
    obtain _ | ⟨first, _ | ⟨second, _ | _⟩⟩ := fit
    simp only [fits_iff_means, Argument.kind_eq_register, Argument.kind_eq_word,
      Argument.kind_eq_label, Argument.kind_eq_address] at first second
    obtain ⟨_, ⟨_, rfl⟩, first⟩ := first
    obtain ⟨_, ⟨_, rfl⟩, second⟩ := second
    simp only [ofOperands, bind_eq_ok, register_eq_ok, word_eq_ok, label_eq_ok, address_eq_ok]
    exact ⟨_, _, first, _, second, rfl⟩
  | jr | jump =>
    obtain _ | ⟨first, _ | _⟩ := fit
    simp only [fits_iff_means, Argument.kind_eq_register, Argument.kind_eq_label] at first
    obtain ⟨_, ⟨_, rfl⟩, first⟩ := first
    simp only [ofOperands, bind_eq_ok, register_eq_ok, label_eq_ok]
    exact ⟨_, _, first, rfl⟩
  | syscall =>
    cases fit
    exact ⟨.syscall, rfl⟩

theorem Operand.fits_of_means {i : Instr} {operands : List Operand}
    (means : List.Forall₂ Means operands i.arguments) :
    List.Forall₂ Fits operands i.mnemonic.signature := by
  rw [← i.kind_arguments, List.forall₂_map_right_iff]
  exact means.imp fun o a meaning => fits_iff_means.2 ⟨a, rfl, meaning⟩

namespace Mnemonic

theorem eq_of_name_eq {m m' : Mnemonic} (same : m.name = m'.name) : m = m' := by
  have distinct : (all.map name).Nodup := by decide
  exact List.inj_on_of_nodup_map distinct (mem_all m) (mem_all m') same

theorem ofName_eq_ok {name : String} {m : Mnemonic} :
    ofName name = .ok m ↔ m.name = name.toLower := by
  unfold ofName
  constructor
  · intro h
    split at h
    next found =>
      cases h
      have same := List.find?_some found
      exact beq_iff_eq.1 same
    next => cases h
  · intro same
    split
    next found =>
      have same' := List.find?_some found
      rw [eq_of_name_eq ((beq_iff_eq.1 same').trans same.symm)]
    next missing =>
      have other := List.find?_eq_none.1 missing m (mem_all m)
      exact absurd (beq_iff_eq.2 same) other

end Mnemonic

namespace Directive

open Operand

/-- The operands that a directive of a name in lower case takes, and what it is with them. -/
inductive Takes : String → List Operand → Directive → Prop
  | data : Takes "data" [] .data
  | text : Takes "text" [] .text
  | word {operands : List Operand} {values : List Word} : operands ≠ [] →
      List.Forall₂ Means operands (values.map .word) → Takes "word" operands (.word values)
  | asciiz {value : String} {span : Span} : Takes "asciiz" [⟨.text value, span⟩] (.asciiz value)
  | globl {o : Operand} {label : Label} : Means o (.label label) →
      Takes "globl" [o] (.globl label)
  | global {o : Operand} {label : Label} : Means o (.label label) →
      Takes "global" [o] (.globl label)

theorem text_eq_ok {o : Operand} {value : String} :
    o.text = .ok value ↔ o.value = .text value := by
  obtain ⟨v, span⟩ := o
  cases v <;> simp [Operand.text]

theorem mapM_word_eq_ok {operands : List Operand} {values : List Word} :
    operands.mapM Operand.word = .ok values ↔
      List.Forall₂ Means operands (values.map .word) := by
  rw [mapM_eq_ok, List.forall₂_map_right_iff]
  simp only [word_eq_ok]

theorem ofOperands_eq_ok {name : String} {nameSpan span : Span} {operands : List Operand}
    {d : Directive} : ofOperands name nameSpan span operands = .ok d ↔
      Takes name.toLower operands d := by
  unfold ofOperands
  dsimp only
  generalize name.toLower = lower
  constructor
  · intro h
    split at h
    case h_1 =>
      cases h
      exact .data
    case h_3 =>
      cases h
      exact .text
    case h_6 nonempty =>
      obtain ⟨values, read, rfl⟩ := map_eq_ok.1 h
      exact .word nonempty (mapM_word_eq_ok.1 read)
    case h_7 o =>
      obtain ⟨value, read, rfl⟩ := map_eq_ok.1 h
      obtain ⟨v, span⟩ := o
      cases text_eq_ok.1 read
      exact .asciiz
    case h_9 =>
      obtain ⟨label, read, rfl⟩ := map_eq_ok.1 h
      exact .globl (label_eq_ok.1 read)
    case h_10 =>
      obtain ⟨label, read, rfl⟩ := map_eq_ok.1 h
      exact .global (label_eq_ok.1 read)
    all_goals cases h
  · intro takes
    cases takes with
    | data | text => rfl
    | @word operands values some means =>
      obtain ⟨o, others, rfl⟩ := List.exists_cons_of_ne_nil some
      exact map_eq_ok.2 ⟨values, mapM_word_eq_ok.2 means, rfl⟩
    | asciiz => rfl
    | globl means | global means => exact map_eq_ok.2 ⟨_, label_eq_ok.2 means, rfl⟩

end Directive

open Operand

/-- What a line does that has the token and the operands after its labels. -/
inductive Nucleus.Reads : Token → List Operand → Nucleus → Prop
  | instr {name : String} {operands : List Operand} {i : Instr} :
      i.mnemonic.name = name.toLower → List.Forall₂ Means operands i.arguments →
      Reads (.identifier name) operands (.instr i)
  | directive {name : String} {operands : List Operand} {d : Directive} :
      Directive.Takes name.toLower operands d → Reads (.directive name) operands (.directive d)

/-- The tokens of a line are read just if those after the first one split into operands with which
the first one can be read. -/
theorem Nucleus.ofTokens_eq_ok {first : Placed} {rest : List Placed} {span : Span} {n : Nucleus} :
    ofTokens first rest span = .ok n ↔
      ∃ operands, Splits rest operands ∧ Reads first.token operands n := by
  unfold ofTokens
  constructor
  · intro h
    split at h
    next name named =>
      obtain ⟨operands, read, h⟩ := bind_eq_ok.1 h
      obtain ⟨d, made, h⟩ := bind_eq_ok.1 h
      cases h
      rw [named]
      exact ⟨operands, Operand.ofTokens_eq_ok.1 read,
        .directive (Directive.ofOperands_eq_ok.1 made)⟩
    next name named =>
      split at h
      next => cases h
      next m found =>
        obtain ⟨operands, read, h⟩ := bind_eq_ok.1 h
        obtain ⟨i, made, h⟩ := bind_eq_ok.1 h
        cases h
        obtain ⟨rfl, means⟩ := Instr.ofOperands_eq_ok.1 made
        rw [named]
        exact ⟨operands, Operand.ofTokens_eq_ok.1 read,
          .instr (Mnemonic.ofName_eq_ok.1 found) means⟩
    next => cases h
  · rintro ⟨operands, splits, reads⟩
    obtain ⟨token, place⟩ := first
    have read := Operand.ofTokens_eq_ok.2 splits
    cases reads with
    | @instr _ _ i same means =>
      dsimp only
      rw [Mnemonic.ofName_eq_ok.2 same]
      have made : Instr.ofOperands _ span operands = .ok i :=
        Instr.ofOperands_eq_ok.2 ⟨rfl, means⟩
      exact bind_eq_ok.2 ⟨operands, read, bind_eq_ok.2 ⟨_, made, rfl⟩⟩
    | @directive name _ d takes =>
      have made : Directive.ofOperands name place span operands = .ok d :=
        Directive.ofOperands_eq_ok.2 takes
      exact bind_eq_ok.2 ⟨operands, read, bind_eq_ok.2 ⟨_, made, rfl⟩⟩

/-- A line that begins with a name is an instruction just if the name is that of its mnemonic and
the tokens after it split into operands that mean its arguments. -/
theorem Nucleus.ofTokens_eq_ok_of_identifier {first : Placed} {name : String}
    (named : first.token = .identifier name) {rest : List Placed} {span : Span} {n : Nucleus} :
    ofTokens first rest span = .ok n ↔ ∃ i operands, n = .instr i ∧
      i.mnemonic.name = name.toLower ∧ Splits rest operands ∧
        List.Forall₂ Means operands i.arguments := by
  rw [ofTokens_eq_ok, named]
  constructor
  · rintro ⟨operands, splits, reads⟩
    cases reads with
    | instr same means => exact ⟨_, operands, rfl, same, splits, means⟩
  · rintro ⟨i, operands, rfl, same, splits, means⟩
    exact ⟨operands, splits, .instr same means⟩

/-- A line that begins with a name is read just if the name is a mnemonic in any case of letters and
the other tokens split into operands that fit its signature. It is then the instruction of this
mnemonic whose arguments the operands mean. -/
theorem Nucleus.ofTokens_succeeds_iff_fits {first : Placed} {name : String}
    (named : first.token = .identifier name) (rest : List Placed) (span : Span) :
    ((∃ n, ofTokens first rest span = .ok n) ↔ ∃ m : Mnemonic, m.name = name.toLower ∧
      ∃ operands, Splits rest operands ∧
        List.Forall₂ Fits operands m.signature) ∧
    ∀ n, ofTokens first rest span = .ok n ↔ ∃ i operands, n = .instr i ∧
      i.mnemonic.name = name.toLower ∧ Splits rest operands ∧
        List.Forall₂ Means operands i.arguments := by
  refine ⟨⟨?_, ?_⟩, fun n => ofTokens_eq_ok_of_identifier named⟩
  · rintro ⟨n, read⟩
    obtain ⟨i, operands, -, same, splits, means⟩ := (ofTokens_eq_ok_of_identifier named).1 read
    exact ⟨i.mnemonic, same, operands, splits, fits_of_means means⟩
  · rintro ⟨m, same, operands, splits, fit⟩
    obtain ⟨i, made⟩ := Instr.exists_of_fits span fit
    obtain ⟨rfl, means⟩ := Instr.ofOperands_eq_ok.1 made
    exact ⟨.instr i, (ofTokens_eq_ok_of_identifier named).2 ⟨i, operands, rfl, same, splits, means⟩⟩

namespace Nucleus

def looseHead : Placed :=
  ⟨.identifier "Lw", ⟨0, 2⟩⟩

/-- A bare register name without a comma after it, and a memory access with a comma at the end. -/
def loose : List Placed :=
  [⟨.identifier "T0", ⟨3, 5⟩⟩, ⟨.signed (-4), ⟨6, 8⟩⟩, ⟨.openParen, ⟨8, 9⟩⟩,
   ⟨.identifier "sp", ⟨9, 11⟩⟩, ⟨.closeParen, ⟨11, 12⟩⟩, ⟨.comma, ⟨12, 13⟩⟩]

/-- A second comma begins no operand. -/
def doubled : List Placed :=
  loose ++ [⟨.comma, ⟨13, 14⟩⟩]

theorem ofTokens_succeeds_iff_fits_loose :
    ofTokens looseHead loose ⟨0, 13⟩ = .ok (.instr (.mem .lw ⟨8⟩ (.offset (-4) .sp))) ∧
      (∃ operands, Splits loose operands ∧
        List.Forall₂ Fits operands (Mnemonic.mem .lw).signature) ∧
      ¬∃ operands, Splits doubled operands ∧
        List.Forall₂ Fits operands (Mnemonic.mem .lw).signature := by
  have named : looseHead.token = .identifier "Lw" := rfl
  have lower : (Mnemonic.mem .lw).name = "Lw".toLower := by decide +kernel
  have t0 : Register.ofName? "T0" = some ⟨8⟩ := by decide +kernel
  have sp : Register.ofName? "sp" = some .sp := by decide +kernel
  have splits : Splits loose [⟨.name "T0", ⟨3, 5⟩⟩, ⟨.access (-4) .sp, ⟨6, 12⟩⟩] :=
    .cons .name (.inl rfl) nofun (.cons (.access rfl (.name sp)) (.inr ⟨⟨12, 13⟩, rfl⟩) nofun .nil)
  have fit : List.Forall₂ Fits
      [⟨.name "T0", ⟨3, 5⟩⟩, ⟨.access (-4) .sp, ⟨6, 12⟩⟩] (Mnemonic.mem .lw).signature :=
    .cons (.bareRegister t0) (.cons .access .nil)
  refine ⟨?_, ⟨_, splits, fit⟩, ?_⟩
  · have reads := (ofTokens_succeeds_iff_fits named loose ⟨0, 13⟩).2
    exact (reads _).2 ⟨.mem .lw ⟨8⟩ (.offset (-4) .sp), _, rfl, lower, splits,
      .cons (.bareRegister t0) (.cons .access .nil)⟩
  · rintro ⟨operands, splits, fit⟩
    obtain ⟨n, read⟩ := (ofTokens_succeeds_iff_fits named doubled ⟨0, 14⟩).1.2
      ⟨_, lower, operands, splits, fit⟩
    have failed : ofTokens looseHead doubled ⟨0, 14⟩ =
        .error (.atSpan ⟨13, 14⟩ .unexpectedToken) := by decide +kernel
    rw [failed] at read
    cases read

end Nucleus

end Mips
