import Mips.Proofs.Faults
import Mips.Proofs.Targets

/-!
# Control flow

An instruction goes to the next one, to the address of a label or to that in a register. The labels
of a text segment lie at its instructions or right behind the last one, and branches into the data
are not assembled. Without jumps through registers or into the data, the program counter hence
never leaves the text segment, and a program ends behind its last instruction unless it exits or
fails.
-/
namespace Mips

open Statement

def Instr.staysInText (symbols : SymbolTable) : Instr → Bool
  | .jr _ => false
  | .jump _ label => (symbols.find? label.name).all fun symbol => symbol.segment ≠ .data
  | _ => true

namespace Machine

variable {m : Machine}

/-- The instruction at the program counter is the system call that exits. -/
def AtExit (m : Machine) : Prop :=
  ∃ slot, m.program.slotAt? m.pc = some slot ∧ slot.instr = .syscall ∧ m.registers.get .v0 = 10

theorem code_of_exit {code : Word} (exits : Service.ofCode code = .exit) : code = 10 := by
  unfold Service.ofCode at exits
  split at exits
  · cases exits
  · split at exits
    · cases exits
    · split at exits
      next ten => exact ten
      next => cases exits

/-- A system call exits, without writing to a register, or goes on. -/
theorem service_cases (m : Machine) :
    (m.registers.get .v0 = 10 ∧ m.service.next = none ∧
      (m.affected m.service.effect).registers = m.registers) ∨
    m.service.next = some (m.pc + 4) := by
  cases hs : Service.ofCode (m.registers.get .v0) with
  | exit =>
    simp only [service, hs, true_and]
    refine .inl ⟨code_of_exit hs, ?_⟩
    split <;> rfl
  | printInteger | printText | unknown =>
    simp only [service, hs]
    exact .inr rfl

/-- What comes after an instruction: the next one, nothing after an exit, the target of a branch or
jump, or the address in a register. -/
theorem next_cases {i : Instr} {o : Outcome} (ho : m.outcome i = .ok o) :
    o.next = some (m.pc + 4) ∨
      (i = .syscall ∧ m.registers.get .v0 = 10 ∧ o.next = none ∧
        (m.affected o.effect).registers = m.registers) ∨
      (∃ label address, (Route.of i).target = some label ∧
        m.program.symbols.address? label.name = some address ∧ o.next = some address) ∨
      ∃ rs, i = .jr rs := by
  have onward {α : Type} {x : Except Fault α} {effect : α → Effect}
      (h : x.map (fun a => m.onward (effect a)) = .ok o) : o.next = some (m.pc + 4) := by
    obtain ⟨a, -, rfl⟩ := map_eq_ok.1 h
    rfl
  have transfer {label : Label} {effect : Effect}
      (h : (m.resolve label).map (fun target => (⟨effect, some target⟩ : Outcome)) = .ok o) :
      ∃ address, m.program.symbols.address? label.name = some address ∧ o.next = some address := by
    obtain ⟨address, resolved, rfl⟩ := map_eq_ok.1 h
    unfold resolve at resolved
    split at resolved
    next found =>
      cases resolved
      exact ⟨address, found, rfl⟩
    next => cases resolved
  cases i with
  | la rd label => exact .inl (onward ho)
  | mem op rt address => cases op <;> exact .inl (onward ho)
  | branch op rs rt label =>
    rw [outcome] at ho
    split at ho
    next =>
      obtain ⟨address, found, next⟩ := transfer ho
      exact .inr (.inr (.inl ⟨label, address, rfl, found, next⟩))
    next =>
      cases ho
      exact .inl rfl
  | jump op label =>
    obtain ⟨address, found, next⟩ : ∃ address,
        m.program.symbols.address? label.name = some address ∧ o.next = some address := by
      cases op <;> exact transfer ho
    exact .inr (.inr (.inl ⟨label, address, rfl, found, next⟩))
  | jr rs => exact .inr (.inr (.inr ⟨rs, rfl⟩))
  | syscall =>
    cases ho
    rcases m.service_cases with exits | next
    · exact .inr (.inl ⟨rfl, exits⟩)
    · exact .inl next
  | _ =>
    cases ho
    exact .inl rfl

end Machine

namespace Program

variable {statements : List Statement} {source : Option String} {p : Program} {pc : Word}
  {slot : Slot} {m : Machine}

/-- No instruction jumps through a register or into the data segment. -/
def JumpsInText (p : Program) : Prop :=
  ∀ slot ∈ p.slots.toList, slot.instr.staysInText p.symbols = true

/-- An address at which an instruction of the program lies or that is right behind the last one. -/
structure Inside (p : Program) (address : Word) : Prop where
  aligned : 4 ∣ address.toNat
  bounded : address.toNat ≤ 4 * p.size

theorem slotAt?_eq_some : p.slotAt? pc = some slot ↔
    4 ∣ pc.toNat ∧ p.slots[pc.toNat / 4]? = some slot := by
  have offset : (pc - textBase).toNat = pc.toNat := congrArg BitVec.toNat (BitVec.sub_zero pc)
  simp only [slotAt?, indexOf?, offset, Nat.dvd_iff_mod_eq_zero]
  by_cases here : pc.toNat % 4 = 0 ∧ pc.toNat / 4 < p.size
  · rw [if_pos here, Option.bind_some]
    exact ⟨fun found => ⟨here.1, found⟩, fun h => h.2⟩
  · rw [if_neg here, Option.bind_none]
    exact iff_of_false (Option.some_ne_none slot).symm
      fun h => here ⟨h.1, lt_size_of_getElem? h.2⟩

theorem slotAt?_eq_none_of_inside (inside : p.Inside pc) (missing : p.slotAt? pc = none) :
    pc.toNat = 4 * p.size := by
  obtain ⟨⟨k, here⟩, bounded⟩ := inside
  by_contra other
  have fewer : k < p.slots.size := by
    change _ ≤ 4 * p.slots.size at bounded
    change ¬_ = 4 * p.slots.size at other
    omega
  have found : p.slotAt? pc = some p.slots[k] := by
    rw [slotAt?_eq_some, here, Nat.mul_div_cancel_left k (by decide)]
    exact ⟨Nat.dvd_mul_right 4 k, Array.getElem?_eq_getElem fewer⟩
  rw [missing] at found
  cases found

theorem inside_next (few : p.size < 2 ^ 25) (fetched : p.slotAt? pc = some slot) :
    p.Inside (pc + 4) := by
  obtain ⟨aligned, found⟩ := slotAt?_eq_some.1 fetched
  have index := lt_size_of_getElem? found
  have next : (pc + 4).toNat = pc.toNat + 4 := by
    rw [BitVec.toNat_add]
    exact Nat.mod_eq_of_lt (by change pc.toNat + 4 < _; omega)
  constructor
  · rw [next]
    omega
  · rw [next]
    omega

theorem inside_of_text (few : p.size < 2 ^ 25) (h : assemble statements source = .ok p)
    {name : String} {symbol : Symbol} (found : p.symbols.find? name = some symbol)
    (text : symbol.segment ≠ .data) : p.Inside symbol.address := by
  rcases symbol_cases h found with ⟨-, k, le, here⟩ | ⟨data, -⟩
  · rw [here]
    constructor
    · rw [toNat_slotAddress (by omega)]
      exact Nat.dvd_mul_right 4 k
    · rw [toNat_slotAddress (by omega)]
      omega
  · exact absurd data text

theorem JumpsInText.of_getElem? (stays : p.JumpsInText) {n : Nat} (hn : p.slots[n]? = some slot) :
    slot.instr.staysInText p.symbols = true :=
  stays slot (Array.mem_toList_iff.2 (Array.mem_of_getElem? hn))

theorem inside_of_target (few : p.size < 2 ^ 25) (h : assemble statements source = .ok p)
    (stays : p.JumpsInText) {n : Nat} (hn : p.slots[n]? = some slot) {label : Label}
    (target : (Route.of slot.instr).target = some label) {address : Word}
    (known : p.symbols.address? label.name = some address) : p.Inside address := by
  obtain ⟨symbol, found, rfl⟩ := SymbolTable.address?_eq_some.1 known
  refine inside_of_text few h found ?_
  have allowed := stays.of_getElem? hn
  cases hi : slot.instr with
  | branch op rs rt other =>
    rw [hi] at target
    cases target
    rw [(segment_of_branch few h hn hi found).1]
    decide
  | jump op other =>
    rw [hi] at target allowed
    cases target
    rw [Instr.staysInText, found] at allowed
    exact of_decide_eq_true allowed
  | mem op rt address =>
    rw [hi] at target
    cases address <;> cases target
  | _ =>
    rw [hi] at target
    cases target

/-- What every step keeps: the program counter stays inside, and a machine that has halted is at
its exit. -/
structure Keeps (p : Program) (m : Machine) : Prop where
  program : m.program = p
  pc : p.Inside m.pc
  halted : m.halted = true → m.AtExit

theorem keeps_load (p : Program) (m : Machine) : p.Keeps (m.load p) :=
  ⟨rfl, ⟨Nat.dvd_zero 4, Nat.zero_le _⟩, nofun⟩

/-- One case for each way in which an instruction goes on. -/
theorem keeps_finish (few : p.size < 2 ^ 25) (h : assemble statements source = .ok p)
    (stays : p.JumpsInText) (kept : p.Keeps m) (running : m.halted = false)
    (fetched : m.program.slotAt? m.pc = some slot) {o : Outcome}
    (ho : m.outcome slot.instr = .ok o) : p.Keeps (m.finish o) := by
  have fetched' := fetched
  rw [kept.program] at fetched'
  obtain ⟨-, hn⟩ := slotAt?_eq_some.1 fetched'
  have going {address : Word} (next : o.next = some address) (inside : p.Inside address) :
      p.Keeps (m.finish o) := by
    refine ⟨(m.program_finish o).trans kept.program, ?_, ?_⟩
    · rw [Machine.pc_finish, next]
      exact inside
    · rw [m.halted_finish running, next]
      nofun
  rcases Machine.next_cases ho with next | ⟨hi, code, exits, registers⟩ | ⟨label, address, target,
    found, next⟩ | ⟨rs, hi⟩
  · exact going next (inside_next few fetched')
  · have stopped : (m.finish o).pc = m.pc := by rw [Machine.pc_finish, exits, Option.getD_none]
    refine ⟨(m.program_finish o).trans kept.program, ?_, fun _ => ⟨slot, ?_, hi, ?_⟩⟩
    · rw [stopped]
      exact kept.pc
    · rw [stopped, m.program_finish]
      exact fetched
    · rw [Machine.registers_finish, registers]
      exact code
  · rw [kept.program] at found
    exact going next (inside_of_target few h stays hn target found)
  · have allowed := stays.of_getElem? hn
    rw [hi] at allowed
    cases allowed

theorem Keeps.clearChanges (kept : p.Keeps m) : p.Keeps m.clearChanges :=
  ⟨kept.program, kept.pc, kept.halted⟩

theorem keeps_of_reaches (few : p.size < 2 ^ 25) (h : assemble statements source = .ok p)
    (stays : p.JumpsInText) (reached : p.Reaches m) : p.Keeps m := by
  induction reached with
  | load m => exact keeps_load p m
  | @stepIn m _ kept =>
    rcases m.stepIn_cases with ⟨-, moved⟩ | ⟨slot, running, fetched, ⟨o, ho, moved⟩ | ⟨f, -, moved⟩⟩
    · rw [moved]
      exact kept.clearChanges
    · rw [moved]
      exact keeps_finish few h stays kept.clearChanges running fetched ho
    · rw [moved]
      exact kept.clearChanges

theorem keeps_of_executes (few : p.size < 2 ^ 25) (h : assemble statements source = .ok p)
    (stays : p.JumpsInText) {n : Nat} {final : Machine} (executed : Machine.Executes n m final)
    (kept : p.Keeps m) : p.Keeps final := by
  induction executed with
  | refl => exact kept
  | step ran _ ih =>
    obtain ⟨running, slot, o, fetched, ho, rfl⟩ := Machine.step_eq_ran.1 ran
    exact ih (keeps_finish few h stays kept running fetched ho)

/-- A machine that is done has exited or is behind the last instruction. -/
theorem Keeps.of_isDone (kept : p.Keeps m) (done : m.isDone = true) :
    m.halted = true ∧ m.AtExit ∨ m.pc.toNat = 4 * p.size := by
  cases halted : m.halted with
  | true => exact .inl ⟨rfl, kept.halted halted⟩
  | false =>
    right
    rw [Machine.isDone, halted, Bool.false_or, Option.isNone_iff_eq_none, kept.program] at done
    exact slotAt?_eq_none_of_inside kept.pc done

/-- The program counter stays in the text segment of an assembled program that does not jump
through registers or into its data, and the program only stops by its exit, by a fault or right
behind its last instruction. -/
theorem pc_stays_in_text (few : p.size < 2 ^ 25) (h : assemble statements source = .ok p)
    (stays : p.JumpsInText) :
    (∀ m, p.Reaches m → 4 ∣ m.pc.toNat ∧ m.pc.toNat ≤ 4 * p.size ∧
      ((∀ after, m.step ≠ .ran after) → m.halted = true ∧ m.AtExit ∨ (∃ f, m.step = .fault f m) ∨
        m.pc.toNat = 4 * p.size)) ∧
    ∀ settings fuel final fault, p.run settings fuel = .ended final fault →
      final.halted = true ∧ final.AtExit ∨ (∃ f, fault = some f ∧ final.step = .fault f final) ∨
        final.pc.toNat = 4 * p.size := by
  constructor
  · intro m reached
    have kept := keeps_of_reaches few h stays reached
    refine ⟨kept.pc.aligned, kept.pc.bounded, fun stopped => ?_⟩
    cases hs : m.step with
    | ran after => exact absurd hs (stopped after)
    | fault f after =>
      obtain rfl := Machine.eq_of_fault hs
      exact .inr (.inl ⟨f, rfl⟩)
    | done => exact (kept.of_isDone (Machine.step_eq_done.1 hs)).imp_right .inr
  · intro settings fuel final fault ended
    have follows := p.follows_run settings fuel
    rw [ended] at follows
    cases fault with
    | none =>
      obtain ⟨n, executed, done⟩ := follows
      have kept := keeps_of_executes few h stays executed (keeps_load p _)
      exact (kept.of_isDone done).imp_right .inr
    | some f =>
      obtain ⟨n, executed, failed⟩ := follows
      exact .inr (.inl ⟨f, rfl, failed⟩)

/-- A branch over an exit to a label behind the last instruction, with data and a repeated switch
before it. -/
def bounded : List Statement :=
  [⟨[], .directive .data, ⟨0, 5⟩⟩,
   ⟨[⟨"x", 6⟩], .directive (.word [7]), ⟨9, 16⟩⟩,
   ⟨[], .directive .text, ⟨17, 22⟩⟩,
   ⟨[], .instr (.mem .lw ⟨8⟩ (.label ⟨"x", 31⟩)), ⟨23, 32⟩⟩,
   ⟨[⟨"a", 33⟩], .instr (.branch .bne ⟨8⟩ .zero ⟨"end", 51⟩), ⟨36, 54⟩⟩,
   ⟨[], .instr (.jump .j ⟨"a", 57⟩), ⟨55, 58⟩⟩,
   ⟨[⟨"end", 59⟩], .directive .text, ⟨64, 69⟩⟩]

theorem pc_stays_in_text_bounded :
    ∃ p m, assemble bounded none = .ok p ∧ p.size < 2 ^ 25 ∧ p.JumpsInText ∧ p.Reaches m ∧
      (4 ∣ m.pc.toNat ∧ m.pc.toNat ≤ 4 * p.size) ∧ m.isDone = true ∧
      m.pc.toNat = 4 * p.size := by
  have assembled : assemble bounded none = .ok _ := rfl
  have stays : ∀ p, assemble bounded none = .ok p → p.JumpsInText := by
    rintro p ⟨⟩
    unfold JumpsInText
    decide
  obtain ⟨inside, -⟩ := pc_stays_in_text (by decide) assembled (stays _ assembled)
  obtain ⟨aligned, within, stops⟩ := inside _ (Reaches.load (Machine.new {})).stepIn.stepIn
  refine ⟨_, _, assembled, by decide, stays _ assembled,
    (Reaches.load (Machine.new {})).stepIn.stepIn, ⟨aligned, within⟩, rfl, ?_⟩
  rcases stops (by rintro after ⟨⟩) with ⟨halted, -⟩ | ⟨f, failed⟩ | behind
  · cases halted
  · cases failed
  · exact behind

end Program

end Mips
