import Mips.Machine.Step

/-!
# Execution by shape

What executing an instruction comes to, with the control signals and the route worked out: one
equation for each shape of operands. Everything that is proved of steps goes through these
equations, so that signals, routes and the table of the arithmetic unit are opened here only.
-/
namespace Mips

def RegOp.result (op : RegOp) (a b : Word) : Word :=
  match op with
  | add => a + b
  | sub => a - b
  | and => a &&& b
  | or => a ||| b
  | slt => if a.toInt < b.toInt then 1 else 0
  | mul => a * b
  | xor => a ^^^ b
  | nor => ~~~(a ||| b)

def ShiftOp.result (op : ShiftOp) (a : Word) (amount : BitVec 5) : Word :=
  match op with
  | sll => a <<< amount.toNat
  | srl => a >>> amount.toNat

def ImmOp.result (op : ImmOp) (a value : Word) : Word :=
  match op with
  | addi => a + value
  | andi => a &&& value
  | ori => a ||| value

def BranchOp.holds (op : BranchOp) (a b : Word) : Bool :=
  match op with
  | beq => a == b
  | bne => a != b

namespace Machine

variable (m : Machine)

def locate (m : Machine) : Address → Except Fault Word
  | .offset offset base => .ok (m.registers.get base + offset)
  | .label label => m.resolve label

/-- What comes of an instruction that changes the machine only when it can no longer fail. -/
def atomic (m : Machine) : Except Fault Machine → EStateM.Result Fault Machine Unit
  | .ok after => .ok () after
  | .error f => .error f m

theorem liftExcept_bind_modify {α : Type} (x : Except Fault α) (change : α → Machine → Machine) :
    (liftExcept x >>= fun a => modify (change a) : EStateM Fault Machine Unit) m =
      m.atomic (x.map fun a => change a m) := by
  cases x <;> rfl

@[simp] theorem execute_reg (op : RegOp) (rd rs rt : Register) :
    execute (.reg op rd rs rt) m =
      .ok () (m.writeRegister rd (op.result (m.registers.get rs) (m.registers.get rt))).goOn := by
  cases op with
  | slt =>
    have less : ∀ a b : Word, Alu.slt.apply a b = RegOp.slt.result a b := by
      intro a b
      simp only [Alu.apply, Alu.ofBool, BitVec.slt, decide_eq_true_eq, RegOp.result]
    rw [← less]
    rfl
  | _ => rfl

@[simp] theorem execute_shift (op : ShiftOp) (rd rt : Register) (amount : BitVec 5) :
    execute (.shift op rd rt amount) m =
      .ok () (m.writeRegister rd (op.result (m.registers.get rt) amount)).goOn := by
  have kept : Alu.shiftAmount (amount.setWidth 32) = amount.toNat := by
    rw [Alu.shiftAmount, BitVec.setWidth_setWidth_of_le _ (by decide), BitVec.setWidth_eq]
  cases op with
  | sll =>
    rw [ShiftOp.result, ← kept]
    rfl
  | srl =>
    rw [ShiftOp.result, ← kept]
    rfl

@[simp] theorem execute_jr (rs : Register) :
    execute (.jr rs) m = .ok () (m.goTo (m.registers.get rs)) := rfl

@[simp] theorem execute_imm (op : ImmOp) (rt rs : Register) (value : Word) :
    execute (.imm op rt rs value) m =
      .ok () (m.writeRegister rt (op.result (m.registers.get rs) value)).goOn := by
  cases op <;> rfl

@[simp] theorem execute_lui (rt : Register) (value : Word) :
    execute (.lui rt value) m = .ok () (m.writeRegister rt (value <<< 16)).goOn := rfl

/-- The zero register is the first operand of an addition that has only one. -/
theorem add_apply_zero (value : Word) : Alu.add.apply (m.registers.get .zero) value = value := by
  simp [Alu.apply]

@[simp] theorem execute_li (rd : Register) (value : Word) :
    execute (.li rd value) m = .ok () (m.writeRegister rd value).goOn := by
  change EStateM.Result.ok ()
    (m.writeRegister rd (Alu.add.apply (m.registers.get .zero) value)).goOn = _
  rw [add_apply_zero]

@[simp] theorem execute_la (rd : Register) (label : Label) :
    execute (.la rd label) m = m.atomic
      ((m.resolve label).map fun address => (m.writeRegister rd address).goOn) :=
  m.liftExcept_bind_modify (m.resolve label) fun address m => (m.writeRegister rd address).goOn

@[simp] theorem execute_lw (rt : Register) (address : Address) :
    execute (.mem .lw rt address) m = m.atomic ((m.locate address).map fun address =>
      (m.writeRegister rt (m.memory.get address)).goOn) := by
  cases address with
  | offset offset base => rfl
  | label label =>
    refine (m.liftExcept_bind_modify (m.resolve label) fun address m' => (m'.writeRegister rt
      (m'.memory.get (Alu.add.apply (m.registers.get .zero) address))).goOn).trans ?_
    simp only [add_apply_zero, locate]

@[simp] theorem execute_sw (rt : Register) (address : Address) :
    execute (.mem .sw rt address) m = m.atomic ((m.locate address).map fun address =>
      (m.writeMemory address (m.registers.get rt)).goOn) := by
  cases address with
  | offset offset base => rfl
  | label label =>
    refine (m.liftExcept_bind_modify (m.resolve label) fun address m' => (m'.writeMemory
      (Alu.add.apply (m.registers.get .zero) address) (m'.registers.get rt)).goOn).trans ?_
    simp only [add_apply_zero, locate]

@[simp] theorem execute_branch (op : BranchOp) (rs rt : Register) (label : Label) :
    execute (.branch op rs rt label) m =
      if op.holds (m.registers.get rs) (m.registers.get rt) then
        m.atomic ((m.resolve label).map m.goTo)
      else .ok () m.goOn := by
  let go (target : Word) : EStateM Fault Machine Unit := modify (·.goTo target)
  have chosen (holds : Bool) :
      (if Alu.ofBool holds ≠ 0 then liftExcept (m.resolve label) >>= go
        else pure (m.pc + 4) >>= go) m =
      if holds then m.atomic ((m.resolve label).map m.goTo) else .ok () m.goOn := by
    cases holds with
    | false => rfl
    | true => exact m.liftExcept_bind_modify (m.resolve label) fun target m => m.goTo target
  cases op with
  | beq => exact chosen _
  | bne => exact chosen _

@[simp] theorem execute_j (label : Label) :
    execute (.jump .j label) m = m.atomic ((m.resolve label).map m.goTo) :=
  m.liftExcept_bind_modify (m.resolve label) fun target m => m.goTo target

@[simp] theorem execute_jal (label : Label) :
    execute (.jump .jal label) m = m.atomic
      ((m.resolve label).map (m.writeRegister .ra (m.pc + 4)).goTo) :=
  m.liftExcept_bind_modify (m.resolve label) fun target m =>
    (m.writeRegister .ra (m.pc + 4)).goTo target

@[simp] theorem execute_move (rd rs : Register) :
    execute (.move rd rs) m = .ok () (m.writeRegister rd (m.registers.get rs)).goOn := rfl

@[simp] theorem execute_syscall : execute .syscall m = .ok () m.systemCall := rfl

end Machine

end Mips
