import Mathlib.Algebra.GroupWithZero.Nat
import Mips.Proofs.Runs

/-!
# Bounded runs

A run with a limit does what stepping one instruction at a time does, until as many instructions
were executed as the limit allows. It counts them by a difference of the machine's counter, which
may wrap in between, and it gathers the changes that single steps note one by one. As both come to
the same machine, a limit can be divided among runs that follow each other.
-/
namespace Mips

namespace Changes

def union (c d : Changes) : Changes where
  registers := Vector.zipWith or c.registers d.registers
  cells := c.cells ∪ d.cells
  pc := c.pc || d.pc

variable (c d : Changes)

theorem register_union (r : Register) : (c.union d).register r = (c.register r || d.register r) :=
  Vector.getElem_zipWith r.index_lt

theorem cell_union (address : Word) :
    (c.union d).cell address = (c.cell address || d.cell address) :=
  Std.ExtTreeSet.contains_union

@[simp] theorem union_none : c.union none = c := by
  ext
  · rw [register_union, register_none, Bool.or_false]
  · rw [cell_union, cell_none, Bool.or_false]
  · exact Bool.or_false c.pc

@[simp] theorem union_markRegister (r : Register) :
    c.union (d.markRegister r) = (c.union d).markRegister r := by
  ext s
  · simp only [register_union, register_markRegister, Bool.or_left_comm]
  · rfl
  · rfl

@[simp] theorem union_markCell (address : Word) :
    c.union (d.markCell address) = (c.union d).markCell address := by
  ext other
  · rfl
  · simp only [cell_union, cell_markCell, Bool.or_left_comm]
  · rfl

@[simp] theorem union_markPc : c.union d.markPc = (c.union d).markPc := by
  ext
  · rfl
  · rfl
  · exact Bool.or_true c.pc

/-- The union of records shows what one of them shows. -/
theorem read_foldl_union (read : Changes → Bool)
    (reads : ∀ c d, read (c.union d) = (read c || read d)) (list : List Changes) :
    read (list.foldl union c) = (read c || list.any read) := by
  induction list generalizing c with
  | nil => exact (Bool.or_false _).symm
  | cons d rest ih => rw [List.foldl_cons, ih, reads, List.any_cons, Bool.or_assoc]

end Changes

namespace Machine

/-- The machine with other notes of what changed and of whether a run was interrupted. -/
def withNotes (m : Machine) (changes : Changes) (interrupted : Bool) : Machine :=
  { m with changes := changes, interrupted := interrupted }

variable (m : Machine) (c : Changes) (b : Bool)

theorem changes_affected (e : Effect) :
    (m.affected e).changes = m.changes.union (m.clearChanges.affected e).changes := by
  have nothing : m.changes = m.changes.union .none := m.changes.union_none.symm
  cases e with
  | nothing => exact nothing
  | text t => exact nothing
  | register r value =>
    have cleared : (m.clearChanges.affected (.register r value)).changes =
        if m.registers.alters r value then Changes.none.markRegister r else .none := rfl
    rw [cleared, affected, writeRegister]
    split
    · rw [Changes.union_markRegister, ← nothing]
    · exact nothing
  | cell address value =>
    have cleared : (m.clearChanges.affected (.cell address value)).changes =
        if m.memory.alters address value then Changes.none.markCell address else .none := rfl
    rw [cleared, affected, writeMemory]
    split
    · rw [Changes.union_markCell, ← nothing]
    · exact nothing

/-- What an outcome changes is added to what was noted before. -/
theorem changes_finish (o : Outcome) :
    (m.finish o).changes = m.changes.union (m.clearChanges.finish o).changes := by
  obtain ⟨effect, next⟩ := o
  have affected := m.changes_affected effect
  cases next with
  | none => exact affected
  | some target =>
    have place : (m.clearChanges.affected effect).pc = (m.affected effect).pc := by
      cases effect <;> rfl
    have cleared : (m.clearChanges.finish ⟨effect, some target⟩).changes =
        if target = (m.affected effect).pc + 4 then (m.clearChanges.affected effect).changes
        else (m.clearChanges.affected effect).changes.markPc := by
      rw [← place]
      rfl
    rw [cleared]
    change (if target = (m.affected effect).pc + 4 then (m.affected effect).changes
      else (m.affected effect).changes.markPc) = _
    split
    · exact affected
    · rw [Changes.union_markPc, affected]

/-- Other notes have no influence on what an outcome does, and its changes are added to them. -/
theorem finish_withNotes (o : Outcome) : (m.withNotes c b).finish o =
    (m.clearChanges.finish o).withNotes (c.union (m.clearChanges.finish o).changes) b := by
  obtain ⟨effect, next⟩ := o
  have same : (m.withNotes c b).finish ⟨effect, next⟩ =
      (m.clearChanges.finish ⟨effect, next⟩).withNotes
        ((m.withNotes c b).finish ⟨effect, next⟩).changes b := by
    cases next <;> cases effect <;> rfl
  have cleared : ((m.withNotes c b).clearChanges.finish ⟨effect, next⟩).changes =
      (m.clearChanges.finish ⟨effect, next⟩).changes := by
    cases next <;> cases effect <;> rfl
  rw [same, changes_finish, cleared]
  rfl

structure Stepping where
  final : Machine
  fault : Option Fault
  /-- How many instructions were executed. -/
  executed : Nat
  /-- What each call noted. -/
  noted : List Changes

/-- Calls `stepIn` until `n` instructions were executed, the program is done or a step faults. -/
def stepping (n : Nat) (m : Machine) : Stepping :=
  match n with
  | 0 => ⟨m, none, 0, []⟩
  | n + 1 =>
    if m.isDone then ⟨m, none, 0, []⟩
    else
      match m.stepIn with
      | (next, some f) => ⟨next, some f, 0, [next.changes]⟩
      | (next, none) =>
        let rest := next.stepping n
        { rest with executed := rest.executed + 1, noted := next.changes :: rest.noted }

theorem stepping_of_isDone {m : Machine} (done : m.isDone = true) (n : Nat) :
    m.stepping n = ⟨m, none, 0, []⟩ := by
  cases n with
  | zero => rfl
  | succ n => rw [stepping, if_pos done]

/-- The first step of several ends them, as the program is done or at a fault, or others follow. -/
theorem stepping_cases :
    (m.isDone = true ∧ ∀ n, m.stepping n = ⟨m, none, 0, []⟩) ∨
      ∃ slot, m.halted = false ∧ m.program.slotAt? m.pc = some slot ∧
        ((∃ o, m.outcome slot.instr = .ok o ∧
            let next := m.clearChanges.finish o
            ∀ n, m.stepping (n + 1) = { next.stepping n with
              executed := (next.stepping n).executed + 1
              noted := next.changes :: (next.stepping n).noted }) ∨
          ∃ f, m.outcome slot.instr = .error f ∧
            ∀ n, m.stepping (n + 1) = ⟨m.clearChanges, some f, 0, [.none]⟩) := by
  rcases m.stepIn_cases with ⟨done, -⟩ | ⟨slot, running, fetched, stepped⟩
  · exact .inl ⟨done, stepping_of_isDone done⟩
  · have undone : ¬ m.isDone = true := by simp [isDone, running, fetched]
    refine .inr ⟨slot, running, fetched, ?_⟩
    rcases stepped with ⟨o, ho, moved⟩ | ⟨f, ho, moved⟩
    · refine .inl ⟨o, ho, fun n => ?_⟩
      rw [stepping, if_neg undone, moved]
    · refine .inr ⟨f, ho, fun n => ?_⟩
      rw [stepping, if_neg undone, moved]
      rfl

theorem executed_stepping_le (n : Nat) : (m.stepping n).executed ≤ n := by
  induction n generalizing m with
  | zero => exact Nat.le_refl 0
  | succ n ih =>
    rcases m.stepping_cases with ⟨-, moved⟩ | ⟨_, -, -, ⟨o, -, moved⟩ | ⟨f, -, moved⟩⟩
    · rw [moved]
      exact Nat.zero_le _
    · rw [moved]
      exact Nat.succ_le_succ (ih _)
    · rw [moved]
      exact Nat.zero_le _

theorem executed_final_stepping (n : Nat) :
    (m.stepping n).final.executed = m.executed + BitVec.ofNat 64 (m.stepping n).executed := by
  induction n generalizing m with
  | zero => exact (BitVec.add_zero _).symm
  | succ n ih =>
    rcases m.stepping_cases with ⟨-, moved⟩ | ⟨_, -, -, ⟨o, -, moved⟩ | ⟨f, -, moved⟩⟩
    · rw [moved]
      exact (BitVec.add_zero _).symm
    · have one : (m.clearChanges.finish o).executed = m.executed + 1 := executed_finish ..
      rw [moved]
      dsimp only
      rw [ih, one, BitVec.add_assoc, BitVec.add_comm 1, BitVec.ofNat_add]
      rfl
    · rw [moved]
      exact (BitVec.add_zero _).symm

/-- Stepping can be left off and taken up again. The induction is on the steps before that. -/
theorem final_stepping_add (first second : Nat) : (m.stepping (first + second)).final =
    ((m.stepping first).final.stepping second).final := by
  induction first generalizing m with
  | zero => rw [Nat.zero_add]; rfl
  | succ first ih =>
    rw [Nat.succ_add]
    rcases m.stepping_cases with ⟨-, moved⟩ | ⟨_, running, fetched, ⟨o, -, moved⟩ | ⟨f, -, moved⟩⟩
    · rw [moved, moved, moved]
    · rw [moved, moved]
      exact ih _
    · have undone : m.isDone = false := isDone_eq_false.2 ⟨running, _, fetched⟩
      rw [moved, moved]
      cases second with
      | zero => rfl
      | succ second =>
        have again : m.clearChanges.stepping (second + 1) = m.stepping (second + 1) := by
          have undone' : m.clearChanges.isDone = false := undone
          rw [stepping, stepping, undone, undone']
          rfl
        rw [again, moved]

/-- A run within its limit takes the steps that are left, whatever was noted before it. The
induction is on their number, which the counter and the limit determine. -/
theorem resumeWhile_withNotes {start limit : BitVec 64} {n : Nat}
    (left : (m.executed - start).toNat + n = limit.toNat) :
    ∃ interrupted, (m.withNotes c false).resumeWhile (withinLimit start limit) (n + 1) =
      .ended ((m.stepping n).final.withNotes ((m.stepping n).noted.foldl Changes.union c)
        interrupted) (m.stepping n).fault := by
  induction n generalizing m c with
  | zero =>
    have spent : withinLimit start limit (m.withNotes c false) = false := by
      rw [withinLimit, BitVec.ult, decide_eq_false_iff_not]
      exact Nat.not_lt.2 (Nat.le_of_eq left.symm)
    refine ⟨true, ?_⟩
    rw [resumeWhile, spent]
    rfl
  | succ n ih =>
    have within : withinLimit start limit (m.withNotes c false) = true := by
      rw [withinLimit, BitVec.ult, decide_eq_true_iff]
      change (m.executed - start).toNat < limit.toNat
      omega
    rw [resumeWhile, if_pos within]
    rcases m.stepping_cases with
      ⟨done, moved⟩ | ⟨slot, running, fetched, ⟨o, ho, moved⟩ | ⟨f, ho, moved⟩⟩
    · have rests : (m.withNotes c false).step = .done := step_eq_done.2 done
      rw [rests, moved]
      exact ⟨false, rfl⟩
    · have ran : (m.withNotes c false).step = .ran ((m.withNotes c false).finish o) :=
        step_eq_ran.2 ⟨running, slot, o, fetched, ho, rfl⟩
      rw [ran, moved, finish_withNotes]
      dsimp only
      split
      next halted =>
        have done : (m.clearChanges.finish o).isDone = true := isDone_of_halted halted
        rw [stepping_of_isDone done]
        exact ⟨false, rfl⟩
      next =>
        have one : (m.clearChanges.finish o).executed = m.executed + 1 := executed_finish ..
        have := limit.isLt
        refine ih _ _ ?_
        rw [one]
        bv_omega
    · have failed : (m.withNotes c false).step = .fault f (m.withNotes c false) :=
        step_eq_fault.2 ⟨rfl, running, slot, fetched, ho⟩
      rw [failed, moved]
      refine ⟨false, ?_⟩
      rw [List.foldl_cons, Changes.union_none]
      rfl

theorem runWithLimit_eq (limit : BitVec 64) :
    let s := m.stepping limit.toNat
    ∃ interrupted, m.runWithLimit limit =
      (s.final.withNotes (s.noted.foldl Changes.union .none) interrupted, s.fault) := by
  intro s
  have left : (m.executed - m.executed).toNat + limit.toNat = limit.toNat := by
    rw [BitVec.sub_self, BitVec.toNat_zero, Nat.zero_add]
  obtain ⟨interrupted, ended⟩ := m.resumeWhile_withNotes .none left
  have ran : m.runWhile (withinLimit m.executed limit) (limit.toNat + 1) = _ := ended
  refine ⟨interrupted, ?_⟩
  rw [runWithLimit, ran]

theorem runWithLimit_withNotes (limit : BitVec 64) :
    (m.withNotes c b).runWithLimit limit = m.runWithLimit limit := rfl

end Machine

/-- A run from `m` has come to what stepping from `m` has come to. -/
structure Machine.Stepping.Agrees (s : Stepping) (m : Machine) (ran : Machine × Option Fault) :
    Prop where
  snapshot : ran.1.snapshot = s.final.snapshot
  halted : ran.1.halted = s.final.halted
  executed : ran.1.executed = s.final.executed
  fault : ran.2 = s.fault
  count : (ran.1.executed - m.executed).toNat = s.executed
  registers : ∀ r, ran.1.changes.register r = s.noted.any (·.register r)
  cells : ∀ address, ran.1.changes.cell address = s.noted.any (·.cell address)
  pc : ran.1.changes.pc = s.noted.any Changes.pc

namespace Machine

theorem agrees_runWithLimit (m : Machine) (limit : BitVec 64) :
    (m.stepping limit.toNat).Agrees m (m.runWithLimit limit) := by
  obtain ⟨interrupted, ran⟩ := m.runWithLimit_eq limit
  have counted : ((m.stepping limit.toNat).final.executed - m.executed).toNat =
      (m.stepping limit.toNat).executed := by
    have most := m.executed_stepping_le limit.toNat
    have := limit.isLt
    rw [executed_final_stepping, BitVec.add_comm, BitVec.add_sub_cancel, BitVec.toNat_ofNat,
      Nat.mod_eq_of_lt (by omega)]
  rw [ran]
  exact {
    snapshot := rfl
    halted := rfl
    executed := rfl
    fault := rfl
    count := counted
    registers := fun r =>
      (Changes.read_foldl_union .none (·.register r) (fun c d => c.register_union d r) _).trans
        (by rw [Changes.register_none, Bool.false_or])
    cells := fun address =>
      (Changes.read_foldl_union .none (·.cell address) (fun c d => c.cell_union d address) _).trans
        (by rw [Changes.cell_none, Bool.false_or])
    pc := Changes.read_foldl_union .none Changes.pc (fun _ _ => rfl) _
  }

/-- A run with a limit is stepping until the limit is reached, the program is done or a step
faults. A limit can hence be divided among two runs. -/
theorem runWithLimit_is_stepping (m : Machine) :
    (∀ limit : BitVec 64, (m.stepping limit.toNat).Agrees m (m.runWithLimit limit) ∧
      (m.stepping limit.toNat).executed ≤ limit.toNat) ∧
    ∀ first second : BitVec 64, first.toNat + second.toNat < 2 ^ 64 →
      let once := (m.runWithLimit (first + second)).1
      let twice := ((m.runWithLimit first).1.runWithLimit second).1
      twice.snapshot = once.snapshot ∧ twice.executed = once.executed := by
  refine ⟨fun limit => ⟨m.agrees_runWithLimit limit, m.executed_stepping_le limit.toNat⟩, ?_⟩
  intro first second fits once twice
  have total : (first + second).toNat = first.toNat + second.toNat := by
    rw [BitVec.toNat_add, Nat.mod_eq_of_lt fits]
  obtain ⟨_, firstRun⟩ := m.runWithLimit_eq first
  have same : twice = ((m.stepping first.toNat).final.runWithLimit second).1 := by
    change ((m.runWithLimit first).1.runWithLimit second).1 = _
    rw [firstRun, runWithLimit_withNotes]
  have whole := m.agrees_runWithLimit (first + second)
  have rest := (m.stepping first.toNat).final.agrees_runWithLimit second
  rw [total] at whole
  rw [same]
  constructor
  · rw [rest.snapshot, ← final_stepping_add, whole.snapshot]
  · rw [rest.executed, ← final_stepping_add, whole.executed]

/-- A machine at a jump to itself, whose counter is about to wrap. -/
def spinning : Machine :=
  { (new {}).load ⟨#[⟨.jump .j ⟨"loop", 8⟩, [], ⟨6, 12⟩⟩], .empty,
      ⟨(∅ : Std.ExtTreeMap String Symbol).insert "loop" ⟨0, 0, .text⟩⟩, none⟩ with
    executed := BitVec.allOnes 64 }

theorem runWithLimit_is_stepping_wrapping :
    (2 : BitVec 64).toNat + (3 : BitVec 64).toNat < 2 ^ 64 ∧
      ((spinning.runWithLimit 2).1.runWithLimit 3).1.executed = 4 ∧
      (spinning.runWithLimit 5).1.executed = 4 := by
  have fits : (2 : BitVec 64).toNat + (3 : BitVec 64).toNat < 2 ^ 64 := by decide
  have ran : (spinning.runWithLimit 5).1.executed = 4 := rfl
  exact ⟨fits, ((spinning.runWithLimit_is_stepping.2 2 3 fits).2).trans ran, ran⟩

end Machine

end Mips
