import Mips.Proofs.Runs
import Mips.Session

/-!
# Sessions and runs

A session takes the same steps as a run of its program. They differ in what was noted as changed,
which a run gathers and a session forgets before each step, and in what happens at a fault, which
ends the run and completes the session.
-/
namespace Mips

/-- What a report shows of the machine, next to all that was printed. -/
def StepReport.snapshot (r : StepReport) (output : String) : Snapshot :=
  ⟨r.registers, r.memory, r.pc, output⟩

/-- A report of a step without a fault, which shows what the step did. -/
structure StepReport.Shows (r : StepReport) (before after : Machine) : Prop where
  fault : r.fault = none
  output : before.output ++ r.output = after.output
  snapshot : after.snapshot = r.snapshot after.output

/-- What is seen after the reports of steps that began at the machine `m`. -/
def StepReport.seen (m : Machine) (reports : List StepReport) (output : String) : Snapshot :=
  match reports.getLast? with
  | some r => r.snapshot output
  | none => ⟨m.registers, m.memory, m.pc, output⟩

/-- Reports of the steps from `m` to `final`, which together show what the steps did. -/
structure StepReport.Trace (reports : List StepReport) (m final : Machine) : Prop where
  fault : ∀ r ∈ reports, r.fault = none
  output : m.output ++ String.join (reports.map StepReport.output) = final.output
  snapshot : final.snapshot = seen m reports final.output

/-- A report of a step that ran into a fault and left the machine as it was. -/
structure StepReport.Fails (r : StepReport) (m : Machine) (f : Fault) : Prop where
  fault : r.fault = some f
  output : r.output = ""
  changes : r.changes = .none
  pc : r.pc = r.pcBefore
  snapshot : m.snapshot = r.snapshot m.output

/-- A report of a step through the instruction that the program has at `pcBefore`. -/
def StepReport.Describes (r : StepReport) (p : Program) : Prop :=
  ∃ index slot, p.indexOf? r.pcBefore = some index ∧ p.slots[index]? = some slot ∧
    r.text = (p.instrText? index).getD slot.instr.text ∧
    r.signals = slot.instr.mnemonic.signals ∧ r.words = slot.words

namespace StepReport.Trace

theorem nil (m : Machine) : Trace [] m m where
  fault := fun _ member => absurd member List.not_mem_nil
  output := by rw [List.map_nil, String.join_nil, String.append_empty]
  snapshot := rfl

theorem cons {r : StepReport} {reports : List StepReport} {m mid final : Machine}
    (first : r.Shows m mid) (rest : Trace reports mid final) : Trace (r :: reports) m final where
  fault := List.forall_mem_cons.2 ⟨first.fault, rest.fault⟩
  output := by
    rw [List.map_cons, String.join_cons, ← String.append_assoc, first.output, rest.output]
  snapshot := by
    have registers : mid.registers = r.registers := congrArg Snapshot.registers first.snapshot
    have memory : mid.memory = r.memory := congrArg Snapshot.memory first.snapshot
    have pc : mid.pc = r.pc := congrArg Snapshot.pc first.snapshot
    rw [rest.snapshot, seen, seen, List.getLast?_cons]
    cases reports.getLast? with
    | none => rw [registers, memory, pc]; rfl
    | some last => rfl

end StepReport.Trace

namespace Session

def after (s : Session) : Nat → Session
  | 0 => s
  | n + 1 => s.advance.2.after n

def answer (s : Session) (n : Nat) : Advance :=
  (s.after n).advance.1

def answers (s : Session) (n : Nat) : List Advance :=
  (List.range n).map s.answer

/-- From call number `n` on there is nothing left to execute, and nothing changes. -/
def RestsFrom (s : Session) (n : Nat) : Prop :=
  ∀ k, n ≤ k → s.answer k = .completed ∧ (s.after k).machine = (s.after n).machine ∧
    (s.after k).isCompleted = true

theorem after_succ (s : Session) (n : Nat) : s.after (n + 1) = (s.after n).advance.2 := by
  induction n generalizing s with
  | zero => rfl
  | succ n ih => exact ih s.advance.2

theorem after_add (s : Session) (n k : Nat) : s.after (n + k) = (s.after n).after k := by
  induction n generalizing s with
  | zero => rw [Nat.zero_add]; rfl
  | succ n ih => rw [Nat.succ_add]; exact ih s.advance.2

theorem answers_succ (s : Session) (n : Nat) :
    s.answers (n + 1) = s.advance.1 :: s.advance.2.answers n := by
  rw [answers, List.range_succ_eq_map, List.map_cons, List.map_map]
  rfl

/-- A call executes one instruction, unless the session is completed. -/
theorem advance_cases (s : Session) :
    (s.isCompleted = true ∧ s.advance = (.completed, { s with completed := true })) ∨
      ∃ slot, s.isCompleted = false ∧ s.machine.program.slotAt? s.machine.pc = some slot ∧
        s.advance = (.step (report slot s.machine s.machine.stepIn.1 s.machine.stepIn.2),
          ⟨s.machine.stepIn.1, s.machine.stepIn.2.isSome⟩) := by
  cases completed : s.isCompleted with
  | true =>
    left
    rw [advance, if_pos completed]
    exact ⟨rfl, rfl⟩
  | false =>
    right
    obtain ⟨-, undone⟩ := Bool.or_eq_false_iff.1 completed
    obtain ⟨-, slot, fetched⟩ := Machine.isDone_eq_false.1 undone
    refine ⟨slot, rfl, fetched, ?_⟩
    rw [advance, if_neg (by simp [completed]), fetched]

theorem isCompleted_iff_advance (s : Session) :
    s.isCompleted = true ↔ s.advance.1 = .completed := by
  rcases s.advance_cases with ⟨completed, moved⟩ | ⟨slot, going, -, moved⟩
  · rw [moved]
    exact iff_of_true completed rfl
  · rw [moved, going]
    exact iff_of_false Bool.false_ne_true nofun

theorem program_advance (s : Session) : s.advance.2.machine.program = s.machine.program := by
  rcases s.advance_cases with ⟨-, moved⟩ | ⟨slot, -, -, moved⟩
  · rw [moved]
  · rw [moved]
    exact s.machine.program_stepIn

theorem program_after (s : Session) (n : Nat) :
    (s.after n).machine.program = s.machine.program := by
  induction n generalizing s with
  | zero => rfl
  | succ n ih => exact (ih s.advance.2).trans s.program_advance

theorem eq_report_of_advance {s : Session} {r : StepReport} (moved : s.advance.1 = .step r) :
    ∃ slot, s.machine.program.slotAt? s.machine.pc = some slot ∧
      r = report slot s.machine s.advance.2.machine r.fault := by
  rcases s.advance_cases with ⟨-, advanced⟩ | ⟨slot, -, fetched, advanced⟩
  · rw [advanced] at moved
    cases moved
  · rw [advanced] at moved ⊢
    cases moved
    exact ⟨slot, fetched, rfl⟩

theorem describes_of_advance {s : Session} {r : StepReport} (moved : s.advance.1 = .step r) :
    r.Describes s.machine.program := by
  obtain ⟨slot, fetched, reported⟩ := eq_report_of_advance moved
  obtain ⟨index, indexed, placed⟩ := Option.bind_eq_some_iff.1 fetched
  refine ⟨index, slot, ?_, placed, ?_, ?_, ?_⟩
  · rw [reported]; exact indexed
  · rw [Program.instrText?, placed, reported]; rfl
  · rw [reported]; rfl
  · rw [reported]; rfl

theorem rests_of_isCompleted {s : Session} (completed : s.isCompleted = true) (n : Nat) :
    (s.after n).isCompleted = true ∧ (s.after n).machine = s.machine := by
  induction n generalizing s with
  | zero => exact ⟨completed, rfl⟩
  | succ n ih =>
    have moved : s.advance = (.completed, { s with completed := true }) := by
      rw [advance, if_pos completed]
    rw [after, moved]
    exact ih rfl

theorem restsFrom_of_isCompleted {s : Session} {n : Nat}
    (completed : (s.after n).isCompleted = true) : s.RestsFrom n := by
  intro k le
  obtain ⟨j, rfl⟩ := Nat.exists_eq_add_of_le le
  obtain ⟨still, same⟩ := rests_of_isCompleted completed j
  rw [← after_add] at still same
  exact ⟨(isCompleted_iff_advance _).1 still, same, still⟩

/-- The session is at a machine of a run: it has not met a fault, and its own machine differs from
that of the run at most in what was noted as changed. -/
structure Tracks (s : Session) (m : Machine) : Prop where
  faultless : s.completed = false
  same : s.machine.clearChanges = m.clearChanges

namespace Tracks

variable {s : Session} {m mid final : Machine} {f : Fault}

theorem isCompleted (h : s.Tracks m) : s.isCompleted = m.isDone := by
  rw [Session.isCompleted, h.faultless, Bool.false_or, Machine.isDone_of_same h.same]

theorem advance (h : s.Tracks m) (undone : m.step ≠ .done) :
    ∃ slot, s.advance = (.step (report slot s.machine s.machine.stepIn.1 s.machine.stepIn.2),
      ⟨s.machine.stepIn.1, s.machine.stepIn.2.isSome⟩) := by
  rcases s.advance_cases with ⟨completed, -⟩ | ⟨slot, -, -, moved⟩
  · rw [h.isCompleted, ← Machine.step_eq_done] at completed
    exact absurd completed undone
  · exact ⟨slot, moved⟩

/-- Where the run takes a step, the session reports it and is at the next machine. -/
theorem ran (h : s.Tracks m) (ran : m.step = .ran mid) :
    ∃ r, s.advance.1 = .step r ∧ r.Shows m mid ∧ s.advance.2.Tracks mid := by
  have cleared : s.machine.clearChanges.clearChanges = m.clearChanges := h.same
  obtain ⟨next, stepped, same⟩ := Machine.step_of_same cleared ran
  have moved : s.machine.stepIn = (next, none) := by
    rw [Machine.stepIn, stepped]
  obtain ⟨slot, advanced⟩ := h.advance fun done => by cases ran.symm.trans done
  rw [advanced, moved]
  refine ⟨_, rfl, ⟨rfl, ?_, ?_⟩, ⟨rfl, same⟩⟩
  · obtain ⟨text, printed⟩ := Machine.output_of_step ran
    rw [report, Machine.output_of_same h.same, Machine.output_of_same same, printed,
      Text.dropBytes_append]
  · rw [← Machine.output_of_same same]
    exact (Machine.snapshot_of_same same).symm

/-- Where the run meets a fault, the session reports it and is completed. -/
theorem failed (h : s.Tracks m) (failed : m.step = .fault f m) :
    ∃ r, s.advance.1 = .step r ∧ r.Fails m f ∧ s.advance.2.isCompleted = true := by
  have cleared : s.machine.clearChanges.clearChanges = m.clearChanges := h.same
  have met := Machine.fault_of_same cleared failed
  have moved : s.machine.stepIn = (s.machine.clearChanges, some f) := by
    rw [Machine.stepIn, met]
  obtain ⟨slot, advanced⟩ := h.advance fun done => by cases failed.symm.trans done
  rw [advanced, moved]
  refine ⟨_, rfl, ⟨rfl, ?_, rfl, rfl, ?_⟩, rfl⟩
  · have nothing := Text.dropBytes_append s.machine.output ""
    rw [String.append_empty] at nothing
    exact nothing
  · rw [← Machine.output_of_same h.same]
    exact (Machine.snapshot_of_same h.same).symm

/-- The induction is on the steps of the run, each of which the session reports. -/
theorem executes {n : Nat} (run : Machine.Executes n m final) (h : s.Tracks m) :
    ∃ reports, reports.length = n ∧ s.answers n = reports.map .step ∧
      StepReport.Trace reports m final ∧ (s.after n).Tracks final := by
  induction run generalizing s with
  | refl m => exact ⟨[], rfl, rfl, .nil m, h⟩
  | step stepped _ ih =>
    obtain ⟨r, answered, shows, next⟩ := h.ran stepped
    obtain ⟨reports, length, answers, trace, last⟩ := ih next
    refine ⟨r :: reports, ?_, ?_, trace.cons shows, last⟩
    · rw [List.length_cons, length]
    · rw [answers_succ, answered, answers, List.map_cons]

end Tracks

/-- The first calls of a session were answered with reports of the steps to `final`, the last of
which shows `final`, while its output is what they printed. -/
structure Tells (s : Session) (reports : List StepReport) (final : Machine) : Prop where
  executed : Machine.Executes reports.length s.machine final
  answers : s.answers reports.length = reports.map .step
  fault : ∀ r ∈ reports, r.fault = none
  snapshot : final.snapshot =
    StepReport.seen s.machine reports (String.join (reports.map StepReport.output))

theorem tells_of_executes (p : Program) (settings : Settings) {n : Nat} {final : Machine}
    (executed : Machine.Executes n ((Machine.new settings).load p) final) :
    ∃ reports, reports.length = n ∧ (start p settings).Tells reports final ∧
      ((start p settings).after n).Tracks final := by
  have tracks : (start p settings).Tracks ((Machine.new settings).load p) := ⟨rfl, rfl⟩
  obtain ⟨reports, rfl, answers, trace, last⟩ := tracks.executes executed
  have output : String.join (reports.map StepReport.output) = final.output :=
    String.empty_append.symm.trans trace.output
  refine ⟨reports, rfl, ⟨executed, answers, trace.fault, ?_⟩, last⟩
  rw [output]
  exact trace.snapshot

/-- A run that ended without a fault is reported step by step, and then the session rests. -/
theorem rests_after_run {p : Program} {settings : Settings} {fuel : Nat} {final : Machine}
    (ended : p.run settings fuel = .ended final none) :
    ∃ reports, (start p settings).Tells reports final ∧
      (start p settings).RestsFrom reports.length := by
  have follows := p.follows_run settings fuel
  rw [ended] at follows
  obtain ⟨n, executed, done⟩ := follows
  obtain ⟨reports, rfl, tells, last⟩ := tells_of_executes p settings executed
  exact ⟨reports, tells, restsFrom_of_isCompleted (last.isCompleted.trans done)⟩

/-- A run that ended with a fault is reported step by step, the next report is one of the fault,
and then the session rests. -/
theorem rests_after_fault {p : Program} {settings : Settings} {fuel : Nat} {final : Machine}
    {f : Fault} (ended : p.run settings fuel = .ended final (some f)) :
    ∃ reports last, (start p settings).Tells reports final ∧
      (start p settings).answer reports.length = .step last ∧ last.Fails final f ∧
      (start p settings).RestsFrom (reports.length + 1) := by
  have follows := p.follows_run settings fuel
  rw [ended] at follows
  obtain ⟨n, executed, failed⟩ := follows
  obtain ⟨reports, rfl, tells, tracks⟩ := tells_of_executes p settings executed
  obtain ⟨last, answered, fails, completed⟩ := tracks.failed failed
  rw [← after_succ] at completed
  exact ⟨reports, last, tells, answered, fails, restsFrom_of_isCompleted completed⟩

theorem reports_for_ever {p : Program} {settings : Settings}
    (endless : ∀ fuel, ∃ m, p.run settings fuel = .unfinished m) (n : Nat) :
    ∃ r, (start p settings).answer n = .step r ∧ r.fault = none := by
  obtain ⟨m, unfinished⟩ := endless (n + 1)
  have follows := p.follows_run settings (n + 1)
  rw [unfinished] at follows
  obtain ⟨reports, length, tells, -⟩ := tells_of_executes p settings follows
  have member : (start p settings).answer n ∈ reports.map .step := by
    rw [← tells.answers, length]
    exact List.mem_map_of_mem (List.mem_range.2 n.lt_succ_self)
  obtain ⟨r, mem, answered⟩ := List.mem_map.1 member
  exact ⟨r, answered.symm, tells.fault r mem⟩

theorem pcBefore_answer_succ {s : Session} {n : Nat} {r next : StepReport}
    (first : s.answer n = .step r) (second : s.answer (n + 1) = .step next) :
    next.pcBefore = r.pc := by
  obtain ⟨_, -, reported⟩ := eq_report_of_advance first
  obtain ⟨_, -, reported'⟩ := eq_report_of_advance second
  rw [reported, reported', after_succ]
  rfl

theorem describes_answer {s : Session} {n : Nat} {r : StepReport}
    (answered : s.answer n = .step r) :
    r.Describes s.machine.program := by
  rw [← s.program_after n]
  exact describes_of_advance answered

end Session

/-- Stepping through a session of a program is the run of the program, however the run ends. -/
theorem Session.steps_are_run (p : Program) (settings : Settings) :
    let s := start p settings
    (∀ fuel final, p.run settings fuel = .ended final none →
      ∃ reports, s.Tells reports final ∧ s.RestsFrom reports.length) ∧
    (∀ fuel final f, p.run settings fuel = .ended final (some f) →
      ∃ reports last, s.Tells reports final ∧
        s.answer reports.length = .step last ∧ last.Fails final f ∧
        s.RestsFrom (reports.length + 1)) ∧
    ((∀ fuel, ∃ m, p.run settings fuel = .unfinished m) →
      ∀ n, ∃ r, s.answer n = .step r ∧ r.fault = none) ∧
    (∀ r, s.answer 0 = .step r → r.pcBefore = 0) ∧
    (∀ n r next, s.answer n = .step r → s.answer (n + 1) = .step next → next.pcBefore = r.pc) ∧
    (∀ n r, s.answer n = .step r → r.Describes p) ∧
    (∀ n, (s.after n).isCompleted = true ↔ s.answer n = .completed) := by
  intro s
  refine ⟨?_, ?_, ?_, ?_, ?_, ?_, ?_⟩
  · intro fuel final ended
    exact rests_after_run ended
  · intro fuel final f ended
    exact rests_after_fault ended
  · intro endless n
    exact reports_for_ever endless n
  · intro r answered
    obtain ⟨_, -, reported⟩ := eq_report_of_advance answered
    rw [reported]
    rfl
  · intro n r next first second
    exact pcBefore_answer_succ first second
  · intro n r answered
    exact describes_answer answered
  · intro n
    exact (s.after n).isCompleted_iff_advance

def Program.exiting : Program :=
  ⟨#[⟨.li .v0 10, [], ⟨0, 10⟩⟩, ⟨.syscall, [], ⟨11, 18⟩⟩], .empty, .empty, none⟩

theorem Session.steps_are_run_exiting :
    ∃ final reports, Program.exiting.run {} 2 = .ended final none ∧
      (start .exiting {}).Tells reports final ∧ (start .exiting {}).RestsFrom reports.length := by
  let loaded := (Machine.new {}).load .exiting
  let final := (loaded.writeRegister .v0 10).goOn.exit
  have ended : Program.exiting.run {} 2 = .ended final none := rfl
  obtain ⟨reports, tells, rests⟩ := (steps_are_run .exiting {}).1 2 final ended
  exact ⟨final, reports, ended, tells, rests⟩

end Mips
