import Mips.Proofs.Folds
import Mips.Proofs.Runs
import Mips.Proofs.Sinks

/-!
# What a machine prints

The text that an instruction prints is told by the registers and the memory before it. Steps and
runs append their texts to the output and send each to all consoles. Nothing ever comes back from
the sinks: what the machine does and prints is the same with any others.
-/
namespace Mips

/-- The texts that an effect prints. An empty text is printed too. -/
def Effect.texts : Effect → List String
  | text t => [t]
  | nothing | register .. | cell .. => []

theorem Effect.join_texts (e : Effect) : String.join e.texts = e.printed := by
  cases e with
  | text t => rw [texts, String.join_cons, String.join_nil, String.append_empty]; rfl
  | nothing | register | cell => rfl

namespace Machine

variable (m : Machine) (sinks : Array Sink)

/-- The text that the service asked for in register `v0` prints, if it prints one. -/
def requested? : Option String :=
  let code := m.registers.get .v0
  let argument := m.registers.get .a0
  if code = 1 then some argument.signedText
  else if code = 4 then some (m.memory.readText argument)
  else if code = 10 then if m.settings.announceExit then some "Program exit\n" else none
  else some ("Unknown syscall: " ++ code.signedText ++ "\n")

/-- The text that the next instruction prints, if there is one and it prints. -/
def utterance? : Option String :=
  if m.halted then none
  else
    match m.program.slotAt? m.pc with
    | some slot => if slot.instr = .syscall then m.requested? else none
    | none => none

theorem texts_service : m.service.effect.texts = m.requested?.toList := by
  unfold service requested? Service.ofCode
  dsimp only
  by_cases integer : m.registers.get .v0 = 1
  · rw [if_pos integer, if_pos integer]
    rfl
  · rw [if_neg integer, if_neg integer]
    by_cases text : m.registers.get .v0 = 4
    · rw [if_pos text, if_pos text]
      rfl
    · rw [if_neg text, if_neg text]
      by_cases exits : m.registers.get .v0 = 10
      · rw [if_pos exits, if_pos exits]
        cases m.settings.announceExit <;> rfl
      · rw [if_neg exits, if_neg exits]
        rfl

/-- Only a system call prints. -/
theorem texts_outcome {i : Instr} {o : Outcome} (ho : m.outcome i = .ok o) :
    o.effect.texts = if i = .syscall then m.requested?.toList else [] := by
  have silent {α : Type} {x : Except Fault α} {f : α → Outcome} (h : x.map f = .ok o)
      (quiet : ∀ a, (f a).effect.texts = []) : o.effect.texts = [] := by
    obtain ⟨a, -, rfl⟩ := map_eq_ok.1 h
    exact quiet a
  cases i with
  | syscall =>
    cases ho
    exact m.texts_service
  | la rd label => exact silent ho fun _ => rfl
  | mem op rt address => cases op <;> exact silent ho fun _ => rfl
  | jump op label => cases op <;> exact silent ho fun _ => rfl
  | branch op rs rt label =>
    rw [outcome] at ho
    split at ho
    next => exact silent ho fun _ => rfl
    next =>
      cases ho
      rfl
  | _ =>
    cases ho
    rfl

variable {m}

theorem texts_of_slot {slot : Slot} {o : Outcome} (running : m.halted = false)
    (fetched : m.program.slotAt? m.pc = some slot) (ho : m.outcome slot.instr = .ok o) :
    o.effect.texts = m.utterance?.toList := by
  rw [m.texts_outcome ho, utterance?, running, fetched]
  dsimp only [Bool.false_eq_true, if_false]
  split <;> rfl

theorem utterance?_of_done (rests : m.step = .done) : m.utterance? = none := by
  have done : m.isDone = true := step_eq_done.1 rests
  rw [isDone, Bool.or_eq_true, Option.isNone_iff_eq_none] at done
  unfold utterance?
  rcases done with halted | beyond
  · rw [if_pos halted]
  · rw [beyond]
    exact ite_self _

/-- A system call never fails, so nothing is printed by an instruction that is not executed. -/
theorem utterance?_of_fault {f : Fault} {after : Machine} (failed : m.step = .fault f after) :
    m.utterance? = none := by
  obtain ⟨-, running, slot, fetched, ho⟩ := step_eq_fault.1 failed
  have unasked : slot.instr ≠ .syscall := by
    intro asked
    rw [asked] at ho
    cases ho
  rw [utterance?, running, fetched]
  exact if_neg unasked

theorem output_step {after : Machine} (ran : m.step = .ran after) :
    after.output = m.output ++ String.join m.utterance?.toList := by
  obtain ⟨running, slot, o, fetched, ho, rfl⟩ := step_eq_ran.1 ran
  rw [output_finish, ← Effect.join_texts, texts_of_slot running fetched ho]

theorem consoles_step {after : Machine} (ran : m.step = .ran after) :
    after.consoles = m.consoles := by
  obtain ⟨-, slot, o, -, -, rfl⟩ := step_eq_ran.1 ran
  obtain ⟨effect, next⟩ := o
  cases next <;> cases effect <;> rfl

def withSinks (m : Machine) (sinks : Array Sink) : Machine :=
  { m with sinks := sinks }

theorem finish_withSinks (o : Outcome) : (m.withSinks sinks).finish o =
    (m.finish o).withSinks (Console.tellAll m.consoles sinks o.effect.texts) := by
  obtain ⟨effect, next⟩ := o
  cases next <;> cases effect <;> rfl

def Step.withSinks (sinks : Array Sink) : Step → Step
  | ran m => .ran (m.withSinks sinks)
  | done => .done
  | fault f m => .fault f (m.withSinks sinks)

theorem outcome_withSinks (i : Instr) : (m.withSinks sinks).outcome i = m.outcome i := rfl

/-- A step sends its text to all consoles, and takes nothing from the sinks. -/
theorem step_withSinks : (m.withSinks sinks).step =
    m.step.withSinks (Console.tellAll m.consoles sinks m.utterance?.toList) := by
  cases stepped : m.step with
  | ran after =>
    obtain ⟨running, slot, o, fetched, ho, rfl⟩ := step_eq_ran.1 stepped
    refine step_eq_ran.2 ⟨running, slot, o, fetched, (outcome_withSinks ..).trans ho, ?_⟩
    rw [finish_withSinks, texts_of_slot running fetched ho]
  | done =>
    have done : m.isDone = true := step_eq_done.1 stepped
    exact step_eq_done.2 done
  | fault f after =>
    have silent := utterance?_of_fault stepped
    obtain ⟨rfl, running, slot, fetched, ho⟩ := step_eq_fault.1 stepped
    rw [silent]
    exact step_eq_fault.2 ⟨rfl, running, slot, fetched, (outcome_withSinks ..).trans ho⟩

/-- The texts that a run prints with the given fuel, step by step. -/
def textsWhile (go : Machine → Bool) : (fuel : Nat) → Machine → List String
  | 0, _ => []
  | fuel + 1, m =>
    if go m then
      match m.step with
      | .ran after => m.utterance?.toList ++ if after.halted then [] else after.textsWhile go fuel
      | .done | .fault .. => []
    else []

end Machine

namespace Run

def machine : Run → Machine
  | ended m _ | unfinished m => m

def withSinks (sinks : Array Sink) : Run → Run
  | ended m fault => .ended (m.withSinks sinks) fault
  | unfinished m => .unfinished (m.withSinks sinks)

end Run

namespace Machine

variable {go : Machine → Bool} {m : Machine} (sinks : Array Sink)

/-- A run under a condition that does not look at the sinks sends its texts to all consoles. -/
theorem resumeWhile_withSinks (blind : ∀ m sinks, go (withSinks m sinks) = go m) (fuel : Nat) :
    (m.withSinks sinks).resumeWhile go fuel =
      (m.resumeWhile go fuel).withSinks
        (Console.tellAll m.consoles sinks (m.textsWhile go fuel)) := by
  induction fuel generalizing m sinks with
  | zero => rfl
  | succ fuel ih =>
    rw [resumeWhile, resumeWhile, textsWhile, blind]
    split
    next =>
      rw [step_withSinks]
      cases stepped : m.step with
      | ran after =>
        rw [Step.withSinks, Console.tellAll_append, ← consoles_step stepped]
        dsimp only
        have same : ∀ sinks, (after.withSinks sinks).halted = after.halted := fun _ => rfl
        rw [same]
        split
        next => rfl
        next => exact ih _
      | done => rfl
      | fault f after =>
        rw [utterance?_of_fault stepped]
        rfl
    next => rfl

theorem utterance?_withSinks : (m.withSinks sinks).utterance? = m.utterance? := rfl

theorem textsWhile_withSinks (blind : ∀ m sinks, go (withSinks m sinks) = go m) (fuel : Nat) :
    (m.withSinks sinks).textsWhile go fuel = m.textsWhile go fuel := by
  induction fuel generalizing m sinks with
  | zero => rfl
  | succ fuel ih =>
    rw [textsWhile, textsWhile, blind, step_withSinks, utterance?_withSinks]
    cases m.step with
    | ran after =>
      have same : ∀ sinks, (after.withSinks sinks).halted = after.halted := fun _ => rfl
      rw [Step.withSinks]
      dsimp only
      rw [same, ih]
    | done => rfl
    | fault f after => rfl

theorem consoles_resumeWhile (fuel : Nat) :
    (m.resumeWhile go fuel).machine.consoles = m.consoles := by
  induction fuel generalizing m with
  | zero => rfl
  | succ fuel ih =>
    rw [resumeWhile]
    split
    next =>
      cases stepped : m.step with
      | ran after =>
        dsimp only
        split
        next => exact consoles_step stepped
        next => exact ih.trans (consoles_step stepped)
      | done => rfl
      | fault f after => exact congrArg Machine.consoles (eq_of_fault stepped)
    next => rfl

/-- What a run prints is appended to the output. -/
theorem output_resumeWhile (fuel : Nat) : (m.resumeWhile go fuel).machine.output =
    m.output ++ String.join (m.textsWhile go fuel) := by
  have nothing : m.output = m.output ++ String.join [] := String.append_empty.symm
  induction fuel generalizing m with
  | zero => exact nothing
  | succ fuel ih =>
    rw [resumeWhile, textsWhile]
    split
    next =>
      cases stepped : m.step with
      | ran after =>
        dsimp only
        rw [String.join_append, ← String.append_assoc, ← output_step stepped]
        split
        next => exact String.append_empty.symm
        next => exact ih String.append_empty.symm
      | done => exact nothing
      | fault f after =>
        obtain rfl := eq_of_fault stepped
        exact nothing
    next => exact nothing

/-- A run that was left unfinished and is gone on with comes to what it would have come to at
once. -/
theorem resumeWhile_add (first second : Nat) : m.resumeWhile go (first + second) =
    match m.resumeWhile go first with
    | .unfinished after => after.resumeWhile go second
    | .ended after fault => .ended after fault := by
  induction first generalizing m with
  | zero => rw [Nat.zero_add]; rfl
  | succ first ih =>
    rw [Nat.succ_add, resumeWhile, resumeWhile]
    split
    next =>
      cases m.step with
      | ran after =>
        dsimp only
        split
        next => rfl
        next => exact ih
      | done => rfl
      | fault f after => rfl
    next => rfl

theorem textsWhile_add (first second : Nat) : m.textsWhile go (first + second) =
    m.textsWhile go first ++
      match m.resumeWhile go first with
      | .unfinished after => after.textsWhile go second
      | .ended .. => [] := by
  induction first generalizing m with
  | zero => rw [Nat.zero_add]; rfl
  | succ first ih =>
    rw [Nat.succ_add, textsWhile, textsWhile, resumeWhile]
    split
    next =>
      cases m.step with
      | ran after =>
        dsimp only
        rw [List.append_assoc]
        split
        next => rfl
        next => rw [ih]
      | done => rfl
      | fault f after => rfl
    next => rfl

end Machine

end Mips
