import Mips.Proofs.Printing

/-!
# Consoles over a history

A machine is called again and again, and in between, also in the middle of a run, others act on the
sinks of its consoles. What has come of a sink is told by the texts that were printed to the
consoles that refer to it and by what was done to this sink alone. Nothing else depends on what is
done to a sink: neither what the machine does and replies, nor what it prints, nor the other sinks.
-/
namespace Mips.Machine

/-- What ends a run besides the end of its program and a fault. -/
inductive Bound where
  | never
  /-- As many instructions as `most` were executed since the count was `start`. -/
  | limit (start most : BitVec 64)

namespace Bound

def holds : Bound → Machine → Bool
  | never => fun _ => true
  | limit start most => withinLimit start most

def since (m : Machine) : Option (BitVec 64) → Bound
  | none => never
  | some most => limit m.executed most

theorem holds_withSinks (bound : Bound) (m : Machine) (sinks : Array Sink) :
    bound.holds (m.withSinks sinks) = bound.holds m := by
  cases bound <;> rfl

end Bound

/-- What happens to a machine. Others may act on the sinks in the middle of a run: the run is left
unfinished where its fuel is used up, and is gone on with later. -/
inductive Event where
  | load (program : Program)
  | reset
  | stepIn
  | run (most : Option (BitVec 64)) (fuel : Nat)
  | resume (bound : Bound) (fuel : Nat)
  | runWithLimit (limit : BitVec 64)
  | takeOutput
  /-- A sink is made, to which no console refers yet. -/
  | create (sink : Sink)
  | attach (console : Console)
  /-- Others act on the sink with the given index. -/
  | outside (sink : Nat) (act : Sink.Act)

inductive Reply where
  /-- A step or a run has ended, with the fault that ended it if there was one. -/
  | ended (fault : Option Fault)
  | unfinished
  | taken (output : String)
  deriving DecidableEq

def replied : Run → Option Reply × Machine
  | .ended m fault => (some (.ended fault), m)
  | .unfinished m => (some .unfinished, m)

/-- The reply to an event, if it has one, and the machine after it. -/
def serve (m : Machine) : Event → Option Reply × Machine
  | .load program => (none, m.load program)
  | .reset => (none, m.reset)
  | .stepIn => (some (.ended m.stepIn.2), m.stepIn.1)
  | .run most fuel => replied (m.runWhile (Bound.since m most).holds fuel)
  | .resume bound fuel => replied (m.resumeWhile bound.holds fuel)
  | .runWithLimit limit => (some (.ended (m.runWithLimit limit).2), (m.runWithLimit limit).1)
  | .takeOutput => (some (.taken m.takeOutput.1), m.takeOutput.2)
  | .create sink => (none, { m with sinks := m.sinks.push sink })
  | .attach console => (none, m.attach console)
  | .outside sink act => (none, { m with sinks := m.sinks.modify sink (·.undergo act) })

namespace Event

def texts (m : Machine) : Event → List String
  | stepIn => m.utterance?.toList
  | run most fuel => m.startRun.textsWhile (Bound.since m most).holds fuel
  | resume bound fuel => m.textsWhile bound.holds fuel
  | runWithLimit limit =>
    m.startRun.textsWhile (Bound.since m (some limit)).holds (limit.toNat + 1)
  | load _ | reset | takeOutput | create _ | attach _ | outside .. => []

def moments (m : Machine) : Event → List Moment
  | outside sink act => [.act sink act]
  | e => (e.texts m).map (.printed · m.consoles)

def clears : Event → Bool
  | load _ | reset | takeOutput => true
  | stepIn | run .. | resume .. | runWithLimit _ | create _ | attach _ | outside .. => false

def isAt (index : Nat) : Event → Bool
  | outside sink _ => sink = index
  | _ => false

def sinks (m : Machine) (e : Event) (sinks : Array Sink) : Array Sink :=
  match e with
  | create sink => sinks.push sink
  | outside sink act => sinks.modify sink (·.undergo act)
  | e => Console.tellAll m.consoles sinks (e.texts m)

variable {m : Machine} {before after : Array Sink}

theorem size_sinks (e : Event) (same : after.size = before.size) :
    (e.sinks m after).size = (e.sinks m before).size := by
  cases e with
  | create sink => rw [sinks, sinks, Array.size_push, Array.size_push, same]
  | outside sink act => rw [sinks, sinks, Array.size_modify, Array.size_modify, same]
  | load | reset | stepIn | run | resume | runWithLimit | takeOutput | attach =>
    exact (Console.size_tellAll ..).trans (same.trans (Console.size_tellAll ..).symm)

/-- What becomes of a sink depends on no other one. -/
theorem getElem?_sinks (e : Event) {i : Nat} (size : after.size = before.size)
    (same : after[i]? = before[i]?) : (e.sinks m after)[i]? = (e.sinks m before)[i]? := by
  cases e with
  | create sink => rw [sinks, sinks, Array.getElem?_push, Array.getElem?_push, size, same]
  | outside sink act =>
    rw [sinks, sinks, Array.getElem?_modify, Array.getElem?_modify, same]
  | load | reset | stepIn | run | resume | runWithLimit | takeOutput | attach =>
    refine (Console.getElem?_tellAll ..).trans (Eq.trans ?_ (Console.getElem?_tellAll ..).symm)
    rw [same]

end Event

structure History where
  final : Machine
  replies : List Reply
  moments : List Moment

def history (m : Machine) : List Event → History
  | [] => ⟨m, [], []⟩
  | e :: later =>
    let rest := (m.serve e).2.history later
    ⟨rest.final, (m.serve e).1.toList ++ rest.replies, e.moments m ++ rest.moments⟩

variable {m m' : Machine} {e : Event} {events : List Event} {index : Nat}

theorem final_history_append (before after : List Event) :
    (m.history (before ++ after)).final = ((m.history before).final.history after).final := by
  induction before generalizing m with
  | nil => rfl
  | cons e before ih => exact ih

theorem replied_withSinks (sinks : Array Sink) (r : Run) :
    replied (r.withSinks sinks) = ((replied r).1, (replied r).2.withSinks sinks) := by
  cases r <;> rfl

theorem replied_snd (r : Run) : (replied r).2 = r.machine := by
  cases r <;> rfl

theorem runWhile_withSinks (sinks : Array Sink) (bound : Bound) (fuel : Nat) :
    (m.withSinks sinks).runWhile bound.holds fuel =
      (m.runWhile bound.holds fuel).withSinks
        (Console.tellAll m.consoles sinks (m.startRun.textsWhile bound.holds fuel)) :=
  resumeWhile_withSinks (m := m.startRun) sinks bound.holds_withSinks fuel

theorem runWithLimit_fst (limit : BitVec 64) : (m.runWithLimit limit).1 =
    (m.runWhile (Bound.since m (some limit)).holds (limit.toNat + 1)).machine := by
  change (m.runWithLimit limit).1 =
    (m.runWhile (withinLimit m.executed limit) (limit.toNat + 1)).machine
  rw [runWithLimit]
  cases m.runWhile (withinLimit m.executed limit) (limit.toNat + 1) <;> rfl

theorem runWithLimit_withSinks (sinks : Array Sink) (limit : BitVec 64) :
    (m.withSinks sinks).runWithLimit limit =
      ((m.runWithLimit limit).1.withSinks
          (Console.tellAll m.consoles sinks ((Event.runWithLimit limit).texts m)),
        (m.runWithLimit limit).2) := by
  have start : (m.withSinks sinks).executed = m.executed := rfl
  have ran : (m.withSinks sinks).runWhile (withinLimit m.executed limit) (limit.toNat + 1) =
      (m.runWhile (withinLimit m.executed limit) (limit.toNat + 1)).withSinks
        (Console.tellAll m.consoles sinks ((Event.runWithLimit limit).texts m)) :=
    runWhile_withSinks sinks (.since m (some limit)) (limit.toNat + 1)
  rw [runWithLimit, start, ran, runWithLimit]
  cases m.runWhile (withinLimit m.executed limit) (limit.toNat + 1) <;> rfl

theorem stepIn_withSinks (sinks : Array Sink) : (m.withSinks sinks).stepIn =
    (m.stepIn.1.withSinks (Console.tellAll m.consoles sinks m.utterance?.toList), m.stepIn.2) := by
  have stepped : (m.withSinks sinks).clearChanges.step =
      m.clearChanges.step.withSinks (Console.tellAll m.consoles sinks m.utterance?.toList) :=
    step_withSinks (m := m.clearChanges) sinks
  rw [stepIn, stepped, stepIn]
  cases same : m.clearChanges.step with
  | ran after => rfl
  | done =>
    have silent : m.utterance? = none := utterance?_of_done (m := m.clearChanges) same
    rw [silent]
    rfl
  | fault f after => rfl

/-- An event does the same to a machine with any sinks. -/
theorem serve_withSinks (m : Machine) (sinks : Array Sink) (e : Event) :
    (m.withSinks sinks).serve e =
      ((m.serve e).1, (m.serve e).2.withSinks (e.sinks m sinks)) := by
  cases e with
  | load | reset | takeOutput | create | attach | outside => rfl
  | stepIn =>
    rw [serve, stepIn_withSinks]
    rfl
  | run most fuel =>
    have bound : Bound.since (m.withSinks sinks) most = Bound.since m most := by
      cases most <;> rfl
    rw [serve, bound, runWhile_withSinks, replied_withSinks]
    rfl
  | resume bound fuel =>
    rw [serve, resumeWhile_withSinks sinks bound.holds_withSinks, replied_withSinks]
    rfl
  | runWithLimit limit =>
    rw [serve, runWithLimit_withSinks]
    rfl

theorem texts_withSinks (m : Machine) (sinks : Array Sink) (e : Event) :
    e.texts (m.withSinks sinks) = e.texts m := by
  cases e with
  | load | reset | stepIn | takeOutput | create | attach | outside => rfl
  | run most fuel =>
    cases most <;>
      exact textsWhile_withSinks (m := m.startRun) sinks (Bound.holds_withSinks _) fuel
  | resume bound fuel => exact textsWhile_withSinks sinks bound.holds_withSinks fuel
  | runWithLimit limit =>
    let bound : Bound := .since m (some limit)
    exact textsWhile_withSinks (m := m.startRun) sinks bound.holds_withSinks _

theorem moments_withSinks (m : Machine) (sinks : Array Sink) (e : Event) :
    e.moments (m.withSinks sinks) = e.moments m := by
  cases e with
  | outside => rfl
  | load | reset | stepIn | run | resume | runWithLimit | takeOutput | create | attach =>
    exact congrArg (List.map (Moment.printed · m.consoles)) (texts_withSinks m sinks _)

theorem sinks_serve (m : Machine) (e : Event) : (m.serve e).2.sinks = e.sinks m m.sinks :=
  congrArg (fun r => r.2.sinks) (serve_withSinks m m.sinks e)

/-- A sink meets what happens at an event, and nothing else. -/
theorem getElem?_serve {s : Sink} (held : m.sinks[index]? = some s) (e : Event) :
    (m.serve e).2.sinks[index]? = some (s.after index (e.moments m)) := by
  have told (texts : List String) : (Console.tellAll m.consoles m.sinks texts)[index]? =
      some (s.after index (texts.map (.printed · m.consoles))) := by
    rw [Console.getElem?_tellAll, held, Sink.after_printed]
    rfl
  rw [sinks_serve]
  cases e with
  | create sink =>
    have inside : index < m.sinks.size := (Array.getElem?_eq_some_iff.1 held).1
    rw [Event.sinks, Array.getElem?_push, if_neg (Nat.ne_of_lt inside), held]
    rfl
  | outside i act =>
    rw [Event.sinks, Array.getElem?_modify, held]
    change (if i = index then _ else _) = some (if i = index then _ else _)
    split <;> rfl
  | load | reset | stepIn | run | resume | runWithLimit | takeOutput | attach => exact told _

theorem getElem?_final {s : Sink} (held : m.sinks[index]? = some s) (events : List Event) :
    (m.history events).final.sinks[index]? =
      some (s.after index (m.history events).moments) := by
  induction events generalizing m s with
  | nil => exact held
  | cons e later ih =>
    rw [history]
    dsimp only
    rw [Sink.after_append]
    exact ih (getElem?_serve held e)

section Copies

variable {c : Console}

theorem consoles_stepIn (m : Machine) : m.stepIn.1.consoles = m.consoles := by
  rw [stepIn]
  cases same : m.clearChanges.step with
  | ran after => exact consoles_step (m := m.clearChanges) same
  | done => rfl
  | fault f after =>
    obtain rfl := eq_of_fault same
    rfl

theorem consoles_serve (m : Machine) (e : Event) : (m.serve e).2.consoles =
    match e with
    | .attach console => m.consoles.push console
    | _ => m.consoles := by
  cases e with
  | load | reset | takeOutput | create | attach | outside => rfl
  | stepIn => exact m.consoles_stepIn
  | run most fuel =>
    rw [serve, replied_snd]
    exact consoles_resumeWhile (m := m.startRun) fuel
  | resume bound fuel =>
    rw [serve, replied_snd]
    exact consoles_resumeWhile fuel
  | runWithLimit limit =>
    rw [serve, runWithLimit_fst]
    exact consoles_resumeWhile (m := m.startRun) _

theorem count_serve (once : e ≠ .attach c) :
    (m.serve e).2.consoles.count c = m.consoles.count c := by
  rw [consoles_serve]
  cases e with
  | attach console =>
    have other : console ≠ c := fun same => once (congrArg Event.attach same)
    exact Array.count_push_of_ne other
  | load | reset | stepIn | run | resume | runWithLimit | takeOutput | create | outside => rfl

theorem texts_moments (m : Machine) (e : Event) : Moment.texts (e.moments m) = e.texts m := by
  cases e with
  | outside => rfl
  | load | reset | stepIn | run | resume | runWithLimit | takeOutput | create | attach =>
    exact Moment.texts_printed _ _

theorem written_moments (m : Machine) (alone : ∀ text, e ≠ .outside index (.write text)) :
    (e.moments m).flatMap (Moment.written index) =
      Console.copies m.consoles index (e.texts m) := by
  cases e with
  | outside i act =>
    change (if i = index then act.texts else []) ++ [] = []
    rw [List.append_nil]
    split
    next here =>
      subst here
      cases act with
      | write text => exact absurd rfl (alone text)
      | lock | unlock | receive | close => rfl
    next => rfl
  | load | reset | stepIn | run | resume | runWithLimit | takeOutput | create | attach =>
    exact Moment.written_printed ..

/-- Where no other writes to the sink of a console, and the console is not attached again, what is
printed is written to the sink once for each time that the console was attached. -/
theorem written_history (once : .attach c ∉ events)
    (alone : ∀ text, .outside c.sink (.write text) ∉ events) :
    (m.history events).moments.flatMap (Moment.written c.sink) =
      Console.copies m.consoles c.sink (Moment.texts (m.history events).moments) := by
  induction events generalizing m with
  | nil => rfl
  | cons e later ih =>
    simp only [List.mem_cons, not_or] at once alone
    have rest := ih (m := (m.serve e).2) once.2 fun text => (alone text).2
    have count : (m.serve e).2.consoles.count ⟨c.sink⟩ = m.consoles.count ⟨c.sink⟩ :=
      count_serve (Ne.symm once.1)
    rw [history, List.flatMap_append, rest, written_moments m fun text => Ne.symm (alone text).1,
      Moment.texts_append, texts_moments, Console.copies_append, Console.copies_congr count]

end Copies

theorem output_stepIn (m : Machine) :
    m.stepIn.1.output = m.output ++ String.join m.utterance?.toList := by
  rw [stepIn]
  cases same : m.clearChanges.step with
  | ran after => exact output_step (m := m.clearChanges) same
  | done =>
    have silent : m.utterance? = none := utterance?_of_done (m := m.clearChanges) same
    rw [silent]
    exact String.append_empty.symm
  | fault f after =>
    have silent : m.utterance? = none := utterance?_of_fault (m := m.clearChanges) same
    obtain rfl := eq_of_fault same
    rw [silent]
    exact String.append_empty.symm

theorem output_serve (kept : e.clears = false) :
    (m.serve e).2.output = m.output ++ String.join (e.texts m) := by
  cases e with
  | load | reset | takeOutput => cases kept
  | create | attach | outside => exact String.append_empty.symm
  | stepIn => exact m.output_stepIn
  | run most fuel =>
    rw [serve, replied_snd]
    exact output_resumeWhile (m := m.startRun) fuel
  | resume bound fuel =>
    rw [serve, replied_snd]
    exact output_resumeWhile fuel
  | runWithLimit limit =>
    rw [serve, runWithLimit_fst]
    exact output_resumeWhile (m := m.startRun) (limit.toNat + 1)

theorem output_cleared (m : Machine) (cleared : e.clears = true) : (m.serve e).2.output = "" := by
  cases e with
  | load | reset | takeOutput => rfl
  | stepIn | run | resume | runWithLimit | create | attach | outside => cases cleared

/-- The output grows by the texts that are printed, as long as it is not emptied. -/
theorem output_final (kept : ∀ e ∈ events, e.clears = false) : (m.history events).final.output =
    m.output ++ String.join (Moment.texts (m.history events).moments) := by
  induction events generalizing m with
  | nil => exact String.append_empty.symm
  | cons e later ih =>
    rw [history]
    dsimp only
    rw [ih fun e' member => kept e' (List.mem_cons_of_mem _ member),
      output_serve (kept e List.mem_cons_self), Moment.texts_append, texts_moments,
      String.join_append, String.append_assoc]

/-- Everything but the sink with the given index is the same on two machines. -/
structure SameBut (index : Nat) (m m' : Machine) : Prop where
  same : m' = m.withSinks m'.sinks
  size : m'.sinks.size = m.sinks.size
  others : ∀ i, i ≠ index → m'.sinks[i]? = m.sinks[i]?

/-- Two histories are the same but for the sink with the given index and what was done to it. -/
structure History.SameBut (index : Nat) (h h' : History) : Prop where
  final : h.final.SameBut index h'.final
  replies : h'.replies = h.replies
  moments : h'.moments.filter (!·.isAt index) = h.moments.filter (!·.isAt index)

theorem SameBut.refl (index : Nat) (m : Machine) : m.SameBut index m :=
  ⟨rfl, rfl, fun _ _ => rfl⟩

theorem SameBut.symm (apart : m.SameBut index m') : m'.SameBut index m where
  same := by
    rw [apart.same]
    rfl
  size := apart.size.symm
  others i other := (apart.others i other).symm

theorem SameBut.trans {m'' : Machine} (first : m.SameBut index m') (second : m'.SameBut index m'') :
    m.SameBut index m'' where
  same := by
    rw [second.same, first.same]
    rfl
  size := second.size.trans first.size
  others i other := (second.others i other).trans (first.others i other)

theorem SameBut.serve (apart : m.SameBut index m') (e : Event) :
    (m.serve e).2.SameBut index (m'.serve e).2 ∧ (m'.serve e).1 = (m.serve e).1 ∧
      e.moments m' = e.moments m := by
  have served : m'.serve e =
      ((m.serve e).1, (m.serve e).2.withSinks (e.sinks m m'.sinks)) :=
    (congrArg (·.serve e) apart.same).trans (serve_withSinks m m'.sinks e)
  have met : e.moments m' = e.moments m :=
    (congrArg e.moments apart.same).trans (moments_withSinks m m'.sinks e)
  rw [served]
  refine ⟨⟨rfl, ?_, fun i other => ?_⟩, rfl, met⟩
  · rw [sinks_serve]
    exact e.size_sinks apart.size
  · rw [sinks_serve]
    exact e.getElem?_sinks apart.size (apart.others i other)

/-- Something is done to the sink of one machine that the two need not have in common. -/
theorem SameBut.act (apart : m.SameBut index m') (act : Sink.Act) :
    (m.serve (.outside index act)).2.SameBut index m' where
  same := apart.same
  size := apart.size.trans (Array.size_modify ..).symm
  others i other := by
    rw [apart.others i other]
    exact ((Array.getElem?_modify ..).trans (if_neg other.symm)).symm

/-- What is done to one sink can be left out of a history. -/
theorem SameBut.history_filter (apart : m.SameBut index m') (events : List Event) :
    (m.history events).SameBut index (m'.history (events.filter (!·.isAt index))) := by
  induction events generalizing m m' with
  | nil => exact ⟨apart, rfl, rfl⟩
  | cons e later ih =>
    cases here : e.isAt index with
    | true =>
      obtain ⟨i, act, rfl⟩ : ∃ i act, e = .outside i act := by
        cases e with
        | outside i act => exact ⟨i, act, rfl⟩
        | _ => cases here
      obtain rfl : i = index := of_decide_eq_true here
      obtain ⟨final, replies, moments⟩ := ih (apart.act act)
      rw [List.filter_cons_of_neg (by rw [here]; nofun)]
      refine ⟨final, replies, moments.trans ?_⟩
      exact (List.filter_cons_of_neg (by rw [Moment.isAt]; simp)).symm
    | false =>
      obtain ⟨after, replied, met⟩ := apart.serve e
      obtain ⟨final, replies, moments⟩ := ih after
      rw [List.filter_cons_of_pos (by rw [here]; rfl)]
      refine ⟨final, congrArg₂ (·.toList ++ ·) replied replies, ?_⟩
      rw [history, history, List.filter_append, List.filter_append, met, moments]

theorem History.SameBut.symm {h h' : History} (apart : h.SameBut index h') : h'.SameBut index h :=
  ⟨apart.final.symm, apart.replies.symm, apart.moments.symm⟩

theorem History.SameBut.trans {h h' h'' : History} (first : h.SameBut index h')
    (second : h'.SameBut index h'') : h.SameBut index h'' where
  final := first.final.trans second.final
  replies := second.replies.trans first.replies
  moments := second.moments.trans first.moments

/-- Histories in which the same happens, but for what is done to one sink, are the same but for this
sink. -/
theorem SameBut.history (apart : m.SameBut index m') {events events' : List Event}
    (same : events.filter (!·.isAt index) = events'.filter (!·.isAt index)) :
    (m.history events).SameBut index (m'.history events') := by
  have left := apart.history_filter events
  have right := (SameBut.refl index m').history_filter events'
  rw [same] at left
  exact left.trans right.symm

/-- A run that is left and gone on with, with nothing done in between, comes to what it would have
come to at once and prints what it would have printed. -/
theorem history_run_add (most : Option (BitVec 64)) (first second : Nat)
    (left : (m.serve (.run most first)).1 = some .unfinished) :
    let whole := m.history [.run most (first + second)]
    m.history [.run most first, .resume (Bound.since m most) second] =
      { whole with replies := .unfinished :: whole.replies } := by
  intro whole
  let go := (Bound.since m most).holds
  have together : m.startRun.resumeWhile go (first + second) = _ := resumeWhile_add first second
  have spoken : m.startRun.textsWhile go (first + second) = _ := textsWhile_add first second
  change (replied (m.startRun.resumeWhile go first)).1 = some .unfinished at left
  cases parted : m.startRun.resumeWhile go first with
  | ended after fault =>
    rw [parted] at left
    cases left
  | unfinished after =>
    rw [parted] at together spoken
    have begun : m.serve (.run most first) = (some .unfinished, after) := congrArg replied parted
    have served : m.serve (.run most (first + second)) =
        after.serve (.resume (.since m most) second) := congrArg replied together
    have kept : after.consoles = m.consoles :=
      (congrArg (·.machine.consoles) parted).symm.trans (consoles_resumeWhile first)
    have met : (Event.run most (first + second)).moments m =
        (Event.run most first).moments m ++
          (Event.resume (.since m most) second).moments after := by
      change List.map (Moment.printed · m.consoles) _ =
        List.map _ _ ++ List.map (Moment.printed · after.consoles) _
      rw [kept, ← List.map_append]
      exact congrArg (List.map _) spoken
    dsimp only [whole, history]
    rw [begun, served, met, List.append_assoc]
    rfl

/-- At any time in the history of a machine, the sink of a console that is attached hears from then
on what is printed, once for each console that refers to it and in order. So it hears each text once
if the console is attached once and no other writes to its sink. The output is what was printed
since it was last emptied. What is done to one sink changes nothing else. -/
theorem consoles_hear_what_is_printed (m : Machine) (before : List Event) :
    let start := (m.history before).final
    (∀ c later sink, start.sinks[c.sink]? = some sink →
      let since := ((start.attach c).history later).moments
      (∃ now, (m.history (before ++ .attach c :: later)).final.sinks[c.sink]? = some now ∧
        sink.Mirrors c.sink since now) ∧
      (.attach c ∉ later → (∀ text, .outside c.sink (.write text) ∉ later) →
        since.flatMap (Moment.written c.sink) =
            Console.copies (start.attach c).consoles c.sink (Moment.texts since) ∧
          (c ∉ start.consoles →
            since.flatMap (Moment.written c.sink) = Moment.texts since))) ∧
    (∀ later, (∀ e ∈ later, e.clears = false) → (start.history later).final.output =
      start.output ++ String.join (Moment.texts (start.history later).moments)) ∧
    (∀ e later, e.clears = true → (∀ e ∈ later, e.clears = false) →
      (m.history (before ++ e :: later)).final.output =
        String.join (Moment.texts ((start.serve e).2.history later).moments)) ∧
    ∀ index start' events events', start.SameBut index start' →
      events.filter (!·.isAt index) = events'.filter (!·.isAt index) →
        (start.history events).SameBut index (start'.history events') := by
  intro start
  refine ⟨fun c later sink there => ?_, fun later kept => output_final kept,
    fun e later cleared kept => ?_, fun index start' events events' apart same =>
    apart.history same⟩
  · intro since
    refine ⟨⟨sink.after c.sink since, ?_, sink.mirrors_after c.sink since⟩, fun once alone => ?_⟩
    · rw [final_history_append]
      exact getElem?_final (m := start.attach c) there later
    · have copied := written_history (m := start.attach c) once alone
      refine ⟨copied, fun fresh => copied.trans (Console.copies_of_count_eq_one ?_ _)⟩
      have first : start.consoles.count c = 0 := Array.count_eq_zero.2 fresh
      have counted : (start.consoles.push c).count c = 1 := by
        rw [Array.count_push_self, first]
      exact counted
  · rw [final_history_append]
    change ((start.serve e).2.history later).final.output = _
    rw [output_final kept, output_cleared start cleared, String.empty_append]

def printing : List Statement :=
  [⟨[], .instr (.li .v0 1), ⟨0, 9⟩⟩, ⟨[], .instr (.li .a0 5), ⟨10, 19⟩⟩,
    ⟨[], .instr .syscall, ⟨20, 27⟩⟩, ⟨[], .instr (.li .a0 7), ⟨28, 37⟩⟩,
    ⟨[], .instr .syscall, ⟨38, 45⟩⟩, ⟨[], .instr (.li .v0 4), ⟨46, 55⟩⟩,
    ⟨[], .instr .syscall, ⟨56, 63⟩⟩]

/-- A buffer that holds a text, a channel and an empty buffer are made. -/
def threeSinks : List Event :=
  [.create (.buffer ">" false), .create (.channel []), .create (.buffer "" false)]

/-- A run in the middle of which the first buffer is locked while the second text is printed, and a
message is taken out of the channel. -/
def interleaved : List Event :=
  [.run none 3, .outside 0 .lock, .resume .never 2, .outside 0 .unlock, .outside 1 .receive,
    .resume .never 3]

/-- What happens at the sinks in that run. The second buffer is printed to twice. -/
def interleavedMoments : List Moment :=
  let consoles := #[⟨0⟩, ⟨1⟩, ⟨2⟩, ⟨2⟩]
  [.printed "5" consoles, .act 0 .lock, .printed "7" consoles, .act 0 .unlock, .act 1 .receive,
    .printed "" consoles]

theorem consoles_hear_what_is_printed_interleaved :
    ∃ p, Program.assemble printing none = .ok p ∧
      let final := ((new {}).history (.load p :: (threeSinks ++
        .attach ⟨0⟩ :: .attach ⟨1⟩ :: .attach ⟨2⟩ :: .attach ⟨2⟩ :: interleaved))).final
      final.sinks[0]? = some (.buffer ">5" false) ∧
      (∃ calls waiting, final.sinks[1]? = some (.channel calls) ∧
        Channel.received Channel.queue calls ++ waiting = ["5", "7", ""] ∧
        Channel.received Channel.queue (calls ++ List.replicate waiting.length .receive) =
          ["5", "7", ""]) ∧
      final.sinks[2]? = some (.buffer "5577" false) ∧
      final.output = "57" ∧
      (((new {}).load p).history interleaved).SameBut 0
        (((new {}).load p).history (interleaved.filter (!·.isAt 0))) := by
  obtain ⟨p, assembled, first, second, third, loaded⟩ :
      ∃ p, Program.assemble printing none = .ok p ∧
        ((((new {}).history (.load p :: threeSinks)).final.attach ⟨0⟩).history
          (.attach ⟨1⟩ :: .attach ⟨2⟩ :: .attach ⟨2⟩ :: interleaved)).moments =
            interleavedMoments ∧
        ((((new {}).history (.load p :: (threeSinks ++ [.attach ⟨0⟩]))).final.attach ⟨1⟩).history
          (.attach ⟨2⟩ :: .attach ⟨2⟩ :: interleaved)).moments = interleavedMoments ∧
        ((((new {}).history (.load p :: (threeSinks ++
          [.attach ⟨0⟩, .attach ⟨1⟩, .attach ⟨2⟩]))).final.attach ⟨2⟩).history
            interleaved).moments = interleavedMoments ∧
        (((new {}).serve (.load p)).2.history (threeSinks ++
          .attach ⟨0⟩ :: .attach ⟨1⟩ :: .attach ⟨2⟩ :: .attach ⟨2⟩ :: interleaved)).moments =
            interleavedMoments :=
    ⟨_, rfl, rfl, rfl, rfl, rfl⟩
  refine ⟨p, assembled, ?_, ?_, ?_, ?_, ?_⟩
  · obtain ⟨⟨now, there, mirrors, -⟩, -⟩ := (consoles_hear_what_is_printed (new {})
      (.load p :: threeSinks)).1 ⟨0⟩
        (.attach ⟨1⟩ :: .attach ⟨2⟩ :: .attach ⟨2⟩ :: interleaved) (.buffer ">" false) rfl
    rw [first] at mirrors
    obtain rfl : now = .buffer ">5" false := mirrors
    exact there
  · obtain ⟨⟨now, there, same, hears⟩, alone⟩ := (consoles_hear_what_is_printed (new {})
      (.load p :: (threeSinks ++ [.attach ⟨0⟩]))).1 ⟨1⟩
        (.attach ⟨2⟩ :: .attach ⟨2⟩ :: interleaved) (.channel []) rfl
    have fresh : ⟨1⟩ ∉ (#[⟨0⟩] : Array Console) := by simp
    have once := (alone (by simp [interleaved]) (by simp [interleaved])).2 fresh
    rw [second] at same hears once
    obtain ⟨waiting, waits, asked⟩ :=
      hears Channel.queue Channel.inOrder_queue _ (List.prefix_refl _) (by decide)
    rw [once] at waits asked
    exact ⟨_, waiting, there.trans (congrArg some same), waits, asked⟩
  · obtain ⟨⟨now, there, mirrors, -⟩, -⟩ := (consoles_hear_what_is_printed (new {})
      (.load p :: (threeSinks ++ [.attach ⟨0⟩, .attach ⟨1⟩, .attach ⟨2⟩]))).1 ⟨2⟩ interleaved
        (.buffer "" false) rfl
    rw [third] at mirrors
    obtain rfl : now = .buffer "5577" false := mirrors
    exact there
  · have printed := (consoles_hear_what_is_printed (new {}) []).2.2.1 (.load p) (threeSinks ++
      .attach ⟨0⟩ :: .attach ⟨1⟩ :: .attach ⟨2⟩ :: .attach ⟨2⟩ :: interleaved) rfl (by decide)
    exact printed.trans (congrArg (fun moments => String.join (Moment.texts moments)) loaded)
  · exact (consoles_hear_what_is_printed (new {}) [.load p]).2.2.2 0 _ _ _ (.refl ..) rfl

end Mips.Machine
