import Mips.Proofs.Channels

/-!
# What sinks hear

Texts are printed to consoles while others lock and unlock buffers, write to sinks, ask channels for
messages or close them. A printed text is written to a sink once for each console that refers to it.
A buffer holds what was written to it while it was not locked, and the calls on a channel are those
of all who refer to it.
-/
namespace Mips

namespace Sink

inductive Act where
  | lock
  | unlock
  | write (text : String)
  | receive
  | close
  deriving DecidableEq

def undergo (s : Sink) : Act → Sink
  | .lock => s.setLocked true
  | .unlock => s.setLocked false
  | .write text => s.write text
  | .receive => s.call .receive
  | .close => s.call .close

namespace Act

def texts : Act → List String
  | write text => [text]
  | lock | unlock | receive | close => []

def calls : Act → List Channel.Call
  | write text => [.send text]
  | receive => [.receive]
  | close => [.close]
  | lock | unlock => []

/-- Whether a buffer is locked afterwards that was so before. -/
def locks (locked : Bool) : Act → Bool
  | lock => true
  | unlock => false
  | write _ | receive | close => locked

end Act

/-- The sink after texts were written to it. -/
def took (texts : List String) : Sink → Sink
  | buffer held false => .buffer (held ++ String.join texts) false
  | buffer held true => .buffer held true
  | channel calls => .channel (calls ++ texts.map .send)

theorem took_nil (s : Sink) : s.took [] = s := by
  cases s with
  | buffer held locked =>
    cases locked with
    | false => exact congrArg (buffer · false) String.append_empty
    | true => rfl
  | channel calls => exact congrArg channel (List.append_nil _)

theorem map_took_nil (s : Option Sink) : s.map (took []) = s := by
  cases s with
  | none => rfl
  | some s => exact congrArg some s.took_nil

theorem took_append (s : Sink) (first second : List String) :
    s.took (first ++ second) = (s.took first).took second := by
  cases s with
  | buffer held locked =>
    cases locked with
    | false => rw [took, took, took, String.join_append, String.append_assoc]
    | true => rfl
  | channel calls => rw [took, took, took, List.map_append, List.append_assoc]

theorem took_singleton (s : Sink) (text : String) : s.took [text] = s.write text := by
  cases s with
  | buffer held locked =>
    cases locked with
    | false => rw [took, String.join_cons, String.join_nil, String.append_empty, write]
    | true => rfl
  | channel calls => rfl

theorem took_buffer (held : String) (locked : Bool) (texts : List String) :
    (buffer held locked).took texts =
      buffer (held ++ String.join (if locked then [] else texts)) locked := by
  cases locked with
  | false => rfl
  | true => exact congrArg (buffer · true) String.append_empty.symm

theorem undergo_buffer (held : String) (locked : Bool) (a : Act) :
    (buffer held locked).undergo a =
      buffer (held ++ String.join (if locked then [] else a.texts)) (a.locks locked) := by
  cases a with
  | write text => rw [undergo, ← took_singleton, took_buffer]; rfl
  | lock | unlock | receive | close =>
    rw [Act.texts, ite_self, String.join_nil, String.append_empty]
    rfl

theorem undergo_channel (before : List Channel.Call) (a : Act) :
    (channel before).undergo a = channel (before ++ a.calls) := by
  cases a with
  | write | receive | close => rfl
  | lock | unlock => exact congrArg channel (List.append_nil _).symm

end Sink

namespace Console

def tellAll (consoles : Array Console) (sinks : Array Sink) (texts : List String) : Array Sink :=
  texts.foldl (tell consoles) sinks

/-- The texts that are written to a sink when these are printed to consoles. -/
def copies (consoles : Array Console) (sink : Nat) (texts : List String) : List String :=
  texts.flatMap (List.replicate (consoles.count ⟨sink⟩))

variable (consoles : Array Console) (sinks : Array Sink) (texts : List String)

theorem tellAll_append (later : List String) : tellAll consoles sinks (texts ++ later) =
    tellAll consoles (tellAll consoles sinks texts) later :=
  List.foldl_append

theorem size_tell (text : String) : (tell consoles sinks text).size = sinks.size := by
  rw [tell, ← Array.foldl_toList]
  induction consoles.toList generalizing sinks with
  | nil => rfl
  | cons console rest ih => exact (ih _).trans Array.size_modify

theorem size_tellAll : (tellAll consoles sinks texts).size = sinks.size := by
  induction texts generalizing sinks with
  | nil => rfl
  | cons text texts ih => exact (ih _).trans (size_tell consoles sinks text)

/-- A text is written to a sink once for each console that refers to it. -/
theorem getElem?_tell (text : String) (i : Nat) : (tell consoles sinks text)[i]? =
    sinks[i]?.map (Sink.took (List.replicate (consoles.count ⟨i⟩) text)) := by
  rw [tell, ← Array.foldl_toList, ← Array.count_toList]
  induction consoles.toList generalizing sinks with
  | nil => exact (Sink.map_took_nil _).symm
  | cons console rest ih =>
    rw [List.foldl_cons, ih, Array.getElem?_modify, List.count_cons]
    by_cases here : console = ⟨i⟩
    · have same : console.sink = i := congrArg Console.sink here
      have first (s : Sink) : s.took (text :: List.replicate (rest.count ⟨i⟩) text) =
          (s.write text).took (List.replicate (rest.count ⟨i⟩) text) := by
        rw [← Sink.took_singleton, ← Sink.took_append, List.singleton_append]
      rw [if_pos same, if_pos (beq_iff_eq.2 here), Option.map_map, List.replicate_succ]
      exact congrArg (Option.map · _) (funext fun s => (first s).symm)
    · have other : console.sink ≠ i := fun same => here (congrArg Console.mk same)
      rw [if_neg other, if_neg fun same => here (beq_iff_eq.1 same), Nat.add_zero]

theorem copies_congr {consoles consoles' : Array Console} {sink : Nat}
    (same : consoles.count ⟨sink⟩ = consoles'.count ⟨sink⟩) (texts : List String) :
    copies consoles sink texts = copies consoles' sink texts := by
  rw [copies, copies, same]

theorem copies_append (sink : Nat) (later : List String) :
    copies consoles sink (texts ++ later) =
      copies consoles sink texts ++ copies consoles sink later :=
  List.flatMap_append

theorem copies_cons (sink : Nat) (text : String) : copies consoles sink (text :: texts) =
    List.replicate (consoles.count ⟨sink⟩) text ++ copies consoles sink texts :=
  List.flatMap_cons

theorem getElem?_tellAll (i : Nat) : (tellAll consoles sinks texts)[i]? =
    sinks[i]?.map (Sink.took (copies consoles i texts)) := by
  induction texts generalizing sinks with
  | nil => exact (Sink.map_took_nil _).symm
  | cons text texts ih =>
    refine (ih (tell consoles sinks text)).trans ?_
    rw [getElem?_tell, Option.map_map, copies_cons]
    exact congrArg (Option.map · _) (funext fun s => (s.took_append _ _).symm)

theorem copies_of_count_eq_one {consoles : Array Console} {sink : Nat}
    (once : consoles.count ⟨sink⟩ = 1) (texts : List String) :
    copies consoles sink texts = texts := by
  rw [copies, once]
  exact List.flatMap_singleton' texts

end Console

/-- What happens at the sinks of a machine. -/
inductive Moment where
  /-- A text is printed to the consoles that there are. -/
  | printed (text : String) (consoles : Array Console)
  | act (sink : Nat) (act : Sink.Act)
  deriving DecidableEq

namespace Moment

def text? : Moment → Option String
  | printed text _ => some text
  | act .. => none

def texts (moments : List Moment) : List String :=
  moments.filterMap text?

def isAt (sink : Nat) : Moment → Bool
  | printed .. => false
  | act i _ => i = sink

def written (sink : Nat) : Moment → List String
  | printed text consoles => Console.copies consoles sink [text]
  | act i a => if i = sink then a.texts else []

def calls (sink : Nat) : Moment → List Channel.Call
  | printed text consoles => (Console.copies consoles sink [text]).map .send
  | act i a => if i = sink then a.calls else []

def locks (sink : Nat) (locked : Bool) : Moment → Bool
  | printed .. => locked
  | act i a => if i = sink then a.locks locked else locked

/-- The texts that arrive at a buffer, which is or is not locked at first. -/
def heard (sink : Nat) (locked : Bool) : List Moment → List String
  | [] => []
  | moment :: later =>
    (if locked then [] else moment.written sink) ++ heard sink (moment.locks sink locked) later

theorem texts_printed (texts : List String) (consoles : Array Console) :
    Moment.texts (texts.map (printed · consoles)) = texts := by
  induction texts with
  | nil => rfl
  | cons text texts ih => exact congrArg (text :: ·) ih

theorem texts_append (moments later : List Moment) :
    Moment.texts (moments ++ later) = Moment.texts moments ++ Moment.texts later :=
  List.filterMap_append

theorem written_printed (sink : Nat) (texts : List String) (consoles : Array Console) :
    (texts.map (printed · consoles)).flatMap (written sink) =
      Console.copies consoles sink texts := by
  induction texts with
  | nil => rfl
  | cons text texts ih =>
    rw [List.map_cons, List.flatMap_cons, ih, Console.copies_cons, written, Console.copies_cons]
    exact congrArg (· ++ _) (List.append_nil _)

/-- The texts that are sent on a channel are those that are written to it. -/
theorem sent_calls (sink : Nat) (moments : List Moment) :
    Channel.sent (moments.flatMap (calls sink)) = moments.flatMap (written sink) := by
  induction moments with
  | nil => rfl
  | cons moment moments ih =>
    rw [List.flatMap_cons, List.flatMap_cons, Channel.sent_append, ih]
    refine congrArg (· ++ _) ?_
    cases moment with
    | printed text consoles =>
      rw [calls, Channel.sent, List.filterMap_map]
      exact List.filterMap_some
    | act i a =>
      rw [calls, written]
      split
      next => cases a <;> rfl
      next => rfl

/-- A buffer that is never locked when something is written to it hears all that is written. -/
theorem heard_eq_flatMap_written {sink : Nat} {locked : Bool} {moments : List Moment}
    (attends : ∀ early moment, early ++ [moment] <+: moments → moment.written sink ≠ [] →
      early.foldl (locks sink) locked = false) :
    heard sink locked moments = moments.flatMap (written sink) := by
  induction moments generalizing locked with
  | nil => rfl
  | cons moment moments ih =>
    have first : (if locked then [] else moment.written sink) = moment.written sink := by
      by_cases silent : moment.written sink = []
      · rw [silent, ite_self]
      · rw [show locked = false from attends [] moment ⟨moments, rfl⟩ silent]
        rfl
    have later : heard sink (moment.locks sink locked) moments = moments.flatMap (written sink) :=
      ih fun early next part =>
        attends (moment :: early) next (List.cons_prefix_cons.2 ⟨rfl, part⟩)
    rw [heard, first, later, List.flatMap_cons]

end Moment

namespace Sink

variable (index : Nat)

def meet (s : Sink) : Moment → Sink
  | .printed text consoles => s.took (Console.copies consoles index [text])
  | .act i a => if i = index then s.undergo a else s

def after (s : Sink) (moments : List Moment) : Sink :=
  moments.foldl (meet index) s

theorem after_append (s : Sink) (moments later : List Moment) :
    s.after index (moments ++ later) = (s.after index moments).after index later :=
  List.foldl_append

theorem after_printed (s : Sink) (texts : List String) (consoles : Array Console) :
    s.after index (texts.map (.printed · consoles)) =
      s.took (Console.copies consoles index texts) := by
  induction texts generalizing s with
  | nil => exact s.took_nil.symm
  | cons text texts ih =>
    refine (ih _).trans ?_
    rw [meet, ← took_append, Console.copies_cons, Console.copies_cons]
    exact congrArg (fun copies => s.took (copies ++ _)) (List.append_nil _)

theorem meet_buffer (held : String) (locked : Bool) (moment : Moment) :
    (buffer held locked).meet index moment =
      buffer (held ++ String.join (if locked then [] else moment.written index))
        (moment.locks index locked) := by
  cases moment with
  | printed text consoles => exact took_buffer ..
  | act i a =>
    rw [meet, Moment.written, Moment.locks]
    split
    next => exact undergo_buffer ..
    next => rw [ite_self, String.join_nil, String.append_empty]

theorem meet_channel (before : List Channel.Call) (moment : Moment) :
    (channel before).meet index moment = channel (before ++ moment.calls index) := by
  cases moment with
  | printed text consoles => rfl
  | act i a =>
    rw [meet, Moment.calls]
    split
    next => exact undergo_channel ..
    next => rw [List.append_nil]

/-- A buffer holds what arrived, behind what it held. -/
theorem after_buffer (held : String) (locked : Bool) (moments : List Moment) :
    (buffer held locked).after index moments =
      buffer (held ++ String.join (Moment.heard index locked moments))
        (moments.foldl (Moment.locks index) locked) := by
  induction moments generalizing held locked with
  | nil => exact congrArg (buffer · locked) String.append_empty.symm
  | cons moment moments ih =>
    rw [after, List.foldl_cons, meet_buffer, ← after, ih, Moment.heard, String.join_append,
      String.append_assoc]
    rfl

/-- The calls on a channel are those of all moments, behind the ones before. -/
theorem after_channel (before : List Channel.Call) (moments : List Moment) :
    (channel before).after index moments =
      channel (before ++ moments.flatMap (Moment.calls index)) := by
  induction moments generalizing before with
  | nil => exact congrArg channel (List.append_nil _).symm
  | cons moment moments ih =>
    rw [after, List.foldl_cons, meet_channel, ← after, ih, List.flatMap_cons, List.append_assoc]

/-- Those who listen on a channel have received what was sent on it up to some point, and receive
the rest as soon as they ask for it. -/
theorem exists_waiting {make : Channel.Make} (h : make.InOrder) {before : List Channel.Call}
    {moments : List Moment} (listening : .close ∉ before ++ moments.flatMap (Moment.calls index)) :
    let calls := before ++ moments.flatMap (Moment.calls index)
    let sent := Channel.sent before ++ moments.flatMap (Moment.written index)
    ∃ waiting, Channel.received make calls ++ waiting = sent ∧
      Channel.received make (calls ++ List.replicate waiting.length .receive) = sent := by
  intro calls sent
  have same : Channel.sent calls = sent := by
    rw [Channel.sent_append, Moment.sent_calls]
  obtain ⟨waiting, waits⟩ := Channel.received_prefix h listening
  exact ⟨waiting, waits.trans same, (Channel.received_replicate h listening waits).trans same⟩

/-- What has come of a sink with the given index. A buffer has heard what was written to it while
it was not locked. On a channel all was received that was written, or it waits to be, up to any
moment until which someone listened. -/
def Mirrors (s : Sink) (moments : List Moment) (now : Sink) : Prop :=
  match s with
  | buffer held locked =>
    now = buffer (held ++ String.join (Moment.heard index locked moments))
        (moments.foldl (Moment.locks index) locked) ∧
      ((∀ early moment, early ++ [moment] <+: moments → moment.written index ≠ [] →
          early.foldl (Moment.locks index) locked = false) →
        Moment.heard index locked moments = moments.flatMap (Moment.written index))
  | channel before =>
    now = channel (before ++ moments.flatMap (Moment.calls index)) ∧
      ∀ make : Channel.Make, make.InOrder → ∀ early, early <+: moments →
        let calls := before ++ early.flatMap (Moment.calls index)
        let sent := Channel.sent before ++ early.flatMap (Moment.written index)
        .close ∉ calls → ∃ waiting, Channel.received make calls ++ waiting = sent ∧
          Channel.received make (calls ++ List.replicate waiting.length .receive) = sent

theorem mirrors_after (s : Sink) (moments : List Moment) :
    s.Mirrors index moments (s.after index moments) := by
  cases s with
  | buffer held locked =>
    exact ⟨after_buffer .., Moment.heard_eq_flatMap_written⟩
  | channel before =>
    exact ⟨after_channel .., fun make h early _ listening => exists_waiting index h listening⟩

end Sink

end Mips
