import Mathlib.Data.List.Induction
import Mips.Console

/-!
# Channels

What others promise of a channel: a text that is sent arrives as long as someone listens, and each
text that arrives is received once, in order. Nothing else is used of them. It follows that those
who listen have received the texts that were sent up to some point, and receive the others as soon
as they ask for them.
-/
namespace Mips.Channel

def Call.text? : Call → Option String
  | send text => some text
  | receive | close => none

def Reply.text? : Reply → Option String
  | received text => text
  | sent _ | closed => none

def sent (calls : List Call) : List String :=
  calls.filterMap Call.text?

/-- The texts that calls receive after those before them. -/
def receivedAfter (make : Make) (before : List Call) : List Call → List String
  | [] => []
  | c :: later => (make before c).text?.toList ++ receivedAfter make (before ++ [c]) later

def received (make : Make) (calls : List Call) : List String :=
  receivedAfter make [] calls

structure Make.InOrder (make : Make) : Prop where
  /-- A text arrives unless the channel is closed. -/
  send : ∀ before text, make before (.send text) = .sent (decide (.close ∉ before))
  /-- The oldest text is received of those that were sent and not received before. -/
  receive : ∀ before, .close ∉ before → make before .receive =
    .received ((sent before).drop (received make before).length).head?

variable {make : Make} {calls : List Call}

theorem sent_append (calls later : List Call) : sent (calls ++ later) = sent calls ++ sent later :=
  List.filterMap_append

theorem sent_receive (calls : List Call) : sent (calls ++ [.receive]) = sent calls :=
  (sent_append ..).trans (List.append_nil _)

theorem receivedAfter_append (before calls later : List Call) :
    receivedAfter make before (calls ++ later) =
      receivedAfter make before calls ++ receivedAfter make (before ++ calls) later := by
  induction calls generalizing before with
  | nil => rw [List.nil_append, receivedAfter, List.nil_append, List.append_nil]
  | cons c calls ih =>
    rw [List.cons_append, receivedAfter, ih, receivedAfter, List.append_assoc, List.append_assoc]
    rfl

theorem received_concat (calls : List Call) (c : Call) :
    received make (calls ++ [c]) = received make calls ++ (make calls c).text?.toList := by
  rw [received, receivedAfter_append, List.nil_append, receivedAfter, receivedAfter,
    List.append_nil, received]

/-- What was received is what was sent first, and the rest waits. -/
theorem received_prefix (h : make.InOrder) (listening : .close ∉ calls) :
    received make calls <+: sent calls := by
  induction calls using List.reverseRecOn with
  | nil => exact List.prefix_refl _
  | append_singleton calls c ih =>
    rw [List.mem_append, not_or] at listening
    have before := ih listening.1
    rw [received_concat, sent_append]
    cases c with
    | send text =>
      rw [h.send, Reply.text?, Option.toList_none, List.append_nil]
      exact before.trans (List.prefix_append _ _)
    | receive =>
      obtain ⟨waiting, same⟩ := before
      have dropped : (sent calls).drop (received make calls).length = waiting := by
        rw [← same, List.drop_left]
      rw [h.receive calls listening.1, dropped, ← same]
      cases waiting with
      | nil => exact List.prefix_append _ _
      | cons text waiting => exact ⟨waiting, by simp [sent, Call.text?, Reply.text?]⟩
    | close => exact absurd (List.mem_singleton_self _) listening.2

/-- Who asks for a text receives the first one that waits. -/
theorem received_receive (h : make.InOrder) (listening : .close ∉ calls) {text : String}
    {waiting : List String} (waits : received make calls ++ text :: waiting = sent calls) :
    received make (calls ++ [.receive]) ++ waiting = sent (calls ++ [.receive]) := by
  have dropped : (sent calls).drop (received make calls).length = text :: waiting := by
    rw [← waits, List.drop_left]
  rw [received_concat, h.receive calls listening, dropped, sent_receive, ← waits]
  exact List.append_assoc _ [text] waiting

/-- All that waits is received by those who ask for it often enough. -/
theorem received_replicate (h : make.InOrder) (listening : .close ∉ calls) {waiting : List String}
    (waits : received make calls ++ waiting = sent calls) :
    received make (calls ++ List.replicate waiting.length .receive) = sent calls := by
  induction waiting generalizing calls with
  | nil => simpa using waits
  | cons text waiting ih =>
    have still : .close ∉ calls ++ [.receive] := by simpa using listening
    have asked := ih still (received_receive h listening waits)
    rwa [List.append_assoc, sent_receive] at asked

def waiting (calls : List Call) : List String :=
  calls.foldl (fun texts c => match c with
    | .send text => texts ++ [text]
    | .receive => texts.tail
    | .close => []) []

/-- A make of channels that keep the texts in a queue. -/
def queue : Make := fun before c =>
  match c with
  | .send _ => .sent (decide (.close ∉ before))
  | .receive => .received (waiting before).head?
  | .close => .closed

theorem waiting_concat (calls : List Call) (c : Call) : waiting (calls ++ [c]) = match c with
    | .send text => waiting calls ++ [text]
    | .receive => (waiting calls).tail
    | .close => [] := by
  rw [waiting, List.foldl_append]
  rfl

theorem received_queue_append_waiting (listening : .close ∉ calls) :
    received queue calls ++ waiting calls = sent calls := by
  induction calls using List.reverseRecOn with
  | nil => rfl
  | append_singleton calls c ih =>
    rw [List.mem_append, not_or] at listening
    have before := ih listening.1
    rw [received_concat, sent_append, waiting_concat, ← before]
    cases c with
    | send text => exact (congrArg (· ++ _) (List.append_nil _)).trans (List.append_assoc ..).symm
    | receive =>
      cases found : waiting calls with
      | nil => simp [queue, found, sent, Call.text?, Reply.text?]
      | cons text rest => simp [queue, found, sent, Call.text?, Reply.text?]
    | close => exact absurd (List.mem_singleton_self _) listening.2

theorem inOrder_queue : queue.InOrder where
  send _ _ := rfl
  receive before listening := by
    rw [← received_queue_append_waiting listening, List.drop_left]
    rfl

end Mips.Channel
