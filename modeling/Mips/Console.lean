/-!
# Consoles

Where printed text is sent besides the output that a machine keeps itself. A console refers to a
sink, to which other consoles may refer as well, and which others may hold. A buffer collects text,
unless another party holds it locked. Of a channel the calls on it are kept: what they reply is up
to those who made the channel.
-/
namespace Mips

namespace Channel

inductive Call where
  | send (text : String)
  | receive
  /-- Ends the listening. -/
  | close
  deriving DecidableEq

inductive Reply where
  | sent (arrives : Bool)
  | received (text : Option String)
  | closed
  deriving DecidableEq

/-- How the channels of a make reply to a call after the calls before it. -/
abbrev Make := (before : List Call) → Call → Reply

end Channel

inductive Sink where
  | buffer (text : String) (locked : Bool)
  /-- The calls on the channel so far, the oldest first. -/
  | channel (calls : List Channel.Call)
  deriving DecidableEq

/-- A reference to the sink with the given index. -/
structure Console where
  sink : Nat
  deriving DecidableEq

namespace Sink

/-- Sends a text, which is lost where it does not arrive. -/
def write (s : Sink) (text : String) : Sink :=
  match s with
  | buffer held false => .buffer (held ++ text) false
  | buffer held true => .buffer held true
  | channel calls => .channel (calls ++ [.send text])

/-- Whether a text arrives that is sent now. -/
def accepts (make : Channel.Make) (s : Sink) (text : String) : Bool :=
  match s with
  | buffer _ locked => !locked
  | channel calls => make calls (.send text) == .sent true

def setLocked (locked : Bool) : Sink → Sink
  | buffer text _ => .buffer text locked
  | channel calls => .channel calls

def call (c : Channel.Call) : Sink → Sink
  | buffer text locked => .buffer text locked
  | channel calls => .channel (calls ++ [c])

end Sink

/-- Sends a text to the sinks of consoles, one after the other. -/
def Console.tell (consoles : Array Console) (sinks : Array Sink) (text : String) : Array Sink :=
  consoles.foldl (fun sinks console => sinks.modify console.sink (·.write text)) sinks

end Mips
