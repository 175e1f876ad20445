import Mips.Program.Source
import Mips.Session.Store

/-!
# Calls of a session store

All that a caller can ask of a store, as data: one call after the other is served, each with a
reply and the store that it leaves. Only the start of a session may not be served, if there is no
identifier for it among those drawn.
-/
namespace Mips.SessionStore

inductive Call where
  /-- Starts a session under the first of the drawn identifiers that is not in use. -/
  | start (draws : List SessionId) (program : Program)
  | startSource (draws : List SessionId) (source : String)
  | advance (id : SessionId)
  | isCompleted (id : SessionId)
  | remove (id : SessionId)
  | size

inductive Reply where
  /-- The identifier of a new session and the number of its instructions. -/
  | started (id : SessionId) (instrs : Nat)
  /-- The source is no program. -/
  | rejected (error : SourceError)
  | advanced (result : Advance)
  | completed (result : Bool)
  | removed (existed : Bool)
  | size (sessions : Nat)
  | invalid (error : InvalidSession)

def serveStart? (s : SessionStore) (draws : List SessionId) (program : Program) :
    Option (Reply × SessionStore) :=
  (s.start? draws program).map fun (id, s) => (.started id program.size, s)

/-- The reply to a call and the store after it. -/
def serve? (s : SessionStore) : Call → Option (Reply × SessionStore)
  | .start draws program => s.serveStart? draws program
  | .startSource draws source =>
    match Program.ofSource source with
    | .ok program => s.serveStart? draws program
    | .error e => some (.rejected e, s)
  | .advance id =>
    match s.advance id with
    | .ok (result, s) => some (.advanced result, s)
    | .error e => some (.invalid e, s)
  | .isCompleted id =>
    match s.isCompleted id with
    | .ok result => some (.completed result, s)
    | .error e => some (.invalid e, s)
  | .remove id => some (.removed (s.contains id), s.remove id)
  | .size => some (.size s.size, s)

theorem serve?_startSource (s : SessionStore) (draws : List SessionId) (source : String) :
    s.serve? (.startSource draws source) = match Program.ofSource source with
      | .ok program => s.serve? (.start draws program)
      | .error e => some (.rejected e, s) :=
  rfl

theorem serve?_advance (s : SessionStore) (id : SessionId) :
    s.serve? (.advance id) = match s.find? id with
      | some session => some (.advanced session.advance.1, s.put id session.advance.2)
      | none => some (.invalid ⟨id.text⟩, s) := by
  rw [serve?, SessionStore.advance, get]
  cases s.find? id <;> rfl

theorem serve?_isCompleted (s : SessionStore) (id : SessionId) :
    s.serve? (.isCompleted id) = match s.find? id with
      | some session => some (.completed session.isCompleted, s)
      | none => some (.invalid ⟨id.text⟩, s) := by
  rw [serve?, SessionStore.isCompleted, get]
  cases s.find? id <;> rfl

theorem serve?_remove (s : SessionStore) (id : SessionId) :
    s.serve? (.remove id) = some (.removed (s.find? id).isSome, s.remove id) := by
  rw [serve?, contains_eq]

end Mips.SessionStore
