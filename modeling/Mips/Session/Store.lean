import Mips.Session
import Mips.Session.Id
import Std.Data.ExtTreeMap

/-!
# Session stores

A store owns any number of sessions, each under an identifier drawn at random. What is done to one
session leaves all others as they are.
-/
namespace Mips

structure SessionStore where
  sessions : Std.ExtTreeMap (BitVec 128) Session
  /-- The settings of the machine of every new session. -/
  settings : Settings

namespace SessionStore

def new (settings : Settings) : SessionStore :=
  ⟨∅, settings⟩

def find? (s : SessionStore) (id : SessionId) : Option Session :=
  s.sessions[id.value]?

def contains (s : SessionStore) (id : SessionId) : Bool :=
  s.sessions.contains id.value

def put (s : SessionStore) (id : SessionId) (session : Session) : SessionStore :=
  { s with sessions := s.sessions.insert id.value session }

def size (s : SessionStore) : Nat :=
  s.sessions.size

/-- Starts a session under the first of the drawn identifiers that is not in use. There is no
session if all of them are. -/
def start? (s : SessionStore) (draws : List SessionId) (program : Program) :
    Option (SessionId × SessionStore) :=
  match draws.find? fun id => !s.contains id with
  | some id => some (id, s.put id (.start program s.settings))
  | none => none

def get (s : SessionStore) (id : SessionId) : Except InvalidSession Session :=
  match s.find? id with
  | some session => .ok session
  | none => .error ⟨id.text⟩

def advance (s : SessionStore) (id : SessionId) : Except InvalidSession (Advance × SessionStore) :=
  match s.get id with
  | .ok session =>
    let (result, session) := session.advance
    .ok (result, s.put id session)
  | .error e => .error e

def isCompleted (s : SessionStore) (id : SessionId) : Except InvalidSession Bool :=
  (s.get id).map Session.isCompleted

def remove (s : SessionStore) (id : SessionId) : SessionStore :=
  { s with sessions := s.sessions.erase id.value }

variable {s : SessionStore} {id other : SessionId} {session : Session}

@[simp] theorem find?_new (settings : Settings) : (new settings).find? id = none :=
  Std.ExtTreeMap.getElem?_empty

@[simp] theorem size_new (settings : Settings) : (new settings).size = 0 :=
  Std.ExtTreeMap.size_empty

theorem contains_eq : s.contains id = (s.find? id).isSome :=
  Std.ExtTreeMap.contains_eq_isSome_getElem?

theorem compare_value_eq_iff : compare id.value other.value = .eq ↔ id = other := by
  rw [Std.compare_eq_iff_eq]
  exact ⟨fun same => by cases id; cases same; rfl, fun same => by rw [same]⟩

theorem find?_put : (s.put id session).find? other =
    if id = other then some session else s.find? other := by
  simp only [find?, put, Std.ExtTreeMap.getElem?_insert, compare_value_eq_iff]

theorem find?_remove : (s.remove id).find? other = if id = other then none else s.find? other := by
  simp only [find?, remove, Std.ExtTreeMap.getElem?_erase, compare_value_eq_iff]

/-- Removing a session that is not there changes nothing. -/
theorem remove_of_find?_eq_none (missing : s.find? id = none) : s.remove id = s := by
  have same : s.sessions.erase id.value = s.sessions := by
    refine Std.ExtTreeMap.ext_getElem? fun value => ?_
    have removed : (s.remove id).find? ⟨value⟩ = _ := find?_remove
    split at removed
    case isTrue same =>
      subst same
      exact removed.trans missing.symm
    case isFalse => exact removed
  rw [remove, same]

theorem size_put : (s.put id session).size = if s.contains id then s.size else s.size + 1 :=
  Std.ExtTreeMap.size_insert

theorem size_remove (found : s.find? id = some session) : (s.remove id).size + 1 = s.size := by
  have contained : s.sessions.contains id.value = true := by
    rw [← contains, contains_eq, found]
    rfl
  have occupied : s.sessions.size ≠ 0 := fun none => by
    have empty := Std.ExtTreeMap.eq_empty_iff_size_eq_zero.2 none
    rw [empty, Std.ExtTreeMap.contains_empty] at contained
    cases contained
  rw [size, remove, Std.ExtTreeMap.size_erase, if_pos contained]
  exact Nat.sub_one_add_one occupied

end SessionStore

end Mips
