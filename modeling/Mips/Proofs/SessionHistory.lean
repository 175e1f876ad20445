import Mips.Proofs.SessionTrace
import Mips.Session.Call

/-!
# Histories of a session store

A store is called any number of times and for any of its sessions. What has become of one session
is told by the calls for its identifier alone: it is where a session of the same program is that
was asked to go on as often and is in no store at all. What one call can do is said once, as a
relation; each invariant is kept by every case of it, and so by a whole history.
-/
namespace Mips.SessionStore

def Call.program? : Call → Option Program
  | start _ program => some program
  | startSource _ source => (Program.ofSource source).toOption
  | advance _ | isCompleted _ | remove _ | size => none

/-- What a call can do to a store. -/
inductive Does (s : SessionStore) : Call → Reply → SessionStore → Prop
  | start {call : Call} {program : Program} {id : SessionId} : call.program? = some program →
      s.find? id = none →
      Does s call (.started id program.size) (s.put id (.start program s.settings))
  | reject {draws : List SessionId} {source : String} {e : SourceError} :
      Program.ofSource source = .error e → Does s (.startSource draws source) (.rejected e) s
  | advance {id : SessionId} {session : Session} : s.find? id = some session →
      Does s (.advance id) (.advanced session.advance.1) (s.put id session.advance.2)
  | advanceInvalid {id : SessionId} : s.find? id = none →
      Does s (.advance id) (.invalid ⟨id.text⟩) s
  | isCompleted {id : SessionId} {session : Session} : s.find? id = some session →
      Does s (.isCompleted id) (.completed session.isCompleted) s
  | isCompletedInvalid {id : SessionId} : s.find? id = none →
      Does s (.isCompleted id) (.invalid ⟨id.text⟩) s
  | remove {id : SessionId} : Does s (.remove id) (.removed (s.find? id).isSome) (s.remove id)
  | size : Does s .size (.size s.size) s

section Serving

variable {s s' : SessionStore} {draws : List SessionId} {program : Program} {source : String}
  {id : SessionId} {session : Session} {call : Call} {reply : Reply}

theorem not_contains_iff : (!s.contains id) = true ↔ s.find? id = none := by
  rw [contains_eq, Bool.not_eq_true', Option.isSome_eq_false_iff, Option.isNone_iff_eq_none]

theorem serveStart?_eq_some (served : s.serveStart? draws program = some (reply, s')) :
    ∃ id, s.find? id = none ∧ reply = .started id program.size ∧
      s' = s.put id (.start program s.settings) := by
  unfold serveStart? start? at served
  cases first : draws.find? fun id => !s.contains id with
  | none => simp [first] at served
  | some id =>
    simp only [first, Option.map_some, Option.some.injEq, Prod.mk.injEq] at served
    have fresh := List.find?_some first
    exact ⟨id, not_contains_iff.1 fresh, served.1.symm, served.2.symm⟩

/-- A start takes the first identifier that is not in use. -/
theorem serveStart?_append (used unread : List SessionId) (program : Program)
    (before : ∀ other ∈ used, s.find? other ≠ none) (free : s.find? id = none) :
    s.serveStart? (used ++ id :: unread) program =
      some (.started id program.size, s.put id (.start program s.settings)) := by
  have first : ((used ++ id :: unread).find? fun id => !s.contains id) = some id :=
    List.find?_eq_some_iff_append.2 ⟨not_contains_iff.2 free, used, unread, rfl,
      fun other earlier => by
        rw [Bool.not_not, contains_eq, Option.isSome_iff_ne_none]
        exact before other earlier⟩
  rw [serveStart?, start?, first]
  rfl

theorem exists_first_free (free : ∃ id ∈ draws, s.find? id = none) :
    ∃ used id unread, draws = used ++ id :: unread ∧ (∀ other ∈ used, s.find? other ≠ none) ∧
      s.find? id = none := by
  obtain ⟨candidate, member, unused⟩ := free
  have ends : (draws.find? fun id => !s.contains id).isSome = true :=
    List.find?_isSome.2 ⟨candidate, member, not_contains_iff.2 unused⟩
  obtain ⟨id, first⟩ := Option.isSome_iff_exists.1 ends
  obtain ⟨fresh, used, unread, split, before⟩ := List.find?_eq_some_iff_append.1 first
  refine ⟨used, id, unread, split, fun other earlier free => ?_, not_contains_iff.1 fresh⟩
  have contained := before other earlier
  rw [not_contains_iff.2 free] at contained
  cases contained

theorem serve?_startSource_of_error {e : SourceError}
    (refused : Program.ofSource source = .error e) :
    s.serve? (.startSource draws source) = some (.rejected e, s) := by
  rw [serve?_startSource, refused]

theorem serve?_startSource_of_ok (parsed : Program.ofSource source = .ok program) :
    s.serve? (.startSource draws source) = s.serve? (.start draws program) := by
  rw [serve?_startSource, parsed]

theorem serve?_advance_of_find? (found : s.find? id = some session) :
    s.serve? (.advance id) = some (.advanced session.advance.1, s.put id session.advance.2) := by
  rw [serve?_advance, found]

theorem serve?_advance_of_none (missing : s.find? id = none) :
    s.serve? (.advance id) = some (.invalid ⟨id.text⟩, s) := by
  rw [serve?_advance, missing]

theorem serve?_isCompleted_of_find? (found : s.find? id = some session) :
    s.serve? (.isCompleted id) = some (.completed session.isCompleted, s) := by
  rw [serve?_isCompleted, found]

theorem serve?_isCompleted_of_none (missing : s.find? id = none) :
    s.serve? (.isCompleted id) = some (.invalid ⟨id.text⟩, s) := by
  rw [serve?_isCompleted, missing]

theorem does_of_serve? (served : s.serve? call = some (reply, s')) : Does s call reply s' := by
  cases call with
  | start draws program =>
    obtain ⟨id, free, rfl, rfl⟩ := serveStart?_eq_some served
    exact .start rfl free
  | startSource draws source =>
    cases parsed : Program.ofSource source with
    | error e =>
      rw [serve?_startSource_of_error parsed] at served
      cases served
      exact .reject parsed
    | ok program =>
      rw [serve?_startSource_of_ok parsed] at served
      obtain ⟨id, free, rfl, rfl⟩ := serveStart?_eq_some served
      exact .start (by rw [Call.program?, parsed]; rfl) free
  | advance id =>
    cases found : s.find? id with
    | none =>
      rw [serve?_advance_of_none found] at served
      cases served
      exact .advanceInvalid found
    | some session =>
      rw [serve?_advance_of_find? found] at served
      cases served
      exact .advance found
  | isCompleted id =>
    cases found : s.find? id with
    | none =>
      rw [serve?_isCompleted_of_none found] at served
      cases served
      exact .isCompletedInvalid found
    | some session =>
      rw [serve?_isCompleted_of_find? found] at served
      cases served
      exact .isCompleted found
  | remove id =>
    rw [serve?_remove] at served
    cases served
    exact .remove
  | size =>
    cases served
    exact .size

end Serving

structure Event where
  call : Call
  reply : Reply

/-- `History settings events s` says that a new store, served with the calls of `events` of which
the latest comes first, is `s` after them. -/
inductive History (settings : Settings) : List Event → SessionStore → Prop
  | new : History settings [] (.new settings)
  | call {events : List Event} {s s' : SessionStore} {call : Call} {reply : Reply} :
      History settings events s → s.serve? call = some (reply, s') →
      History settings (⟨call, reply⟩ :: events) s'

/-- What a call means for the session of one identifier. -/
inductive Deed where
  | start (program : Program)
  | advance
  | remove

def Event.deed? (id : SessionId) (e : Event) : Option Deed :=
  match e.reply, e.call with
  | .started new _, call => if new = id then call.program?.map .start else none
  | _, .advance asked => if asked = id then some .advance else none
  | _, .remove asked => if asked = id then some .remove else none
  | _, _ => none

/-- What was done to the session of an identifier, the latest first. -/
def deeds (id : SessionId) (events : List Event) : List Deed :=
  events.filterMap (Event.deed? id)

theorem deeds_cons (id : SessionId) (e : Event) (events : List Event) :
    deeds id (e :: events) = match e.deed? id with
      | some d => d :: deeds id events
      | none => deeds id events := by
  rw [deeds, List.filterMap_cons]
  cases e.deed? id <;> rfl

/-- What is known of a live session: its program, and how often it was asked to go on. -/
structure Record where
  program : Program
  advances : Nat

/-- The session of an identifier by what was done to it, the latest first. There is none before it
is started and after it is removed. -/
def record? : List Deed → Option Record
  | [] => none
  | .start program :: _ => some ⟨program, 0⟩
  | .advance :: earlier => (record? earlier).map fun r => { r with advances := r.advances + 1 }
  | .remove :: _ => none

def Record.session (settings : Settings) (r : Record) : Session :=
  (Session.start r.program settings).after r.advances

def Deed.act (settings : Settings) (session? : Option Session) : Deed → Option Session
  | start program => some (.start program settings)
  | advance => session?.map fun session => session.advance.2
  | remove => none

theorem Deed.act_record? (settings : Settings) (d : Deed) (earlier : List Deed) :
    d.act settings ((record? earlier).map (Record.session settings)) =
      (record? (d :: earlier)).map (Record.session settings) := by
  cases d with
  | start program => rfl
  | remove => rfl
  | advance =>
    cases recorded : record? earlier with
    | none => simp [record?, act, recorded]
    | some r => simp [record?, act, recorded, Record.session, Session.after_succ]

section Invariants

variable {settings : Settings} {events : List Event} {s s' : SessionStore} {call : Call}
  {reply : Reply}

theorem settings_of_does (does : Does s call reply s') : s'.settings = s.settings := by
  cases does <;> rfl

/-- A call does to the session of an identifier what it means for it, and nothing if it is about
another one. -/
theorem find?_of_does (does : Does s call reply s') (id : SessionId) :
    s'.find? id = match (Event.mk call reply).deed? id with
      | some d => d.act s.settings (s.find? id)
      | none => s.find? id := by
  cases does with
  | @start call program new wanted free =>
    rw [find?_put]
    by_cases same : new = id
    · simp [Event.deed?, same, wanted, Deed.act]
    · simp [Event.deed?, same]
  | @advance asked session found =>
    rw [find?_put]
    by_cases same : asked = id
    · subst same
      simp [Event.deed?, Deed.act, found]
    · simp [Event.deed?, same]
  | @advanceInvalid asked missing =>
    by_cases same : asked = id
    · subst same
      simp [Event.deed?, Deed.act, missing]
    · simp [Event.deed?, same]
  | @remove asked =>
    rw [find?_remove]
    by_cases same : asked = id
    · simp [Event.deed?, Deed.act, same]
    · simp [Event.deed?, same]
  | reject refused => rfl
  | isCompleted found => rfl
  | isCompletedInvalid missing => rfl
  | size => rfl

theorem settings_of_history (h : History settings events s) : s.settings = settings := by
  induction h with
  | new => rfl
  | call _ served ih => exact (settings_of_does (does_of_serve? served)).trans ih

/-- The induction is on the history, and each call is one deed or none. -/
theorem find?_of_history (h : History settings events s) (id : SessionId) :
    s.find? id = (record? (deeds id events)).map (Record.session settings) := by
  induction h with
  | new => exact find?_new settings
  | @call events s s' call reply earlier served ih =>
    rw [find?_of_does (does_of_serve? served) id, settings_of_history earlier, ih, deeds_cons]
    cases (Event.mk call reply).deed? id with
    | none => rfl
    | some d => exact d.act_record? settings (deeds id events)

end Invariants

def Event.started : Event → List SessionId
  | ⟨_, .started id _⟩ => [id]
  | _ => []

/-- The identifier of the session that a call removed, if there was one to remove. -/
def Event.removed : Event → List SessionId
  | ⟨.remove id, .removed true⟩ => [id]
  | _ => []

def starts (events : List Event) : List SessionId :=
  events.flatMap Event.started

def removals (events : List Event) : List SessionId :=
  events.flatMap Event.removed

/-- How many sessions are live under an identifier. -/
def live (s : SessionStore) (id : SessionId) : Nat :=
  (s.find? id).elim 0 fun _ => 1

section Turnover

variable {settings : Settings} {events later earlier : List Event} {s s' : SessionStore}
  {call : Call} {reply : Reply} {id : SessionId}

theorem live_put (session : Session) (other : SessionId) :
    (s.put id session).live other = if id = other then 1 else s.live other := by
  rw [live, find?_put]
  split <;> rfl

theorem live_remove (other : SessionId) :
    (s.remove id).live other = if id = other then 0 else s.live other := by
  rw [live, find?_remove]
  split <;> rfl

theorem live_eq_zero : s.live id = 0 ↔ s.find? id = none := by
  rw [live]
  cases s.find? id with
  | none => exact iff_of_true rfl rfl
  | some session => exact iff_of_false Nat.one_ne_zero nofun

/-- A session that a call starts was not live before, and one that it removes was. -/
theorem live_of_does (does : Does s call reply s') (id : SessionId) :
    (Event.mk call reply).removed.count id + s'.live id =
      (Event.mk call reply).started.count id + s.live id := by
  cases does with
  | @start call program new wanted free =>
    rw [live_put]
    by_cases same : new = id
    · subst same
      simp [Event.removed, Event.started, live_eq_zero.2 free]
    · simp [Event.removed, Event.started, same]
  | @advance asked session found =>
    rw [live_put]
    by_cases same : asked = id
    · subst same
      simp [Event.removed, Event.started, live, found]
    · simp [Event.removed, Event.started, same]
  | @remove asked =>
    rw [live_remove]
    by_cases same : asked = id
    · subst same
      cases found : s.find? asked <;> simp [Event.removed, Event.started, live, found]
    · cases s.find? asked <;> simp [Event.removed, Event.started, same]
  | reject refused => rfl
  | advanceInvalid missing => rfl
  | isCompleted found => rfl
  | isCompletedInvalid missing => rfl
  | size => rfl

theorem size_of_does (does : Does s call reply s') :
    (Event.mk call reply).removed.length + s'.size =
      (Event.mk call reply).started.length + s.size := by
  cases does with
  | start wanted free =>
    simp [Event.removed, Event.started, size_put, contains_eq, free, Nat.add_comm]
  | advance found => simp [Event.removed, Event.started, size_put, contains_eq, found]
  | @remove asked =>
    cases found : s.find? asked with
    | none => simp [Event.removed, Event.started, remove_of_find?_eq_none found]
    | some session => simp [Event.removed, Event.started, ← size_remove found, Nat.add_comm]
  | reject refused => rfl
  | advanceInvalid missing => rfl
  | isCompleted found => rfl
  | isCompletedInvalid missing => rfl
  | size => rfl

theorem size_of_history (h : History settings events s) :
    s.size + (removals events).length = (starts events).length := by
  induction h with
  | new => exact size_new settings
  | @call events s s' call reply earlier served ih =>
    have step := size_of_does (does_of_serve? served)
    rw [removals, starts, List.flatMap_cons, List.flatMap_cons, List.length_append,
      List.length_append]
    rw [removals, starts] at ih
    omega

/-- The induction is on what came after a session was started. -/
theorem live_of_started {start : Event} (started : start.started = [id])
    (h : History settings (later ++ start :: earlier) s) :
    (removals later).count id + s.live id = (starts later).count id + 1 := by
  induction later generalizing s with
  | nil =>
    cases h with
    | @call _ s₀ _ call reply before served =>
      cases does_of_serve? served with
      | @start call program new wanted free =>
        obtain rfl : new = id := List.singleton_inj.1 started
        rw [live_put, if_pos rfl]
        rfl
      | _ => cases started
  | cons e later ih =>
    cases h with
    | @call _ s₀ _ call reply before served =>
      have step := live_of_does (does_of_serve? served) id
      have rest := ih before
      rw [removals, starts, List.flatMap_cons, List.flatMap_cons, List.count_append,
        List.count_append]
      rw [removals, starts] at rest
      omega

end Turnover

/-- The session of an identifier is gone if every start of it was followed by a removal. -/
def Gone (history : List Deed) : Prop :=
  ∀ later program earlier, history = later ++ .start program :: earlier → .remove ∈ later

theorem gone_advance_cons {history : List Deed} : Gone (.advance :: history) ↔ Gone history := by
  constructor
  · intro gone later program earlier split
    have member := gone (.advance :: later) program earlier (by rw [split, List.cons_append])
    exact (List.mem_cons.1 member).resolve_left nofun
  · intro gone later program earlier split
    cases later with
    | nil => cases split
    | cons d later =>
      exact List.mem_cons_of_mem d (gone later program earlier (List.cons.inj split).2)

theorem record?_eq_none_iff {history : List Deed} : record? history = none ↔ Gone history := by
  induction history with
  | nil =>
    refine iff_of_true rfl fun later program earlier split => ?_
    cases later <;> cases split
  | cons d earlier ih =>
    cases d with
    | start program =>
      exact iff_of_false nofun fun gone => List.not_mem_nil (gone [] program earlier rfl)
    | advance => rw [record?, Option.map_eq_none_iff, ih, gone_advance_cons]
    | remove =>
      refine iff_of_true rfl fun later program earlier split => ?_
      cases later with
      | nil => cases split
      | cons d later =>
        obtain ⟨rfl, -⟩ := List.cons.inj split
        exact List.mem_cons_self

/-- `Sets s id session? s'` says that `s'` has `session?` under the identifier `id`, and all else
as `s` has it. -/
structure Sets (s : SessionStore) (id : SessionId) (session? : Option Session)
    (s' : SessionStore) : Prop where
  settings : s'.settings = s.settings
  self : s'.find? id = session?
  others : ∀ other, other ≠ id → s'.find? other = s.find? other

theorem sets_put (s : SessionStore) (id : SessionId) (session : Session) :
    s.Sets id (some session) (s.put id session) where
  settings := rfl
  self := by rw [find?_put, if_pos rfl]
  others other different := by rw [find?_put, if_neg different.symm]

theorem sets_remove (s : SessionStore) (id : SessionId) : s.Sets id none (s.remove id) where
  settings := rfl
  self := by rw [find?_remove, if_pos rfl]
  others other different := by rw [find?_remove, if_neg different.symm]

/-- What holds of a store after a history. -/
structure Keeps (settings : Settings) (events : List Event) (s : SessionStore) : Prop where
  /-- A live session is where its program is that was asked to go on as often. -/
  session : ∀ id, s.find? id = (record? (deeds id events)).map (Record.session settings)
  /-- A session is the same after all histories that tell the same of it. -/
  independent : ∀ id events' s', History settings events' s' →
    deeds id events' = deeds id events → s'.find? id = s.find? id
  /-- Those that were not started or were removed are not live. -/
  gone : ∀ id, s.find? id = none ↔ Gone (deeds id events)
  /-- A session starts under the first drawn identifier that is not in use. -/
  start : ∀ draws program, (∃ id ∈ draws, s.find? id = none) →
    ∃ used id unread s', draws = used ++ id :: unread ∧ (∀ other ∈ used, s.find? other ≠ none) ∧
      s.find? id = none ∧
      s.serve? (.start draws program) = some (.started id program.size, s') ∧
      s.Sets id (some (.start program settings)) s'
  /-- Source is first made a program, which is started. -/
  source : ∀ draws source program, Program.ofSource source = .ok program →
    s.serve? (.startSource draws source) = s.serve? (.start draws program)
  /-- Source that is no program changes nothing. -/
  reject : ∀ draws source e, Program.ofSource source = .error e →
    s.serve? (.startSource draws source) = some (.rejected e, s)
  advance : ∀ id r, record? (deeds id events) = some r →
    ∃ s', s.serve? (.advance id) =
        some (.advanced ((Session.start r.program settings).answer r.advances), s') ∧
      s.Sets id (some ((Session.start r.program settings).after (r.advances + 1))) s'
  isCompleted : ∀ id r, record? (deeds id events) = some r →
    s.serve? (.isCompleted id) = some (.completed (r.session settings).isCompleted, s)
  remove : ∀ id r, record? (deeds id events) = some r →
    ∃ s', s.serve? (.remove id) = some (.removed true, s') ∧ s.Sets id none s'
  /-- Calls for a session that is gone change nothing. -/
  invalid : ∀ id, Gone (deeds id events) →
    s.serve? (.advance id) = some (.invalid ⟨id.text⟩, s) ∧
      s.serve? (.isCompleted id) = some (.invalid ⟨id.text⟩, s) ∧
      s.serve? (.remove id) = some (.removed false, s)
  /-- From its start until the next one of its identifier, a session is removed once if it is not
  live any more, and else never. -/
  once : ∀ id later start earlier, events = later ++ start :: earlier → start.started = [id] →
    id ∉ starts later → (removals later).count id = if (s.find? id).isSome then 0 else 1
  /-- There are as many live sessions as were started and not removed. -/
  size : s.serve? .size = some (.size s.size, s) ∧
    s.size + (removals events).length = (starts events).length

/-- The sessions of a store are isolated from each other, and none is lost. -/
theorem history_keeps_sessions {settings : Settings} {events : List Event} {s : SessionStore}
    (h : History settings events s) : Keeps settings events s := by
  have session := find?_of_history h
  have found : ∀ {id r}, record? (deeds id events) = some r →
      s.find? id = some (r.session settings) := fun {id r} recorded => by
    rw [session, recorded, Option.map_some]
  have missing : ∀ id, s.find? id = none ↔ Gone (deeds id events) := fun id => by
    rw [session, Option.map_eq_none_iff, record?_eq_none_iff]
  refine ⟨session, ?independent, missing, ?start, ?source, ?reject, ?advance, ?isCompleted,
    ?remove, ?invalid, ?once, rfl, size_of_history h⟩
  case independent =>
    intro id events' s' h' same
    rw [session, find?_of_history h', same]
  case start =>
    intro draws program free
    obtain ⟨used, id, unread, rfl, before, unused⟩ := exists_first_free free
    have served := serveStart?_append used unread program before unused
    rw [settings_of_history h] at served
    exact ⟨used, id, unread, _, rfl, before, unused, served, sets_put s id _⟩
  case source => exact fun draws source program => serve?_startSource_of_ok
  case reject => exact fun draws source e => serve?_startSource_of_error
  case advance =>
    intro id r recorded
    refine ⟨_, serve?_advance_of_find? (found recorded), ?_⟩
    rw [Session.after_succ]
    exact sets_put s id _
  case isCompleted => exact fun id r recorded => serve?_isCompleted_of_find? (found recorded)
  case remove =>
    intro id r recorded
    refine ⟨_, ?_, sets_remove s id⟩
    rw [serve?_remove, found recorded, Option.isSome_some]
  case invalid =>
    intro id gone
    have absent := (missing id).2 gone
    refine ⟨serve?_advance_of_none absent, serve?_isCompleted_of_none absent, ?_⟩
    rw [serve?_remove, absent, remove_of_find?_eq_none absent, Option.isSome_none]
  case once =>
    rintro id later start earlier rfl started unstarted
    have balance := live_of_started started h
    rw [List.count_eq_zero.2 unstarted, live] at balance
    cases kept : s.find? id <;> simp [kept] at balance ⊢ <;> omega

/-- The second start draws the identifier of the first one before one that is not in use. -/
theorem history_keeps_sessions_colliding : ∃ events s,
    events.map Event.call = [.advance ⟨1⟩, .remove ⟨2⟩, .advance ⟨1⟩,
      .start [⟨1⟩, ⟨2⟩] .exiting, .start [⟨1⟩] .exiting] ∧
    History {} events s ∧ Keeps {} events s ∧
      s.find? ⟨1⟩ = some ((Session.start .exiting {}).after 2) ∧
      s.find? ⟨2⟩ = none ∧ s.size = 1 := by
  let exiting := Session.start .exiting {}
  let s₁ := (new {}).put ⟨1⟩ exiting
  let s₂ := s₁.put ⟨2⟩ exiting
  let s₃ := s₂.put ⟨1⟩ exiting.advance.2
  let s₄ := s₃.remove ⟨2⟩
  have live₁ : s₁.find? ⟨1⟩ = some exiting := by rw [find?_put, if_pos rfl]
  have live₂ : s₂.find? ⟨1⟩ = some exiting := by rw [find?_put, if_neg (by decide), live₁]
  have live₄ : s₄.find? ⟨1⟩ = some exiting.advance.2 := by
    rw [find?_remove, if_neg (by decide), find?_put, if_pos rfl]
  have start₁ : (new {}).serve? (.start [⟨1⟩] .exiting) = some (.started ⟨1⟩ _, s₁) :=
    serveStart?_append [] [] _ (List.forall_mem_nil _) (find?_new {})
  have start₂ : s₁.serve? (.start [⟨1⟩, ⟨2⟩] .exiting) = some (.started ⟨2⟩ _, s₂) :=
    serveStart?_append [⟨1⟩] [] _ (by rw [List.forall_mem_singleton, live₁]; nofun)
      (by rw [find?_put, if_neg (by decide), find?_new])
  have removed : s₃.serve? (.remove ⟨2⟩) = some (.removed true, s₄) := by
    rw [serve?_remove, find?_put, if_neg (by decide), find?_put, if_pos rfl, Option.isSome_some]
  have h := History.new.call start₁ |>.call start₂ |>.call (serve?_advance_of_find? live₂)
    |>.call removed |>.call (serve?_advance_of_find? live₄)
  have keeps := history_keeps_sessions h
  have size : _ + 1 = 1 + 1 := keeps.size.2
  exact ⟨_, _, rfl, h, keeps, keeps.session ⟨1⟩, keeps.session ⟨2⟩, Nat.add_right_cancel size⟩

end Mips.SessionStore
