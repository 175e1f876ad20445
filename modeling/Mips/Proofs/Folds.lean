import Mathlib.Data.List.Forall2
import Mathlib.Data.List.Induction

/-!
# Folds that may fail

A fold in `Except` succeeds if every step of it does. What holds at its start and is kept by each
step holds at its end, also where two folds go over one list side by side. Whether a fold succeeds
depends on every element and those before it, if these determine what has come of the fold so far.
-/
namespace Mips

variable {ε ε' α β γ : Type}

theorem bind_eq_ok {x : Except ε α} {f : α → Except ε β} {b : β} :
    x >>= f = .ok b ↔ ∃ a, x = .ok a ∧ f a = .ok b := by
  cases x with
  | error e => simp [bind, Except.bind]
  | ok a => simp [bind, Except.bind]

theorem map_eq_ok {x : Except ε α} {f : α → β} {b : β} :
    x.map f = .ok b ↔ ∃ a, x = .ok a ∧ f a = b := by
  cases x with
  | error e => simp [Except.map]
  | ok a => simp [Except.map]

theorem map_succeeds_iff {x : Except ε α} {f : α → β} :
    (∃ b, x.map f = .ok b) ↔ ∃ a, x = .ok a := by
  cases x with
  | error e => simp [Except.map]
  | ok a => simp [Except.map]

theorem mapM_eq_ok {f : α → Except ε β} {list : List α} {results : List β} :
    list.mapM f = .ok results ↔ List.Forall₂ (fun a b => f a = .ok b) list results := by
  induction list generalizing results with
  | nil => simp [pure, Except.pure, eq_comm]
  | cons a rest ih =>
    simp only [List.mapM_cons, bind_eq_ok, List.forall₂_cons_left_iff, ih, pure, Except.pure,
      Except.ok.injEq, @eq_comm _ _ results, exists_and_left]

variable {step : β → α → Except ε β} {step' : γ → α → Except ε' γ}

theorem foldlM_cons_eq_ok {a : α} {rest : List α} {x z : β} :
    (a :: rest).foldlM step x = .ok z ↔ ∃ y, step x a = .ok y ∧ rest.foldlM step y = .ok z := by
  rw [List.foldlM_cons, bind_eq_ok]

theorem foldlM_append_eq_ok {before after : List α} {x z : β} :
    (before ++ after).foldlM step x = .ok z ↔
      ∃ y, before.foldlM step x = .ok y ∧ after.foldlM step y = .ok z := by
  rw [List.foldlM_append, bind_eq_ok]

theorem foldlM_concat_eq_ok {before : List α} {a : α} {x z : β} :
    (before ++ [a]).foldlM step x = .ok z ↔
      ∃ y, before.foldlM step x = .ok y ∧ step y a = .ok z := by
  rw [foldlM_append_eq_ok]
  refine exists_congr fun y => and_congr_right fun _ => ?_
  rw [foldlM_cons_eq_ok]
  exact ⟨fun ⟨_, first, last⟩ => by cases last; exact first, fun h => ⟨z, h, rfl⟩⟩

/-- What every step keeps, the fold keeps. -/
theorem foldlM_keeps (P : β → Prop) (keeps : ∀ {a x y}, step x a = .ok y → P x → P y)
    {list : List α} {x y : β} (h : list.foldlM step x = .ok y) (hx : P x) : P y := by
  induction list generalizing x with
  | nil =>
    cases h
    exact hx
  | cons a rest ih =>
    obtain ⟨m, first, others⟩ := foldlM_cons_eq_ok.1 h
    exact ih others (keeps first hx)

theorem foldlM_keeps₂ (R : β → γ → Prop)
    (keeps : ∀ {a x y x' y'}, step x a = .ok y → step' x' a = .ok y' → R x x' → R y y')
    {list : List α} {x y : β} {x' y' : γ} (h : list.foldlM step x = .ok y)
    (h' : list.foldlM step' x' = .ok y') (hx : R x x') : R y y' := by
  induction list generalizing x x' with
  | nil =>
    cases h
    cases h'
    exact hx
  | cons a rest ih =>
    obtain ⟨m, first, others⟩ := foldlM_cons_eq_ok.1 h
    obtain ⟨m', first', others'⟩ := foldlM_cons_eq_ok.1 h'
    exact ih others others' (keeps first first' hx)

theorem not_concat_isPrefix_nil {before : List α} {a : α} : ¬before ++ [a] <+: [] := by
  intro inside
  cases List.append_eq_nil_iff.1 (List.prefix_nil.1 inside) |>.2

/-- What holds for each element of a list with those before it. -/
theorem forall_prefix_concat {C : List α → α → Prop} {list : List α} {last : α} :
    (∀ before a, before ++ [a] <+: list ++ [last] → C before a) ↔
      (∀ before a, before ++ [a] <+: list → C before a) ∧ C list last := by
  constructor
  · intro h
    exact ⟨fun before a inside => h before a (inside.trans (List.prefix_append ..)),
      h list last (List.prefix_refl _)⟩
  · rintro ⟨inside, atEnd⟩ before a h
    rcases List.prefix_concat_iff.1 h with same | h
    · obtain ⟨rfl, rfl⟩ := List.append_inj' same rfl |>.imp_right List.singleton_inj.1
      exact atEnd
    · exact inside before a h

theorem foldlM_establishes_of_mem {I : List α → β → Prop} {list : List α}
    (keeps : ∀ {before a x y}, a ∈ list → step x a = .ok y → I before x → I (before ++ [a]) y)
    {x y : β} (h : list.foldlM step x = .ok y) (start : I [] x) : I list y := by
  induction list using List.reverseRecOn generalizing y with
  | nil =>
    cases h
    exact start
  | append_singleton before a ih =>
    obtain ⟨m, others, last⟩ := foldlM_concat_eq_ok.1 h
    have earlier := ih (fun member => keeps (List.mem_append_left _ member)) others
    exact keeps (List.mem_append_right _ (List.mem_singleton_self a)) last earlier

theorem foldlM_establishes {I : List α → β → Prop}
    (keeps : ∀ {before a x y}, step x a = .ok y → I before x → I (before ++ [a]) y)
    {list : List α} {x y : β} (h : list.foldlM step x = .ok y) (start : I [] x) : I list y :=
  foldlM_establishes_of_mem (fun _ => keeps) h start

/-- A fold succeeds just if no step fails, where `C` says of a step that it does not. -/
theorem foldlM_succeeds_iff {I : List α → β → Prop} {C : List α → α → Prop} {list : List α}
    (keeps : ∀ {before a x y}, step x a = .ok y → I before x → I (before ++ [a]) y)
    (succeeds : ∀ {before a x}, before ++ [a] <+: list → I before x →
      ((∃ y, step x a = .ok y) ↔ C before a)) {x : β} (start : I [] x) :
    (∃ y, list.foldlM step x = .ok y) ↔ ∀ before a, before ++ [a] <+: list → C before a := by
  induction list using List.reverseRecOn with
  | nil =>
    exact iff_of_true ⟨x, rfl⟩ fun before a h => absurd h not_concat_isPrefix_nil
  | append_singleton list last ih =>
    rw [forall_prefix_concat, ← ih fun inside => succeeds (inside.trans (List.prefix_append ..))]
    constructor
    · rintro ⟨z, h⟩
      obtain ⟨y, others, ended⟩ := foldlM_concat_eq_ok.1 h
      have reached := foldlM_establishes keeps others start
      exact ⟨⟨y, others⟩, (succeeds (List.prefix_refl _) reached).1 ⟨z, ended⟩⟩
    · rintro ⟨⟨y, others⟩, allowed⟩
      have reached := foldlM_establishes keeps others start
      obtain ⟨z, ended⟩ := (succeeds (List.prefix_refl _) reached).2 allowed
      exact ⟨z, foldlM_concat_eq_ok.2 ⟨y, others, ended⟩⟩

end Mips
