import Mathlib.Data.List.Pairwise
import Mips.Proofs.LetterCase
import Mips.Proofs.ParseErrors

/-!
# Where letters may have either case

Whether the case of a name matters depends on where it stands: mnemonics, names of directives and
registers have no case, labels have one. The places without case are found for each line from its
tokens. A token at such a place is one of its own line, and is no label and no quoted text.
-/
namespace Mips

open Token Operand

namespace Statement

/-- After its labels the line has the token and then the operands. -/
def Consists (line : List Placed) (first : Placed) (operands : List Operand) : Prop :=
  ∃ labels rest, leadingLabels #[] line = (labels, first :: rest) ∧
    Operand.ofTokens rest = .ok operands

/-- The operand with the number, behind a mnemonic or directive, is no label and no quoted text. A
name is none if the mnemonic asks for a register there. -/
inductive Caseless (first : Placed) (n : Nat) : Operand.Value → Prop
  | register {r : Register} : Caseless first n (.register r)
  | bareRegister {mnemonic name : String} {m : Mnemonic} : first.token = .identifier mnemonic →
      Mnemonic.ofName mnemonic = .ok m → m.signature[n]? = some .register →
      Caseless first n (.name name)
  | numeral {z : Int} : Caseless first n (.integer z)
  | access {offset : Int} {base : Register} : Caseless first n (.access offset base)

/-- At the span in the line stands a mnemonic, the name of a directive, a register, a numeral or a
memory access. -/
inductive CaseFree (line : List Placed) : Span → Prop
  | mnemonic {first : Placed} {operands : List Operand} {name : String} :
      Consists line first operands → first.token = .identifier name → CaseFree line first.span
  | directive {first : Placed} {operands : List Operand} {name : String} :
      Consists line first operands → first.token = .directive name → CaseFree line first.span
  | operand {first : Placed} {operands : List Operand} {n : Nat} {o : Operand} :
      Consists line first operands → operands[n]? = some o → Caseless first n o.value →
      CaseFree line o.span

def CaseFreeAt (line : List Placed) (i : Nat) : Prop :=
  ∃ span, CaseFree line span ∧ span.start ≤ i ∧ i < span.stop

def FreeAmong (tokens : List Placed) (i : Nat) : Prop :=
  ∃ line ∈ lines tokens, CaseFreeAt line i

/-- The tokens are not empty and stand one behind the other. -/
structure InOrder (tokens : List Placed) : Prop where
  pairwise : tokens.Pairwise fun a b => a.span.stop ≤ b.span.start
  some : ∀ t ∈ tokens, t.span.start < t.span.stop

theorem InOrder.sublist {tokens others : List Placed} (order : InOrder tokens)
    (inside : others.Sublist tokens) : InOrder others :=
  ⟨order.pairwise.sublist inside, fun t member => order.some t (inside.subset member)⟩

end Statement

/-- The byte belongs to a place where the case of letters does not matter. -/
def SourceText.CaseFree (source : String) : Nat → Prop :=
  Statement.FreeAmong (tokens source)

namespace Operand

variable {tokens : List Placed} {operands : List Operand} {o : Operand}

theorem Splits.exists_bounds (h : Splits tokens operands) (member : o ∈ operands) :
    ∃ first ∈ tokens, ∃ last ∈ tokens, o.span = ⟨first.span.start, last.span.stop⟩ := by
  obtain ⟨first, others, inside, place⟩ := h.exists_extent member
  exact ⟨first, inside.subset List.mem_cons_self, _, inside.subset List.getLastD_mem_cons, place⟩

theorem Phrase.exists_last (h : Phrase tokens o) :
    ∃ last ∈ tokens, o.span.stop = last.span.stop := by
  cases h with
  | @access _ _ _ c | @base _ _ c => exact ⟨⟨.closeParen, c⟩, by simp, rfl⟩
  | integer | register | name | text => exact ⟨_, List.mem_singleton_self _, rfl⟩

theorem Splits.pairwise (h : Splits tokens operands) (order : Statement.InOrder tokens) :
    operands.Pairwise fun a b => a.span.stop ≤ b.span.start := by
  induction h with
  | nil => exact .nil
  | @cons covered separator rest o operands reads optional alone others ih =>
    obtain ⟨_, behind, before⟩ := List.pairwise_append.1 order.pairwise
    refine .cons (fun b member => ?_) (ih (order.sublist ?_))
    · obtain ⟨last, inside, stop⟩ := reads.exists_last
      obtain ⟨first, inside', _, _, place⟩ := others.exists_bounds member
      rw [stop, place]
      exact before last inside first (List.mem_append_right _ inside')
    · exact (List.sublist_append_right separator rest).trans (List.sublist_append_right ..)

/-- Two operands with a byte in common are one. -/
theorem Splits.index_unique (h : Splits tokens operands) (order : Statement.InOrder tokens)
    {j k i : Nat} {a b : Operand} (first : operands[j]? = some a) (second : operands[k]? = some b)
    (inside : a.span.start ≤ i ∧ i < a.span.stop) (inside' : b.span.start ≤ i ∧ i < b.span.stop) :
    j = k := by
  have ordered := List.pairwise_iff_getElem.1 (h.pairwise order)
  obtain ⟨before, rfl⟩ := List.getElem?_eq_some_iff.1 first
  obtain ⟨before', rfl⟩ := List.getElem?_eq_some_iff.1 second
  rcases Nat.lt_trichotomy j k with less | same | more
  · have := ordered j k before before' less
    omega
  · exact same
  · have := ordered k j before' before more
    omega

/-- A quoted text is an operand by itself. -/
theorem Phrase.eq_of_text (h : Phrase tokens o) {t : Placed} {value : String} (member : t ∈ tokens)
    (text : t.token = .text value) : o = ⟨.text value, t.span⟩ := by
  have noBase {r : Register} : ¬NamesBase (.text value) r := nofun
  cases h with
  | access hn names =>
    simp only [List.mem_cons, List.not_mem_nil, or_false] at member
    rcases member with rfl | rfl | rfl | rfl
    · rw [text] at hn
      cases hn
    · cases text
    · rw [text] at names
      exact absurd names noBase
    · cases text
  | base names =>
    simp only [List.mem_cons, List.not_mem_nil, or_false] at member
    rcases member with rfl | rfl | rfl
    · cases text
    · rw [text] at names
      exact absurd names noBase
    · cases text
  | integer hn =>
    obtain rfl := List.mem_singleton.1 member
    rw [text] at hn
    cases hn
  | register | name =>
    obtain rfl := List.mem_singleton.1 member
    cases text
  | text =>
    obtain rfl := List.mem_singleton.1 member
    cases text
    rfl

theorem Splits.mem_of_text (h : Splits tokens operands) {t : Placed} {value : String}
    (member : t ∈ tokens) (text : t.token = .text value) : ⟨.text value, t.span⟩ ∈ operands := by
  induction h with
  | nil => cases member
  | cons reads optional _ _ ih =>
    rcases List.mem_append.1 member with member | member
    · rw [reads.eq_of_text member text]
      exact List.mem_cons_self
    · rcases List.mem_append.1 member with member | member
      · rcases optional with rfl | ⟨span, rfl⟩
        · cases member
        · obtain rfl := List.mem_singleton.1 member
          cases text
      · exact List.mem_cons_of_mem _ (ih member)

end Operand

namespace Statement

variable {tokens line line' : List Placed} {first : Placed} {operands : List Operand} {i k : Nat}

/-- A line has its parts as they are read. -/
theorem Consists.unique {first' : Placed} {operands' : List Operand}
    (one : Consists line first operands) (other : Consists line first' operands') :
    first = first' ∧ operands = operands' := by
  obtain ⟨labels, rest, cut, read⟩ := one
  obtain ⟨labels', rest', cut', read'⟩ := other
  rw [cut, Prod.mk.injEq, List.cons.injEq] at cut'
  obtain ⟨-, rfl, rfl⟩ := cut'
  rw [read, Except.ok.injEq] at read'
  exact ⟨rfl, read'⟩

theorem Consists.exists_cut (h : Consists line first operands) : ∃ written labels rest,
    Labels written labels ∧ line = written ++ first :: rest ∧ Splits rest operands := by
  obtain ⟨labels, rest, cut, read⟩ := h
  obtain ⟨written, labels, reads, same, -, -⟩ := leadingLabels_eq_iff.1 cut
  exact ⟨written, labels, rest, reads, same, Operand.ofTokens_eq_ok.1 read⟩

theorem Consists.stop_le (consists : Consists line first operands) (order : InOrder line)
    {o : Operand} (member : o ∈ operands) : first.span.stop ≤ o.span.start := by
  obtain ⟨written, labels, rest, -, rfl, splits⟩ := consists.exists_cut
  obtain ⟨t, inside, last, -, place⟩ := splits.exists_bounds member
  have behind := (order.sublist (List.sublist_append_right written _)).pairwise
  rw [place]
  exact (List.pairwise_cons.1 behind).1 t inside

theorem Consists.first_some (consists : Consists line first operands) (order : InOrder line) :
    first.span.start < first.span.stop := by
  obtain ⟨written, labels, rest, -, rfl, -⟩ := consists.exists_cut
  exact order.some first (List.mem_append_right _ List.mem_cons_self)

theorem Consists.index_unique (consists : Consists line first operands) (order : InOrder line)
    {j : Nat} {a b : Operand} (one : operands[j]? = some a) (other : operands[k]? = some b)
    (inside : a.span.start ≤ i ∧ i < a.span.stop) (inside' : b.span.start ≤ i ∧ i < b.span.stop) :
    j = k := by
  obtain ⟨written, labels, rest, -, rfl, splits⟩ := consists.exists_cut
  have behind := order.sublist ((List.sublist_cons_self first rest).trans
    (List.sublist_append_right written _))
  exact splits.index_unique behind one other inside inside'

theorem CaseFree.start_le {span : Span} (h : CaseFree line span) (order : InOrder line)
    (consists : Consists line first operands) : first.span.start ≤ span.start := by
  cases h with
  | mnemonic consists' | directive consists' =>
    obtain ⟨rfl, rfl⟩ := consists.unique consists'
    exact Nat.le_refl _
  | operand consists' there =>
    obtain ⟨rfl, rfl⟩ := consists.unique consists'
    have behind := consists.stop_le order (List.mem_of_getElem? there)
    exact Nat.le_trans (Nat.le_of_lt (consists.first_some order)) behind

theorem caseless_of_touched {o : Operand} (order : InOrder line)
    (consists : Consists line first operands) (there : operands[k]? = some o)
    (touched : o.span.Touched (CaseFreeAt line)) : Caseless first k o.value := by
  obtain ⟨i, ⟨span, free, least, most⟩, inside⟩ := touched
  have behind := consists.stop_le order (List.mem_of_getElem? there)
  cases free with
  | mnemonic consists' | directive consists' =>
    obtain ⟨rfl, rfl⟩ := consists.unique consists'
    omega
  | operand consists' there' caseless =>
    obtain ⟨rfl, rfl⟩ := consists.unique consists'
    obtain rfl := consists.index_unique order there there' inside ⟨least, most⟩
    rw [there, Option.some.injEq] at there'
    rwa [there']

/-- Labels keep their case. -/
theorem not_touched_of_stop_le {span : Span} (order : InOrder line)
    (consists : Consists line first operands) (before : span.stop ≤ first.span.start) :
    ¬span.Touched (CaseFreeAt line) := by
  rintro ⟨i, ⟨place, free, least, -⟩, -, most⟩
  have := free.start_le order consists
  omega

theorem CaseFree.exists_consists {span : Span} (h : CaseFree line span) :
    ∃ first operands, Consists line first operands := by
  cases h with
  | mnemonic consists | directive consists | operand consists => exact ⟨_, _, consists⟩

/-- Quoted texts keep their case. -/
theorem not_touched_of_text {t : Placed} {value : String} (order : InOrder line) (member : t ∈ line)
    (text : t.token = .text value) : ¬t.span.Touched (CaseFreeAt line) := by
  rintro ⟨i, ⟨span, free, inside⟩, inside'⟩
  have touched : t.span.Touched (CaseFreeAt line) := ⟨i, ⟨span, free, inside⟩, inside'⟩
  obtain ⟨first, operands, consists⟩ := free.exists_consists
  obtain ⟨written, labels, rest, reads, rfl, splits⟩ := consists.exists_cut
  rcases List.mem_append.1 member with member | member
  · have before := (List.pairwise_append.1 order.pairwise).2.2 t member first List.mem_cons_self
    exact not_touched_of_stop_le order consists before touched
  · rcases List.mem_cons.1 member with rfl | member
    · cases free with
      | mnemonic consists' named | directive consists' named =>
        obtain ⟨rfl, -⟩ := consists.unique consists'
        rw [text] at named
        cases named
      | operand consists' there =>
        obtain ⟨-, rfl⟩ := consists.unique consists'
        have behind := consists.stop_le order (List.mem_of_getElem? there)
        omega
    · obtain ⟨k, there⟩ := List.getElem?_of_mem (splits.mem_of_text member text)
      have caseless := caseless_of_touched order consists there touched
      cases caseless

theorem CaseFree.exists_bounds {span : Span} (h : CaseFree line span) :
    ∃ first ∈ line, ∃ last ∈ line, span = ⟨first.span.start, last.span.stop⟩ := by
  obtain ⟨first, operands, consists⟩ := h.exists_consists
  obtain ⟨written, labels, rest, -, rfl, splits⟩ := consists.exists_cut
  have head : first ∈ written ++ first :: rest := List.mem_append_right _ List.mem_cons_self
  cases h with
  | mnemonic consists' | directive consists' =>
    obtain ⟨rfl, -⟩ := consists.unique consists'
    exact ⟨first, head, first, head, rfl⟩
  | operand consists' there =>
    obtain ⟨-, rfl⟩ := consists.unique consists'
    obtain ⟨a, least, b, most, place⟩ := splits.exists_bounds (List.mem_of_getElem? there)
    exact ⟨a, List.mem_append_right _ (List.mem_cons_of_mem _ least), b,
      List.mem_append_right _ (List.mem_cons_of_mem _ most), place⟩

theorem InOrder.of_mem_lines (order : InOrder tokens) (member : line ∈ lines tokens) :
    InOrder line :=
  order.sublist (infix_of_mem_lines member).sublist

theorem InOrder.apart (order : InOrder tokens) (member : line ∈ lines tokens)
    (member' : line' ∈ lines tokens) (other : line ≠ line') :
    (∀ a ∈ line, ∀ b ∈ line', a.span.stop ≤ b.span.start) ∨
      ∀ a ∈ line, ∀ b ∈ line', b.span.stop ≤ a.span.start := by
  let R (one two : List Placed) : Prop := (∀ a ∈ one, ∀ b ∈ two, a.span.stop ≤ b.span.start) ∨
    ∀ a ∈ one, ∀ b ∈ two, b.span.stop ≤ a.span.start
  have symmetric : Std.Symm R := ⟨fun one two h => h.symm.imp
    (fun ends b second a first => ends a first b second)
    (fun ends b second a first => ends a first b second)⟩
  have ordered := (order.sublist (flatten_lines_sublist tokens)).pairwise
  have related : (lines tokens).Pairwise R := (List.pairwise_flatten.1 ordered).2.imp Or.inl
  exact related.forall member member' other

theorem touched_of_mem_line (order : InOrder tokens) (member : line ∈ lines tokens) {t : Placed}
    (inside : t ∈ line) (touched : t.span.Touched (FreeAmong tokens)) :
    t.span.Touched (CaseFreeAt line) := by
  obtain ⟨i, ⟨line', member', span, free, within⟩, here⟩ := touched
  by_cases same : line = line'
  · subst same
    exact ⟨i, ⟨span, free, within⟩, here⟩
  · obtain ⟨a, first, b, last, rfl⟩ := free.exists_bounds
    dsimp only at within
    rcases order.apart member member' same with before | behind
    · have := before t inside a first
      omega
    · have := behind t inside b last
      omega

theorem not_touched_of_mem_text (order : InOrder tokens) {t : Placed} (member : t ∈ tokens)
    {value : String} (text : t.token = .text value) : ¬t.span.Touched (FreeAmong tokens) := by
  intro touched
  have inside : t ∈ (lines tokens).flatten := by
    rw [flatten_lines]
    exact List.mem_filter.2 ⟨member, by simp [text]⟩
  obtain ⟨line, there, inside⟩ := List.mem_flatten.1 inside
  exact not_touched_of_text (order.of_mem_lines there) inside text
    (touched_of_mem_line order there inside touched)

/-- At a place without case the letters may have either case. -/
theorem CaseFree.recased {source : String} {span : Span} (h : CaseFree line span)
    (member : line ∈ lines (SourceText.tokens source)) {start : Nat} {text text' : List Char}
    (begins : start = span.start) (ends : start + Text.byteLength text = span.stop)
    (same : text.map Char.toLower = text'.map Char.toLower) :
    Text.Recased (SourceText.CaseFree source) start text text' := by
  refine .of_map_toLower_eq (fun i least most => ⟨line, member, span, h, ?_, ?_⟩) same
  · rwa [← begins]
  · rwa [← ends]

end Statement

end Mips
