import Mips.Proofs.LowerCase
import Mips.Proofs.Magnitudes
import Mips.Proofs.Pieces
import Mips.Proofs.TokenLines

/-!
# Letters in either case

Only names keep the case of their letters. A text with some letters in the other case has the same
tokens at the same places, except for its names and directives, which are the same in lower case.
Quoted texts are not read without regard to case.
-/
namespace Mips

open Token

namespace Reading

theorem toLower_ne_of_ne {x : Char} (lower : x ≠ 'x') (upper : x ≠ 'X') :
    x.toLower ≠ 'x' ∧ x.toLower ≠ 'X' := by
  have letters := List.all_eq_true.1 (by decide : (Text.upperLetters.all fun c =>
    c = 'X' ∨ c.toLower ≠ 'x' ∧ c.toLower ≠ 'X') = true)
  rcases Text.toLower_eq_or_mem x with same | member
  · rw [same]
    exact ⟨lower, upper⟩
  · exact (of_decide_eq_true (letters x member)).resolve_left upper

theorem magnitude_map_toLower (digits : List Char) (tooBig : LexError) :
    magnitude (digits.map Char.toLower) tooBig = magnitude digits tooBig := by
  by_cases decimal : ∀ x rest, digits = '0' :: x :: rest → x ≠ 'x' ∧ x ≠ 'X'
  · have decimal' : ∀ x rest, digits.map Char.toLower = '0' :: x :: rest → x ≠ 'x' ∧ x ≠ 'X' := by
      intro x rest same
      obtain ⟨c, _, rfl, zero, same⟩ := List.map_eq_cons_iff.1 same
      obtain ⟨d, others, rfl, rfl, -⟩ := List.map_eq_cons_iff.1 same
      obtain rfl : c = '0' := Text.eq_of_toLower_eq (c := '0') zero.symm (by decide)
      obtain ⟨lower, upper⟩ := decimal d others rfl
      exact toLower_ne_of_ne lower upper
    rw [magnitude_of_decimal tooBig decimal, magnitude_of_decimal tooBig decimal',
      Numeral.read_map_toLower]
  · simp only [not_forall, not_and_or, not_not] at decimal
    obtain ⟨x, rest, rfl, letter⟩ := decimal
    have lower : x.toLower = 'x' := by rcases letter with rfl | rfl <;> rfl
    change magnitude ('0' :: x.toLower :: rest.map Char.toLower) tooBig = _
    rw [magnitude_of_hex (.inl lower), magnitude_of_hex letter, Numeral.read_map_toLower]

theorem unsigned_map_toLower (digits : List Char) :
    unsigned (digits.map Char.toLower) = unsigned digits := by
  rw [unsigned, magnitude_map_toLower]
  rfl

theorem signed_map_toLower (digits : List Char) :
    signed (digits.map Char.toLower) = signed digits := by
  rw [signed, magnitude_map_toLower]
  rfl

end Reading

theorem String.toLower_ofList_map (text : List Char) :
    (String.ofList (text.map Char.toLower)).toLower = (String.ofList text).toLower := by
  have twice : ∀ c : Char, c.toLower.toLower = c.toLower := Text.apply_toLower (by decide)
  have lower : ∀ s : String, s.toLower = s.map Char.toLower := fun _ => rfl
  rw [← String.toList_inj, lower, lower, String.toList_map, String.toList_map,
    String.toList_ofList, String.toList_ofList, List.map_map]
  exact List.map_congr_left fun c _ => twice c

theorem Text.toLower_ofList_eq {text text' : List Char}
    (same : text.map Char.toLower = text'.map Char.toLower) :
    (String.ofList text).toLower = (String.ofList text').toLower := by
  rw [← String.toLower_ofList_map, same, String.toLower_ofList_map]

namespace Register

theorem ofName?_eq_of_toLower {name name' : String} (same : name.toLower = name'.toLower) :
    ofName? name = ofName? name' := by
  rw [ofName?, ofName?, same]

theorem parseBody?_map_toLower (body : List Char) :
    parseBody? (body.map Char.toLower) = parseBody? body := by
  have digits : (body.map Char.toLower).all Char.isDigit = body.all Char.isDigit := by
    rw [List.all_map]
    exact congrArg body.all (funext Text.charIsDigit_toLower)
  rw [parseBody?, digits, List.isEmpty_map, Numeral.read_map_toLower,
    ofName?_eq_of_toLower (String.toLower_ofList_map body)]
  rfl

end Register

theorem Reading.register_map_toLower (body : List Char) :
    register (body.map Char.toLower) = register body := by
  rw [register, Register.parseBody?_map_toLower]
  rfl

/-- The same token, or names that are the same in lower case. -/
inductive Token.SameLetters : Token → Token → Prop
  | refl (t : Token) : SameLetters t t
  | identifier {name name' : String} : name.toLower = name'.toLower →
      SameLetters (.identifier name) (.identifier name')
  | directive {name name' : String} : name.toLower = name'.toLower →
      SameLetters (.directive name) (.directive name')

namespace Token

variable {t t' : Token} {written written' text text' : List Char}

theorem SameLetters.continues_eq (same : SameLetters t t') : t'.continues = t.continues := by
  cases same <;> rfl

theorem continues_toLower (t : Token) (c : Char) : t.continues c.toLower = t.continues c := by
  have newline : ∀ c : Char, (c.toLower != '\n') = (c != '\n') := fun c =>
    Text.apply_toLower (f := fun c => c != '\n') (by decide) c
  cases t with
  | unsigned | signed | register | identifier | directive => exact Text.isWordChar_toLower c
  | comment => exact newline c
  | text | colon | comma | openParen | closeParen | newline => rfl

/-- Where a token ends does not depend on the case of what follows. -/
theorem EndsBefore.of_map_toLower (ends : t.EndsBefore text)
    (same : text.map Char.toLower = text'.map Char.toLower) : t.EndsBefore text' := by
  intro c head
  cases text' with
  | nil => cases head
  | cons d text' =>
    cases head
    obtain ⟨e, rest, rfl, first, -⟩ := List.map_eq_cons_iff.1 same
    rw [← continues_toLower, ← first, continues_toLower]
    exact ends e rfl

/-- What is spelt in another case is the same token, or one with the same letters. -/
theorem Spelled.of_map_toLower (spelled : Spelled written t) (unquoted : ∀ value, t ≠ .text value)
    (same : written.map Char.toLower = written'.map Char.toLower) :
    ∃ t', Spelled written' t' ∧ SameLetters t t' := by
  have words {text text' : List Char} (same : text.map Char.toLower = text'.map Char.toLower) :=
    Text.forall_of_map_toLower Text.isWordChar_toLower same
  cases spelled with
  | signed all read =>
    obtain ⟨digits, rfl, tail⟩ := Text.exists_cons_of_map_toLower same (by decide)
    rw [← Reading.signed_map_toLower, tail, Reading.signed_map_toLower] at read
    exact ⟨_, .signed (words tail all) read, .refl _⟩
  | register all read =>
    obtain ⟨body, rfl, tail⟩ := Text.exists_cons_of_map_toLower same (by decide)
    rw [← Reading.register_map_toLower, tail, Reading.register_map_toLower] at read
    exact ⟨_, .register (words tail all) read, .refl _⟩
  | text => exact absurd rfl (unquoted _)
  | colon =>
    obtain rfl := Text.eq_of_map_toLower same (by decide)
    exact ⟨_, .colon, .refl _⟩
  | comma =>
    obtain rfl := Text.eq_of_map_toLower same (by decide)
    exact ⟨_, .comma, .refl _⟩
  | openParen =>
    obtain rfl := Text.eq_of_map_toLower same (by decide)
    exact ⟨_, .openParen, .refl _⟩
  | closeParen =>
    obtain rfl := Text.eq_of_map_toLower same (by decide)
    exact ⟨_, .closeParen, .refl _⟩
  | newline =>
    obtain rfl := Text.eq_of_map_toLower same (by decide)
    exact ⟨_, .newline, .refl _⟩
  | returnNewline =>
    obtain rfl := Text.eq_of_map_toLower same (by decide)
    exact ⟨_, .returnNewline, .refl _⟩
  | comment all =>
    obtain ⟨body, rfl, tail⟩ := Text.exists_cons_of_map_toLower same (by decide)
    refine ⟨_, .comment fun c member newline => ?_, .refl _⟩
    subst newline
    obtain ⟨d, member, lower⟩ := List.mem_map.1 (tail ▸ List.mem_map_of_mem member)
    exact all d member (Text.eq_of_toLower_eq lower.symm (by decide))
  | directive starts all =>
    obtain ⟨body, rfl, tail⟩ := Text.exists_cons_of_map_toLower same (by decide)
    obtain ⟨d, rest, rfl, first, others⟩ := List.map_eq_cons_iff.1 tail.symm
    rw [← Text.isNameStart_toLower, ← first, Text.isNameStart_toLower] at starts
    exact ⟨_, .directive starts (words others.symm all), .directive (Text.toLower_ofList_eq tail)⟩
  | unsigned digit all read =>
    obtain ⟨d, rest, rfl, first, others⟩ := List.map_eq_cons_iff.1 same.symm
    rw [← Text.isDigit_toLower, ← first, Text.isDigit_toLower] at digit
    rw [← Reading.unsigned_map_toLower, same, Reading.unsigned_map_toLower] at read
    exact ⟨_, .unsigned digit (words others.symm all) read, .refl _⟩
  | identifier starts all =>
    obtain ⟨d, rest, rfl, first, others⟩ := List.map_eq_cons_iff.1 same.symm
    rw [← Text.isNameStart_toLower, ← first, Text.isNameStart_toLower] at starts
    exact ⟨_, .identifier starts (words others.symm all),
      .identifier (Text.toLower_ofList_eq same)⟩

end Token

/-- The second text has letters in the other case, but only at free positions. The texts begin at
byte `start` of the source. -/
inductive Text.Recased (free : Nat → Prop) : (start : Nat) → List Char → List Char → Prop
  | nil {start : Nat} : Recased free start [] []
  | keep {start : Nat} {c : Char} {text text' : List Char} :
      Recased free (start + c.utf8Size) text text' → Recased free start (c :: text) (c :: text')
  | change {start : Nat} {c d : Char} {text text' : List Char} : free start →
      c.toLower = d.toLower → Recased free (start + c.utf8Size) text text' →
      Recased free start (c :: text) (d :: text')

def Span.Touched (free : Nat → Prop) (span : Span) : Prop :=
  ∃ i, free i ∧ span.start ≤ i ∧ i < span.stop

namespace Text.Recased

variable {free : Nat → Prop} {start : Nat} {text text' a b : List Char}

theorem map_toLower_eq (h : Recased free start text text') :
    text.map Char.toLower = text'.map Char.toLower := by
  induction h with
  | nil => rfl
  | keep _ ih => rw [List.map_cons, List.map_cons, ih]
  | change _ same _ ih => rw [List.map_cons, List.map_cons, ih, same]

theorem byteLength_eq (h : Recased free start text text') : byteLength text' = byteLength text := by
  rw [← byteLength_map_toLower, ← h.map_toLower_eq, byteLength_map_toLower]

theorem refl (text : List Char) : Recased free start text text := by
  induction text generalizing start with
  | nil => exact .nil
  | cons c text ih => exact .keep ih

theorem of_map_toLower_eq {a' : List Char}
    (allowed : ∀ i, start ≤ i → i < start + byteLength a → free i)
    (same : a.map Char.toLower = a'.map Char.toLower) : Recased free start a a' := by
  induction a generalizing start a' with
  | nil =>
    obtain rfl : a' = [] := List.map_eq_nil_iff.1 same.symm
    exact .nil
  | cons c a ih =>
    obtain ⟨d, others, rfl, first, tail⟩ := List.map_eq_cons_iff.1 same.symm
    rw [byteLength_cons, ← Nat.add_assoc] at allowed
    have := c.utf8Size_pos
    refine .change (allowed start (Nat.le_refl _) (by omega)) first.symm (ih ?_ tail.symm)
    exact fun i least most => allowed i (by omega) most

theorem append {a' b' : List Char} (first : Recased free start a a')
    (second : Recased free (start + byteLength a) b b') :
    Recased free start (a ++ b) (a' ++ b') := by
  induction first with
  | nil => exact second
  | keep _ ih =>
    rw [byteLength_cons, ← Nat.add_assoc] at second
    exact .keep (ih second)
  | change allowed same _ ih =>
    rw [byteLength_cons, ← Nat.add_assoc] at second
    exact .change allowed same (ih second)

theorem exists_append (h : Recased free start (a ++ b) text) : ∃ a' b', text = a' ++ b' ∧
    Recased free start a a' ∧ Recased free (start + byteLength a) b b' := by
  induction a generalizing start text with
  | nil => exact ⟨[], text, rfl, .nil, h⟩
  | cons c a ih =>
    rw [byteLength_cons, ← Nat.add_assoc]
    cases h with
    | keep others =>
      obtain ⟨a', b', rfl, first, second⟩ := ih others
      exact ⟨c :: a', b', rfl, .keep first, second⟩
    | change allowed same others =>
      obtain ⟨a', b', rfl, first, second⟩ := ih others
      exact ⟨_ :: a', b', rfl, .change allowed same first, second⟩

/-- Without a free position nothing changes. -/
theorem eq_of_not_touched (h : Recased free start text text')
    (fixed : ¬Span.Touched free ⟨start, start + byteLength text⟩) : text' = text := by
  induction h with
  | nil => rfl
  | @keep start c text text' _ ih =>
    rw [ih fun ⟨i, allowed, least, most⟩ => fixed ⟨i, allowed, ?_, ?_⟩]
    · exact Nat.le_trans (Nat.le_add_right ..) least
    · rw [byteLength_cons, ← Nat.add_assoc]
      exact most
  | @change start c d text text' allowed =>
    refine absurd ⟨start, allowed, Nat.le_refl _, ?_⟩ fixed
    have := c.utf8Size_pos
    rw [byteLength_cons]
    dsimp only
    omega

end Text.Recased

/-- The token in another case, at the same place. -/
structure Placed.Recased (free : Nat → Prop) (t t' : Placed) : Prop where
  span : t'.span = t.span
  token : t'.token = t.token ∨ t.span.Touched free ∧ SameLetters t.token t'.token

/-- A text in another case has the same tokens, and those in another case where this is free. -/
theorem Lexes.exists_recased {free : Nat → Prop} {start : Nat} {text text' : List Char}
    {tokens : List Placed} (h : Lexes start text tokens)
    (recased : Text.Recased free start text text')
    (quoted : ∀ t ∈ tokens, ∀ value, t.token = .text value → ¬t.span.Touched free) :
    ∃ tokens', Lexes start text' tokens' ∧ List.Forall₂ (Placed.Recased free) tokens tokens' := by
  induction h generalizing text' with
  | nil =>
    cases recased
    exact ⟨[], .nil, .nil⟩
  | @blank start c text tokens separator _ ih =>
    have other : c.isAlpha = false := by
      rcases (by simpa [Lexeme.isSeparator] using separator : c = ' ' ∨ c = '\t') with rfl | rfl <;>
        decide
    cases recased with
    | keep rest =>
      obtain ⟨tokens', lexes, same⟩ := ih rest quoted
      exact ⟨tokens', .blank separator lexes, same⟩
    | change _ letter rest =>
      obtain rfl := Text.eq_of_toLower_eq letter other
      obtain ⟨tokens', lexes, same⟩ := ih rest quoted
      exact ⟨tokens', .blank separator lexes, same⟩
  | @comment start written text tokens spelled ends _ ih =>
    obtain ⟨written', rest, rfl, first, second⟩ := recased.exists_append
    obtain ⟨tokens', lexes, same⟩ := ih second quoted
    have unquoted : ∀ value, Token.comment ≠ .text value := by simp
    obtain ⟨t, spelled', letters⟩ := spelled.of_map_toLower unquoted first.map_toLower_eq
    cases letters
    rw [← first.byteLength_eq] at lexes
    exact ⟨tokens', .comment spelled' (ends.of_map_toLower second.map_toLower_eq) lexes, same⟩
  | @token start written text t tokens spelled noComment ends _ ih =>
    obtain ⟨unquoted, others⟩ := List.forall_mem_cons.1 quoted
    obtain ⟨written', rest, rfl, first, second⟩ := recased.exists_append
    obtain ⟨tokens', lexes, same⟩ := ih second others
    have stops := ends.of_map_toLower second.map_toLower_eq
    rw [← first.byteLength_eq] at lexes
    by_cases touched : Span.Touched free ⟨start, start + Text.byteLength written⟩
    · obtain ⟨t', spelled', letters⟩ := spelled.of_map_toLower
        (fun value text => unquoted value text touched) first.map_toLower_eq
      have noComment' : t' ≠ .comment := by
        rintro rfl
        cases letters
        exact noComment rfl
      have stops' : t'.EndsBefore rest := by
        unfold EndsBefore
        rw [letters.continues_eq]
        exact stops
      refine ⟨_, .token spelled' noComment' stops' lexes, .cons ⟨?_, .inr ⟨touched, letters⟩⟩ same⟩
      rw [first.byteLength_eq]
    · obtain rfl := first.eq_of_not_touched touched
      exact ⟨_, .token spelled noComment stops lexes, .cons ⟨rfl, .inl rfl⟩ same⟩

end Mips
