import Mips.Program.Listing
import Mips.Proofs.CanonicalText
import Mips.Proofs.Encoding
import Mips.Proofs.KeptTexts

/-!
# Reading a listing

A listing is cut into lines at its newlines, of which the texts of instructions have none. The text
column is as wide as the longest text has bytes, so that no text is wider in characters, and the
machine code begins behind the same number of characters on all lines. From there on a line has 32
binary digits, and the number that these denote is decoded as the instruction.
-/
namespace Mips

open Text

theorem Numeral.Denotes.newline_not_mem {base n : Nat} {text : List Char} (most : base ≤ 16)
    (h : Denotes base text n) : '\n' ∉ text := by
  have other : ∀ d < 16, '\n'.toLower ≠ Nat.digitChar d := by decide
  intro member
  obtain ⟨d, less, lower⟩ := h.exists_isDigit '\n' member
  exact other d (Nat.lt_of_lt_of_le less most) lower

theorem Word.denotes_bitsText (w : Word) : Numeral.Denotes 2 w.bitsText.toList w.toNat := by
  rw [bitsText, Numeral.fixed, String.toList_ofList]
  exact Numeral.denotes_fixedDigits (by decide) (by decide) w.isLt

theorem Word.length_bitsText (w : Word) : w.bitsText.toList.length = 32 := by
  rw [bitsText, Numeral.fixed, String.toList_ofList, Numeral.length_fixedDigits]

theorem Word.exists_addressText (w : Word) : ∃ digits : List Char,
    w.addressText.toList = '0' :: 'x' :: digits ∧ digits.length = 8 ∧
      Numeral.Denotes 16 digits w.toNat := by
  refine ⟨Numeral.fixedDigits 16 8 w.toNat, ?_, Numeral.length_fixedDigits 16 8 _,
    Numeral.denotes_fixedDigits (by decide) (by decide) w.isLt⟩
  simp only [addressText, Numeral.fixed, String.toList_append, String.toList_ofList]
  rfl

theorem Text.toList_padRight (width : Nat) (text : String) : (padRight width text).toList =
    text.toList ++ List.replicate (width - text.toList.length) ' ' := by
  rw [padRight, spaces, String.toList_append, String.toList_ofList, String.length_toList]

theorem Instr.newline_not_mem_text {i : Instr} (named : ∀ a ∈ i.arguments, a.Named) :
    '\n' ∉ i.text.toList := by
  obtain ⟨placed, same, lexes⟩ := Instr.writes named 0 [] [] endsWord_nil .nil
  rw [List.append_nil, List.append_nil] at lexes
  refine lexes.newline_not_mem fun t member newline => ?_
  have inside : t.token ∈ placed.map Placed.token := List.mem_map_of_mem member
  rw [same, newline] at inside
  exact (Nucleus.instr i).newline_not_mem_tokens inside

theorem Instr.expand_ne_nil {i : Instr} {pc : Word} {symbols : SymbolTable}
    {words : List MachineInstr} (h : i.expand pc symbols = .ok words) : words ≠ [] := by
  rintro rfl
  cases i with
  | la rd label =>
    obtain ⟨_, -, none⟩ := map_eq_ok.1 h
    cases none
  | mem op rt address =>
    cases address with
    | offset => cases h
    | label label =>
      obtain ⟨_, -, none⟩ := map_eq_ok.1 h
      cases none
  | branch op rs rt label =>
    obtain ⟨_, -, none⟩ := map_eq_ok.1 h
    cases none
  | li rd value =>
    rw [expand] at h
    split at h
    next => cases h
    next => cases h
  | _ => cases h

namespace Program

/-- The program was assembled from the statements of the source. It may keep the source. -/
def AssembledFrom (source : String) (p : Program) : Prop :=
  ofSource source = .ok p ∨
    ∃ statements, Statement.parse source = .ok statements ∧ assemble statements none = .ok p

/-- The line ends with 32 binary digits behind `column` characters, and the number that they denote
is decoded as the instruction. -/
structure ShowsWord (column : Nat) (line : List Char) (word : MachineInstr) : Prop where
  length : line.length = column + 32
  decodes : ∃ n, Numeral.Denotes 2 (line.drop column) n ∧
    MachineInstr.decode (.ofNat 32 n) = .ok word

/-- The line begins with the address, in eight hexadecimal digits behind a prefix, two spaces and
the text. Spaces follow up to the column. -/
def BeginsWith (column address : Nat) (text line : List Char) : Prop :=
  ∃ digits blanks, line.take column =
      ('0' :: 'x' :: digits) ++ [' ', ' '] ++ text ++ List.replicate blanks ' ' ∧
    digits.length = 8 ∧ Numeral.Denotes 16 digits address

/-- A block of lines shows the instruction with the given number: its address and its text on the
first line, and a word on each line. -/
structure ShowsInstr (p : Program) (column number : Nat) (words : List MachineInstr)
    (block : List (List Char)) : Prop where
  words : List.Forall₂ (ShowsWord column) block words
  labels : ∃ first others text, block = first :: others ∧ p.instrText? number = some text ∧
    BeginsWith column (4 * number) text.toList first ∧
      ∀ line ∈ others, line.take column = List.replicate column ' '

variable {source : String} {p : Program} {n width : Nat} {slot : Slot}

theorem source_of_assemble {statements : List Statement} {kept : Option String}
    (h : assemble statements kept = .ok p) : p.source = kept := by
  obtain ⟨c, l, -, -, same⟩ := assemble_eq_ok.1 h
  rw [same]

/-- The texts of instructions are on one line, whether they are pieces of the source or not. -/
theorem AssembledFrom.exists_slotText (h : p.AssembledFrom source) (hn : p.slots[n]? = some slot) :
    ∃ text, p.slotText? slot = some text ∧ '\n' ∉ text.toList := by
  rcases h with kept | ⟨statements, parsed, assembled⟩
  · obtain ⟨statements, parsed, assembled⟩ := ofSource_eq_ok.1 kept
    obtain ⟨tokens, lexes, stand⟩ := Statement.standsIn_of_parse parsed
    obtain ⟨s, inside, instr, place⟩ := exists_statement_of_slot assembled hn
    obtain ⟨text, -, found, level, -⟩ := (stand s inside).exists_text lexes instr
    refine ⟨text, ?_, level⟩
    rw [slotText?, source_of_assemble assembled, ← place]
    exact found
  · obtain ⟨full, trailing, rfl, named, -⟩ := Statement.named_of_parse parsed
    obtain ⟨s, inside, instr, -⟩ := exists_statement_of_slot assembled hn
    have names := (named s inside).nucleus
    rw [instr] at names
    refine ⟨slot.instr.text, ?_, Instr.newline_not_mem_text names⟩
    rw [slotText?, source_of_assemble assembled]

theorem AssembledFrom.words_ne_nil (h : p.AssembledFrom source) (hn : p.slots[n]? = some slot) :
    slot.words ≠ [] := by
  rcases h with kept | ⟨statements, -, assembled⟩
  · obtain ⟨statements, -, assembled⟩ := ofSource_eq_ok.1 kept
    exact Instr.expand_ne_nil (expand_of_assemble assembled hn)
  · exact Instr.expand_ne_nil (expand_of_assemble assembled hn)

theorem le_foldl_max {α : Type} (f : α → Nat) (list : List α) (least : Nat) :
    least ≤ list.foldl (fun width a => max width (f a)) least ∧
      ∀ a ∈ list, f a ≤ list.foldl (fun width a => max width (f a)) least := by
  induction list generalizing least with
  | nil => exact ⟨Nat.le_refl least, nofun⟩
  | cons a list ih =>
    obtain ⟨start, others⟩ := ih (max least (f a))
    exact ⟨Nat.le_trans (Nat.le_max_left ..) start,
      List.forall_mem_cons.2 ⟨Nat.le_trans (Nat.le_max_right ..) start, others⟩⟩

theorem heading_le_textWidth (p : Program) : textHeading.toList.length ≤ p.textWidth := by
  rw [textWidth, ← Array.foldl_toList]
  exact (le_foldl_max _ p.slots.toList textHeading.utf8ByteSize).1

/-- The bytes of a text are at least as many as its characters. -/
theorem length_le_textWidth (hn : p.slots[n]? = some slot) {text : String}
    (found : p.slotText? slot = some text) : text.toList.length ≤ p.textWidth := by
  have member : slot ∈ p.slots.toList := Array.mem_toList_iff.2 (Array.mem_of_getElem? hn)
  have bytes := (le_foldl_max (fun slot => ((p.slotText? slot).map String.utf8ByteSize).getD 0)
    p.slots.toList textHeading.utf8ByteSize).2 slot member
  rw [found, Option.map_some, Option.getD_some, Array.foldl_toList] at bytes
  calc text.toList.length ≤ byteLength text.toList := length_le_byteLength _
    _ = text.utf8ByteSize := byteLength_toList text
    _ ≤ p.textWidth := bytes

def front (width : Nat) (address text : String) : List Char :=
  (padRight 10 address).toList ++ [' ', ' '] ++ (padRight width text).toList ++ [' ', ' ']

theorem toList_listingLine (width : Nat) (address text code : String) :
    (listingLine width address text code).toList =
      front width address text ++ code.toList ++ ['\n'] := by
  rw [listingLine, front]
  simp only [String.toList_append, List.append_assoc]
  rfl

theorem length_front {address text : String} (short : address.toList.length ≤ 10)
    (fits : text.toList.length ≤ width) : (front width address text).length = width + 14 := by
  simp only [front, toList_padRight, List.length_append, List.length_replicate, List.length_cons,
    List.length_nil]
  omega

theorem newline_not_mem_front {address text : String} (first : '\n' ∉ address.toList)
    (second : '\n' ∉ text.toList) : '\n' ∉ front width address text := by
  simp [front, toList_padRight, first, second]

/-- A line without the newline at its end. -/
def row (line : String) : List Char :=
  line.toList.dropLast

/-- The line is ended by its only newline. -/
def IsLine (line : String) : Prop :=
  line.toList = row line ++ ['\n'] ∧ '\n' ∉ row line

theorem row_listingLine (width : Nat) (address text code : String) :
    row (listingLine width address text code) = front width address text ++ code.toList := by
  rw [row, toList_listingLine, List.dropLast_concat]

theorem isLine_listingLine {address text code : String} (first : '\n' ∉ address.toList)
    (second : '\n' ∉ text.toList) (third : '\n' ∉ code.toList) :
    IsLine (listingLine width address text code) := by
  rw [IsLine, row_listingLine, toList_listingLine, List.mem_append, not_or]
  exact ⟨rfl, newline_not_mem_front first second, third⟩

theorem splitOn_lines {lines : List String} (all : ∀ line ∈ lines, IsLine line) :
    (lines.flatMap String.toList).splitOn '\n' = lines.map row ++ [[]] := by
  induction lines with
  | nil => rfl
  | cons line lines ih =>
    obtain ⟨⟨ends, level⟩, others⟩ := List.forall_mem_cons.1 all
    rw [List.flatMap_cons, ends, List.append_assoc, List.singleton_append,
      List.splitOn_append_cons_self_of_not_mem level, ih others, List.map_cons, List.cons_append]

theorem showsWord_row {address text : String} (short : address.toList.length ≤ 10)
    (fits : text.toList.length ≤ width) (word : MachineInstr) : ShowsWord (width + 14)
      (row (listingLine width address text word.encode.bitsText)) word := by
  have front := length_front short fits
  rw [row_listingLine]
  constructor
  case length => rw [List.length_append, front, Word.length_bitsText]
  case decodes =>
    refine ⟨word.encode.toNat, ?_, ?_⟩
    · rw [List.drop_left' front]
      exact word.encode.denotes_bitsText
    · rw [BitVec.ofNat_toNat, BitVec.setWidth_eq, MachineInstr.decode_encode]

theorem take_row {address text code : String} (short : address.toList.length ≤ 10)
    (fits : text.toList.length ≤ width) :
    (row (listingLine width address text code)).take (width + 14) = front width address text := by
  rw [row_listingLine, List.take_left' (length_front short fits)]

theorem front_blank (width : Nat) : front width "" "" = List.replicate (width + 14) ' ' := by
  refine List.eq_replicate_iff.2 ⟨length_front (by decide) (Nat.zero_le _), fun c member => ?_⟩
  simp only [front, toList_padRight, String.toList_empty, List.nil_append, List.mem_append,
    List.mem_replicate, List.mem_cons, List.not_mem_nil, or_false, or_self] at member
  tauto

def slotRows (p : Program) (number : Nat) (slot : Slot) : List (List Char) :=
  let text := (p.slotText? slot).getD ""
  (slotLines p.textWidth (Layout.slotAddress number) text slot.words).map row

theorem length_addressText_le (w : Word) : w.addressText.toList.length ≤ 10 := by
  obtain ⟨digits, same, length, -⟩ := w.exists_addressText
  rw [same, List.length_cons, List.length_cons, length]

theorem isLine_of_mem_slotLines {address : Word} {text : String} (level : '\n' ∉ text.toList)
    {words : List MachineInstr} : ∀ line ∈ slotLines width address text words, IsLine line := by
  have code : ∀ word : MachineInstr, '\n' ∉ word.encode.bitsText.toList :=
    fun word => word.encode.denotes_bitsText.newline_not_mem (by decide)
  have place : '\n' ∉ address.addressText.toList := by
    obtain ⟨digits, same, -, denotes⟩ := address.exists_addressText
    rw [same]
    simp [denotes.newline_not_mem (by decide)]
  cases words with
  | nil => nofun
  | cons word words =>
    rw [slotLines, List.forall_mem_cons, List.forall_mem_map]
    exact ⟨isLine_listingLine place level (code word), fun word _ =>
      isLine_listingLine (List.not_mem_nil) (List.not_mem_nil) (code word)⟩

theorem showsInstr_slotRows (h : p.AssembledFrom source) (few : n < 2 ^ 30)
    (hn : p.slots[n]? = some slot) :
    ShowsInstr p (p.textWidth + 14) n slot.words (p.slotRows n slot) := by
  obtain ⟨text, found, -⟩ := h.exists_slotText hn
  obtain ⟨word, words, same⟩ := List.exists_cons_of_ne_nil (h.words_ne_nil hn)
  obtain ⟨digits, address, length, denotes⟩ := (Layout.slotAddress n).exists_addressText
  have short := length_addressText_le (Layout.slotAddress n)
  have fits := length_le_textWidth hn found
  have none : "".toList.length ≤ p.textWidth := Nat.zero_le _
  rw [slotAddress_eq, toNat_slotAddress few] at denotes
  rw [slotRows, found, same, Option.getD_some, slotLines, List.map_cons, List.map_map]
  constructor
  case words =>
    refine .cons (showsWord_row short fits word) ?_
    rw [List.forall₂_map_left_iff, List.forall₂_same]
    exact fun word _ => showsWord_row (by decide) none word
  case labels =>
    refine ⟨_, _, text, rfl, ?_,
      ⟨digits, p.textWidth - text.toList.length + 2, ?_, length, denotes⟩,
      List.forall_mem_map.2 fun word _ => ?_⟩
    · rw [instrText?, hn, Option.bind_some, found]
    · rw [take_row short fits, front, toList_padRight, toList_padRight, address]
      simp [length, List.replicate_add]
    · rw [Function.comp_apply, take_row (by decide) none, front_blank]

theorem getElem?_of_mem_zipIdx (h : (slot, n) ∈ p.slots.toList.zipIdx) :
    p.slots[n]? = some slot := by
  rw [← Array.getElem?_toList]
  exact List.mk_mem_zipIdx_iff_getElem?.1 h

/-- The heading and the lines of all slots, one after another, are the lines of a listing. -/
theorem splitOn_listing (h : p.AssembledFrom source) : p.listing.toList.splitOn '\n' =
    row (listingLine p.textWidth "Address" textHeading "Machine code") ::
      ((p.slots.toList.zipIdx.map fun (slot, number) => p.slotRows number slot).flatten ++
        [[]]) := by
  have slots : ∀ line ∈ p.codeLines, IsLine line := by
    intro line member
    obtain ⟨⟨slot, number⟩, inside, here⟩ := List.mem_flatMap.1 member
    obtain ⟨text, found, level⟩ := h.exists_slotText (getElem?_of_mem_zipIdx inside)
    dsimp only at here
    rw [found, Option.getD_some] at here
    exact isLine_of_mem_slotLines level line here
  have heading : IsLine (listingLine p.textWidth "Address" textHeading "Machine code") :=
    isLine_listingLine (by decide) (by decide) (by decide)
  have whole : p.listing.toList =
      (listingLine p.textWidth "Address" textHeading "Machine code" :: p.codeLines).flatMap
        String.toList := by
    rw [listing, String.toList_append, String.toList_join, List.flatMap_cons]
  rw [whole, splitOn_lines (List.forall_mem_cons.2 ⟨heading, slots⟩), List.map_cons, codeLines,
    List.map_flatMap, List.flatMap_def]
  rfl

/-- A listing has a heading and a line for each machine word, with the machine code behind the same
number of characters. Read as binary numbers and decoded, the machine code is that of the slots in
their order, and the lines of a slot show its address and its text. -/
theorem listing_shows_code (h : p.AssembledFrom source) (few : p.size < 2 ^ 30) :
    ∃ (heading : List Char) (blocks : List (List (List Char))) (column : Nat),
      p.listing.toList.splitOn '\n' = heading :: (blocks.flatten ++ [[]]) ∧
      heading.drop column = "Machine code".toList ∧
      List.Forall₂ (ShowsWord column) blocks.flatten (p.slots.toList.flatMap Slot.words) ∧
      blocks.length = p.size ∧
      ∀ (number : Nat) (slot : Slot), p.slots[number]? = some slot →
        ∃ block, blocks[number]? = some block ∧ p.ShowsInstr column number slot.words block := by
  have shows : ∀ (number : Nat) (slot : Slot), p.slots[number]? = some slot →
      p.ShowsInstr (p.textWidth + 14) number slot.words (p.slotRows number slot) := by
    intro number slot hn
    have inside : number < p.size := (Array.getElem?_eq_some_iff.1 hn).1
    exact showsInstr_slotRows h (Nat.lt_trans inside few) hn
  refine ⟨_, _, p.textWidth + 14, splitOn_listing h, ?_, ?_, ?_, fun number slot hn => ?_⟩
  · rw [row_listingLine, List.drop_left' (length_front (by decide) p.heading_le_textWidth)]
  · have slots : p.slots.toList.flatMap Slot.words =
        (p.slots.toList.zipIdx.map fun z => z.1.words).flatten := calc
      _ = (p.slots.toList.zipIdx.map Prod.fst).flatMap Slot.words := by rw [List.zipIdx_map_fst]
      _ = _ := by rw [List.flatMap_def, List.map_map]; rfl
    rw [slots]
    refine List.rel_flatten ?_
    rw [List.forall₂_map_left_iff, List.forall₂_map_right_iff, List.forall₂_same]
    rintro ⟨slot, number⟩ inside
    exact (shows number slot (getElem?_of_mem_zipIdx inside)).words
  · rw [List.length_map, List.length_zipIdx, Array.length_toList, size]
  · refine ⟨p.slotRows number slot, ?_, shows number slot hn⟩
    rw [List.getElem?_map, List.getElem?_zipIdx, Array.getElem?_toList, hn, Option.map_some,
      Option.map_some, Nat.zero_add]

def greek : String :=
  "aπ: li $t0, 70000 # é\nj aπ"

def greekStatements : List Statement :=
  [⟨[⟨"aπ", 0⟩], .instr (.li ⟨8⟩ 70000), ⟨5, 18⟩⟩,
    ⟨[], .instr (.jump .j ⟨"aπ", 26⟩), ⟨24, 29⟩⟩]

def greekListing : String :=
  "Address     Instruction    Machine code\n" ++
  "0x00000000  li $t0, 70000  00111100000010000000000000000001\n" ++
  "                           00110101000010000001000101110000\n" ++
  "0x00000004  j aπ           00001000000000000000000000000000\n"

theorem listing_shows_code_greek : ∃ p : Program, p.AssembledFrom greek ∧ p.size < 2 ^ 30 ∧
    p.listing = greekListing ∧ ∃ (blocks : List (List (List Char))) (column : Nat),
      List.Forall₂ (ShowsWord column) blocks.flatten
        [.lui ⟨8⟩ 1, .imm .ori ⟨8⟩ ⟨8⟩ 0x1170, .jump .j 0] ∧
      ∃ line, blocks[1]? = some [line] ∧ BeginsWith column 4 "j aπ".toList line := by
  have parsed : Statement.parse greek = .ok greekStatements := by decide +kernel
  have assembled : assemble greekStatements (some greek) = .ok _ := rfl
  have accepted := ofSource_eq_ok.2 ⟨_, parsed, assembled⟩
  obtain ⟨heading, blocks, column, -, -, code, -, shows⟩ :=
    listing_shows_code (.inl accepted) (by decide)
  obtain ⟨block, found, words, first, others, text, rfl, shown, begins, -⟩ := shows 1 _ rfl
  cases words with
  | cons _ none =>
    cases none
    have text' : Text.slice? greek 24 29 = some "j aπ" := by decide +kernel
    cases text'.symm.trans shown
    exact ⟨_, .inl accepted, by decide, by decide +kernel, blocks, column, code, first, found,
      begins⟩

end Program

end Mips
