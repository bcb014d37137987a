import PrefixMatching.Proofs.Header.Items

/-!
# The header on a line

A line is a header if it begins with a name and a colon. The value is what follows the colon,
without the spaces and tabs before it and without the spaces, tabs and line ends after it
(`ofLine?_eq_some_iff`). All other bytes of the value are kept, whatever they are.

So a header can be written down with any spaces around its value and is read back
(`Spelling.ofLine?_text`).
-/

namespace PrefixMatching
namespace Header

open Reading (text)

variable {s line name tail : Bytes} {header : Header}

/-! ## Bytes of a header -/

/-- Whether a byte belongs to a name: a letter, a digit or one of some marks. -/
def isNameByte (b : UInt8) : Bool :=
  (0x61 ≤ b && b ≤ 0x7A) || (0x41 ≤ b && b ≤ 0x5A) || (0x30 ≤ b && b ≤ 0x39) ||
    (ascii "!#$%&'*+-.^_`|~").contains b

/-- Whether a byte is dropped from the end of a value: a space, a tab or part of a line end. -/
def isEndByte (b : UInt8) : Bool := (ascii " \t\r\n").contains b

/-- A name is not empty and holds nothing but its bytes. -/
def IsName (s : Bytes) : Prop := s ≠ [] ∧ ∀ b ∈ s, isNameByte b = true

instance : DecidablePred IsName := fun s =>
  decidable_of_iff (s ≠ [] ∧ s.all isNameByte = true) (by simp [IsName])

/-- The value that follows a colon. -/
def valueOf (tail : Bytes) : Bytes := (tail.dropWhile isSpaceByte).rdropWhile isEndByte

theorem isOneOf_toNat (bytes : Bytes) (b : UInt8) :
    Element.isOneOf bytes b.toNat = bytes.contains b := by
  rw [Element.isOneOf, List.contains_eq_any_beq]
  refine congrArg bytes.any (funext fun x => ?_)
  rw [Element.decide_toNat_eq, Bool.beq_comm]
  rfl

theorem isBetween_toNat (low high b : UInt8) :
    Element.isBetween low.toNat high.toNat b.toNat = (low ≤ b && b ≤ high) := by
  simp [Element.isBetween, UInt8.le_iff_toNat_le]

theorem isNameElement_toNat (b : UInt8) : isNameElement b.toNat = isNameByte b := by
  have hlower : Element.isLower b.toNat = (0x61 ≤ b && b ≤ 0x7A) := isBetween_toNat 0x61 0x7A b
  have hupper : Element.isUpper b.toNat = (0x41 ≤ b && b ≤ 0x5A) := isBetween_toNat 0x41 0x5A b
  have hdigit : Element.isDigit b.toNat = (0x30 ≤ b && b ≤ 0x39) := isBetween_toNat 0x30 0x39 b
  rw [isNameElement, Element.isLetter, hlower, hupper, hdigit, isOneOf_toNat, isNameByte]

theorem trimmed_eq (s : Bytes) : trimmed s = s.rdropWhile isEndByte := by
  have hsame : isTrailing = isEndByte := funext fun b => isOneOf_toNat _ b
  rw [trimmed, hsame, List.rdropWhile]

theorem not_isNameByte_colon : ¬ isNameByte 0x3A = true := by decide

/-! ## Name and colon -/

/-- A colon is taken with the spaces after it. -/
theorem colon_cons (htail : tail.length < UInt64.size) :
    colon (0x3A :: tail) =
      .ok (some (tail.takeWhile isSpaceByte)) (tail.dropWhile isSpaceByte) := by
  have hliteral : text.literal (ascii ":") .whole (0x3A :: tail) = .ok (some [0x3A]) tail :=
    Reading.literal_byte_cons (by decide)
  rw [colon, hliteral]
  exact outcome_takeWhile_isSpace htail

/-- Where another byte stands, or none, there is no colon. -/
theorem colon_of_head (h : s.head? ≠ some 0x3A) : colon s = .failed := by
  have hliteral : text.literal (ascii ":") .whole s = .failed := by
    cases s with
    | nil => exact Reading.literal_byte_nil
    | cons b s => exact Reading.literal_byte_of_ne fun heq => h (congrArg some heq)
  rw [colon, hliteral]
  rfl

/-- The name of a line is the run at its front. -/
theorem name_eq (hline : line.length < UInt64.size) :
    (text.takeAtLeast 1 isNameElement line).outcome =
      if line.takeWhile isNameByte = [] then .failed
      else .ok (some (line.takeWhile isNameByte)) (line.dropWhile isNameByte) := by
  rw [Reading.outcome_takeAtLeast_one Element.isUniform_isNameElement.decidesByUnit hline]
  simp only [isNameElement_toNat]

/-- A line that begins with a name and a colon is a header. -/
theorem ofLine?_of_isName (hname : IsName name)
    (hfits : (name ++ 0x3A :: tail).length < UInt64.size) :
    ofLine? (name ++ 0x3A :: tail) = some ⟨name, valueOf tail⟩ := by
  have htake : (name ++ 0x3A :: tail).takeWhile isNameByte = name := by
    rw [List.takeWhile_append_of_pos hname.2, List.takeWhile_cons_of_neg not_isNameByte_colon,
      List.append_nil]
  have hdrop : (name ++ 0x3A :: tail).dropWhile isNameByte = 0x3A :: tail := by
    rw [List.dropWhile_append_of_pos hname.2, List.dropWhile_cons_of_neg not_isNameByte_colon]
  have htail : tail.length < UInt64.size := by
    rw [List.length_append, List.length_cons] at hfits
    omega
  rw [ofLine?, named, name_eq hfits, htake, hdrop, if_neg hname.1]
  simp only [Match.skipping, colon_cons htail, pure, bind, trimmed_eq, valueOf]

/-- Every header begins with its name and a colon, and has the value that follows. -/
theorem exists_of_ofLine?_eq_some (hline : line.length < UInt64.size)
    (h : ofLine? line = some header) :
    IsName header.name ∧
      ∃ tail, line = header.name ++ 0x3A :: tail ∧ header.value = valueOf tail := by
  have hparts := List.takeWhile_append_dropWhile (p := isNameByte) (l := line)
  rw [ofLine?, named, name_eq hline] at h
  by_cases hempty : line.takeWhile isNameByte = []
  · rw [if_pos hempty] at h
    cases h
  · rw [if_neg hempty] at h
    by_cases hcolon : (line.dropWhile isNameByte).head? = some 0x3A
    · obtain ⟨tail, htail⟩ := List.head?_eq_some_iff.mp hcolon
      have hfits : tail.length < UInt64.size := by
        have hrest : (line.dropWhile isNameByte).length < UInt64.size := length_dropWhile_lt hline
        rw [htail, List.length_cons] at hrest
        omega
      rw [htail] at h hparts
      simp only [Match.skipping, colon_cons hfits, pure, bind, Option.some.injEq] at h
      subst h
      exact ⟨⟨hempty, fun b hb => List.mem_takeWhile_imp hb⟩, tail, hparts.symm, trimmed_eq _⟩
    · simp only [Match.skipping, colon_of_head hcolon, pure, bind] at h
      cases h

/-- A line is a header exactly if it begins with the name of the header and a colon, and the value
of the header follows. -/
theorem ofLine?_eq_some_iff (hline : line.length < UInt64.size) :
    ofLine? line = some header ↔
      IsName header.name ∧
        ∃ tail, line = header.name ++ 0x3A :: tail ∧ header.value = valueOf tail := by
  refine ⟨exists_of_ofLine?_eq_some hline, ?_⟩
  rintro ⟨hname, tail, rfl, hvalue⟩
  rw [ofLine?_of_isName hname hline, ← hvalue]

/-! ## Writing a header down -/

/-- Whether a value is the same without the spaces and line ends around it: it does not begin with a
space or a tab and does not end with a space, a tab or part of a line end. -/
def IsTrimmed (value : Bytes) : Prop :=
  (∀ b ∈ value.head?, isSpaceByte b = false) ∧ ∀ b ∈ value.getLast?, isEndByte b = false

/-- A header as it can stand on a line, with spaces before its value and line ends after it. -/
structure Spelling where
  header : Header
  before : Bytes
  after : Bytes
  isName : IsName header.name
  before_spaces : ∀ b ∈ before, isSpaceByte b = true
  isTrimmed : IsTrimmed header.value
  after_ends : ∀ b ∈ after, isEndByte b = true

namespace Spelling

/-- The line that a header is written on. -/
def text (spelling : Spelling) : Bytes :=
  spelling.header.name ++ ascii ":" ++ spelling.before ++ spelling.header.value ++ spelling.after

/-- The value is what is left without the spaces and line ends. -/
theorem valueOf_eq (spelling : Spelling) :
    valueOf (spelling.before ++ (spelling.header.value ++ spelling.after)) =
      spelling.header.value := by
  obtain ⟨hhead, hlast⟩ := spelling.isTrimmed
  rw [valueOf, List.dropWhile_append_of_pos spelling.before_spaces]
  cases hvalue : spelling.header.value with
  | nil =>
    -- nothing but dropped bytes is left
    rw [List.nil_append, List.rdropWhile_eq_nil_iff]
    exact fun b hb => spelling.after_ends b ((List.dropWhile_sublist _).mem hb)
  | cons b value =>
    have hb : ¬ isSpaceByte b = true := by
      rw [hvalue] at hhead
      simp [hhead b rfl]
    rw [List.cons_append, List.dropWhile_cons_of_neg hb, ← List.cons_append,
      rdropWhile_append_of_pos spelling.after_ends, List.rdropWhile_eq_self_iff]
    intro hne
    rw [hvalue] at hlast
    simp [hlast _ (List.getLast?_eq_some_getLast hne)]

/-- A header that is written on a line is read back. -/
theorem ofLine?_text (spelling : Spelling) (hfits : spelling.text.length < UInt64.size) :
    ofLine? spelling.text = some spelling.header := by
  have htext : spelling.text = spelling.header.name ++
      0x3A :: (spelling.before ++ (spelling.header.value ++ spelling.after)) := by
    have hcolon : ascii ":" = [0x3A] := rfl
    simp [text, hcolon]
  rw [htext] at hfits ⊢
  rw [ofLine?_of_isName spelling.isName hfits, spelling.valueOf_eq]

end Spelling

/-- The value of a header needs no trimming. -/
theorem isTrimmed_valueOf (tail : Bytes) : IsTrimmed (valueOf tail) := by
  constructor
  · intro b hb
    -- the value begins where the line begins behind the spaces
    obtain ⟨more, hmore⟩ : valueOf tail <+: tail.dropWhile isSpaceByte := List.rdropWhile_prefix _ _
    obtain ⟨rest, hrest⟩ := List.head?_eq_some_iff.mp hb
    apply eq_false_of_mem_head?_dropWhile isSpaceByte tail b
    rw [← hmore, hrest]
    rfl
  · exact eq_false_of_mem_getLast?_rdropWhile isEndByte (tail.dropWhile isSpaceByte)

/-- A header as it is usually written. -/
def render (header : Header) : Bytes := header.name ++ ascii ": " ++ header.value

/-- A header line is a name, a colon and a value.

* A line is read as a header exactly if it begins with the name of the header, which is not empty
  and holds letters, digits and marks only, and a colon. The value is what follows without the
  spaces and tabs before it and without the spaces, tabs and line ends after it.
* A header is read back with any spaces and tabs before its value and any spaces, tabs and line
  ends after it.
* So a header that was read is read again from its usual spelling. -/
theorem header_lines_are_name_and_value :
    (∀ (line : Bytes) (header : Header), line.length < 2 ^ 64 →
      (ofLine? line = some header ↔
        IsName header.name ∧ ∃ tail, line = header.name ++ ascii ":" ++ tail ∧
          header.value = (tail.dropWhile isSpaceByte).rdropWhile isEndByte)) ∧
    (∀ line : Bytes, line.length < 2 ^ 64 →
      ((ofLine? line).isSome ↔ ∃ name tail, IsName name ∧ line = name ++ ascii ":" ++ tail)) ∧
    (∀ spelling : Spelling, spelling.text.length < 2 ^ 64 →
      ofLine? spelling.text = some spelling.header) ∧
    ∀ (line : Bytes) (header : Header), line.length < 2 ^ 64 → ofLine? line = some header →
      (render header).length < 2 ^ 64 → ofLine? (render header) = some header := by
  have hsize : UInt64.size = 2 ^ 64 := rfl
  have hcolon : ∀ name tail : Bytes, name ++ ascii ":" ++ tail = name ++ 0x3A :: tail := by
    intro name tail
    exact List.append_assoc _ _ _
  refine ⟨fun line header hline => ?_, fun line hline => ?_, fun spelling hfits => ?_,
    fun line header hline h hfits => ?_⟩
  · simp only [hcolon]
    exact ofLine?_eq_some_iff (hsize ▸ hline)
  · rw [Option.isSome_iff_exists]
    constructor
    · rintro ⟨header, h⟩
      obtain ⟨hname, tail, hparts, -⟩ := exists_of_ofLine?_eq_some (hsize ▸ hline) h
      exact ⟨header.name, tail, hname, by rw [hcolon, hparts]⟩
    · rintro ⟨name, tail, hname, rfl⟩
      rw [hcolon] at hline ⊢
      exact ⟨_, ofLine?_of_isName hname (hsize ▸ hline)⟩
  · exact spelling.ofLine?_text (hsize ▸ hfits)
  · obtain ⟨hname, tail, -, hvalue⟩ := exists_of_ofLine?_eq_some (hsize ▸ hline) h
    have hspaces : ∀ b ∈ ascii " ", isSpaceByte b = true := List.all_eq_true.mp (by decide)
    have htrimmed : IsTrimmed header.value := hvalue ▸ isTrimmed_valueOf tail
    let spelling : Spelling := ⟨header, ascii " ", [], hname, hspaces, htrimmed, nofun⟩
    have htext : spelling.text = render header := by
      have hblank : ascii ": " = ascii ":" ++ ascii " " := rfl
      simp [Spelling.text, render, spelling, hblank]
    rw [← htext] at hfits ⊢
    exact spelling.ofLine?_text (hsize ▸ hfits)

/-- A value that begins with malformed bytes is read, with spaces and a line end around it and
again from its usual spelling. A line without a name is no header. -/
theorem header_lines_are_name_and_value_malformed :
    let line : Bytes := [0x41, 0x3A, 0x09, 0xE2, 0x82, 0x20, 0x62, 0x20, 0x0D, 0x0A]
    let header : Header := ⟨[0x41], [0xE2, 0x82, 0x20, 0x62]⟩
    (line.length < 2 ^ 64 ∧ ofLine? line = some header) ∧
    ((render header).length < 2 ^ 64 ∧ ofLine? (render header) = some header) ∧
    (∃ spelling : Spelling, spelling.text = line ∧ spelling.text.length < 2 ^ 64 ∧
      ofLine? spelling.text = some header) ∧
    ¬ (ofLine? [0x3A, 0x62]).isSome := by
  intro line header
  obtain ⟨hlines, hsome, hspellings, hagain⟩ := header_lines_are_name_and_value
  have hfits : line.length < 2 ^ 64 := by decide
  have hline : ofLine? line = some header :=
    (hlines line header hfits).mpr ⟨by decide, _, rfl, by decide⟩
  have htrimmed : IsTrimmed header.value := by
    constructor
    · rintro b ⟨⟩
      rfl
    · rintro b ⟨⟩
      rfl
  let spelling : Spelling := ⟨header, [0x09], [0x20, 0x0D, 0x0A], by decide,
    List.all_eq_true.mp (by decide), htrimmed, List.all_eq_true.mp (by decide)⟩
  refine ⟨⟨hfits, hline⟩, ⟨by decide, hagain line header hfits hline (by decide)⟩,
    ⟨spelling, rfl, hfits, hspellings spelling hfits⟩, ?_⟩
  rw [hsome _ (by decide)]
  rintro ⟨name, tail, hname, hparts⟩
  -- a name would begin with the colon
  obtain ⟨b, more, rfl⟩ := List.exists_cons_of_ne_nil hname.1
  have hcolon : isNameByte 0x3A = true := by
    rw [(List.cons.inj hparts).1]
    exact hname.2 b List.mem_cons_self
  exact not_isNameByte_colon hcolon

end Header
end PrefixMatching
