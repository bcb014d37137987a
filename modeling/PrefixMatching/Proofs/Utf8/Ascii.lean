import Mathlib.Data.List.TakeWhile
import PrefixMatching.Header
import PrefixMatching.Proofs.Utf8.Characters

/-!
# Predicates that know ASCII only

An ASCII byte is read as itself and is never part of a longer character; every other byte is read
as an element past ASCII, and so are the bytes that belong to it. A predicate with one answer for
all elements past ASCII (`Element.IsUniform`) therefore decides byte by byte, and scanning text
for it is scanning bytes for it (`text_scans_as_bytes`), whatever malformed bytes there are.

`DecidesByUnit` states this for any reading. A scan that its limit does not stop takes the longest
run of units that satisfy the predicate (`taken_scan_of_length_le`), which is `List.takeWhile`.
-/

namespace PrefixMatching

/-! ## Bytes past ASCII -/

namespace Utf8

variable {lead : UInt8} {text : Bytes}

/-- An ASCII byte is read as itself. -/
theorem decode_of_lt (h : lead.toNat < 0x80) (text : Bytes) :
    decode lead text = ⟨lead.toNat, 0⟩ := by
  have hone : leadWidth lead = 1 := by
    have := leadWidth_cases lead
    omega
  unfold decode
  rw [hone]
  rfl

/-- Any other byte is read as an element past ASCII. -/
theorem le_element_decode (h : 0x80 ≤ lead.toNat) (text : Bytes) :
    0x80 ≤ (decode lead text).element := by
  rcases decode_eq_malformed_or lead text with hmal | ⟨continuations, rest, rfl, hchar⟩
  · rw [hmal]
    decide
  · have hwidth := hchar.leadWidth_eq
    have hlead := leadWidth_cases lead
    have hshortest := hchar.shortest
    rw [isShortest, Bool.and_eq_true, decide_eq_true_eq] at hshortest
    -- the value needs two, three or four bytes
    have hleast : 0x80 ≤ leastOfWidth (continuations.length + 1) := by
      rw [← hwidth]
      rcases hlead with ⟨_, _⟩ | ⟨_, _⟩ | ⟨hw, _⟩ | ⟨hw, _⟩ | ⟨hw, _⟩
      · omega
      · omega
      all_goals
        rw [hw]
        decide
    rw [decode_append hchar]
    show (0x80 : Int) ≤ (codePoint lead continuations : Nat)
    omega

/-- All further bytes of an element are past ASCII. -/
theorem le_of_mem_take_extra_decode {b : UInt8} (hb : b ∈ text.take (decode lead text).extra) :
    0x80 ≤ b.toNat :=
  (isContinuation_iff.mp (isContinuation_of_mem_take_extra hb)).1

end Utf8

/-! ## Predicates that decide by unit -/

namespace Reading

variable {α : Type} {R : Reading α} {p : Int → Bool} {q : α → Bool} {s : List α}
  {owed limit : Nat}

/-- Bytes read one by one. -/
abbrev bytes : Reading UInt8 := units fun b => b.toNat

/-- A predicate on elements decides as one on units does: it looks at the first unit of an element,
and accepts an element only if all its units are accepted. -/
structure DecidesByUnit (R : Reading α) (p : Int → Bool) (q : α → Bool) : Prop where
  first (unit : α) (rest : List α) : p (R.decode unit rest).element = q unit
  further {unit u : α} {rest : List α} :
    q unit = true → u ∈ rest.take (R.decode unit rest).extra → q u = true

/-- Where every unit is an element, every predicate decides by unit. -/
theorem decidesByUnit_units (value : α → Int) (p : Int → Bool) :
    (units value).DecidesByUnit p fun unit => p (value unit) where
  first _ _ := rfl
  further _ hu := by cases hu

/-- A scan whose limit is not reached takes the units up to the first that is not accepted. -/
theorem taken_scanFrom_of_length_le (h : R.DecidesByUnit p q)
    (howed : ∀ u ∈ s.take owed, q u = true) (hlimit : s.length ≤ limit) :
    (R.scanFrom p owed limit s).taken = s.takeWhile q := by
  induction s generalizing owed limit with
  | nil => rfl
  | cons unit rest ih =>
    rw [List.length_cons] at hlimit
    cases owed with
    | succ owed =>
      have hunit : q unit = true := howed unit (by simp)
      rw [scanFrom, List.takeWhile_cons, if_pos hunit]
      dsimp only
      rw [ih (fun u hu => howed u (List.mem_cons_of_mem _ hu)) (by omega)]
    | zero =>
      obtain ⟨limit, rfl⟩ : ∃ l, limit = l + 1 := ⟨limit - 1, by omega⟩
      rw [scanFrom, List.takeWhile_cons]
      dsimp only
      rw [h.first]
      split
      · rename_i hunit
        -- the further units of an accepted element are accepted as well
        dsimp only
        rw [ih (fun u hu => h.further hunit hu) (by omega)]
      · rfl

theorem taken_scan_of_length_le (h : R.DecidesByUnit p q) (hlimit : s.length ≤ limit) :
    (R.scan p limit s).taken = s.takeWhile q :=
  taken_scanFrom_of_length_le h nofun hlimit

/-- A run of elements is a run of units. -/
theorem outcome_takeWhile_of_length_lt (h : R.DecidesByUnit p q) (hs : s.length < UInt64.size) :
    (R.takeWhile p s).outcome = .ok (some (s.takeWhile q)) (s.dropWhile q) := by
  have htaken : (R.scan p Count.largest s).taken = s.takeWhile q :=
    taken_scan_of_length_le h (Nat.le_sub_one_of_lt hs)
  have hparts : (R.scan p Count.largest s).taken ++ (R.scan p Count.largest s).rest = s :=
    R.taken_append_rest_scanFrom p 0 Count.largest s
  have hrest : (R.scan p Count.largest s).rest = s.dropWhile q := by
    have hboth := hparts.trans (List.takeWhile_append_dropWhile (p := q) (l := s)).symm
    rw [htaken] at hboth
    exact List.append_cancel_left hboth
  show Match.ok (some (R.scan p Count.largest s).taken) (R.scan p Count.largest s).rest = _
  rw [htaken, hrest]

end Reading

/-! ## Scans of the same extent -/

/-- Two scans that accepted the same units and asked about as many elements. -/
structure Scan.SameExtent {α : Type} (a b : Scan α) : Prop where
  taken : a.taken = b.taken
  count : a.count = b.count
  rest : a.rest = b.rest
  asked : a.asked.length = b.asked.length

/-- Two matchers with the same outcome that asked about as many elements. -/
structure Trial.SameExtent {α : Type} (a b : Trial α) : Prop where
  outcome : a.outcome = b.outcome
  asked : a.asked.length = b.asked.length

namespace Scan.SameExtent

variable {α : Type} {a b : Scan α}

theorem trial (h : a.SameExtent b) : a.trial.SameExtent b.trial where
  outcome := by
    show Match.ok (some a.taken) a.rest = .ok (some b.taken) b.rest
    rw [h.taken, h.rest]
  asked := h.asked

theorem trialOf (h : a.SameExtent b) (min : Nat) : (a.trialOf min).SameExtent (b.trialOf min) := by
  unfold Scan.trialOf
  rw [h.count]
  split
  · exact ⟨rfl, h.asked⟩
  · exact h.trial

end Scan.SameExtent

namespace Reading

variable {α : Type} {R R' : Reading α} {p : Int → Bool} {q : α → Bool} {s : List α}

/-- Scans for elements of one unit keep step with each other, up to every limit. -/
theorem sameExtent_scan (h : R.DecidesByUnit p q) (h' : R'.DecidesByUnit p q)
    (hsingle : ∀ unit rest, q unit = true → (R.decode unit rest).extra = 0)
    (hsingle' : ∀ unit rest, q unit = true → (R'.decode unit rest).extra = 0)
    (limit : Nat) (s : List α) : (R.scan p limit s).SameExtent (R'.scan p limit s) := by
  show (R.scanFrom p 0 limit s).SameExtent (R'.scanFrom p 0 limit s)
  induction s generalizing limit with
  | nil => exact ⟨rfl, rfl, rfl, rfl⟩
  | cons unit rest ih =>
    cases limit with
    | zero => exact ⟨rfl, rfl, rfl, rfl⟩
    | succ limit =>
      rw [scanFrom, scanFrom]
      dsimp only
      rw [h.first, h'.first]
      split
      · rename_i hunit
        rw [hsingle unit rest hunit, hsingle' unit rest hunit]
        obtain ⟨htaken, hcount, hrest, hasked⟩ := ih limit
        exact ⟨congrArg (unit :: ·) htaken, congrArg (· + 1) hcount, hrest, congrArg (· + 1) hasked⟩
      · exact ⟨rfl, rfl, rfl, rfl⟩

section Matchers

variable (h : ∀ limit, (R.scan p limit s).SameExtent (R'.scan p limit s))
include h

theorem sameExtent_takeAtLeast (min : Int) :
    (R.takeAtLeast min p s).SameExtent (R'.takeAtLeast min p s) := by
  unfold takeAtLeast
  split
  · exact ⟨rfl, rfl⟩
  · split
    · exact ⟨rfl, rfl⟩
    · exact (h _).trialOf _

theorem sameExtent_takeAtMost (max : Int) :
    (R.takeAtMost max p s).SameExtent (R'.takeAtMost max p s) := by
  unfold takeAtMost
  split
  · exact ⟨rfl, rfl⟩
  · exact (h _).trial

theorem sameExtent_takeBetween (min max : Int) :
    (R.takeBetween min max p s).SameExtent (R'.takeBetween min max p s) := by
  unfold takeBetween
  split
  · split
    · exact ⟨rfl, rfl⟩
    · exact (h _).trialOf _
  · exact ⟨rfl, rfl⟩

end Matchers
end Reading

/-! ## Predicates with one answer past ASCII -/

namespace Element

variable {p : Int → Bool} {answer : Bool}

/-- A predicate that has the same answer for all elements past ASCII. -/
def IsUniform (p : Int → Bool) (answer : Bool) : Prop := ∀ c, 0x80 ≤ c → p c = answer

/-- Of text, such a predicate decides byte by byte. -/
theorem IsUniform.decidesByUnit (hp : IsUniform p answer) :
    Reading.text.DecidesByUnit p fun b => p b.toNat where
  first lead text := by
    show p (Utf8.decode lead text).element = p lead.toNat
    by_cases hlead : lead.toNat < 0x80
    · rw [Utf8.decode_of_lt hlead]
    · have helement := Utf8.le_element_decode (Nat.le_of_not_lt hlead) text
      rw [hp _ helement, hp lead.toNat (by omega)]
  further {lead b text} hlead hb := by
    change b ∈ text.take (Utf8.decode lead text).extra at hb
    have hpast := Utf8.le_of_mem_take_extra_decode hb
    by_cases hascii : lead.toNat < 0x80
    · rw [Utf8.decode_of_lt hascii] at hb
      cases hb
    · rw [hp lead.toNat (by omega)] at hlead
      rw [hp b.toNat (by omega), hlead]

/-- A predicate that accepts ASCII only accepts elements of one byte. -/
theorem IsUniform.extra_eq_zero (hp : IsUniform p false) {lead : UInt8} {text : Bytes}
    (h : p lead.toNat = true) : (Reading.text.decode lead text).extra = 0 := by
  by_cases hlead : lead.toNat < 0x80
  · show (Utf8.decode lead text).extra = 0
    rw [Utf8.decode_of_lt hlead]
  · rw [hp lead.toNat (by omega)] at h
    cases h

/-! ### The classes that scanners ask for -/

theorem isUniform_not (hp : IsUniform p answer) : IsUniform (fun c => !p c) !answer :=
  fun c hc => congrArg (!·) (hp c hc)

theorem isUniform_isBetween (low : Int) {high : Int} (hhigh : high < 0x80) :
    IsUniform (isBetween low high) false := by
  intro c hc
  simp only [isBetween, Bool.and_eq_false_imp, decide_eq_true_eq, decide_eq_false_iff_not]
  omega

theorem isUniform_or {p' : Int → Bool} (hp : IsUniform p false) (hp' : IsUniform p' false) :
    IsUniform (fun c => p c || p' c) false := by
  intro c hc
  dsimp only
  rw [hp c hc, hp' c hc]
  rfl

theorem isUniform_isOneOf {marks : Bytes} (hmarks : marks.all (fun b => b.toNat < 0x80) = true) :
    IsUniform (isOneOf marks) false := by
  intro c hc
  rw [isOneOf, List.any_eq_false]
  intro b hb
  have := of_decide_eq_true (List.all_eq_true.mp hmarks b hb)
  rw [decide_eq_true_eq]
  omega

theorem isUniform_isDigit : IsUniform isDigit false := isUniform_isBetween _ (by decide)

theorem isUniform_isHexDigit : IsUniform isHexDigit false :=
  isUniform_or (isUniform_or isUniform_isDigit (isUniform_isBetween _ (by decide)))
    (isUniform_isBetween _ (by decide))

theorem isUniform_isSpace : IsUniform isSpace false := by
  intro c hc
  simp only [isSpace, Bool.or_eq_false_iff, decide_eq_false_iff_not]
  omega

theorem isUniform_isBlank : IsUniform isBlank false := by
  intro c hc
  simp only [isBlank, isUniform_isSpace c hc, Bool.false_or, decide_eq_false_iff_not]
  omega

theorem isUniform_isLineFeed : IsUniform isLineFeed false := by
  intro c hc
  simp only [isLineFeed, decide_eq_false_iff_not]
  omega

theorem isUniform_isNameElement : IsUniform Header.isNameElement false :=
  isUniform_or (isUniform_or (isUniform_or (isUniform_isBetween _ (by decide))
    (isUniform_isBetween _ (by decide))) isUniform_isDigit) (isUniform_isOneOf (by decide))

theorem isUniform_isItemElement : IsUniform Header.isItemElement true := by
  intro c hc
  have hcomma : c ≠ ofChar ',' := by
    have : ofChar ',' = 0x2C := rfl
    omega
  rw [Header.isItemElement, isUniform_isSpace c hc, decide_eq_true hcomma]
  rfl

end Element

namespace Reading

/-- Scanning text for a predicate with one answer past ASCII is scanning bytes for it, whatever the
bytes are.

* A run of elements ends at the same offset. (As many elements as a run may have fit into 64 bits,
  and so does the length of a text.)
* If that answer is no, all counted scans have the same outcome and ask about as many elements.
* The predicates that headers, values, lines, tokens and options are scanned for are such. -/
theorem text_scans_as_bytes (s : Bytes) (p : Int → Bool) (answer : Bool)
    (hp : Element.IsUniform p answer) :
    (s.length < UInt64.size → (text.takeWhile p s).outcome = (bytes.takeWhile p s).outcome) ∧
    (answer = false →
      (text.takeWhile p s).SameExtent (bytes.takeWhile p s) ∧
      (∀ min, (text.takeAtLeast min p s).SameExtent (bytes.takeAtLeast min p s)) ∧
      (∀ max, (text.takeAtMost max p s).SameExtent (bytes.takeAtMost max p s)) ∧
      (∀ min max, (text.takeBetween min max p s).SameExtent (bytes.takeBetween min max p s)) ∧
      ∀ n, (text.takeExactly n p s).SameExtent (bytes.takeExactly n p s)) ∧
    ∀ used ∈ [Header.isNameElement, Header.isItemElement, Element.isSpace, Element.isDigit,
        Element.isHexDigit, Element.isBlank, fun c => !Element.isBlank c,
        fun c => !Element.isLineFeed c],
      ∃ answer, Element.IsUniform used answer := by
  have htext := hp.decidesByUnit
  have hbytes := decidesByUnit_units (fun b : UInt8 => (b.toNat : Int)) p
  refine ⟨fun hs => ?_, ?_, ?_⟩
  · rw [outcome_takeWhile_of_length_lt htext hs, outcome_takeWhile_of_length_lt hbytes hs]
  · rintro rfl
    have hscan := fun limit => sameExtent_scan htext hbytes
      (fun _ _ h => hp.extra_eq_zero h) (fun _ _ _ => rfl) limit s
    exact ⟨(hscan _).trial, sameExtent_takeAtLeast hscan, sameExtent_takeAtMost hscan,
      sameExtent_takeBetween hscan, fun n => sameExtent_takeBetween hscan n n⟩
  · open Element in
    simp only [List.forall_mem_cons, List.not_mem_nil, false_implies, implies_true, and_true]
    exact ⟨⟨_, isUniform_isNameElement⟩, ⟨_, isUniform_isItemElement⟩, ⟨_, isUniform_isSpace⟩,
      ⟨_, isUniform_isDigit⟩, ⟨_, isUniform_isHexDigit⟩, ⟨_, isUniform_isBlank⟩,
      ⟨_, isUniform_not isUniform_isBlank⟩, ⟨_, isUniform_not isUniform_isLineFeed⟩⟩

/-- A comma after a first byte without its continuation bytes ends an item, and a character after a
digit is one element that is asked about, as its first byte is. -/
theorem text_scans_as_bytes_comma :
    let item : Bytes := [0xE2, 0x2C, 0x31]
    let digit : Bytes := [0x31, 0xC3, 0xA9]
    (Element.IsUniform Header.isItemElement true ∧ item.length < UInt64.size ∧
      (bytes.takeWhile Header.isItemElement item).outcome = .ok (some [0xE2]) [0x2C, 0x31] ∧
      (text.takeWhile Header.isItemElement item).outcome = .ok (some [0xE2]) [0x2C, 0x31]) ∧
    (Element.IsUniform Element.isDigit false ∧
      (bytes.takeAtLeast 1 Element.isDigit digit).asked.length = 2 ∧
      (text.takeAtLeast 1 Element.isDigit digit).asked.length = 2) := by
  intro item digit
  have hitem := Element.isUniform_isItemElement
  have hrun : (bytes.takeWhile Header.isItemElement item).outcome =
      .ok (some [0xE2]) [0x2C, 0x31] := by decide
  have hdigit := Element.isUniform_isDigit
  have hasked : (bytes.takeAtLeast 1 Element.isDigit digit).asked.length = 2 := by decide
  refine ⟨⟨hitem, by decide, hrun, ?_⟩, hdigit, hasked, ?_⟩
  · exact ((text_scans_as_bytes item _ _ hitem).1 (by decide)).trans hrun
  · exact (((text_scans_as_bytes digit _ _ hdigit).2.1 rfl).2.1 1).asked.trans hasked

end Reading
end PrefixMatching
