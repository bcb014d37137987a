import PrefixMatching.Bench.Scan
import PrefixMatching.Proofs.Log
import PrefixMatching.Proofs.Splitter.Tokens

/-!
# What a scan counts and logs

A scan comes to the tally of the content (`scan_eq`): its log is the messages about the rejections
of the tally, and its counts do not depend on whether there is a log. Tallies add up as content is
put together from whole lines, and they account for every line and every token. What is counted and
logged is the same for both scanners, for the pieces that each of them looks at
(`Tally.isOfPieces_ofContent`).
-/

namespace PrefixMatching
namespace Bench

/-! ## Sums of tallies -/

theorem Stats.add_def (a b : Stats) :
    a + b =
      { lines := a.lines + b.lines
        accepted := a.accepted + b.accepted
        rejected := a.rejected + b.rejected
        listElements := a.listElements + b.listElements
        colors := a.colors + b.colors
        integers := a.integers + b.integers
        floats := a.floats + b.floats } := rfl

theorem Stats.add_assoc (a b c : Stats) : a + b + c = a + (b + c) := by
  simp only [add_def, Nat.add_assoc]

theorem Stats.zero_add (a : Stats) : {} + a = a := by
  simp only [add_def, Nat.zero_add]

namespace Tally

variable {tally : Bytes → Tally}

@[simp]
theorem stats_add (a b : Tally) : (a + b).stats = a.stats + b.stats := rfl

@[simp]
theorem rejections_add (a b : Tally) : (a + b).rejections = a.rejections ++ b.rejections := rfl

theorem add_assoc (a b c : Tally) : a + b + c = a + (b + c) := by
  have hstats := Stats.add_assoc a.stats b.stats c.stats
  have hrejections := List.append_assoc a.rejections b.rejections c.rejections
  exact congrArg₂ Tally.mk hstats hrejections

theorem zero_add (a : Tally) : {} + a = a := congrArg₂ Tally.mk (Stats.zero_add a.stats) rfl

theorem sum_append (pieces pieces' : List Bytes) :
    sum tally (pieces ++ pieces') = sum tally pieces + sum tally pieces' := by
  induction pieces with
  | nil => exact (zero_add _).symm
  | cons piece pieces ih => rw [List.cons_append, sum, ih, sum, add_assoc]

theorem messages_add (a b : Tally) : (a + b).messages = a.messages ++ b.messages := by
  rw [messages, rejections_add, List.map_append]
  rfl

end Tally

/-! ## Scans come to tallies -/

section Scans

variable {m : Type → Type} [Monad m] {log : Bytes → m Unit} {details : Bool}
  {step : Stats → Bytes → m Stats} {tally : Bytes → Tally}

/-- Logs the rejections of a tally, with details, and adds its counts. -/
def Tally.addTo (log : Bytes → m Unit) (details : Bool) (stats : Stats) (tally : Tally) :
    m Stats := do
  if details then tally.messages.forM log
  pure (stats + tally.stats)

variable [LawfulMonad m]

theorem Tally.addTo_mk_nil (stats counts : Stats) :
    Tally.addTo log details stats ⟨counts, []⟩ = pure (stats + counts) := by
  cases details with
  | false => rfl
  | true => exact pure_bind (m := m) _ _

theorem Tally.addTo_add (stats : Stats) (a b : Tally) :
    (a + b).addTo log details stats =
      a.addTo log details stats >>= fun stats => b.addTo log details stats := by
  cases details with
  | false => simp [addTo, Stats.add_assoc]
  | true => simp [addTo, messages_add, Stats.add_assoc]

/-- Whether a step of a scan does what the tally of its piece says. -/
def KeepsTally (log : Bytes → m Unit) (details : Bool) (step : Stats → Bytes → m Stats)
    (tally : Bytes → Tally) : Prop :=
  ∀ stats piece, step stats piece = (tally piece).addTo log details stats

/-- A scan of several pieces comes to the sum of their tallies. -/
theorem KeepsTally.foldlM_eq (h : KeepsTally log details step tally) (pieces : List Bytes)
    (stats : Stats) :
    pieces.foldlM step stats = (Tally.sum tally pieces).addTo log details stats := by
  induction pieces generalizing stats with
  | nil => exact (Tally.addTo_mk_nil stats {}).symm
  | cons piece pieces ih =>
    rw [List.foldlM_cons, h, Tally.sum, Tally.addTo_add]
    exact bind_congr fun stats' => ih stats'

theorem reject_eq (stats : Stats) (rejection : Rejection) :
    reject log details stats rejection =
      Tally.addTo log details stats
        { stats := { rejected := 1 }, rejections := [rejection] } := by
  cases details with
  | false => rfl
  | true => simp [reject, Tally.addTo, Tally.messages, Stats.add_def]

theorem keepsTally_scanHeaderLine :
    KeepsTally log details (scanHeaderLine log details) Tally.ofHeaderLine := by
  intro stats line
  unfold scanHeaderLine Tally.ofHeaderLine
  cases Header.ofLine? line with
  | none => exact reject_eq stats (.header line)
  | some header =>
    dsimp only
    rw [Tally.addTo_mk_nil]
    cases Header.items? header.value with
    | none => rfl
    | some elements => rfl

theorem keepsTally_scanToken : KeepsTally log details (scanToken log details) Tally.ofToken := by
  intro stats token
  unfold scanToken Tally.ofToken
  cases Value.ofToken? token with
  | none => exact reject_eq stats (.value token)
  | some value =>
    cases value with
    | color rgb =>
      dsimp only
      rw [Tally.addTo_mk_nil]
      rfl
    | integer n =>
      dsimp only
      rw [Tally.addTo_mk_nil]
      rfl
    | floating x =>
      dsimp only
      rw [Tally.addTo_mk_nil]
      rfl

theorem keepsTally_scanLine (scanner : Scanner) :
    KeepsTally log details (scanLine log details scanner) (Tally.ofLine scanner) := by
  intro stats line
  unfold scanLine Tally.ofLine Tally.ofLineContent
  rw [Tally.addTo_add, Tally.addTo_mk_nil, pure_bind]
  split
  · rw [Tally.addTo_mk_nil]
    rfl
  · cases scanner with
    | header => exact keepsTally_scanHeaderLine _ line
    | value => exact keepsTally_scanToken.foldlM_eq _ _

/-- A scan comes to the tally of the content. -/
theorem scan_eq (scanner : Scanner) (content : Bytes) :
    scan log details scanner content = (Tally.ofContent scanner content).addTo log details {} :=
  (keepsTally_scanLine scanner).foldlM_eq _ {}

end Scans

/-! ## Lines without content -/

/-- Whether a line consists of spaces, tabs and carriage returns only. -/
def isBlank (line : Bytes) : Bool := line.all fun b => b = 0x20 || b = 0x09 || b = 0x0D

theorem isBlankLine_eq {line : Bytes} (hfits : line.length < UInt64.size) :
    Tally.isBlankLine line = isBlank line := by
  rw [Tally.isBlankLine,
    Reading.outcome_takeWhile_of_length_lt Element.isUniform_isBlank.decidesByUnit hfits]
  simp only [Splitter.isBlank_toNat]
  rw [Bool.eq_iff_iff, List.isEmpty_iff, List.dropWhile_eq_nil_iff, isBlank, List.all_eq_true]
  rfl

/-- A line without content has no tokens. -/
theorem pieces_tokens_of_isBlankLine {line : Bytes} (h : Tally.isBlankLine line = true) :
    Splitter.tokens.pieces line = [] := by
  refine Splitter.pieces_of_next?_eq_none ?_
  unfold Tally.isBlankLine at h
  show Splitter.nextToken? line = none
  unfold Splitter.nextToken?
  cases hblanks : (Reading.text.takeWhile Element.isBlank line).outcome with
  | failed => rfl
  | ok blanks rest =>
    rw [hblanks] at h
    rw [List.isEmpty_iff.mp h]
    rfl

/-! ## Every line and every token is accounted for -/

namespace Tally

/-- What is true of nothing and of sums is true of a sum, if it is true of every piece. -/
theorem sum_induction {P : Tally → List Bytes → Prop} {tally : Bytes → Tally}
    {parts : Bytes → List Bytes} (hnil : P {} [])
    (hadd : ∀ {a b : Tally} {xs ys : List Bytes}, P a xs → P b ys → P (a + b) (xs ++ ys))
    (pieces : List Bytes) (hpiece : ∀ piece ∈ pieces, P (tally piece) (parts piece)) :
    P (sum tally pieces) (pieces.flatMap parts) := by
  induction pieces with
  | nil => exact hnil
  | cons piece pieces ih =>
    rw [List.flatMap_cons]
    exact hadd (hpiece piece List.mem_cons_self)
      (ih fun piece' h => hpiece piece' (List.mem_cons_of_mem piece h))

/-- The headers on lines. -/
def headersOf (lines : List Bytes) : List Header :=
  (lines.filter fun line => !isBlank line).filterMap Header.ofLine?

/-- What the header scanner has to make of lines. -/
structure IsOfHeaders (tally : Tally) (lines : List Bytes) : Prop where
  conserved : tally.stats.lines =
    tally.stats.accepted + tally.stats.rejected + (lines.filter isBlank).length
  accepted : tally.stats.accepted = (headersOf lines).length
  listElements : tally.stats.listElements =
    ((headersOf lines).filterMap fun header => Header.items? header.value).flatten.length
  colors : tally.stats.colors = 0
  integers : tally.stats.integers = 0
  floats : tally.stats.floats = 0
  rejections : tally.rejections =
    (lines.filter fun line => !isBlank line && (Header.ofLine? line).isNone).map .header

/-- What the value scanner has to make of tokens. -/
structure IsOfTokens (tally : Tally) (tokens : List Bytes) : Prop where
  conserved : tally.stats.accepted + tally.stats.rejected = tokens.length
  accepted : tally.stats.accepted = (tokens.filterMap Value.ofToken?).length
  kinds : tally.stats.colors + tally.stats.integers + tally.stats.floats = tally.stats.accepted
  listElements : tally.stats.listElements = 0
  rejections : tally.rejections =
    (tokens.filter fun token => (Value.ofToken? token).isNone).map .value

variable {a b : Tally} {xs ys : List Bytes}

theorem IsOfHeaders.add (ha : a.IsOfHeaders xs) (hb : b.IsOfHeaders ys) :
    (a + b).IsOfHeaders (xs ++ ys) where
  conserved := by
    have := ha.conserved
    have := hb.conserved
    rw [List.filter_append, List.length_append, stats_add, Stats.add_def]
    dsimp only
    omega
  accepted := by
    rw [headersOf, List.filter_append, List.filterMap_append, List.length_append]
    exact congrArg₂ (· + ·) ha.accepted hb.accepted
  listElements := by
    rw [headersOf, List.filter_append, List.filterMap_append, List.filterMap_append,
      List.flatten_append, List.length_append]
    exact congrArg₂ (· + ·) ha.listElements hb.listElements
  colors := congrArg₂ (· + ·) ha.colors hb.colors
  integers := congrArg₂ (· + ·) ha.integers hb.integers
  floats := congrArg₂ (· + ·) ha.floats hb.floats
  rejections := by
    rw [rejections_add, List.filter_append, List.map_append, ha.rejections, hb.rejections]

theorem IsOfTokens.add (ha : a.IsOfTokens xs) (hb : b.IsOfTokens ys) :
    (a + b).IsOfTokens (xs ++ ys) where
  conserved := by
    have := ha.conserved
    have := hb.conserved
    rw [List.length_append, stats_add, Stats.add_def]
    dsimp only
    omega
  accepted := by
    rw [List.filterMap_append, List.length_append]
    exact congrArg₂ (· + ·) ha.accepted hb.accepted
  kinds := by
    have := ha.kinds
    have := hb.kinds
    rw [stats_add, Stats.add_def]
    dsimp only
    omega
  listElements := congrArg₂ (· + ·) ha.listElements hb.listElements
  rejections := by
    rw [rejections_add, List.filter_append, List.map_append, ha.rejections, hb.rejections]

theorem isOfHeaders_ofLine {line : Bytes} (hfits : line.length < UInt64.size) :
    (ofLine .header line).IsOfHeaders [line] := by
  unfold ofLine ofLineContent
  rw [isBlankLine_eq hfits]
  cases hblank : isBlank line with
  | true => constructor <;> simp [headersOf, hblank, Stats.add_def]
  | false =>
    simp only [Bool.false_eq_true, ↓reduceIte, ofHeaderLine]
    cases hheader : Header.ofLine? line with
    | none => constructor <;> simp [headersOf, hblank, hheader, Stats.add_def]
    | some header =>
      cases hitems : Header.items? header.value with
      | none => constructor <;> simp [headersOf, hblank, hheader, hitems, Stats.add_def]
      | some elements => constructor <;> simp [headersOf, hblank, hheader, hitems, Stats.add_def]

theorem isOfTokens_ofToken (token : Bytes) : (ofToken token).IsOfTokens [token] := by
  unfold ofToken
  cases hvalue : Value.ofToken? token with
  | none => constructor <;> simp [hvalue]
  | some value => cases value <;> constructor <;> simp [hvalue]

/-- The header scanner accounts for every line. -/
theorem isOfHeaders_ofContent {content : Bytes} (hfits : content.length < UInt64.size) :
    (ofContent .header content).IsOfHeaders (Splitter.lines.pieces content) := by
  have hsum : (ofContent .header content).IsOfHeaders
      ((Splitter.lines.pieces content).flatMap fun line => [line]) := by
    refine sum_induction (by constructor <;> rfl) IsOfHeaders.add _ fun line hline => ?_
    have hle := Splitter.length_le_of_mem_lines hfits hline
    exact isOfHeaders_ofLine (by omega)
  rw [List.flatMap_singleton'] at hsum
  exact hsum

theorem isOfTokens_sum_ofToken (tokens : List Bytes) : (sum ofToken tokens).IsOfTokens tokens := by
  have hsum : (sum ofToken tokens).IsOfTokens (tokens.flatMap fun token => [token]) :=
    sum_induction (by constructor <;> rfl) IsOfTokens.add tokens fun token _ =>
      isOfTokens_ofToken token
  rw [List.flatMap_singleton'] at hsum
  exact hsum

theorem isOfTokens_ofLine (line : Bytes) :
    (ofLine .value line).IsOfTokens (Splitter.tokens.pieces line) := by
  have hline : Tally.IsOfTokens { stats := { lines := 1 } } [] := by constructor <;> rfl
  refine hline.add ?_
  unfold ofLineContent
  split
  · rename_i hblank
    rw [pieces_tokens_of_isBlankLine hblank]
    constructor <;> rfl
  · exact isOfTokens_sum_ofToken _

/-- The value scanner accounts for every token. -/
theorem isOfTokens_ofContent (content : Bytes) :
    (ofContent .value content).IsOfTokens
      ((Splitter.lines.pieces content).flatMap Splitter.tokens.pieces) :=
  sum_induction (by constructor <;> rfl) IsOfTokens.add _ fun line _ => isOfTokens_ofLine line

end Tally

/-! ## Pieces that are accepted or rejected -/

namespace Scanner

/-- What a scanner looks at in a line: the line if it holds anything, or its tokens. -/
def piecesOfLine : Scanner → Bytes → List Bytes
  | .header, line => if Tally.isBlankLine line then [] else [line]
  | .value, line => Splitter.tokens.pieces line

/-- What a scanner looks at in a file. -/
def pieces (scanner : Scanner) (content : Bytes) : List Bytes :=
  (Splitter.lines.pieces content).flatMap scanner.piecesOfLine

/-- Whether a scanner recognizes a piece. -/
def accepts : Scanner → Bytes → Bool
  | .header, line => (Header.ofLine? line).isSome
  | .value, token => (Value.ofToken? token).isSome

/-- The pieces of a file that its scanner recognizes. -/
def accepted (scanner : Scanner) (content : Bytes) : List Bytes :=
  (scanner.pieces content).filter scanner.accepts

/-- The pieces of a file that its scanner does not recognize. -/
def rejected (scanner : Scanner) (content : Bytes) : List Bytes :=
  (scanner.pieces content).filter fun piece => !scanner.accepts piece

/-- What is logged about a piece that a scanner does not recognize. -/
def complaint : Scanner → Bytes → Bytes
  | .header, line => ascii "Rejected header: " ++ Utf8.sanitize line
  | .value, token => ascii "Rejected value: " ++ Utf8.sanitize token

/-- A piece is complained about without control characters, whatever it is. -/
theorem isClean_complaint (scanner : Scanner) (piece : Bytes) :
    IsClean (scanner.complaint piece) := by
  cases scanner with
  | header => exact Log.isClean_untrusted (by decide) piece
  | value => exact Log.isClean_untrusted (by decide) piece

end Scanner

namespace Tally

variable {scanner : Scanner} {a b : Tally} {xs ys lines : List Bytes}

/-- What a scanner has to make of lines, given the pieces that it looks at in them. -/
structure IsOfPieces (scanner : Scanner) (tally : Tally) (lines pieces : List Bytes) : Prop where
  lines : tally.stats.lines = lines.length
  accepted : tally.stats.accepted = (pieces.filter scanner.accepts).length
  rejected : tally.stats.rejected = (pieces.filter fun piece => !scanner.accepts piece).length
  messages : tally.messages =
    (pieces.filter fun piece => !scanner.accepts piece).map scanner.complaint

theorem IsOfPieces.add {lines' : List Bytes} (ha : a.IsOfPieces scanner lines xs)
    (hb : b.IsOfPieces scanner lines' ys) :
    (a + b).IsOfPieces scanner (lines ++ lines') (xs ++ ys) where
  lines := by
    rw [List.length_append, ← ha.lines, ← hb.lines]
    rfl
  accepted := by
    rw [List.filter_append, List.length_append, ← ha.accepted, ← hb.accepted]
    rfl
  rejected := by
    rw [List.filter_append, List.length_append, ← ha.rejected, ← hb.rejected]
    rfl
  messages := by
    rw [messages_add, List.filter_append, List.map_append, ← ha.messages, ← hb.messages]

theorem isOfPieces_ofHeaderLine (line : Bytes) :
    (ofHeaderLine line).IsOfPieces .header [] [line] := by
  unfold ofHeaderLine
  cases hheader : Header.ofLine? line with
  | none =>
    constructor <;> simp [Scanner.accepts, hheader, messages]
    rfl
  | some header => constructor <;> simp [Scanner.accepts, hheader, messages]

theorem isOfPieces_ofToken (token : Bytes) : (ofToken token).IsOfPieces .value [] [token] := by
  unfold ofToken
  cases hvalue : Value.ofToken? token with
  | none =>
    constructor <;> simp [Scanner.accepts, hvalue, messages]
    rfl
  | some value => cases value <;> constructor <;> simp [Scanner.accepts, hvalue, messages]

theorem isOfPieces_sum_ofToken (tokens : List Bytes) :
    (sum ofToken tokens).IsOfPieces .value [] tokens := by
  induction tokens with
  | nil => constructor <;> rfl
  | cons token tokens ih => exact (isOfPieces_ofToken token).add ih

theorem isOfPieces_ofLineContent (scanner : Scanner) (line : Bytes) :
    (ofLineContent scanner line).IsOfPieces scanner [] (scanner.piecesOfLine line) := by
  unfold ofLineContent
  cases hblank : isBlankLine line with
  | true =>
    have hnone : scanner.piecesOfLine line = [] := by
      cases scanner with
      | header => rw [Scanner.piecesOfLine, if_pos hblank]
      | value => exact pieces_tokens_of_isBlankLine hblank
    rw [if_pos rfl, hnone]
    constructor <;> rfl
  | false =>
    rw [if_neg Bool.false_ne_true]
    cases scanner with
    | header =>
      rw [Scanner.piecesOfLine, hblank, if_neg Bool.false_ne_true]
      exact isOfPieces_ofHeaderLine line
    | value => exact isOfPieces_sum_ofToken _

theorem isOfPieces_ofLine (scanner : Scanner) (line : Bytes) :
    (ofLine scanner line).IsOfPieces scanner [line] (scanner.piecesOfLine line) := by
  have hline : Tally.IsOfPieces scanner { stats := { lines := 1 } } [line] [] := by
    constructor <;> rfl
  exact hline.add (isOfPieces_ofLineContent scanner line)

/-- A file is counted and logged piece by piece. -/
theorem isOfPieces_ofContent (scanner : Scanner) (content : Bytes) :
    (ofContent scanner content).IsOfPieces scanner (Splitter.lines.pieces content)
      (scanner.pieces content) := by
  unfold ofContent Scanner.pieces
  induction Splitter.lines.pieces content with
  | nil => constructor <;> rfl
  | cons line lines ih =>
    rw [List.flatMap_cons]
    exact (isOfPieces_ofLine scanner line).add ih

end Tally

/-! ## Content put together -/

/-- The tallies of whole lines add up. -/
theorem Tally.ofContent_append (scanner : Scanner) {x y : Bytes}
    (hx : x = [] ∨ x.getLast? = some 0x0A) (hfits : (x ++ y).length < UInt64.size) :
    ofContent scanner (x ++ y) = ofContent scanner x + ofContent scanner y := by
  unfold ofContent
  rw [Splitter.pieces_lines_append hx hfits, sum_append]

section Scans

variable {m : Type → Type} [Monad m] [LawfulMonad m]

/-- What comes after is counted on top. -/
theorem Tally.addTo_eq (log : Bytes → m Unit) (details : Bool) (stats : Stats) (tally : Tally) :
    tally.addTo log details stats = (stats + ·) <$> tally.addTo log details {} := by
  cases details with
  | false => simp [addTo, Stats.zero_add]
  | true => simp [addTo, Stats.zero_add]

/-- A scan with details logs a complaint about each piece that is rejected, in order. -/
theorem scan_true_eq (log : Bytes → m Unit) (scanner : Scanner) (content : Bytes) :
    scan log true scanner content = (do
      ((scanner.rejected content).map scanner.complaint).forM log
      pure (Tally.ofContent scanner content).stats) := by
  have hmessages := (Tally.isOfPieces_ofContent scanner content).messages
  rw [scan_eq, Tally.addTo, Stats.zero_add, if_pos rfl, hmessages]
  rfl

/-- A scan without details logs nothing. -/
theorem scan_false_eq (log : Bytes → m Unit) (scanner : Scanner) (content : Bytes) :
    scan log false scanner content = pure (Tally.ofContent scanner content).stats := by
  rw [scan_eq, Tally.addTo, Stats.zero_add]
  rfl

/-- Benchmark scans are accounted for, add up and do not depend on the log.

* With and without details a scan has the same counts. Without, it writes nothing; with them it
  writes a line for each rejection, in order: the time stamp, a label and what was rejected, without
  control characters. Each of these texts is one line at any time.
* The header scanner accounts for every line that is not blank and the value scanner for every
  token, with the rejections being those that are no header and no value.
* Content that ends with a line feed is scanned for itself, whatever follows: counts add up, and
  one log follows the other.

Where lines are told apart, the length of the content is a 64-bit number. -/
theorem scan_accounts_for_content (arithmetic : SignedArithmetic) (now : m Int)
    (put : Bytes → m Unit) :
    let log := Log.write arithmetic now put
    let stamp := fun ns => (Timestamp.format? arithmetic ns).getD (ascii "<unknown time>")
    (∀ scanner content,
      let stats := (Tally.ofContent scanner content).stats
      scan log false scanner content = pure stats ∧
      scan log true scanner content = (do
        (scanner.rejected content).forM fun piece => do
          put (stamp (← now) ++ ascii " " ++ scanner.complaint piece ++ ascii "\n")
        pure stats) ∧
      stats.rejected = (scanner.rejected content).length ∧
      ∀ piece, ∀ ns : Int,
        Log.IsLine (stamp ns ++ ascii " " ++ scanner.complaint piece ++ ascii "\n")) ∧
    (∀ content, content.length < UInt64.size →
      (Tally.ofContent .header content).IsOfHeaders (Splitter.lines.pieces content)) ∧
    (∀ content, (Tally.ofContent .value content).IsOfTokens
      ((Splitter.lines.pieces content).flatMap Splitter.tokens.pieces)) ∧
    ∀ scanner x y, (x = [] ∨ x.getLast? = some 0x0A) → (x ++ y).length < UInt64.size →
      Tally.ofContent scanner (x ++ y) = Tally.ofContent scanner x + Tally.ofContent scanner y ∧
      ∀ details, scan log details scanner (x ++ y) = (do
        let stats ← scan log details scanner x
        let stats' ← scan log details scanner y
        pure (stats + stats')) := by
  intro log stamp
  refine ⟨fun scanner content => ?_, fun content => Tally.isOfHeaders_ofContent,
    Tally.isOfTokens_ofContent, fun scanner x y hx hfits => ?_⟩
  · refine ⟨scan_false_eq log scanner content, ?_,
      (Tally.isOfPieces_ofContent scanner content).rejected, fun piece ns => ?_⟩
    · rw [scan_true_eq, List.forM_eq_forM, List.forM_map]
      rfl
    have hmessage : 0x0A ∉ scanner.complaint piece :=
      (scanner.isClean_complaint piece).lineFeed_not_mem
    exact (Log.isLine_line_iff (Log.isClean_stamp arithmetic ns)).mpr hmessage
  · have hadd := Tally.ofContent_append scanner hx hfits
    refine ⟨hadd, fun details => ?_⟩
    rw [scan_eq, scan_eq, scan_eq, hadd, Tally.addTo_add]
    refine bind_congr fun stats => ?_
    rw [Tally.addTo_eq, bind_pure_comp]

end Scans

/-- A line that is no header, before a line that is one. -/
theorem scan_accounts_for_content_mark :
    let put : Bytes → StateM Bytes Unit := fun text => modify (· ++ text)
    let log := Log.write .exact (pure 0) put
    let x : Bytes := [0x3F, 0x0A]
    let y : Bytes := ascii "a: b, c"
    (x.getLast? = some 0x0A ∧ x.length < UInt64.size ∧ (x ++ y).length < UInt64.size) ∧
      (scan log true .header x).run [] =
        ({ lines := 1, rejected := 1 },
          ascii "1970-01-01 00:00:00.000000 Rejected header: ?\n") ∧
      (Tally.ofContent .header x).IsOfHeaders (Splitter.lines.pieces x) ∧
      scan log true .header (x ++ y) = (do
        let stats ← scan log true .header x
        let stats' ← scan log true .header y
        pure (stats + stats')) := by
  intro put log x y
  have hlast : x.getLast? = some 0x0A := rfl
  have hfits : x.length < UInt64.size := by decide
  have hboth : (x ++ y).length < UInt64.size := by decide
  have hlines : Splitter.lines.pieces x = [[0x3F]] := by
    have hcons : Splitter.lines.pieces ([0x3F] ++ 0x0A :: []) = _ :=
      Splitter.pieces_lines_cons (by decide) hfits
    rw [Splitter.pieces_lines_nil] at hcons
    exact hcons
  have hrejected : Scanner.header.rejected x = [[0x3F]] := by
    rw [Scanner.rejected, Scanner.pieces, hlines]
    rfl
  have hstats : (Tally.ofContent .header x).stats = { lines := 1, rejected := 1 } := by
    rw [Tally.ofContent, hlines]
    rfl
  obtain ⟨hscan, hheaders, -, hadd⟩ := scan_accounts_for_content .exact (pure 0) put
  obtain ⟨-, hlogged, -⟩ := hscan .header x
  refine ⟨⟨hlast, hfits, hboth⟩, ?_, hheaders x hfits, (hadd .header x y (.inr hlast) hboth).2 true⟩
  rw [hlogged, hrejected, hstats]
  rfl

end Bench
end PrefixMatching
