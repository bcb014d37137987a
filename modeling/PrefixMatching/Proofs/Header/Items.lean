import Mathlib.Data.List.DropRight
import PrefixMatching.Header
import PrefixMatching.Proofs.Splitter
import PrefixMatching.Proofs.Utf8.Runs

/-!
# The items of a list

A list value is cut at its commas, and each piece is stripped of the spaces and tabs around it. The
value is a list if what is left of each piece is an item, which is not empty and holds neither space
nor tab; these are its items (`items_of_pieces`). The scan that finds them collects one item after
the other, and each of its passes shortens what is left (`exists_iterate_nextItem`).

A piece is read from its front: behind its spaces there is a run of bytes that can belong to an
item, and the piece is an item if only spaces follow this run (`isItem_strip_iff`).
-/

namespace PrefixMatching
namespace Header

variable {s v w core rest tail u piece : Bytes} {b : UInt8}

/-! ## Bytes of a list -/

/-- Whether a byte is a space or a tab. -/
def isSpaceByte (b : UInt8) : Bool := b = 0x20 || b = 0x09

/-- Whether a byte belongs to an item: anything but a comma, a space or a tab. -/
def isItemByte (b : UInt8) : Bool := b ≠ 0x2C && !isSpaceByte b

theorem isSpace_toNat (b : UInt8) : Element.isSpace b.toNat = isSpaceByte b := by
  have hspace : decide ((b.toNat : Int) = 0x20) = decide (b = 0x20) :=
    Element.decide_toNat_eq b 0x20
  have htab : decide ((b.toNat : Int) = 0x09) = decide (b = 0x09) := Element.decide_toNat_eq b 0x09
  rw [Element.isSpace, hspace, htab, isSpaceByte]

theorem isItemElement_toNat (b : UInt8) : isItemElement b.toNat = isItemByte b := by
  have hcomma : decide ((b.toNat : Int) = Element.ofChar ',') = decide (b = 0x2C) :=
    Element.decide_toNat_eq b 0x2C
  rw [isItemElement, isItemByte, isSpace_toNat, decide_not, decide_not, hcomma]

theorem isItemByte_iff : isItemByte b = true ↔ b ≠ 0x2C ∧ isSpaceByte b = false := by
  simp [isItemByte]

/-! ## Stripping -/

/-- A piece without the spaces and tabs at its ends. -/
def strip (s : Bytes) : Bytes := (s.dropWhile isSpaceByte).rdropWhile isSpaceByte

/-- Whether a text can be an item: it is not empty and holds neither space nor tab. -/
def IsItem (s : Bytes) : Prop := s ≠ [] ∧ ∀ b ∈ s, isSpaceByte b = false

instance : DecidablePred IsItem := fun s =>
  decidable_of_iff (s ≠ [] ∧ s.all (fun b => !isSpaceByte b) = true) (by simp [IsItem])

/-- The run that an item has to be, at the front of a piece behind its spaces. -/
def run (piece : Bytes) : Bytes := (piece.dropWhile isSpaceByte).takeWhile isItemByte

/-- What follows the run of a piece. -/
def afterRun (piece : Bytes) : Bytes := (piece.dropWhile isSpaceByte).dropWhile isItemByte

theorem run_append_afterRun (piece : Bytes) :
    run piece ++ afterRun piece = piece.dropWhile isSpaceByte :=
  List.takeWhile_append_dropWhile

/-- An item followed by spaces is stripped of them. -/
theorem rdropWhile_append_spaces (hcore : ∀ b ∈ core, isSpaceByte b = false)
    (hw : ∀ b ∈ w, isSpaceByte b = true) : (core ++ w).rdropWhile isSpaceByte = core := by
  rw [rdropWhile_append_of_pos hw, List.rdropWhile_eq_self_iff]
  intro hne
  simp [hcore _ (List.getLast_mem hne)]

/-- Where only spaces follow the run of a piece, stripping leaves the run. -/
theorem strip_eq_run (hafter : ∀ b ∈ afterRun piece, isSpaceByte b = true) :
    strip piece = run piece := by
  have hrun : ∀ b ∈ run piece, isSpaceByte b = false := fun b hb =>
    (isItemByte_iff.mp (List.mem_takeWhile_imp hb)).2
  rw [strip, ← run_append_afterRun, rdropWhile_append_spaces hrun hafter]

/-- A piece without commas is an item with spaces around it exactly if its run is not empty and only
spaces follow the run. -/
theorem isItem_strip_iff (hpiece : 0x2C ∉ piece) :
    IsItem (strip piece) ↔ run piece ≠ [] ∧ ∀ b ∈ afterRun piece, isSpaceByte b = true := by
  constructor
  · rintro ⟨hne, hspaces⟩
    have hparts : strip piece ++ (piece.dropWhile isSpaceByte).rtakeWhile isSpaceByte =
        piece.dropWhile isSpaceByte := List.rdropWhile_append_rtakeWhile
    have hitem : ∀ b ∈ strip piece, isItemByte b = true := by
      intro b hb
      have hfront : b ∈ piece.dropWhile isSpaceByte := (List.rdropWhile_prefix _ _).mem hb
      have hmem : b ∈ piece := (List.dropWhile_sublist _).mem hfront
      exact isItemByte_iff.mpr ⟨fun heq => hpiece (heq ▸ hmem), hspaces b hb⟩
    have hafter : ∀ b ∈ ((piece.dropWhile isSpaceByte).rtakeWhile isSpaceByte).head?,
        isItemByte b = false := by
      intro b hb
      simp [isItemByte, List.mem_rtakeWhile_imp (List.mem_of_mem_head? hb)]
    -- the stripped piece is the run, for the spaces behind it do not belong to a run
    have hrun : run piece = strip piece := by
      rw [run, ← hparts, takeWhile_append_of_head hafter, List.takeWhile_eq_self_iff.mpr hitem]
    have hrest : afterRun piece = (piece.dropWhile isSpaceByte).rtakeWhile isSpaceByte := by
      have hboth := (run_append_afterRun piece).trans hparts.symm
      rw [hrun] at hboth
      exact List.append_cancel_left hboth
    rw [hrun, hrest]
    exact ⟨hne, fun b hb => List.mem_rtakeWhile_imp hb⟩
  · rintro ⟨hne, hafter⟩
    rw [strip_eq_run hafter]
    exact ⟨hne, fun b hb => (isItemByte_iff.mp (List.mem_takeWhile_imp hb)).2⟩

/-! ## Scanning byte by byte -/

theorem outcome_takeWhile_isSpace (hs : s.length < UInt64.size) :
    (Reading.text.takeWhile Element.isSpace s).outcome =
      .ok (some (s.takeWhile isSpaceByte)) (s.dropWhile isSpaceByte) := by
  rw [Reading.outcome_takeWhile_of_length_lt Element.isUniform_isSpace.decidesByUnit hs]
  simp only [isSpace_toNat]

theorem item_eq (hs : s.length < UInt64.size) :
    item s = if s.takeWhile isItemByte = [] then .failed
      else .ok (some (s.takeWhile isItemByte)) (s.dropWhile isItemByte) := by
  rw [item, Reading.outcome_takeAtLeast_one Element.isUniform_isItemElement.decidesByUnit hs]
  simp only [isItemElement_toNat]

/-- The first item is the run at the front of the value. -/
theorem firstItem_eq (hv : v.length < UInt64.size) :
    firstItem v = if run v = [] then .failed else .ok (some (run v)) (afterRun v) := by
  rw [firstItem, outcome_takeWhile_isSpace hv]
  exact item_eq (length_dropWhile_lt hv)

/-- A comma is taken with the spaces around it. -/
theorem comma_of_cons (hs : s.length < UInt64.size) (h : s.dropWhile isSpaceByte = 0x2C :: u) :
    comma s = .ok (some (u.takeWhile isSpaceByte)) (u.dropWhile isSpaceByte) := by
  have hshort : (s.dropWhile isSpaceByte).length < UInt64.size := length_dropWhile_lt hs
  rw [h, List.length_cons] at hshort
  have hliteral : Reading.text.literal (ascii ",") .whole (0x2C :: u) = .ok (some [0x2C]) u :=
    Reading.literal_byte_cons (by decide)
  rw [comma, outcome_takeWhile_isSpace hs]
  dsimp only [Match.onRest]
  rw [h, hliteral]
  exact outcome_takeWhile_isSpace (by omega)

/-- Where no comma comes behind the spaces there is nothing to take. -/
theorem comma_of_head (hs : s.length < UInt64.size)
    (h : (s.dropWhile isSpaceByte).head? ≠ some 0x2C) : comma s = .failed := by
  have hliteral : Reading.text.literal (ascii ",") .whole (s.dropWhile isSpaceByte) = .failed := by
    cases hrest : s.dropWhile isSpaceByte with
    | nil => exact Reading.literal_byte_nil
    | cons b rest =>
      rw [hrest] at h
      exact Reading.literal_byte_of_ne fun heq => h (congrArg some heq)
  rw [comma, outcome_takeWhile_isSpace hs]
  dsimp only [Match.onRest]
  rw [hliteral]
  rfl

theorem isAllSpace_iff (hs : s.length < UInt64.size) :
    isAllSpace s = true ↔ ∀ b ∈ s, isSpaceByte b = true := by
  rw [isAllSpace, outcome_takeWhile_isSpace hs]
  dsimp only
  rw [List.isEmpty_iff, List.dropWhile_eq_nil_iff]

/-! ## Collecting item by item -/

variable {kept : List Bytes} {latest : Option Bytes}

/-- The chain that has kept some items and goes on with a match. -/
def resume (kept : List Bytes) : Match Bytes Bytes → Collector Bytes Bytes
  | .failed => .failed
  | .ok matched rest => .active kept matched rest

/-- Behind a comma the next item is the first item of what follows. -/
theorem nextItem_of_cons (hrest : rest.length < UInt64.size)
    (h : rest.dropWhile isSpaceByte = 0x2C :: u) :
    nextItem (.active kept latest rest) = resume (kept ++ latest.toList) (firstItem u) := by
  have hshort : (rest.dropWhile isSpaceByte).length < UInt64.size := length_dropWhile_lt hrest
  rw [h, List.length_cons] at hshort
  have hfirst : firstItem u = item (u.dropWhile isSpaceByte) := by
    rw [firstItem, outcome_takeWhile_isSpace (by omega)]
    rfl
  rw [hfirst]
  simp only [nextItem, Collector.skipping, Collector.step, comma_of_cons hrest h, pure, bind]
  cases item (u.dropWhile isSpaceByte) with
  | failed => rfl
  | ok matched rest' => rfl

/-- Without a comma the chain fails. -/
theorem nextItem_of_head (hrest : rest.length < UInt64.size)
    (h : (rest.dropWhile isSpaceByte).head? ≠ some 0x2C) :
    nextItem (.active kept latest rest) = .failed := by
  simp only [nextItem, Collector.skipping, Collector.step, comma_of_head hrest h, pure, bind]

theorem collectItems_failed : collectItems .failed = .failed := by
  rw [collectItems]

theorem collectItems_of_isAllSpace (h : isAllSpace rest = true) :
    collectItems (.active kept latest rest) = .active kept latest rest := by
  rw [collectItems, if_pos h]

theorem collectItems_of_not_isAllSpace (h : ¬ isAllSpace rest = true) :
    collectItems (.active kept latest rest) =
      collectItems (nextItem (.active kept latest rest)) := by
  rw [collectItems, if_neg h]

/-! ## Piece by piece -/

section Pieces

variable (hpiece : 0x2C ∉ piece) (htail : ∀ b ∈ tail.head?, b = 0x2C)
include htail

/-- A comma ends both spaces and items. -/
theorem not_isSpaceByte_of_mem_head : ∀ b ∈ tail.head?, isSpaceByte b = false := by
  intro b hb
  rw [htail b hb]
  decide

theorem not_isItemByte_of_mem_head : ∀ b ∈ tail.head?, isItemByte b = false := by
  intro b hb
  rw [htail b hb]
  decide

/-- The run of a piece ends with the piece. -/
theorem run_append : run (piece ++ tail) = run piece := by
  rw [run, dropWhile_append_of_head (not_isSpaceByte_of_mem_head htail),
    takeWhile_append_of_head (not_isItemByte_of_mem_head htail), run]

theorem afterRun_append : afterRun (piece ++ tail) = afterRun piece ++ tail := by
  rw [afterRun, dropWhile_append_of_head (not_isSpaceByte_of_mem_head htail),
    dropWhile_append_of_head (not_isItemByte_of_mem_head htail), afterRun]

include hpiece

/-- A piece that is no item fails the chain. -/
theorem collectItems_of_not_isItem (hfits : (piece ++ tail).length < UInt64.size)
    (hitem : ¬ IsItem (strip piece)) :
    collectItems (resume kept (firstItem (piece ++ tail))) = .failed := by
  rw [firstItem_eq hfits, run_append htail, afterRun_append htail]
  rw [isItem_strip_iff hpiece] at hitem
  by_cases hrun : run piece = []
  · rw [if_pos hrun, resume, collectItems_failed]
  · have hafter : ¬ ∀ b ∈ afterRun piece, isSpaceByte b = true := fun h => hitem ⟨hrun, h⟩
    have hrest : (afterRun piece ++ tail).length < UInt64.size := by
      rw [← afterRun_append htail]
      exact length_dropWhile_lt (length_dropWhile_lt hfits)
    have hspaces : ¬ isAllSpace (afterRun piece ++ tail) = true := by
      rw [isAllSpace_iff hrest]
      exact fun h => hafter fun b hb => h b (List.mem_append_left _ hb)
    -- behind the spaces after the run comes a byte of the piece, which is no comma
    obtain ⟨b, more, hmore⟩ : ∃ b more, (afterRun piece).dropWhile isSpaceByte = b :: more :=
      List.exists_cons_of_ne_nil fun h => hafter (List.dropWhile_eq_nil_iff.mp h)
    have hmem : b ∈ piece := by
      have hb : b ∈ (afterRun piece).dropWhile isSpaceByte := by simp [hmore]
      exact (List.dropWhile_sublist _).mem ((List.dropWhile_sublist _).mem
        ((List.dropWhile_sublist _).mem hb))
    have hhead : ((afterRun piece ++ tail).dropWhile isSpaceByte).head? ≠ some 0x2C := by
      rw [dropWhile_append_of_head (not_isSpaceByte_of_mem_head htail), hmore]
      exact fun heq => hpiece (Option.some.inj heq ▸ hmem)
    rw [if_neg hrun, resume, collectItems_of_not_isAllSpace hspaces, nextItem_of_head hrest hhead,
      collectItems_failed]

end Pieces

/-- The last piece is collected if it is an item. -/
theorem collectItems_last (hpiece : 0x2C ∉ piece) (hfits : piece.length < UInt64.size)
    (hitem : IsItem (strip piece)) :
    collectItems (resume kept (firstItem piece)) =
      .active kept (some (strip piece)) (afterRun piece) := by
  obtain ⟨hrun, hafter⟩ := (isItem_strip_iff hpiece).mp hitem
  have hrest : (afterRun piece).length < UInt64.size :=
    length_dropWhile_lt (length_dropWhile_lt hfits)
  rw [firstItem_eq hfits, if_neg hrun, resume,
    collectItems_of_isAllSpace ((isAllSpace_iff hrest).mpr hafter), strip_eq_run hafter]

/-- A piece before a comma is collected if it is an item, and the chain goes on behind the comma. -/
theorem collectItems_cons (hpiece : 0x2C ∉ piece)
    (hfits : (piece ++ 0x2C :: u).length < UInt64.size) (hitem : IsItem (strip piece)) :
    collectItems (resume kept (firstItem (piece ++ 0x2C :: u))) =
      collectItems (resume (kept ++ [strip piece]) (firstItem u)) := by
  obtain ⟨hrun, hafter⟩ := (isItem_strip_iff hpiece).mp hitem
  have htail : ∀ b ∈ (0x2C :: u : Bytes).head?, b = 0x2C := fun b hb => (Option.some.inj hb).symm
  have hrest : (afterRun piece ++ 0x2C :: u).length < UInt64.size := by
    rw [← afterRun_append htail]
    exact length_dropWhile_lt (length_dropWhile_lt hfits)
  have hspaces : ¬ isAllSpace (afterRun piece ++ 0x2C :: u) = true := by
    rw [isAllSpace_iff hrest]
    exact fun h => absurd (h 0x2C (by simp)) (by decide)
  have hcomma : (afterRun piece ++ 0x2C :: u).dropWhile isSpaceByte = 0x2C :: u := by
    rw [List.dropWhile_append_of_pos hafter, List.dropWhile_cons_of_neg (by decide)]
  rw [firstItem_eq hfits, run_append htail, afterRun_append htail, if_neg hrun, resume,
    collectItems_of_not_isAllSpace hspaces, nextItem_of_cons hrest hcomma, strip_eq_run hafter]
  rfl

/-- The pieces of a value between its commas, stripped. -/
def pieces (v : Bytes) : List Bytes := (v.splitOn 0x2C).map strip

theorem pieces_of_not_mem (hv : 0x2C ∉ v) : pieces v = [strip v] := by
  rw [pieces, List.splitOn_eq_singleton hv, List.map_singleton]

theorem pieces_append_cons (hpiece : 0x2C ∉ piece) (u : Bytes) :
    pieces (piece ++ 0x2C :: u) = strip piece :: pieces u := by
  rw [pieces, List.splitOn_append_cons_self_of_not_mem hpiece, List.map_cons, pieces]

/-- A chain collects the pieces of what it has to read, if they are items. -/
theorem collectItems_eq (hv : v.length < UInt64.size) (kept : List Bytes) :
    (collectItems (resume kept (firstItem v))).result?.map Prod.fst =
      if ∀ item ∈ pieces v, IsItem item then some (kept ++ pieces v) else none := by
  -- what follows the first comma is a shorter value, with one item more in front of it
  induction hn : v.length using Nat.strong_induction_on generalizing v kept with
  | _ n ih =>
    by_cases hcomma : 0x2C ∈ v
    · obtain ⟨piece, u, rfl, hpiece⟩ := List.eq_append_cons_of_mem hcomma
      have htail : ∀ b ∈ (0x2C :: u : Bytes).head?, b = 0x2C := fun b hb =>
        (Option.some.inj hb).symm
      rw [List.length_append, List.length_cons] at hn
      have hlater_fits : u.length < UInt64.size := by
        rw [List.length_append, List.length_cons] at hv
        omega
      rw [pieces_append_cons hpiece]
      by_cases hitem : IsItem (strip piece)
      · have hlater := ih u.length (by omega) (v := u) hlater_fits (kept ++ [strip piece]) rfl
        rw [collectItems_cons hpiece hv hitem, hlater]
        simp [hitem]
      · rw [collectItems_of_not_isItem hpiece htail hv hitem]
        simp [hitem, Collector.result?]
    · rw [pieces_of_not_mem hcomma]
      by_cases hitem : IsItem (strip v)
      · rw [collectItems_last hcomma hv hitem]
        simp [hitem, Collector.result?]
      · have hend : ∀ b ∈ ([] : Bytes).head?, b = 0x2C := nofun
        have hfail : collectItems (resume kept (firstItem (v ++ []))) = .failed :=
          collectItems_of_not_isItem hcomma hend (by rwa [List.append_nil]) hitem
        rw [List.append_nil] at hfail
        rw [hfail]
        simp [hitem, Collector.result?]

/-! ## The loop -/

/-- Whether the loop ends at a chain: it failed, or nothing but spaces is left. -/
def isDone : Collector Bytes Bytes → Bool
  | .failed => true
  | .active _ _ rest => isAllSpace rest

/-- The loop ends after finitely many passes, at the first chain that is done. -/
theorem exists_iterate_nextItem (c : Collector Bytes Bytes) :
    ∃ n ≤ remaining c, collectItems c = nextItem^[n] c ∧ isDone (nextItem^[n] c) = true ∧
      ∀ i < n, isDone (nextItem^[i] c) = false := by
  induction c using collectItems.induct with
  | case1 => exact ⟨0, Nat.zero_le _, collectItems_failed, rfl, nofun⟩
  | case2 kept latest rest hdone =>
    exact ⟨0, Nat.zero_le _, collectItems_of_isAllSpace hdone, hdone, nofun⟩
  | case3 kept latest rest hgoes ih =>
    obtain ⟨n, hn, hresult, hdone, hbefore⟩ := ih
    have hlt := remaining_nextItem_lt kept latest rest
    refine ⟨n + 1, by omega, ?_, ?_, ?_⟩
    · rw [collectItems_of_not_isAllSpace hgoes, hresult, Function.iterate_succ_apply]
    · rwa [Function.iterate_succ_apply]
    · intro i hi
      cases i with
      | zero => simpa [isDone] using hgoes
      | succ i =>
        rw [Function.iterate_succ_apply]
        exact hbefore i (by omega)

/-- The first item takes a byte at least. -/
theorem remaining_ofMatch_firstItem_le (v : Bytes) :
    remaining (.ofMatch (firstItem v)) ≤ v.length := by
  unfold firstItem
  cases hspace : (Reading.text.takeWhile Element.isSpace v).outcome with
  | failed => exact Nat.zero_le _
  | ok spaces rest =>
    have hle := Reading.length_rest_takeWhile_le hspace
    dsimp only [Match.onRest]
    cases hitem : item rest with
    | failed => exact Nat.zero_le _
    | ok matched after =>
      have hlt := Reading.length_rest_takeAtLeast_lt hitem
      show after.length + 1 ≤ v.length
      omega

/-! ## Lists with padding -/

/-- An item with the spaces and tabs that stand around it in a list. -/
structure PaddedItem where
  before : Bytes
  item : Bytes
  after : Bytes
  before_spaces : ∀ b ∈ before, isSpaceByte b = true
  isItem : IsItem item
  comma_not_mem : 0x2C ∉ item
  after_spaces : ∀ b ∈ after, isSpaceByte b = true

namespace PaddedItem

/-- The text of an item with its padding. -/
def text (padded : PaddedItem) : Bytes := padded.before ++ (padded.item ++ padded.after)

theorem strip_text (padded : PaddedItem) : strip padded.text = padded.item := by
  have hfront : (padded.item ++ padded.after).dropWhile isSpaceByte =
      padded.item ++ padded.after := by
    obtain ⟨b, more, hb⟩ := List.exists_cons_of_ne_nil padded.isItem.1
    have hspace : isSpaceByte b = false := padded.isItem.2 b (by simp [hb])
    rw [hb, List.cons_append, List.dropWhile_cons_of_neg (by simp [hspace])]
  rw [strip, text, List.dropWhile_append_of_pos padded.before_spaces, hfront,
    rdropWhile_append_spaces padded.isItem.2 padded.after_spaces]

theorem comma_not_mem_text (padded : PaddedItem) : 0x2C ∉ padded.text := by
  have hspace : ¬ isSpaceByte 0x2C = true := by decide
  simp only [text, List.mem_append, not_or]
  exact ⟨fun h => hspace (padded.before_spaces _ h), padded.comma_not_mem,
    fun h => hspace (padded.after_spaces _ h)⟩

/-- A list of items with padding, joined by commas. -/
def join (list : List PaddedItem) : Bytes := [0x2C].intercalate (list.map text)

/-- The pieces of a list with padding are its items. -/
theorem pieces_join {list : List PaddedItem} (hlist : list ≠ []) :
    pieces (join list) = list.map item := by
  have hcommas : ∀ piece ∈ list.map text, 0x2C ∉ piece := by
    intro piece hpiece
    obtain ⟨padded, -, rfl⟩ := List.mem_map.mp hpiece
    exact padded.comma_not_mem_text
  have hne : list.map text ≠ [] := by simpa using hlist
  rw [pieces, join, List.splitOn_intercalate 0x2C hcommas hne, List.map_map]
  exact List.map_congr_left fun padded _ => padded.strip_text

end PaddedItem

/-- The items of a value are its pieces, if all of them are items, and the loop that collects them
ends at the first chain that is done. So a list of items joined by commas is read back, whatever
spaces and tabs stand around the items. -/
theorem items_of_pieces :
    (∀ v : Bytes, v.length < 2 ^ 64 →
      items? v = (if ∀ piece ∈ pieces v, IsItem piece then some (pieces v) else none) ∧
      ∃ n ≤ v.length,
        items? v = (nextItem^[n] (.ofMatch (firstItem v))).result?.map Prod.fst ∧
        isDone (nextItem^[n] (.ofMatch (firstItem v))) = true ∧
        ∀ i < n, isDone (nextItem^[i] (.ofMatch (firstItem v))) = false) ∧
    ∀ list : List PaddedItem, list ≠ [] → (PaddedItem.join list).length < 2 ^ 64 →
      items? (PaddedItem.join list) = some (list.map PaddedItem.item) := by
  have hsize : UInt64.size = 2 ^ 64 := rfl
  have hitems : ∀ v : Bytes, v.length < 2 ^ 64 →
      items? v = if ∀ piece ∈ pieces v, IsItem piece then some (pieces v) else none := by
    intro v hv
    have hstart : Collector.ofMatch (firstItem v) = resume [] (firstItem v) := by
      cases firstItem v <;> rfl
    rw [items?, hstart, collectItems_eq (hsize ▸ hv) [], List.nil_append]
  refine ⟨fun v hv => ⟨hitems v hv, ?_⟩, fun list hlist hfits => ?_⟩
  · obtain ⟨n, hn, hresult, hdone, hbefore⟩ := exists_iterate_nextItem (.ofMatch (firstItem v))
    exact ⟨n, hn.trans (remaining_ofMatch_firstItem_le v), by rw [items?, hresult], hdone, hbefore⟩
  · have hall : ∀ piece ∈ list.map PaddedItem.item, IsItem piece := by
      intro piece hpiece
      obtain ⟨padded, -, rfl⟩ := List.mem_map.mp hpiece
      exact padded.isItem
    rw [hitems _ hfits, PaddedItem.pieces_join hlist, if_pos hall]

/-- Two items with padding, the first one malformed text, are read back, and two words without a
comma between them are no list. -/
theorem items_of_padded_pair :
    items? [0x20, 0xE2, 0x82, 0x09, 0x2C, 0x62] = some [[0xE2, 0x82], [0x62]] ∧
      items? [0x61, 0x20, 0x62] = none := by
  constructor
  · exact items_of_pieces.2
      [⟨[0x20], [0xE2, 0x82], [0x09], by simp [isSpaceByte], by decide, by decide,
          by simp [isSpaceByte]⟩,
        ⟨[], [0x62], [], nofun, by decide, by decide, nofun⟩]
      (by simp) (by decide)
  · have hpieces := (items_of_pieces.1 [0x61, 0x20, 0x62] (by decide)).1
    rwa [if_neg (by decide)] at hpieces

end Header
end PrefixMatching
