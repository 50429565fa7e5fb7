import Mathlib.Data.List.Forall2
import Mathlib.Data.List.GetD
import Stencil.Proofs.Text.Lines
import Stencil.Proofs.Text.Trimmed
import Stencil.Proofs.Triple
import Stencil.Template
import Stencil.Template.Description

namespace Stencil.Listing

open Text

variable {t : Template} {grid : List Row} {row : Row} {i : Nat}

/-- The length of the longest cell in a column. -/
def longest (grid : List Row) (i : Nat) : Nat :=
  (grid.map fun row => (row.getD i "").length).max?.getD 0

/-- The offset of a column: two characters behind the longest cell of the column before it. -/
def offset (grid : List Row) : Nat → Nat
  | 0 => 0
  | i + 1 => offset grid i + longest grid i + 2

/-- A line that holds the cells of a row in the columns of a table. With the white space at its end given
back, each cell starts at the offset of its column, and spaces follow it up to the next one. -/
structure Aligned (grid : List Row) (row : Row) (line : String) : Prop where
  tight : ∀ c ∈ line.toList.getLast?, isBlank c = false
  columns : ∃ blanks : List Char, (∀ c ∈ blanks, isBlank c = true) ∧
    (line.toList ++ blanks).length = offset grid row.length ∧
    ∀ i cell, row[i]? = some cell →
      ((line.toList ++ blanks).drop (offset grid i)).take (longest grid i + 2) =
        cell.toList ++ List.replicate (longest grid i + 2 - cell.length) ' '

/-- Behind the name and the description there is one line for the header and one for each variable to show,
in this order, all with the same columns. -/
def WellFormed (t : Template) : Prop := ∃ part, text t = heading t.name ++ heading t.description ++ part ∧
  List.Forall₂ (Aligned (header :: rows t)) (header :: rows t) (Text.lines part)

theorem wellFormed_iff_table : WellFormed t ↔
    List.Forall₂ (Aligned (header :: rows t)) (header :: rows t) (Text.lines (table t)) := by
  constructor
  · rintro ⟨part, htext, hlines⟩
    have hpart : table t = part := by
      have hchars := congrArg String.toList htext
      simp only [text, String.toList_append, List.append_assoc, List.append_cancel_left_eq] at hchars
      exact String.toList_injective hchars
    rwa [hpart]
  · intro hlines
    exact ⟨table t, rfl, hlines⟩

theorem length_le_longest (h : row ∈ grid) (i : Nat) : (row.getD i "").length ≤ longest grid i := by
  apply List.le_max?_getD_of_mem
  exact List.mem_map_of_mem h

theorem length_widen {widths : List Nat} (h : row.length = widths.length) :
    (widen widths row).length = widths.length := by
  rw [widen, List.length_zipWith, h, Nat.min_self]

theorem getD_widen {widths : List Nat} (h : row.length = widths.length) (hi : i < widths.length) :
    (widen widths row).getD i 0 = max (widths.getD i 0) (row.getD i "").length := by
  have hrow : i < row.length := by omega
  simp only [widen, List.getD_eq_getElem?_getD, List.getElem?_zipWith, List.getElem?_eq_getElem hi,
    List.getElem?_eq_getElem hrow, Option.getD_some]

theorem foldl_widen {widths : List Nat} (h : ∀ row ∈ grid, row.length = widths.length) :
    (grid.foldl widen widths).length = widths.length ∧ ∀ i < widths.length,
      (grid.foldl widen widths).getD i 0 =
        (grid.map fun row => (row.getD i "").length).foldl max (widths.getD i 0) := by
  induction grid generalizing widths with
  | nil => exact ⟨rfl, fun _ _ => rfl⟩
  | cons row grid ih =>
    have hrow := h row List.mem_cons_self
    have hlength := length_widen hrow
    have hgrid : ∀ other ∈ grid, other.length = (widen widths row).length := by
      intro other hother
      exact (h other (List.mem_cons_of_mem _ hother)).trans hlength.symm
    obtain ⟨hcount, hvalue⟩ := ih hgrid
    refine ⟨hcount.trans hlength, fun i hi => ?_⟩
    rw [List.foldl_cons, hvalue i (hlength ▸ hi), getD_widen hrow hi]
    rfl

/-- Each column is as wide as its longest cell, that of the header included. -/
theorem getElem?_widths (h : ∀ row ∈ grid, row.length = header.length) (hi : i < header.length) :
    (widths grid)[i]? = some (longest (header :: grid) i) := by
  have hlength : (header.map String.length).length = header.length := List.length_map _
  obtain ⟨hcount, hvalue⟩ := foldl_widen fun row hrow => (h row hrow).trans hlength.symm
  have hwidths : i < (widths grid).length := by
    rw [widths, hcount, hlength]
    exact hi
  have hwidth : (widths grid).getD i 0 = longest (header :: grid) i := by
    have hheader : (header.map String.length).getD i 0 = (header.getD i "").length :=
      List.getD_map header "" String.length
    rw [widths, hvalue i (hlength.symm ▸ hi), hheader, longest, List.map_cons, List.max?_cons',
      Option.getD_some]
  rw [List.getElem?_eq_getElem hwidths, ← hwidth, List.getD_eq_getElem _ _ hwidths]

/-- What stands in a line for a cell: the cell, and spaces up to the next column. -/
def block (grid : List Row) (i : Nat) (cell : String) : List Char :=
  cell.toList ++ List.replicate (longest grid i + 2 - cell.length) ' '

/-- A line with all its white space, two spaces behind the last column included. -/
def full (grid : List Row) (row : Row) : List Char := (row.mapIdx (block grid)).flatten

theorem length_block {cell : String} (h : cell.length ≤ longest grid i) :
    (block grid i cell).length = longest grid i + 2 := by
  rw [block, List.length_append, String.length_toList, List.length_replicate]
  omega

theorem length_cell_le {cell : String} (h : row ∈ grid) (hcell : row[i]? = some cell) :
    cell.length ≤ longest grid i := by
  have hle := length_le_longest h i
  rwa [List.getD_eq_getElem?_getD, hcell] at hle

/-- The blocks in front of a column reach up to its offset. -/
theorem length_blocks (h : row ∈ grid) (hi : i ≤ row.length) :
    ((row.mapIdx (block grid)).take i).flatten.length = offset grid i := by
  induction i with
  | zero => rfl
  | succ i ih =>
    obtain ⟨cell, hcell⟩ : ∃ cell, row[i]? = some cell := ⟨_, List.getElem?_eq_getElem hi⟩
    rw [List.take_add_one, List.getElem?_mapIdx, hcell, List.flatten_append, List.length_append,
      ih (by omega), offset]
    simp [length_block (length_cell_le h hcell), Nat.add_assoc]

theorem length_full (h : row ∈ grid) : (full grid row).length = offset grid row.length := by
  have hall := length_blocks h (Nat.le_refl row.length)
  rwa [List.take_of_length_le (by simp)] at hall

/-- At the offset of a column stands the block of its cell. -/
theorem block_of_full (h : row ∈ grid) {cell : String} (hcell : row[i]? = some cell) :
    ((full grid row).drop (offset grid i)).take (longest grid i + 2) = block grid i cell := by
  have hi : i < row.length := (List.getElem?_eq_some_iff.mp hcell).1
  have hblock : (row.mapIdx (block grid))[i]? = some (block grid i cell) := by
    rw [List.getElem?_mapIdx, hcell]
    rfl
  obtain ⟨hi', hget⟩ := List.getElem?_eq_some_iff.mp hblock
  have hsplit : full grid row = ((row.mapIdx (block grid)).take i).flatten ++
      (block grid i cell ++ ((row.mapIdx (block grid)).drop (i + 1)).flatten) := by
    rw [← List.flatten_cons, ← List.flatten_append, ← hget, ← List.drop_eq_getElem_cons hi',
      List.take_append_drop]
    rfl
  rw [hsplit, List.drop_left' (length_blocks h (Nat.le_of_lt hi)),
    List.take_left' (length_block (length_cell_le h hcell))]

/-- A line with its white space dropped is aligned. -/
theorem aligned_of_full (h : row ∈ grid) : Aligned grid row (String.ofList (dropBlankEnd (full grid row))) := by
  obtain ⟨blanks, hblanks, hfull⟩ := exists_append_dropBlankEnd (full grid row)
  refine ⟨?_, blanks, hblanks, ?_, fun i cell hcell => ?_⟩
  · rw [String.toList_ofList]
    exact isBlank_getLast?_dropBlankEnd _
  · rw [String.toList_ofList, hfull, length_full h]
  · rw [String.toList_ofList, hfull, block_of_full h hcell, block]

theorem flatMap_gap {parts : List (List Char)} (h : parts ≠ []) (gap : List Char) :
    gap.intercalate parts ++ gap = parts.flatMap (· ++ gap) := by
  induction parts with
  | nil => exact absurd rfl h
  | cons part parts ih =>
    cases parts with
    | nil => simp [List.intercalate]
    | cons next parts =>
      have hrest := ih (List.cons_ne_nil next parts)
      rw [List.flatMap_cons, ← hrest]
      simp [List.intercalate]

/-- What is written for a row is its full line without the white space at the end, and a line feed. -/
theorem line_eq (hgrid : ∀ row ∈ grid, row.length = header.length) (hrow : row ∈ header :: grid)
    (hlength : row.length = header.length) :
    (line (widths grid) row).toList = dropBlankEnd (full (header :: grid) row) ++ ['\n'] := by
  -- each padded cell with two spaces behind it is the block of its column
  have hblocks : (List.zipWith pad (widths grid) row).map (fun part => part.toList ++ [' ', ' ']) =
      row.mapIdx (block (header :: grid)) := by
    apply List.ext_getElem?
    intro i
    rw [List.getElem?_map, List.getElem?_zipWith, List.getElem?_mapIdx]
    cases hcell : row[i]? with
    | none => cases (widths grid)[i]? <;> rfl
    | some cell =>
      have hi : i < row.length := (List.getElem?_eq_some_iff.mp hcell).1
      have hle := length_cell_le hrow hcell
      have hspaces : longest (header :: grid) i + 2 - cell.length =
          longest (header :: grid) i - cell.length + 2 := by omega
      rw [getElem?_widths hgrid (hlength ▸ hi)]
      simp only [Option.map_some, pad, block, hspaces, List.replicate_add, String.toList_append,
        String.toList_ofList, List.append_assoc]
      rfl
  have hparts : (List.zipWith pad (widths grid) row).map String.toList ≠ [] := by
    intro hnil
    rw [List.map_eq_nil_iff] at hnil
    rw [hnil] at hblocks
    have hcount := congrArg List.length hblocks
    rw [List.map_nil, List.length_mapIdx, hlength] at hcount
    cases hcount
  -- the two spaces behind the last cell fall away with the white space at the end
  have hgap : ∀ c ∈ [' ', ' '], isBlank c = true := by
    intro c hc
    obtain rfl : c = ' ' := by simpa using hc
    rfl
  have hfull : [' ', ' '].intercalate ((List.zipWith pad (widths grid) row).map String.toList) ++
      [' ', ' '] = full (header :: grid) row := by
    rw [flatMap_gap hparts, List.flatMap_map, full, ← hblocks]
    rfl
  rw [line, String.toList_append, trimEnd, String.toList_ofList, String.toList_intercalate,
    ← dropBlankEnd_append_of_blank hgap]
  exact congrArg (fun cs => dropBlankEnd cs ++ ['\n']) hfull

/-- A variable that has no line feed but among the white space at the end of what is written for it. -/
def OnOneLine (v : Variable) : Prop :=
  '\n' ∉ v.name.toList ∧ '\n' ∉ (trimEnd (v.value ++ v.semantic.getD "")).toList

instance (v : Variable) : Decidable (OnOneLine v) := inferInstanceAs (Decidable (_ ∧ _))

/-- Spaces aside, the full line of a row consists of its cells. -/
theorem filter_full (grid : List Row) (row : Row) : (full grid row).filter (· != ' ') =
    (row.flatMap String.toList).filter (· != ' ') := by
  have hblock (i : Nat) (cell : String) :
      (block grid i cell).filter (· != ' ') = cell.toList.filter (· != ' ') := by
    rw [block, List.filter_append, List.filter_replicate]
    exact List.append_nil _
  rw [full, List.filter_flatten, List.filter_flatMap]
  apply congrArg List.flatten
  apply List.ext_getElem?
  intro i
  rw [List.getElem?_map, List.getElem?_mapIdx, List.getElem?_map]
  cases row[i]? with
  | none => rfl
  | some cell => exact congrArg some (hblock i cell)

/-- Whether a line feed is kept depends on the cells alone. -/
theorem feed_mem_full_iff (grid : List Row) (row : Row) :
    '\n' ∈ dropBlankEnd (full grid row) ↔ '\n' ∈ dropBlankEnd (row.flatMap String.toList) := by
  have hspace : ∀ c, isBlank c = false → (c != ' ') = true := by
    intro c hc
    refine bne_iff_ne.mpr fun hspace => ?_
    rw [hspace] at hc
    cases hc
  have hkept (cs : List Char) : '\n' ∈ dropBlankEnd cs ↔ '\n' ∈ dropBlankEnd (cs.filter (· != ' ')) := by
    rw [dropBlankEnd_filter hspace, List.mem_filter]
    exact (and_iff_left rfl).symm
  rw [hkept, filter_full, ← hkept]

/-- The type of a variable is no white space, so that all in front of it is kept. -/
theorem feed_mem_rowOf_iff (grid : List Row) (v : Variable) :
    '\n' ∈ dropBlankEnd (full grid (rowOf v)) ↔ ¬ OnOneLine v := by
  have hcells : (rowOf v).flatMap String.toList =
      v.name.toList ++ v.type.name.toList ++ (v.value ++ v.semantic.getD "").toList := by
    simp [rowOf]
  have htype : dropBlankEnd (v.name.toList ++ v.type.name.toList) = v.name.toList ++ v.type.name.toList := by
    apply dropBlankEnd_of_getLast?
    intro c hc
    rw [List.getLast?_append] at hc
    cases htype : v.type <;> rw [htype] at hc <;> cases hc <;> decide
  have hfree : '\n' ∉ v.type.name.toList := by
    cases v.type <;> decide
  rw [feed_mem_full_iff, hcells, dropBlankEnd_append htype, OnOneLine, trimEnd, String.toList_ofList]
  simp only [List.mem_append, hfree, or_false, not_and_or, not_not]

theorem length_of_mem_rows (h : row ∈ rows t) : row.length = header.length := by
  obtain ⟨v, -, rfl⟩ := List.mem_map.mp h
  rfl

/-- A table is what is written for the header and for each row, with a line feed behind each. -/
theorem toList_table (h : rows t ≠ []) : (table t).toList =
    ((header :: rows t).map fun row => dropBlankEnd (full (header :: rows t) row)).flatMap
      (· ++ ['\n']) := by
  have hline : ∀ row ∈ header :: rows t, (line (widths (rows t)) row).toList =
      dropBlankEnd (full (header :: rows t) row) ++ ['\n'] := by
    intro row hrow
    refine line_eq (fun _ => length_of_mem_rows) hrow ?_
    rcases List.mem_cons.mp hrow with rfl | hrow
    · rfl
    · exact length_of_mem_rows hrow
  rw [table, if_neg h, String.toList_join, List.flatMap_map, List.flatMap_map]
  exact List.flatMap_congr hline

/-- The table of a template with a variable to show is well formed exactly if each such variable can be
written on one line. -/
theorem wellFormed_iff (h : rows t ≠ []) :
    WellFormed t ↔ ∀ v ∈ t.store.toList, v.hidden = false → OnOneLine v := by
  have hlines : Text.lines (table t) = (lineChars (((header :: rows t).map fun row =>
      dropBlankEnd (full (header :: rows t) row)).flatMap (· ++ ['\n']))).map String.ofList := by
    rw [Text.lines, toList_table h]
  rw [wellFormed_iff_table, hlines]
  constructor
  · intro hformed v hv hvisible
    have hcount := hformed.length_eq
    rw [List.length_map] at hcount
    -- as many lines as rows: what is written for a row has no line feed
    have hfree := length_lineChars_flatMap_iff.mp (hcount.symm.trans (List.length_map _).symm)
    have hrow : rowOf v ∈ rows t :=
      List.mem_map_of_mem (List.mem_filter.mpr ⟨hv, by rw [hvisible]; rfl⟩)
    have hnone := hfree _ (List.mem_map_of_mem (List.mem_cons_of_mem _ hrow))
    rwa [feed_mem_rowOf_iff, not_not] at hnone
  · intro hvariables
    have hfree : ∀ l ∈ (header :: rows t).map fun row => dropBlankEnd (full (header :: rows t) row),
        '\n' ∉ l := by
      intro l hl
      obtain ⟨row, hrow, rfl⟩ := List.mem_map.mp hl
      rcases List.mem_cons.mp hrow with rfl | hrow
      · rw [feed_mem_full_iff]
        exact fun hfeed => absurd ((dropBlankEnd_isPrefix _).subset hfeed) (by decide)
      · obtain ⟨v, hv, rfl⟩ := List.mem_map.mp hrow
        obtain ⟨hv, hvisible⟩ := List.mem_filter.mp hv
        rw [feed_mem_rowOf_iff, not_not]
        exact hvariables v hv (by simpa using hvisible)
    have hplain : ∀ l ∈ (header :: rows t).map fun row => dropBlankEnd (full (header :: rows t) row),
        l.getLast? ≠ some '\r' := by
      intro l hl hreturn
      obtain ⟨row, -, rfl⟩ := List.mem_map.mp hl
      cases isBlank_getLast?_dropBlankEnd _ _ hreturn
    rw [lineChars_flatMap_feed hfree hplain, List.map_map, List.forall₂_map_right_iff,
      List.forall₂_same]
    exact fun row hrow => aligned_of_full hrow

/-- A wide name, a semantic, and a value that ends with line feeds. -/
theorem wellFormed_wide :
    let files : FileSystem := ⟨.directory [("work", .directory [])], ["work"]⟩
    let source := "<Template><Var name=\"ÄÖÜ – Name\" semantic=\"projectName\">App</Var>" ++
      "<Var name=\"B\" type=\"Boolean\">true \n\n</Var><Var name=\"C\" hidden=\"1\">\n.</Var></Template>"
    ∃ t, ((Template.parse files ⟨"/work/t.xml"⟩ source).outcome {}).1.toOption = some t ∧ rows t ≠ [] ∧
      WellFormed t ∧ Text.lines (table t) =
        ["Name        Type     Default  Semantic", "ÄÖÜ – Name  String   App      projectName",
          "B           Boolean  true"] := by
  intro files source
  let t : Template := ⟨⟨"/work/t.xml"⟩, none, none, none, none, [⟨"/work"⟩], ⟨[Template.sourceExtension,
    ⟨"ÄÖÜ – Name", none, "App", some "projectName", .string, false⟩,
    ⟨"B", none, "true \n\n", none, .boolean, false⟩, ⟨"C", none, "\n.", none, .string, true⟩]⟩, []⟩
  have hparse : ((Template.parse files ⟨"/work/t.xml"⟩ source).outcome {}).1.toOption = some t := by
    decide +kernel
  have hrows : rows t ≠ [] := by decide +kernel
  have hlines : ∀ v ∈ t.store.toList, v.hidden = false → OnOneLine v := by decide +kernel
  exact ⟨t, hparse, hrows, (wellFormed_iff hrows).mpr hlines, by decide +kernel⟩

/-- A value of two lines takes two lines of the table. -/
theorem broken_by_value :
    let files : FileSystem := ⟨.directory [("work", .directory [])], ["work"]⟩
    ∃ t, ((Template.parse files ⟨"/work/t.xml"⟩
        "<Template><Var name=\"A\">x\ny</Var></Template>").outcome {}).1.toOption = some t ∧
      rows t = [["A", "String", "x\ny", ""]] ∧
      Text.lines (table t) = ["Name  Type    Default  Semantic", "A     String  x", "y"] ∧
      ¬ WellFormed t := by
  intro files
  let t : Template := ⟨⟨"/work/t.xml"⟩, none, none, none, none, [⟨"/work"⟩],
    ⟨[Template.sourceExtension, ⟨"A", none, "x\ny", none, .string, false⟩]⟩, []⟩
  have hlines : Text.lines (table t) = ["Name  Type    Default  Semantic", "A     String  x", "y"] := by
    decide +kernel
  refine ⟨t, by decide +kernel, by decide +kernel, hlines, fun hformed => ?_⟩
  have hcount := (wellFormed_iff_table.mp hformed).length_eq
  rw [hlines] at hcount
  cases hcount

end Stencil.Listing
