import Stencil.Proofs.Path.Absolute
import Stencil.Proofs.Solution.ProjectLine
import Stencil.Proofs.Text.Lines

namespace Stencil.Solution

open Text (trim)

/-- Whether a text stays one line when a break is written after it. -/
def SingleLine (line : String) : Prop := '\n' ∉ line.toList ∧ line.toList.getLast? ≠ some '\r'

instance (line : String) : Decidable (SingleLine line) := inferInstanceAs (Decidable (_ ∧ _))

theorem toList_dropReturns (line : String) :
    (dropReturns line).toList = (line.toList.reverse.dropWhile (· = '\r')).reverse := by
  simp [dropReturns]

theorem singleLine_of_mem_linesOf {content line : String} (h : line ∈ linesOf content) :
    SingleLine line := by
  obtain ⟨whole, hwhole, rfl⟩ := List.mem_map.mp h
  obtain ⟨chars, hchars, rfl⟩ := List.mem_map.mp hwhole
  constructor
  · rw [toList_dropReturns, String.toList_ofList]
    intro hn
    apply Text.newline_notMem_of_mem_lineChars hchars
    exact List.mem_reverse.mp ((List.dropWhile_suffix _).subset (List.mem_reverse.mp hn))
  · rw [toList_dropReturns, List.getLast?_reverse]
    intro hr
    have hnot := List.head?_dropWhile_not (· = '\r') (String.ofList chars).toList.reverse
    rw [hr] at hnot
    exact absurd hnot (by decide)

theorem dropReturns_eq_self {line : String} (h : line.toList.getLast? ≠ some '\r') :
    dropReturns line = line := by
  apply String.toList_injective
  rw [toList_dropReturns]
  cases hr : line.toList.reverse with
  | nil => simp [List.reverse_eq_nil_iff.mp hr]
  | cons c rest =>
    have hc : c ≠ '\r' := by
      rintro rfl
      apply h
      rw [← List.head?_reverse, hr]
      rfl
    rw [List.dropWhile_cons_of_neg (by simpa using hc), ← hr, List.reverse_reverse]

/-- Lines with breaks after them are read as these lines. An empty line in front keeps the first
character of the text from being taken as a mark of its encoding. -/
theorem linesOf_join {lines : List String} (h : ∀ line ∈ lines, SingleLine line) :
    linesOf (String.join (("" :: lines).map (· ++ "\r\n"))) = "" :: lines := by
  have hbreak : "\r\n".toList = ['\r', '\n'] := by decide
  have htext : (String.join (("" :: lines).map (· ++ "\r\n"))).toList =
      (("" :: lines).map String.toList).flatMap (· ++ ['\r', '\n']) := by
    simp [String.toList_join, List.flatMap_map, hbreak]
  have hmark : ((("" :: lines).map String.toList).flatMap (· ++ ['\r', '\n'])).dropWhile
      (· = '\uFEFF') = (("" :: lines).map String.toList).flatMap (· ++ ['\r', '\n']) := rfl
  have hnone : ∀ l ∈ ("" :: lines).map String.toList, '\n' ∉ l := by
    intro l hl
    obtain ⟨line, hline, rfl⟩ := List.mem_map.mp hl
    rcases List.mem_cons.mp hline with rfl | hline
    · decide
    · exact (h line hline).1
  rw [linesOf, htext, hmark, Text.lines, String.toList_ofList, Text.lineChars_flatMap_break hnone,
    List.map_map, List.map_map]
  refine (List.map_congr_left fun line hline => ?_).trans (List.map_id _)
  simp only [Function.comp_apply, String.ofList_toList, id_eq]
  rcases List.mem_cons.mp hline with rfl | hline
  · rfl
  · exact dropReturns_eq_self (h line hline).2

/-- A trimmed text does not end with a carriage return. -/
theorem singleLine_trim {line : String} (h : '\n' ∉ line.toList) : SingleLine (trim line) := by
  rw [SingleLine, Text.toList_trim]
  refine ⟨fun hn => h (Text.trimChars_subset _ hn), fun hr => ?_⟩
  exact absurd (Text.isBlank_getLast?_trimChars _ _ hr) (by decide)

/-- Whether the next line is read as one outside of all blocks. -/
def Reading.Idle (r : Reading) : Prop := r.globalSection = [] ∧ r.openProject = none

/-- Lines that can be written, and that are read with an effect. -/
structure Rereads (path : Path) (lines : List String) (effect : Reading → Reading) : Prop where
  single : ∀ line ∈ lines, SingleLine line
  reads : ∀ r : Reading, r.Idle → lines.foldlM (Reading.addLine path) r = .ok (effect r)

variable {path : Path} {line : String} {r r' : Reading}

theorem addLine_of_idle (h : r.Idle) : r.addLine path line = r.addOuterLine path line := by
  simp only [Reading.addLine, h.1, h.2, ne_eq, not_true, if_false]

theorem rereads_line {effect : Reading → Reading} (hs : SingleLine line)
    (h : ∀ r : Reading, r.Idle → r.addOuterLine path line = .ok (effect r)) :
    Rereads path [line] effect := by
  refine ⟨fun l hl => List.mem_singleton.mp hl ▸ hs, fun r hr => ?_⟩
  rw [List.foldlM_cons, addLine_of_idle hr, h r hr]
  rfl

theorem projectOfLine?_of_trim {p : SolutionProject} (h : projectOfLine? (trim line) = some p) :
    projectOfLine? line = some { p with lines := [line] } := by
  simp only [projectOfLine?, Text.toList_trim, Text.trimChars_trimChars, Option.bind_eq_bind,
    Option.bind_eq_some_iff, Prod.exists] at h ⊢
  obtain ⟨r₁, h₁, t, r₂, h₂, r₃, h₃, r₄, h₄, n, r₅, h₅, r₆, h₆, q, r₇, h₇, r₈, h₈, r₉, h₉, g, r₁₀,
    h₁₀, h⟩ := h
  refine ⟨r₁, h₁, t, r₂, h₂, r₃, h₃, r₄, h₄, n, r₅, h₅, r₆, h₆, q, r₇, h₇, r₈, h₈, r₉, h₉, g, r₁₀,
    h₁₀, ?_⟩
  split at h
  · next hend =>
    cases h
    rw [if_pos hend]
  · cases h

/-- What holds of a line, and of the line without white space at its ends, that is part of the
header. -/
structure HeaderLike (line : String) : Prop where
  format : Text.afterStart formatHeader.toList (trim line).toList = none
  project : projectOfLine? line = none
  malformed : "Project(".isPrefixOf (trim line) = false
  global : trim line ≠ "Global"

theorem HeaderLike.trim (h : HeaderLike line) : HeaderLike (trim line) where
  format := by rw [Text.trim_trim]; exact h.format
  project := by
    cases hp : projectOfLine? (Text.trim line) with
    | none => rfl
    | some p => exact absurd (projectOfLine?_of_trim hp) (by simp [h.project])
  malformed := by rw [Text.trim_trim]; exact h.malformed
  global := by rw [Text.trim_trim]; exact h.global

theorem HeaderLike.addOuterLine (h : HeaderLike line) (r : Reading) :
    r.addOuterLine path line = .ok (r.addHeaderLine (Text.trim line)) := by
  simp only [Reading.addOuterLine, h.format, h.project, h.malformed, h.global]
  rfl

/-- A line that is neither empty nor gives the minimum version stays in the header. -/
theorem rereads_header (h : HeaderLike line) (hn : '\n' ∉ line.toList)
    (hkept : ∀ r : Reading, r.addHeaderLine (trim line) =
      { r with header := r.header ++ [trim line] }) :
    Rereads path [trim line] fun r => { r with header := r.header ++ [trim line] } := by
  apply rereads_line (singleLine_trim hn)
  intro r _
  rw [h.trim.addOuterLine, Text.trim_trim, hkept]

/-- The line that gives the minimum version. -/
def minimumLine (version : String) : String := s!"{minimumVersionKey} = {version}"

theorem toList_minimumLine (version : String) :
    (minimumLine version).toList = minimumVersionKey.toList ++ ([' ', '=', ' '] ++ version.toList) := by
  have hequals : " = ".toList = [' ', '=', ' '] := by decide
  simp only [minimumLine, toString, String.toList_append, hequals, List.append_assoc]

theorem headerLike_of_prefix (h : ['M', 'i', 'n'] <+: (trim line).toList) : HeaderLike line where
  format := by
    cases hf : Text.afterStart formatHeader.toList (trim line).toList with
    | none => rfl
    | some version =>
      have hp : formatHeader.toList <+: (trim line).toList := by
        rw [Text.eq_append_of_afterStart hf]
        exact List.prefix_append _ _
      exact absurd (List.prefix_of_prefix_length_le h hp (by decide)) (by decide)
  project := by
    cases hl : projectOfLine? line with
    | none => rfl
    | some p =>
      have hp := (projectOfLine?_eq_some hl).2.1
      rw [← Text.toList_trim] at hp
      exact absurd (List.prefix_of_prefix_length_le h hp (by decide)) (by decide)
  malformed := by
    rw [Bool.eq_false_iff]
    intro hl
    have hp := Path.isPrefixOf_iff.mp hl
    exact absurd (List.prefix_of_prefix_length_le h hp (by decide)) (by decide)
  global := by
    intro hl
    rw [hl] at h
    exact absurd h (by decide)

theorem trimChars_minimumLine (version : String) :
    Text.trimChars (minimumLine version).toList =
      (minimumVersionKey.toList ++ [' ']) ++ '=' :: Text.dropBlankEnd (' ' :: version.toList) := by
  have hstart : Text.trimChars (minimumVersionKey.toList ++ [' ', '=']) =
      minimumVersionKey.toList ++ [' ', '='] := by decide
  have hcut : (minimumLine version).toList =
      (minimumVersionKey.toList ++ [' ', '=']) ++ ' ' :: version.toList := by
    simp only [toList_minimumLine, List.append_assoc, List.cons_append, List.nil_append]
  rw [hcut, Text.trimChars_append hstart (by decide)]
  simp only [List.append_assoc, List.cons_append, List.nil_append]

theorem trim_dropBlankEnd {version : String} (h : trim version = version) :
    trim (String.ofList (Text.dropBlankEnd (' ' :: version.toList))) = version := by
  have hchars : Text.trimChars version.toList = version.toList := by
    rw [← Text.toList_trim, h]
  apply String.toList_injective
  rw [Text.toList_trim, String.toList_ofList]
  by_cases hne : version.toList = []
  · rw [hne]
    decide
  · rw [Text.dropBlankEnd_cons hchars hne, Text.trimChars_cons_of_blank (by decide), hchars]

theorem rereads_minimum {version : String} (h : trim version = version)
    (hn : '\n' ∉ version.toList) :
    Rereads path [minimumLine version] fun r => { r with minimumVersion := some version } := by
  have hlike : HeaderLike (minimumLine version) := by
    apply headerLike_of_prefix
    rw [Text.toList_trim, trimChars_minimumLine]
    exact (show ['M', 'i', 'n'] <+: minimumVersionKey.toList by decide).trans
      ((List.prefix_append _ _).trans (List.prefix_append _ _))
  apply rereads_line
  · constructor
    · rw [toList_minimumLine]
      intro hmem
      rcases List.mem_append.mp hmem with hmem | hmem
      · exact absurd hmem (by decide)
      · rcases List.mem_append.mp hmem with hmem | hmem
        · exact absurd hmem (by decide)
        · exact hn hmem
    · rw [toList_minimumLine, ← List.append_assoc, List.getLast?_append]
      intro hlast
      rcases Option.or_eq_some_iff.mp hlast with hlast | ⟨-, hlast⟩
      · rw [← h, Text.toList_trim] at hlast
        exact absurd (Text.isBlank_getLast?_trimChars _ _ hlast) (by decide)
      · exact absurd hlast (by decide)
  · intro r _
    have hkey : trim (String.ofList (minimumVersionKey.toList ++ [' '])) = minimumVersionKey := by
      decide
    rw [hlike.addOuterLine, Reading.addHeaderLine, Text.toList_trim, trimChars_minimumLine,
      Text.splitAtFirst_append (by decide)]
    simp only [hkey, if_true, trim_dropBlankEnd h]

theorem rereads_format {version : String} (h : trim version = version) (hne : version ≠ "")
    (hn : '\n' ∉ version.toList) :
    Rereads path [formatHeader ++ version] fun r => { r with formatVersion := some version } := by
  have hlast : ∀ c ∈ (formatHeader ++ version).toList.getLast?, Text.isBlank c = false := by
    intro c hc
    rw [String.toList_append, List.getLast?_append, Option.or_of_isSome (by simp [hne]), ← h,
      Text.toList_trim] at hc
    exact Text.isBlank_getLast?_trimChars _ c hc
  have hhead : ∀ c ∈ (formatHeader ++ version).toList.head?, Text.isBlank c = false := by
    intro c hc
    rw [String.toList_append, List.head?_append, Option.or_of_isSome (by decide)] at hc
    obtain rfl : 'M' = c := Option.some_inj.mp hc
    decide
  apply rereads_line
  · constructor
    · rw [String.toList_append]
      intro hmem
      rcases List.mem_append.mp hmem with hmem | hmem
      · exact absurd hmem (by decide)
      · exact hn hmem
    · exact fun hr => absurd (hlast _ hr) (by decide)
  · intro r _
    rw [Reading.addOuterLine, Text.toList_trim, Text.trimChars_eq_self hhead hlast,
      String.toList_append, Text.afterStart_append]
    simp only [String.ofList_toList, h]

/-- What the first line of a header gives as the version is not empty. -/
theorem format_ne_empty {version : List Char}
    (h : Text.afterStart formatHeader.toList (trim line).toList = some version) :
    trim (String.ofList version) ≠ "" := by
  intro he
  have hblank : ∀ c ∈ version, Text.isBlank c = true := by
    apply Text.trimChars_eq_nil_iff.mp
    rw [← String.toList_ofList (l := version), ← Text.toList_trim, he]
    rfl
  have hcut := Text.eq_append_of_afterStart h
  rw [Text.toList_trim] at hcut
  have hlast : ∃ c ∈ (formatHeader.toList ++ version).getLast?, Text.isBlank c = true := by
    rw [List.getLast?_append]
    cases hv : version.getLast? with
    | none => exact ⟨' ', by decide, by decide⟩
    | some c => exact ⟨c, rfl, hblank c (List.mem_of_getLast? hv)⟩
  obtain ⟨c, hc, hcblank⟩ := hlast
  rw [← hcut] at hc
  rw [Text.isBlank_getLast?_trimChars _ c hc] at hcblank
  cases hcblank

theorem singleLine_projectLine {typeGuid name way guid : List Char} (ht : '\n' ∉ typeGuid)
    (hn : '\n' ∉ name) (hw : '\n' ∉ way) (hg : '\n' ∉ guid) :
    SingleLine (String.ofList (projectLine typeGuid name way guid)) := by
  rw [SingleLine, String.toList_ofList, getLast?_projectLine]
  refine ⟨?_, by decide⟩
  simp [projectLine, opening, ht, hn, hw, hg]

theorem rereads_projectLine {p : SolutionProject} (h : projectOfLine? line = some p)
    (hs : SingleLine line) :
    Rereads path [line] fun r => { r with openProject := some p } := by
  apply rereads_line hs
  intro r _
  have hformat : Text.afterStart formatHeader.toList (trim line).toList = none := by
    cases hf : Text.afterStart formatHeader.toList (trim line).toList with
    | none => rfl
    | some version =>
      have hp : formatHeader.toList <+: Text.trimChars line.toList := by
        rw [← Text.toList_trim, Text.eq_append_of_afterStart hf]
        exact List.prefix_append _ _
      have ho := (projectOfLine?_eq_some h).2.1
      exact absurd (List.prefix_of_prefix_length_le ho hp (by decide)) (by decide)
  simp only [Reading.addOuterLine, hformat, h]

/-- A block goes on until its end, whatever its lines are. -/
theorem Rereads.addProjectLine (p : SolutionProject) (hs : SingleLine line)
    (h : Rereads path p.lines fun r => { r with openProject := some p }) :
    Rereads path (p.lines ++ [line]) fun r => r.addProjectLine p line := by
  constructor
  · intro l hl
    rcases List.mem_append.mp hl with hl | hl
    · exact h.single l hl
    · exact List.mem_singleton.mp hl ▸ hs
  · intro r hr
    rw [List.foldlM_append, h.reads r hr]
    simp only [bind, Except.bind, List.foldlM_cons, List.foldlM_nil, Reading.addLine, hr.1, ne_eq,
      not_true_eq_false, if_false, Reading.addProjectLine]
    rfl

theorem Rereads.addGlobalLine {lines : List String} (hs : SingleLine line) (hne : lines ≠ [])
    (h : Rereads path lines fun r => { r with globalSection := lines }) :
    Rereads path (lines ++ [line]) fun r => { r with globalSection := lines ++ [line] } := by
  constructor
  · intro l hl
    rcases List.mem_append.mp hl with hl | hl
    · exact h.single l hl
    · exact List.mem_singleton.mp hl ▸ hs
  · intro r hr
    rw [List.foldlM_append, h.reads r hr]
    simp [bind, Except.bind, Reading.addLine, hne, pure, Except.pure]

end Stencil.Solution
