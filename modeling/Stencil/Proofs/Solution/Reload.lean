import Stencil.Proofs.Solution.RoundTrip

namespace Stencil.Solution

open Text (trim)

variable {path : Path} {line : String}

/-- What a line of a text can be for the solution. -/
inductive LineKind where
  | blank | format | minimum | header | block | globalSection
deriving DecidableEq

/-- What a line says: the kind it is of, and the text that the solution takes from it. Versions stand
behind what announces them, and lines of blocks and of the global section are taken with their white
space. -/
inductive Says : String → LineKind × String → Prop
  | blank {line : String} (h : trim line = "") : Says line (.blank, "")
  | format {line : String} {version : List Char}
    (h : Text.afterStart formatHeader.toList (trim line).toList = some version) :
    Says line (.format, trim (String.ofList version))
  | minimum {line : String} {key value : List Char}
    (h : Text.splitAtFirst '=' (trim line).toList = some (key, value))
    (hkey : trim (String.ofList key) = minimumVersionKey) :
    Says line (.minimum, trim (String.ofList value))
  | header (line : String) : Says line (.header, trim line)
  | block (line : String) : Says line (.block, line)
  | globalSection (line : String) : Says line (.globalSection, line)

/-- The texts of a kind, in the order of the lines that say them. -/
def textsOf (kind : LineKind) (said : List (LineKind × String)) : List String :=
  (said.filter (·.1 = kind)).map Prod.snd

@[simp]
theorem textsOf_concat (kind : LineKind) (said : List (LineKind × String)) (k : LineKind)
    (text : String) : textsOf kind (said ++ [(k, text)]) =
      if k = kind then textsOf kind said ++ [text] else textsOf kind said := by
  by_cases h : k = kind <;> simp [textsOf, h]

/-- A reading has what the lines before it say; of a version it has the last. -/
structure Reading.Holds (r : Reading) (said : List (LineKind × String)) : Prop where
  format : (textsOf .format said).getLast? = r.formatVersion
  minimum : (textsOf .minimum said).getLast? = r.minimumVersion
  header : textsOf .header said = r.header
  blocks : textsOf .block said =
    r.projects.flatMap (·.lines) ++ r.openProject.toList.flatMap (·.lines)
  globalSection : textsOf .globalSection said = r.globalSection

namespace Reading

variable {r r' : Reading} {said : List (LineKind × String)}

theorem Holds.empty : Holds {} [] := ⟨rfl, rfl, rfl, rfl, rfl⟩

namespace Holds

theorem blank (h : r.Holds said) : r.Holds (said ++ [(.blank, "")]) := by
  constructor <;> simp [h.format, h.minimum, h.header, h.blocks, h.globalSection]

theorem format_concat (h : r.Holds said) (version : String) :
    Holds { r with formatVersion := some version } (said ++ [(.format, version)]) := by
  constructor <;> simp [h.minimum, h.header, h.blocks, h.globalSection]

theorem minimum_concat (h : r.Holds said) (version : String) :
    Holds { r with minimumVersion := some version } (said ++ [(.minimum, version)]) := by
  constructor <;> simp [h.format, h.header, h.blocks, h.globalSection]

theorem header_concat (h : r.Holds said) (line : String) :
    Holds { r with header := r.header ++ [line] } (said ++ [(.header, line)]) := by
  constructor <;> simp [h.format, h.minimum, h.header, h.blocks, h.globalSection]

theorem globalSection_concat (h : r.Holds said) (line : String) :
    Holds { r with globalSection := r.globalSection ++ [line] } (said ++ [(.globalSection, line)]) := by
  constructor <;> simp [h.format, h.minimum, h.header, h.blocks, h.globalSection]

/-- A block begins. -/
theorem block_first (h : r.Holds said) (hopen : r.openProject = none) {p : SolutionProject}
    (hp : p.lines = [line]) : Holds { r with openProject := some p } (said ++ [(.block, line)]) := by
  constructor <;> simp [h.format, h.minimum, h.header, h.blocks, h.globalSection, hopen, hp]

/-- A block goes on, or ends. -/
theorem block_next (h : r.Holds said) {p : SolutionProject} (hp : r.openProject = some p) :
    Holds (r.addProjectLine p line) (said ++ [(.block, line)]) := by
  unfold addProjectLine
  dsimp only
  split <;> constructor <;>
    simp [h.format, h.minimum, h.header, h.blocks, h.globalSection, hp]

end Holds

/-- A line outside of blocks that declares nothing is in the header, unless it is blank or gives the
minimum version. -/
theorem addHeaderLine_takes (r : Reading) (line : String) :
    ∃ saying, Says line saying ∧ ∀ said, r.Holds said →
      (r.addHeaderLine (trim line)).Holds (said ++ [saying]) := by
  unfold addHeaderLine
  split
  · next key value hcut =>
    split
    · next hkey => exact ⟨_, .minimum hcut hkey, fun _ h => h.minimum_concat _⟩
    · exact ⟨_, .header line, fun _ h => h.header_concat _⟩
  · split
    · next hblank => exact ⟨_, .blank hblank, fun _ h => h.blank⟩
    · exact ⟨_, .header line, fun _ h => h.header_concat _⟩

/-- A line that is read adds what it says. -/
theorem addLine_takes (h : r.addLine path line = .ok r') :
    ∃ saying, Says line saying ∧ ∀ said, r.Holds said → r'.Holds (said ++ [saying]) := by
  unfold addLine at h
  split at h
  · cases h
    exact ⟨_, .globalSection line, fun _ h => h.globalSection_concat _⟩
  · next hglobal =>
    split at h
    · next p hp =>
      cases h
      exact ⟨_, .block line, fun _ h => h.block_next hp⟩
    · next hopen =>
      -- outside of all blocks the kinds of lines are tried in the order of the reader
      unfold addOuterLine at h
      simp only at h
      split at h
      · next version hformat =>
        cases h
        exact ⟨_, .format hformat, fun _ h => h.format_concat _⟩
      · split at h
        · next p hp =>
          cases h
          have hlines : p.lines = [line] := by rw [(projectOfLine?_eq_some hp).1]
          exact ⟨_, .block line, fun _ h => h.block_first hopen hlines⟩
        · split at h
          · cases h
          · split at h
            · cases h
              refine ⟨_, .globalSection line, fun _ h => ?_⟩
              have hgrown := h.globalSection_concat line
              rwa [not_ne_iff.mp hglobal] at hgrown
            · cases h
              exact addHeaderLine_takes r line

/-- Induction on the lines, with what those before them say. -/
theorem holds_of_foldlM {lines : List String} (hr : r.Holds said)
    (h : lines.foldlM (addLine path) r = .ok r') :
    ∃ more, List.Forall₂ Says lines more ∧ r'.Holds (said ++ more) := by
  induction lines generalizing r said with
  | nil =>
    cases h
    exact ⟨[], .nil, by simpa using hr⟩
  | cons line lines ih =>
    rw [List.foldlM_cons] at h
    obtain ⟨next, hstep, hrest⟩ := bind_eq_ok_iff.mp h
    obtain ⟨saying, hsaying, htakes⟩ := addLine_takes hstep
    obtain ⟨more, hmore, hholds⟩ := ih (htakes said hr) hrest
    exact ⟨saying :: more, .cons hsaying hmore, by simpa using hholds⟩

end Reading

/-- A solution consists of what the lines of a text say: the last versions that they give, and all other
lines that are not blank, in their order. -/
structure Keeps (s : Solution) (lines : List String) (said : List (LineKind × String)) : Prop where
  each : List.Forall₂ Says lines said
  format : (textsOf .format said).getLast? = some s.formatVersion
  minimum : (textsOf .minimum said).getLast? = s.minimumVersion
  header : textsOf .header said = s.header
  blocks : textsOf .block said = s.projects.flatMap (·.lines)
  globalSection : textsOf .globalSection said = s.globalSection

theorem keeps_of_parse {content : String} {s : Solution} (h : parse path content = .ok s) :
    ∃ said, s.Keeps (linesOf content) said := by
  obtain ⟨r, hread, hfinish⟩ := bind_eq_ok_iff.mp h
  obtain ⟨said, hsaid, hholds⟩ := Reading.holds_of_foldlM Reading.Holds.empty hread
  rw [List.nil_append] at hholds
  unfold Reading.finish at hfinish
  split at hfinish
  · cases hfinish
  · cases hfinish
  · next hopen hformat =>
    cases hfinish
    exact ⟨said, hsaid, hholds.format.trans hformat, hholds.minimum, hholds.header,
      by simpa [hopen] using hholds.blocks, hholds.globalSection⟩

/-- A solution that is read keeps the lines of its text, and its own text is read as the same
solution, which has the same text. -/
theorem reload_of_parse {path : Path} {content : String} {s : Solution}
    (h : parse path content = .ok s) :
    (∃ said, s.Keeps (linesOf content) said) ∧
      ∃ t, parse path s.text = .ok t ∧ t.formatVersion = s.formatVersion ∧
        t.minimumVersion = s.minimumVersion ∧ t.header = s.header ∧ t.projects = s.projects ∧
        (s.globalSection ≠ [] → t.globalSection = s.globalSection) ∧ t.text = s.text := by
  have hpath : s.path = path := by
    obtain ⟨r, version, -, -, rfl⟩ := exists_reading_of_parse h
    rfl
  have hparse := parse_text (faithful_parse h) (plain_of_parse h)
  rw [hpath] at hparse
  have hsame : s.globalSection ≠ [] → s.writtenGlobalSection = s.globalSection :=
    fun hne => if_neg hne
  exact ⟨keeps_of_parse h, _, hparse, rfl, rfl, rfl, rfl, hsame, s.text_writtenGlobalSection⟩

theorem linesOf_eq (content : String) :
    linesOf content = (Text.lineChars (content.toList.dropWhile (· = '\uFEFF'))).map fun line =>
      String.ofList (line.reverse.dropWhile (· = '\r')).reverse := by
  simp [linesOf, Text.lines, dropReturns, Function.comp_def]

/-- A text with a mark of its encoding, both kinds of breaks, versions that are given twice, a comment,
a section in a block, and lines after the global section. -/
def mixedText : String :=
  String.join ["\uFEFF\n Microsoft Visual Studio Solution File, Format Version 11\n",
    "MinimumVisualStudioVersion=9\r\n Microsoft Visual Studio Solution File, Format Version 12 \r\n",
    "# c\n\tMinimumVisualStudioVersion = 10.0 \r\n",
    "Project(\"\x7bT\x7d\")= \"a\",\"b\", \"\x7bG\x7d\"\r\n\tS\n\n EndProject \n",
    "Global\nEndGlobal\n\nx"]

theorem reload_mixedText :
    ∃ s, parse ⟨"g.sln"⟩ mixedText = .ok s ∧ s.formatVersion = "12" ∧
      s.minimumVersion = some "10.0" ∧ s.header = ["# c"] ∧
      s.projects.map (·.lines.length) = [4] ∧ s.globalSection.length = 4 ∧
      (∃ said, s.Keeps (linesOf mixedText) said) ∧
      ∃ t, parse ⟨"g.sln"⟩ s.text = .ok t ∧ t.formatVersion = s.formatVersion ∧
        t.minimumVersion = s.minimumVersion ∧ t.header = s.header ∧ t.projects = s.projects ∧
        t.globalSection = s.globalSection ∧ t.text = s.text := by
  have hlines : linesOf mixedText = ["", " Microsoft Visual Studio Solution File, Format Version 11",
      "MinimumVisualStudioVersion=9", " Microsoft Visual Studio Solution File, Format Version 12 ",
      "# c", "\tMinimumVisualStudioVersion = 10.0 ",
      "Project(\"\x7bT\x7d\")= \"a\",\"b\", \"\x7bG\x7d\"", "\tS", "", " EndProject ", "Global",
      "EndGlobal", "", "x"] := by
    rw [linesOf_eq, mixedText, String.toList_join]
    decide +kernel
  have hread : (parse ⟨"g.sln"⟩ mixedText).toOption.map (fun s =>
      (s.formatVersion, s.minimumVersion, s.header, s.projects.map (·.lines.length),
        s.globalSection.length)) = some ("12", some "10.0", ["# c"], [4], 4) := by
    rw [parse, hlines]
    decide +kernel
  obtain ⟨s, hs, hparts⟩ := Option.map_eq_some_iff.mp hread
  simp only [Prod.mk.injEq] at hparts
  obtain ⟨hversion, hlowest, hheader, hprojects, hglobal⟩ := hparts
  have hok {x : Except SolutionFault Solution} (hx : x.toOption = some s) : x = .ok s := by
    cases x with
    | ok s' => exact congrArg Except.ok (Option.some.inj hx)
    | error fault => exact nomatch hx
  have hparse := hok hs
  have hne : s.globalSection ≠ [] := by
    intro he
    simp [he] at hglobal
  obtain ⟨hkeeps, t, ht, hformat, hminimum, hheaders, hsame, hkept, htext⟩ := reload_of_parse hparse
  exact ⟨s, hparse, hversion, hlowest, hheader, hprojects, hglobal, hkeeps, t, ht, hformat,
    hminimum, hheaders, hsame, hkept hne, htext⟩

end Stencil.Solution
