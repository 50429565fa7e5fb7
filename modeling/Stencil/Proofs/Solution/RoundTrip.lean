import Stencil.Proofs.Solution.Location
import Stencil.Proofs.Solution.Rereading
import Stencil.Proofs.Triple

/-! Saving a solution and loading it again. Whatever text a solution was read from and whatever
projects were added, its text is read as the same solution exactly if no project's name or path has a
quote or a line feed. -/

namespace Stencil.Solution

open Text (trim)

variable {path : Path} {r r' : Reading} {line : String}

theorem Rereads.congr {lines : List String} {effect effect' : Reading → Reading}
    (h : Rereads path lines effect) (he : ∀ r : Reading, r.Idle → effect r = effect' r) :
    Rereads path lines effect' :=
  ⟨h.single, fun r hr => he r hr ▸ h.reads r hr⟩

/-- The parts of a reading are what their lines are read as. -/
structure Reading.Faithful (path : Path) (r : Reading) : Prop where
  format : ∀ v ∈ r.formatVersion,
    Rereads path [formatHeader ++ v] fun t => { t with formatVersion := some v }
  minimum : ∀ v ∈ r.minimumVersion,
    Rereads path [minimumLine v] fun t => { t with minimumVersion := some v }
  header : ∀ line ∈ r.header, Rereads path [line] fun t => { t with header := t.header ++ [line] }
  projects : ∀ p ∈ r.projects,
    p.Plain ∧ Rereads path p.lines fun t => { t with projects := t.projects ++ [p] }
  openProject : ∀ p ∈ r.openProject,
    p.Plain ∧ Rereads path p.lines fun t => { t with openProject := some p }
  globalSection : r.globalSection ≠ [] →
    Rereads path r.globalSection fun t => { t with globalSection := r.globalSection }

namespace Reading.Faithful

theorem empty : Faithful path {} where
  format := by simp
  minimum := by simp
  header := by simp
  projects := by simp
  openProject := by simp
  globalSection := by simp

theorem addGlobalLine (h : r.Faithful path) (hs : SingleLine line) (hg : r.globalSection ≠ []) :
    Faithful path { r with globalSection := r.globalSection ++ [line] } :=
  { h with globalSection := fun _ => (h.globalSection hg).addGlobalLine hs hg }

theorem addProjectLine (h : r.Faithful path) (hs : SingleLine line) {p : SolutionProject}
    (hp : p ∈ r.openProject) : Faithful path (r.addProjectLine p line) := by
  obtain ⟨hplain, hreads⟩ := h.openProject p hp
  have hgrown := hreads.addProjectLine p hs
  unfold Reading.addProjectLine at hgrown ⊢
  split
  · next hend =>
    simp only [hend, if_true] at hgrown
    refine { h with projects := fun q hq => ?_, openProject := by simp }
    rcases List.mem_append.mp hq with hq | hq
    · exact h.projects q hq
    · rw [List.mem_singleton.mp hq]
      exact ⟨hplain, hgrown.congr fun t ht => by rw [← ht.2]⟩
  · next hend =>
    simp only [hend, if_false] at hgrown
    refine { h with openProject := fun q hq => ?_ }
    obtain rfl := Option.mem_some_iff.mp hq
    exact ⟨hplain, hgrown⟩

theorem addHeaderLine (h : r.Faithful path) (hl : HeaderLike line) (hn : '\n' ∉ line.toList) :
    Faithful path (r.addHeaderLine (trim line)) := by
  have hkeep (hkept : ∀ t : Reading, t.addHeaderLine (trim line) =
      { t with header := t.header ++ [trim line] }) :
      Faithful path { r with header := r.header ++ [trim line] } := by
    refine { h with header := fun l hmem => ?_ }
    rcases List.mem_append.mp hmem with hmem | hmem
    · exact h.header l hmem
    · rw [List.mem_singleton.mp hmem]
      exact rereads_header hl hn hkept
  cases hcut : Text.splitAtFirst '=' (trim line).toList with
  | none =>
    by_cases he : trim line = ""
    · simpa only [Reading.addHeaderLine, hcut, if_pos he] using h
    · simpa only [Reading.addHeaderLine, hcut, if_neg he] using
        hkeep fun t => by simp only [Reading.addHeaderLine, hcut, if_neg he]
  | some cut =>
    obtain ⟨key, value⟩ := cut
    by_cases hkey : trim (String.ofList key) = minimumVersionKey
    · simp only [Reading.addHeaderLine, hcut, hkey, if_true]
      refine { h with minimum := fun v hv => ?_ }
      obtain rfl := Option.mem_some_iff.mp hv
      apply rereads_minimum (Text.trim_trim _)
      intro hmem
      rw [Text.toList_trim, String.toList_ofList] at hmem
      apply hn
      apply Text.trimChars_subset
      rw [← Text.toList_trim, (Text.splitAtFirst_eq_some_iff.mp hcut).2]
      exact List.mem_append_right _ (List.mem_cons_of_mem _ (Text.trimChars_subset _ hmem))
    · simpa only [Reading.addHeaderLine, hcut, hkey, if_false] using
        hkeep fun t => by simp only [Reading.addHeaderLine, hcut, hkey, if_false]

theorem addOuterLine (h : r.Faithful path) (hs : SingleLine line)
    (h' : r.addOuterLine path line = .ok r') : r'.Faithful path := by
  unfold Reading.addOuterLine at h'
  simp only at h'
  split at h'
  · next version hformat =>
    obtain rfl := Except.ok.inj h'
    refine { h with format := fun v hv => ?_ }
    -- a version is written on a line of its own, so it must not break one
    obtain rfl := Option.mem_some_iff.mp hv
    apply rereads_format (Text.trim_trim _) (format_ne_empty hformat)
    intro hmem
    rw [Text.toList_trim, String.toList_ofList] at hmem
    apply hs.1
    apply Text.trimChars_subset
    rw [← Text.toList_trim, Text.eq_append_of_afterStart hformat]
    exact List.mem_append_right _ (Text.trimChars_subset _ hmem)
  · next hformat =>
    split at h'
    · next p hp =>
      obtain rfl := Except.ok.inj h'
      refine { h with openProject := fun q hq => ?_ }
      obtain rfl := Option.mem_some_iff.mp hq
      have hline := (projectOfLine?_eq_some hp).1
      exact ⟨(projectOfLine?_eq_some hp).2.2 hs.1, hline ▸ rereads_projectLine hp hs⟩
    · next hp =>
      split at h'
      · simp at h'
      · next hmalformed =>
        split at h'
        · next hglobal =>
          obtain rfl := Except.ok.inj h'
          refine { h with globalSection := fun _ => rereads_line hs fun t ht => ?_ }
          simp only [Reading.addOuterLine, hp, hglobal]
          rfl
        · next hglobal =>
          obtain rfl := Except.ok.inj h'
          exact h.addHeaderLine ⟨hformat, hp, by simpa using hmalformed, hglobal⟩ hs.1

theorem addLine (h : r.Faithful path) (hs : SingleLine line)
    (h' : Reading.addLine path r line = .ok r') : r'.Faithful path := by
  unfold Reading.addLine at h'
  split at h'
  · next hg =>
    cases h'
    exact h.addGlobalLine hs hg
  · split at h'
    · next p hp =>
      cases h'
      exact h.addProjectLine hs hp
    · exact h.addOuterLine hs h'

theorem foldlM {lines : List String} (h : r.Faithful path) (hs : ∀ line ∈ lines, SingleLine line)
    (h' : lines.foldlM (Reading.addLine path) r = .ok r') : r'.Faithful path := by
  induction lines generalizing r with
  | nil =>
    cases h'
    exact h
  | cons line lines ih =>
    rw [List.foldlM_cons] at h'
    obtain ⟨next, hstep, hrest⟩ := bind_eq_ok_iff.mp h'
    exact ih (h.addLine (hs line List.mem_cons_self) hstep)
      (fun l hl => hs l (List.mem_cons_of_mem _ hl)) hrest

end Reading.Faithful

/-- Solutions that are created or read, and then have projects added. -/
inductive Reachable : Solution → Prop
  | created (path : Path) : Reachable (create path)
  | parsed {path : Path} {content : String} {s : Solution} (h : parse path content = .ok s) :
    Reachable s
  | grown {s grown : Solution} {workingDirectory project : Path} {guid : Guid} {added : Bool}
    (h : Reachable s) (h' : s.addProject workingDirectory guid project = .ok (grown, added)) :
    Reachable grown

/-- The parts of a solution are what their lines are read as, projects as far as they are plain. -/
structure Faithful (s : Solution) : Prop where
  format : Rereads s.path [formatHeader ++ s.formatVersion]
    fun t => { t with formatVersion := some s.formatVersion }
  minimum : ∀ v ∈ s.minimumVersion,
    Rereads s.path [minimumLine v] fun t => { t with minimumVersion := some v }
  header : ∀ line ∈ s.header, Rereads s.path [line] fun t => { t with header := t.header ++ [line] }
  projects : ∀ p ∈ s.projects, p.Plain →
    Rereads s.path p.lines fun t => { t with projects := t.projects ++ [p] }
  globalSection : s.globalSection ≠ [] →
    Rereads s.path s.globalSection fun t => { t with globalSection := s.globalSection }

theorem faithful_create (path : Path) : (create path).Faithful where
  format := rereads_format (by decide : trim "12.00" = "12.00") (by simp [create])
    (by simp [create])
  minimum := by
    intro v hv
    cases hv
    exact rereads_minimum (by decide) (by decide)
  header := by simp [create]
  projects := by simp [create]
  globalSection := by simp [create]

/-- A solution that is read comes from a reading that is complete. -/
theorem exists_reading_of_parse {content : String} {s : Solution}
    (h : parse path content = .ok s) :
    ∃ (r : Reading) (version : String), r.Faithful path ∧ r.formatVersion = some version ∧
      s = ⟨path, version, r.minimumVersion, r.header, r.projects, r.globalSection⟩ := by
  obtain ⟨r, hread, hfinish⟩ := bind_eq_ok_iff.mp h
  have hfaithful : r.Faithful path :=
    Reading.Faithful.empty.foldlM (fun line hl => singleLine_of_mem_linesOf hl) hread
  unfold Reading.finish at hfinish
  split at hfinish
  · cases hfinish
  · cases hfinish
  · next hformat =>
    cases hfinish
    exact ⟨r, _, hfaithful, hformat, rfl⟩

theorem faithful_parse {content : String} {s : Solution} (h : parse path content = .ok s) :
    s.Faithful := by
  obtain ⟨r, version, hr, hformat, rfl⟩ := exists_reading_of_parse h
  exact ⟨hr.format _ hformat, hr.minimum, hr.header, fun p hp _ => (hr.projects p hp).2,
    hr.globalSection⟩

/-- A project that is read has neither quotes nor line feeds in its name and path. -/
theorem plain_of_parse {content : String} {s : Solution} (h : parse path content = .ok s) :
    ∀ p ∈ s.projects, p.Plain := by
  obtain ⟨r, version, hr, -, rfl⟩ := exists_reading_of_parse h
  exact fun p hp => (hr.projects p hp).1

/-- The block of an added project is read as this project if its name and path are plain. -/
theorem rereads_newProject (language : Language) (guid : Guid) {name way : String}
    (hname : '"' ∉ name.toList ∧ '\n' ∉ name.toList)
    (hway : '"' ∉ way.toList ∧ '\n' ∉ way.toList) :
    Rereads path (newProject language name way (guid.text.map Char.toUpper)).lines
      fun t => { t with projects :=
        t.projects ++ [newProject language name way (guid.text.map Char.toUpper)] } := by
  have htype := plain_of_mem_projectType language
  have hguid := plain_of_mem_guid guid
  have hlines := lines_newProject language name way (guid.text.map Char.toUpper)
  set line := String.ofList (projectLine language.projectType.toList name.toList way.toList
    (guid.text.map Char.toUpper).toList)
  have hread : projectOfLine? line =
      some ⟨language.projectType, name, way, guid.text.map Char.toUpper, [line]⟩ := by
    rw [projectOfLine?_projectLine (fun h => (htype _ h).1 rfl) (projectType_ne_nil language) hname.1
      hway.1 (fun h => (hguid _ h).1 rfl) (guid_ne_nil guid)]
    simp only [String.ofList_toList]
    rfl
  have hs : SingleLine line :=
    singleLine_projectLine (fun h => (htype _ h).2 rfl) hname.2 hway.2 fun h => (hguid _ h).2 rfl
  have hend : SingleLine "EndProject" := by decide
  have hfirst : Rereads path [line] _ := rereads_projectLine hread hs
  have hblock := Rereads.addProjectLine
    ⟨language.projectType, name, way, guid.text.map Char.toUpper, [line]⟩ hend hfirst
  have hnew : newProject language name way (guid.text.map Char.toUpper) =
      ⟨language.projectType, name, way, guid.text.map Char.toUpper, [line, "EndProject"]⟩ := by
    rw [← hlines]
    rfl
  rw [hnew]
  apply hblock.congr
  intro t ht
  have hlast : trim "EndProject" = "EndProject" := by decide
  simp only [Reading.addProjectLine, hlast, if_true, List.singleton_append, ← ht.2]

theorem addProject_eq {s grown : Solution} {workingDirectory project : Path} {guid : Guid}
    {added : Bool} (h : s.addProject workingDirectory guid project = .ok (grown, added)) :
    grown = s ∨ ∃ language : Language, grown =
      { s with projects := s.projects ++ [newProject language (project.stem?.getD "")
        (s.projectPath workingDirectory project) (guid.text.map Char.toUpper)] } := by
  cases added with
  | true => exact Or.inr (addProject_eq_added h)
  | false =>
    left
    unfold addProject at h
    split at h
    · cases h
    · simp only at h
      split at h
      · cases h
        rfl
      · cases h

theorem faithful_addProject {s grown : Solution} {workingDirectory project : Path} {guid : Guid}
    {added : Bool} (h : s.Faithful)
    (h' : s.addProject workingDirectory guid project = .ok (grown, added)) : grown.Faithful := by
  rcases addProject_eq h' with rfl | ⟨language, rfl⟩
  · exact h
  · refine ⟨h.format, h.minimum, h.header, fun p hp hplain => ?_, h.globalSection⟩
    rcases List.mem_append.mp hp with hp | hp
    · exact h.projects p hp hplain
    · rw [List.mem_singleton.mp hp] at hplain ⊢
      exact rereads_newProject language guid hplain.1 hplain.2

theorem Reachable.faithful {s : Solution} (h : Reachable s) : s.Faithful := by
  induction h with
  | created path => exact faithful_create path
  | parsed h => exact faithful_parse h
  | grown h h' ih => exact faithful_addProject ih h'

theorem Rereads.append {lines lines' : List String} {effect effect' : Reading → Reading}
    (h : Rereads path lines effect) (h' : Rereads path lines' effect')
    (hidle : ∀ r : Reading, r.Idle → (effect r).Idle) :
    Rereads path (lines ++ lines') fun r => effect' (effect r) := by
  constructor
  · intro l hl
    rcases List.mem_append.mp hl with hl | hl
    · exact h.single l hl
    · exact h'.single l hl
  · intro r hr
    rw [List.foldlM_append, h.reads r hr]
    exact h'.reads _ (hidle r hr)

theorem rereads_nil : Rereads path [] id := ⟨by simp, fun _ _ => rfl⟩

theorem rereads_empty_line : Rereads path [""] id := by
  have hlike : HeaderLike "" := ⟨by decide, by decide, by decide, by decide⟩
  apply rereads_line (by decide)
  intro r _
  rw [hlike.addOuterLine]
  rfl

theorem rereads_headers {lines : List String}
    (h : ∀ line ∈ lines, Rereads path [line] fun t => { t with header := t.header ++ [line] }) :
    Rereads path lines fun t => { t with header := t.header ++ lines } := by
  induction lines with
  | nil => exact rereads_nil.congr fun r _ => by simp
  | cons line lines ih =>
    have hrest := ih fun l hl => h l (List.mem_cons_of_mem _ hl)
    exact ((h line List.mem_cons_self).append hrest fun r hr => hr).congr fun r _ => by simp

theorem rereads_projects {projects : List SolutionProject}
    (h : ∀ p ∈ projects, Rereads path p.lines fun t => { t with projects := t.projects ++ [p] }) :
    Rereads path (projects.flatMap (·.lines)) fun t =>
      { t with projects := t.projects ++ projects } := by
  induction projects with
  | nil => exact rereads_nil.congr fun r _ => by simp
  | cons p projects ih =>
    have hrest := ih fun q hq => h q (List.mem_cons_of_mem _ hq)
    exact ((h p List.mem_cons_self).append hrest fun r hr => hr).congr fun r _ => by simp

theorem rereads_minimumVersion {minimum : Option String}
    (h : ∀ v ∈ minimum, Rereads path [minimumLine v] fun t => { t with minimumVersion := some v }) :
    Rereads path (minimum.toList.map minimumLine) fun t =>
      { t with minimumVersion := minimum.or t.minimumVersion } := by
  cases minimum with
  | none => exact rereads_nil
  | some v => exact h v rfl

/-- The global section that the text of a solution has. -/
def writtenGlobalSection (s : Solution) : List String :=
  if s.globalSection = [] then defaultGlobalSection else s.globalSection

theorem rereads_defaultGlobalSection :
    Rereads path defaultGlobalSection fun t => { t with globalSection := defaultGlobalSection } := by
  have hfirst : Rereads path ["Global"] fun t => { t with globalSection := ["Global"] } := by
    apply rereads_line (by decide)
    intro r _
    have htrim : trim "Global" = "Global" := by decide
    have hformat : Text.afterStart formatHeader.toList "Global".toList = none := by decide
    have hproject : projectOfLine? "Global" = none := by decide
    have hmalformed : "Project(".isPrefixOf "Global" = false := by decide
    simp only [Reading.addOuterLine, htrim, hformat, hproject, hmalformed]
    rfl
  exact (((hfirst.addGlobalLine (by decide) (by decide)).addGlobalLine (by decide) (by decide)
    ).addGlobalLine (by decide) (by decide)).addGlobalLine (by decide) (by decide)

theorem rereads_globalSection {s : Solution} (h : s.Faithful) :
    Rereads s.path s.writtenGlobalSection fun t =>
      { t with globalSection := s.writtenGlobalSection } := by
  unfold writtenGlobalSection
  split
  · exact rereads_defaultGlobalSection
  · next hne => exact h.globalSection hne

/-- The text of a solution without quotes and line feeds in its projects is read as this solution,
with the global section that was written. -/
theorem parse_text {s : Solution} (h : s.Faithful) (hp : ∀ p ∈ s.projects, p.Plain) :
    parse s.path s.text = .ok { s with globalSection := s.writtenGlobalSection } := by
  have hlines : s.textLines = "" :: ([formatHeader ++ s.formatVersion] ++ s.header ++
      s.minimumVersion.toList.map minimumLine ++ s.projects.flatMap (·.lines) ++
      s.writtenGlobalSection) := rfl
  have hall := ((((h.format.append (rereads_headers h.header) fun r hr => hr).append
    (rereads_minimumVersion h.minimum) fun r hr => hr).append
    (rereads_projects fun p hmem => h.projects p hmem (hp p hmem)) fun r hr => hr).append
    (rereads_globalSection h) fun r hr => hr)
  have hidle : (Reading.mk none none [] [] [] none).Idle := ⟨rfl, rfl⟩
  have hread := (rereads_empty_line.append hall fun r hr => hr).reads _ hidle
  rw [parse, text, hlines, linesOf_join hall.single]
  rw [List.singleton_append] at hread
  rw [hread]
  simp [bind, Except.bind, Reading.finish]

/-- The global section that was written stands in the text either way. -/
theorem text_writtenGlobalSection (s : Solution) :
    text { s with globalSection := s.writtenGlobalSection } = s.text := by
  simp only [text, textLines, writtenGlobalSection]
  by_cases hne : s.globalSection = []
  · simp [hne, defaultGlobalSection]
  · simp [hne]

/-- What a solution says about its projects. -/
def entries (s : Solution) : List (String × String × String × String) :=
  s.projects.map fun p => (p.typeGuid, p.name, p.path, p.guid)

/-- Projects that a text is read with are plain, so no others are read back. -/
theorem plain_of_entries_eq {content : String} {s t : Solution} (h : parse path content = .ok t)
    (he : t.entries = s.entries) : ∀ p ∈ s.projects, p.Plain := by
  intro p hp
  have hmem : (p.typeGuid, p.name, p.path, p.guid) ∈ t.entries := by
    rw [he]
    exact List.mem_map.mpr ⟨p, hp, rfl⟩
  obtain ⟨q, hq, heq⟩ := List.mem_map.mp hmem
  simp only [Prod.mk.injEq] at heq
  obtain ⟨-, hname, hpath, -⟩ := heq
  have hplain := plain_of_parse h q hq
  rwa [SolutionProject.Plain, hname, hpath] at hplain

/-- The text of a solution is read with the same versions and projects exactly if no project's name
or path has a quote or a line feed. -/
theorem reread_iff {s : Solution} (h : Reachable s) :
    (∃ t, parse s.path s.text = .ok t ∧ t.formatVersion = s.formatVersion ∧
        t.minimumVersion = s.minimumVersion ∧ t.entries = s.entries) ↔
      ∀ p ∈ s.projects, p.Plain := by
  constructor
  · rintro ⟨t, hparse, -, -, hentries⟩
    exact plain_of_entries_eq hparse hentries
  · intro hp
    exact ⟨_, parse_text h.faithful hp, rfl, rfl, rfl⟩

/-- Braces, commas and carriage returns in the name of a project are read again. -/
theorem reread_braces :
    ∃ grown, (create ⟨"g.sln"⟩).addProject ⟨"/work"⟩ ⟨0⟩ ⟨"/work/b, \x7bc\x7d\r.fsproj"⟩ =
        .ok (grown, true) ∧
      Reachable grown ∧ ∃ t, parse grown.path grown.text = .ok t ∧
        t.formatVersion = grown.formatVersion ∧ t.minimumVersion = grown.minimumVersion ∧
        t.entries = grown.entries := by
  have hreach := Reachable.grown (.created ⟨"g.sln"⟩)
    (show addProject _ ⟨"/work"⟩ ⟨0⟩ ⟨"/work/b, \x7bc\x7d\r.fsproj"⟩ = .ok (_, true) from rfl)
  exact ⟨_, rfl, hreach, (reread_iff hreach).mpr (by decide +kernel)⟩

/-- A quote in the name of a project ends the name, so this name is never read again. -/
theorem reread_quote_fails :
    ∃ grown, (create ⟨"g.sln"⟩).addProject ⟨"/work/projects"⟩ ⟨0⟩
        ⟨"/work/projects/a\"b.csproj"⟩ = .ok (grown, true) ∧
      Reachable grown ∧ (Path.mk "/work/projects/a\"b.csproj").isRooted = true ∧
      ¬ ∃ t, parse grown.path grown.text = .ok t ∧ t.entries = grown.entries := by
  have hreach := Reachable.grown (.created ⟨"g.sln"⟩)
    (show addProject _ ⟨"/work/projects"⟩ ⟨0⟩ ⟨"/work/projects/a\"b.csproj"⟩ = .ok (_, true) from rfl)
  refine ⟨_, rfl, hreach, by decide, ?_⟩
  rintro ⟨t, hparse, hentries⟩
  have hplain := plain_of_entries_eq hparse hentries _ List.mem_cons_self
  revert hplain
  decide +kernel

end Stencil.Solution
