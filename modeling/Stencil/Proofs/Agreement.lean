import Stencil.Proofs.Generation.Round
import Stencil.Proofs.Package.Admission
import Stencil.Proofs.Package.Mirror
import Stencil.Proofs.Package.Round

namespace Stencil

open FileSystem (Grown Passes Wrote)
open Journal (Warned)

variable {t : Template} {r r' : Renderer} {base : Path} {e : Entry} {done : List Entry} {s s' : Run}
  {p p' : PackageEntries × Expansion} {j k : Journal} {relative : String} {names : List String}

theorem Entry.leadsTo_of_gives (h : Expansion.Gives (e.resolveDestination r t) relative) :
    e.LeadsTo r t relative := by
  let before : Expansion := { journal := { strict := true }, guids := ⟨0, 0⟩ }
  obtain ⟨after, hrun, -⟩ := h before rfl
  exact ⟨before, after, hrun⟩

/-- How far a strict generation and a strict export have come side by side: the layout mirrors the
destination, both have the same files, and both have left out and told of as many entries. -/
structure Alongside (base : Path) (j k : Journal) (done : List Entry) (s : Run)
    (p : PackageEntries × Expansion) : Prop where
  passes : s.files.Passes [] base.moves
  mirrors : p.1.Mirrors s.files (base.placeFrom [])
  files : (p.1.files.map fun f => base.components ++ f.1.map .name).Perm
    (s.written.map fun w => w.destination.components)
  skipped : ∃ n, s.written.length + n = done.length ∧
    Warned Diagnostic.tellsOfFile n j s.expansion.journal ∧
    Warned Diagnostic.tellsOfDuplicate n k p.2.journal

/-- What is found at a target stands at the place that its relative path spells. -/
theorem at?_isSome_of_has {fs : FileSystem} (hb : base.isRooted = true)
    (hr : (Path.mk relative).isRooted = false) (hmoves : (Path.mk relative).moves = names.map .name)
    (h : fs.has (base.join ⟨relative⟩) = true) :
    (fs.at? (base.placeFrom [] ++ names)).isSome = true := by
  obtain ⟨place, hdenotes⟩ := FileSystem.has_iff.mp h
  obtain ⟨-, -, hsome⟩ := FileSystem.denotes_iff.mp hdenotes
  rwa [hdenotes.eq_placeFrom, placeFrom_target hb hr hmoves] at hsome

namespace Alongside

/-- Both leave an entry out. -/
theorem left (h : Alongside base j k done s p) (hsame : s'.files = s.files ∧ s'.written = s.written)
    (hsame' : p'.1 = p.1)
    (htold : Warned Diagnostic.tellsOfFile 1 s.expansion.journal s'.expansion.journal)
    (htold' : Warned Diagnostic.tellsOfDuplicate 1 p.2.journal p'.2.journal) :
    Alongside base j k (done ++ [e]) s' p' := by
  obtain ⟨hfiles, hwritten⟩ := hsame
  obtain ⟨n, hcount, hj, hk⟩ := h.skipped
  refine ⟨hfiles ▸ h.passes, by rw [hfiles, hsame']; exact h.mirrors,
    by rw [hwritten, hsame']; exact h.files, n + 1, ?_, hj.trans htold, hk.trans htold'⟩
  rw [hwritten, List.length_append, List.length_singleton]
  omega

/-- Both lay an entry out. -/
theorem laid {source target : Path} {file : PackageFile} (h : Alongside base j k done s p)
    (hpasses : s'.files.Passes [] base.moves) (hmirrors : p'.1.Mirrors s'.files (base.placeFrom []))
    (hwritten : s'.written = s.written ++ [⟨source, target⟩])
    (hfiles : p'.1.files.Perm (p.1.files ++ [(names, file)]))
    (htarget : target.components = base.components ++ names.map .name)
    (htold : Warned Diagnostic.tellsOfFile 0 s.expansion.journal s'.expansion.journal)
    (htold' : Warned Diagnostic.tellsOfDuplicate 0 p.2.journal p'.2.journal) :
    Alongside base j k (done ++ [e]) s' p' := by
  obtain ⟨n, hcount, hj, hk⟩ := h.skipped
  refine ⟨hpasses, hmirrors, ?_, n, ?_, hj.trans htold, hk.trans htold'⟩
  · have hmapped := hfiles.map fun f => base.components ++ f.1.map Component.name
    rw [List.map_append, List.map_singleton, ← htarget] at hmapped
    rw [hwritten, List.map_append, List.map_singleton]
    exact hmapped.trans (h.files.append_right _)
  · rw [hwritten, List.length_append, List.length_append, List.length_singleton,
      List.length_singleton]
    omega

/-- A round of the generation and one of the export for the same entry do the same. -/
theorem round (h : Alongside base j k done s p) (hb : base.isRooted = true)
    (hsame : e.resolveDestination r' t = e.resolveDestination r t)
    (hslash : ∀ relative, e.LeadsTo r t relative → '\\' ∉ relative.toList)
    (hround : Generation.Round r t base e s s') (hround' : Package.Round r' t e p p') :
    Alongside base j k (done ++ [e]) s' p' := by
  -- the names of the layout are the steps to the target
  have hsteps {relative : String} {names : List String}
      (hgives : Expansion.Gives (e.resolveDestination r t) relative)
      (hnames : PackageEntries.namesOf? relative = some names) :
      (Path.mk relative).isRooted = false ∧ (Path.mk relative).moves = names.map .name := by
    have hleads := Entry.leadsTo_of_gives hgives
    exact ⟨Entry.isRooted_of_leadsTo hleads,
      PackageEntries.moves_of_namesOf hnames (hslash relative hleads)⟩
  cases hround' with
  | @left relative file path hgives' hinsert hsame' htold' =>
    rw [hsame] at hgives'
    obtain ⟨names, hnames, hduplicate⟩ := PackageEntries.insert_duplicate hinsert
    have hthere := PackageEntries.at?_of_duplicate hduplicate
    rw [← h.mirrors.isSome_iff] at hthere
    cases hround with
    | left _ _ hkept htold => exact h.left hkept hsame' htold htold'
    | made hgives hfree hwrote =>
      -- nothing stands where a file is made
      obtain rfl := hgives.unique hgives'
      obtain ⟨hr, hmoves⟩ := hsteps hgives hnames
      obtain ⟨made, place, content, hgrown, hwrote⟩ := hwrote
      rw [free_of_written hb hr hmoves h.passes hfree hgrown hwrote] at hthere
      cases hthere
  | @laid relative file names hgives' hinsert htold' =>
    rw [hsame] at hgives'
    obtain ⟨hnames, hinserted⟩ := PackageEntries.insert_ok_iff.mp hinsert
    obtain ⟨hr, hmoves⟩ := hsteps hgives' hnames
    cases hround with
    | left hgives hhas _ _ =>
      -- nothing stands where a file is inserted
      obtain rfl := hgives.unique hgives'
      have hthere := at?_isSome_of_has hb hr hmoves hhas
      rw [h.mirrors.isSome_iff, PackageEntries.at?_of_insertAt hinserted] at hthere
      cases hthere
    | made hgives hfree hwrote hgained hwritten htold =>
      obtain rfl := hgives.unique hgives'
      obtain ⟨made, place, content, hgrown, hwrote⟩ := hwrote
      have hretains := hgrown.retains.trans hwrote.retains
      have hplace : place = base.placeFrom [] ++ names :=
        hwrote.place_eq.trans (placeFrom_target hb hr hmoves _)
      have hfile : s'.files.FileAt (base.placeFrom [] ++ names) :=
        hwrote.fileAt_iff.mpr (Or.inr hplace.symm)
      have hmirrors := h.mirrors.insert hretains
        (fun others hnone hsome => prefix_of_gained hb hr hmoves h.passes hgained hnone hsome) hfile
        hinserted
      exact h.laid (h.passes.mono hretains) hmirrors hwritten
        ((PackageEntries.enters_of_insertAt hinserted).files_perm [])
        (components_target hb hr hmoves) htold htold'

end Alongside

/-- Where a path lies behind a root, as long as its components start with those of the root. -/
def Path.behind? (root p : Path) : Option (List Component) :=
  p.components.dropPrefix? root.components

/-- Where the files that were written lie behind a root, in the order in which they were written. -/
def Report.layout (report : Report) (root : Path) : List (Option (List Component)) :=
  report.written.map fun w => root.behind? w.destination

/-- A generation and an export lay out the same: below their roots they have written files at the same
places, and they have left out and told of as many entries. -/
structure Agreement (entries : List Entry) (threshold : Level) (base output : Path)
    (generated exported : Report) : Prop where
  layout : (exported.layout output).Perm (generated.layout base)
  below : none ∉ generated.layout base
  skipped : ∃ n, generated.written.length + n = entries.length ∧
    exported.written.length + n = entries.length ∧
    (generated.diagnostics.filter Diagnostic.tellsOfFile).length =
      (if threshold ≤ .warning then n else 0) ∧
    (exported.diagnostics.filter Diagnostic.tellsOfDuplicate).length =
      if threshold ≤ .warning then n else 0

/-- What was written side by side lies at the same places. -/
theorem Alongside.layout {output : Path} {generated exported : Report}
    (h : Alongside base j k done s p) (houtput : output.isRooted = true)
    (hproper : PackageEntries.ProperFrom p.1) (hgenerated : generated.written = s.written)
    (hexported : exported.written =
      p.1.files.map fun (names, file) => ⟨file.source, output.join (pathOfNames names)⟩) :
    (exported.layout output).Perm (generated.layout base) ∧ none ∉ generated.layout base := by
  have hbehind (root way : List Component) : (root ++ way).dropPrefix? root = some way :=
    List.dropPrefix?_append_of_beq way (beq_self_eq_true root)
  -- what is cut off is the root on the one side and the base on the other
  have hpacked : exported.layout output = p.1.files.map fun f => some (f.1.map Component.name) := by
    unfold Report.layout
    rw [hexported, List.map_map]
    refine List.map_congr_left fun f hf => ?_
    have hwritten := PackageEntries.written_of_mem_files hproper hf
    obtain ⟨-, hr, hmoves⟩ := FileSystem.stepsOf_pathOfNames hwritten
    simp only [Function.comp_apply, Path.behind?, components_target houtput hr hmoves, hbehind]
  have hperm : (exported.layout output).Perm (generated.layout base) := by
    have hmapped := h.files.map (·.dropPrefix? base.components)
    rw [List.map_map, List.map_map] at hmapped
    simp only [Function.comp_def, hbehind] at hmapped
    rw [hpacked, Report.layout, hgenerated]
    exact hmapped
  refine ⟨hperm, fun hnone => ?_⟩
  have hmem := hperm.mem_iff.mpr hnone
  rw [hpacked] at hmem
  simp at hmem

/-- What two runs report that have come to their ends side by side. -/
theorem Alongside.agreement {entries : List Entry} {threshold : Level} {output : Path}
    {generated exported : Report} (h : Alongside base j k entries s p)
    (houtput : output.isRooted = true) (hproper : PackageEntries.ProperFrom p.1)
    (hempty : j.picked Diagnostic.tellsOfFile = (threshold, []) ∧
      k.picked Diagnostic.tellsOfDuplicate = (threshold, []))
    (hdiagnostics : generated.diagnostics = s.expansion.journal.records ∧
      exported.diagnostics = p.2.journal.records)
    (hgenerated : generated.written = s.written)
    (hexported : exported.written =
      p.1.files.map fun (names, file) => ⟨file.source, output.join (pathOfNames names)⟩) :
    Agreement entries threshold base output generated exported := by
  obtain ⟨hlayout, hbelow⟩ := h.layout houtput hproper hgenerated hexported
  obtain ⟨n, hcount, hj, hk⟩ := h.skipped
  have hlength : p.1.files.length = s.written.length := by
    have hlengths := h.files.length_eq
    rwa [List.length_map, List.length_map] at hlengths
  refine ⟨hlayout, hbelow, n, ?_, ?_, ?_, ?_⟩
  · rw [hgenerated, hcount]
  · rw [hexported, List.length_map, hlength, hcount]
  · rw [hdiagnostics.1, hj.length_eq hempty.1]
  · rw [hdiagnostics.2, hk.length_eq hempty.2]

/-- Both start with nothing laid out and nothing left out. -/
theorem Alongside.start {q : GenerationRequest} {begun : Run} {x : Expansion}
    (hbegun : Generation.Begun q base s begun) (hfresh : s.files.Fresh base) (hempty : s.written = [])
    (hj : begun.expansion.journal.picked Diagnostic.tellsOfFile = j.picked Diagnostic.tellsOfFile)
    (hk : x.journal.picked Diagnostic.tellsOfDuplicate = k.picked Diagnostic.tellsOfDuplicate) :
    Alongside base j k [] begun ([], x) := by
  have hb := Generation.isRooted_absolute hbegun.absolute
  have hnone : begun.written = [] := hbegun.written.trans hempty
  refine ⟨hbegun.passes, .empty hb (hfresh _ hbegun.made), ?_, 0, ?_, .of_picked hj, .of_picked hk⟩
  · rw [hnone]
    exact List.Perm.nil
  · rw [hnone]
    rfl

/-- A strict generation and a strict export that come to their ends have gone on side by side. -/
theorem alongside_of_steps {settings : Settings} {year : Nat} {q : GenerationRequest} {output : Path}
    {last last' : Run} (hrun : (Generation.steps t settings year q).outcome s = (.ok (), last))
    (hrun' : (Package.steps t settings year ⟨output, q.values, q.language⟩).outcome s' =
      (.ok (), last'))
    (hs : s.Strict) (hs' : s'.Strict) (hempty : s.written = []) (hsolution : q.solution = none)
    (hneutral : ∀ e ∈ t.projects.flatMap Project.entries,
      Renderer.NeutralText (t.variablesFor q.language q.values) e.destination)
    (hslash : ∀ e ∈ t.projects.flatMap Project.entries, ∀ relative,
      e.LeadsTo (Generation.renderer t settings year q) t relative → '\\' ∉ relative.toList)
    (hfresh : ∀ base ∈ q.destination.absolute? s.files.workingPath, s.files.Fresh base) :
    ∃ base ∈ q.destination.absolute? s.files.workingPath, ∃ p,
      ((Package.plan t settings year ⟨output, q.values, q.language⟩).outcome s').1 = .ok p ∧
      Alongside base s.expansion.journal s'.expansion.journal (t.projects.flatMap Project.entries) last
        (p.2.1, last'.expansion) := by
  have hguid : ∀ e ∈ t.projects.flatMap Project.entries, Renderer.Guidless e.destination :=
    fun e he => (hneutral e he).guidless
  obtain ⟨base, begun, hbegun, hj, hrounds⟩ := Generation.rounds_of_steps hguid hsolution hs hrun
  obtain ⟨p, x, planned, hplan, hk, hrounds', hlast⟩ := Package.rounds_of_steps hguid hs' hrun'
  have hb := Generation.isRooted_absolute hbegun.absolute
  -- both take a round for each entry, in the same order, so their rounds go together
  have hstart := Alongside.start hbegun (hfresh base hbegun.absolute) hempty hj hk
  have halong := hrounds.together hrounds' hstart fun done e he s₁ s₂ p₁ p₂ hbefore hround hround' =>
    hbefore.round hb (Entry.resolveDestination_of_neutral (hneutral e he) .parameters) (hslash e he)
      hround hround'
  obtain ⟨n, hcount, hgenerated, hexported⟩ := halong.skipped
  exact ⟨base, hbegun.absolute, p, hplan, halong.passes, halong.mirrors, halong.files, n, hcount,
    hgenerated, hexported.trans (.of_picked hlast)⟩

/-- A generation into a directory without entries and an export lay out the same if both succeed, and
skip as many entries as duplicates. No destination may be read differently for a package or have a
backslash, which separates names only there. -/
theorem layouts_agree (t : Template) (settings : Settings) (year : Nat) (q : GenerationRequest)
    (output : Path) (files files' : FileSystem) (guids guids' : GuidSource)
    (hsolution : q.solution = none)
    (hneutral : ∀ e ∈ t.projects.flatMap Project.entries,
      Renderer.NeutralText (t.variablesFor q.language q.values) e.destination)
    (hslash : ∀ e ∈ t.projects.flatMap Project.entries, ∀ relative,
      e.LeadsTo (Generation.renderer t settings year q) t relative → '\\' ∉ relative.toList)
    (hfresh : ∀ base ∈ q.destination.absolute? files.workingPath, files.Fresh base)
    (hgenerated : (generate t settings year q files guids).1.outcome = .success)
    (hexported : (exportPackage t settings year ⟨output, q.values, q.language⟩ files'
      guids').1.outcome = .success) :
    ∃ base ∈ q.destination.absolute? files.workingPath, ∃ root ∈ output.absolute? files'.workingPath,
      Agreement (t.projects.flatMap Project.entries) settings.threshold base root
        (generate t settings year q files guids).1
        (exportPackage t settings year ⟨output, q.values, q.language⟩ files' guids').1 := by
  have hmatched : Matched (Journal.strictness settings.threshold).ofRuns (Unreported fun _ => False)
      (Generation.steps t settings year q) :=
    Generation.matched_steps Journal.spoken_strictness t settings year q
  have hmatched' : Matched (Journal.strictness settings.threshold).ofRuns (Unreported fun _ => False)
      (Package.steps t settings year ⟨output, q.values, q.language⟩) :=
    Package.matched_steps Journal.spoken_strictness t Journal.matched_fatal settings year _
  -- both are strict runs that came to their ends, which show what is reported
  obtain ⟨last, hrun, -⟩ := Run.finish_success hmatched hgenerated
  obtain ⟨last', hrun', -⟩ := Run.finish_success hmatched' hexported
  obtain ⟨hreport, -⟩ := Run.finish_of_strict hmatched hrun
  obtain ⟨hreport', -⟩ := Run.finish_of_strict hmatched' hrun'
  have hs : (Run.start files guids { settings with strict := true }).Strict := rfl
  have hs' : (Run.start files' guids' { settings with strict := true }).Strict := rfl
  obtain ⟨base, hbase, p, hplan, halong⟩ :=
    alongside_of_steps hrun hrun' hs hs' rfl hsolution hneutral hslash hfresh
  obtain ⟨p', hplan', hroot, hproper, file, -, laid, copied, hloaded⟩ := Package.exists_loaded hrun'
  obtain rfl : p = p' := Except.ok.inj (hplan.symm.trans hplan')
  obtain ⟨rfl, -⟩ := hloaded.all rfl
  have hwritten' := Package.written_of_packed hloaded.packed
  refine ⟨base, hbase, p.1, hroot, ?_⟩
  rw [generate, exportPackage, hreport, hreport']
  exact halong.agreement (Generation.isRooted_absolute hroot) hproper ⟨rfl, rfl⟩ ⟨rfl, rfl⟩ rfl hwritten'

/-- A destination without tokens leads to itself. -/
theorem Entry.eq_of_leadsTo (h : Fragment.ofText e.destination = [.literal e.destination])
    (hleads : e.LeadsTo r t relative) : relative = e.destination := by
  obtain ⟨before, after, hrun⟩ := hleads
  unfold resolveDestination at hrun
  obtain ⟨text, s, htext, hrun⟩ := Attempt.outcome_bind_eq_ok_iff.mp hrun
  have hrender : (r.renderAt t.path e.position e.destination).outcome before =
      (.ok ("" ++ e.destination), before) := by
    unfold Renderer.renderAt
    rw [h]
    rfl
  obtain ⟨hsame, -⟩ := Prod.mk.inj (hrender.symm.trans htext)
  obtain rfl := Except.ok.inj hsame
  split at hrun
  · exact ((Expansion.reported_triple _ _).of_outcome (P := fun _ => True) trivial hrun).elim
  · cases hrun
    exact String.empty_append

/-- Two entries have the same destination in two spellings, and one of them is left out by both. -/
theorem layouts_agree_spellings :
    ∃ (files : FileSystem) (t : Template) (generated exported : Report),
      files = ⟨.directory [("work", .directory [("a.txt", .file "data".toUTF8),
        ("b.txt", .file "text".toUTF8)])], ["work"]⟩ ∧
      ((Template.parse files ⟨"/work/t.xml"⟩
        ("<Template><Project src=\"a.txt\"><File src=\"b.txt\" dst=\"sub/b.txt\"/>" ++
          "<File src=\"b.txt\" dst=\"./sub/b.txt\"/></Project></Template>")).outcome {}).1.toOption =
            some t ∧
      (generate t {} 2031 ⟨⟨"out"⟩, none, [], .cSharp⟩ files ⟨0, 0⟩).1 = generated ∧
      (exportPackage t {} 2031 ⟨⟨"pkg"⟩, [], .cSharp⟩ files ⟨0, 0⟩).1 = exported ∧
      generated.outcome = .success ∧ exported.outcome = .success ∧ generated.written.length = 2 ∧
      files.Fresh ⟨"/work/out"⟩ ∧
      ∃ base ∈ (Path.mk "out").absolute? files.workingPath,
        ∃ root ∈ (Path.mk "pkg").absolute? files.workingPath,
          Agreement (t.projects.flatMap Project.entries) .info base root generated exported := by
  let files : FileSystem := ⟨.directory [("work", .directory [("a.txt", .file "data".toUTF8),
    ("b.txt", .file "text".toUTF8)])], ["work"]⟩
  let p : Entry := ⟨"a.txt", ["/work/a.txt"], "a.txt", false, ⟨1, 11⟩⟩
  let f : Entry := ⟨"b.txt", ["/work/b.txt"], "sub/b.txt", false, ⟨1, 32⟩⟩
  let g : Entry := ⟨"b.txt", ["/work/b.txt"], "./sub/b.txt", false, ⟨1, 67⟩⟩
  let t : Template := ⟨⟨"/work/t.xml"⟩, none, none, none, none, [⟨"/work"⟩],
    ⟨[⟨"_sourceExt", some "Extension of source files.", "cs", none, .string, true⟩]⟩,
    [⟨p, [f, g]⟩]⟩
  let q : GenerationRequest := ⟨⟨"out"⟩, none, [], .cSharp⟩
  have hgenerated : (generate t {} 2031 q files ⟨0, 0⟩).1.outcome = .success := by decide +kernel
  have hexported : (exportPackage t {} 2031 ⟨⟨"pkg"⟩, [], .cSharp⟩ files ⟨0, 0⟩).1.outcome =
      .success := by decide +kernel
  have hwritten : (generate t {} 2031 q files ⟨0, 0⟩).1.written.length = 2 := by decide +kernel
  have hplain : ∀ e ∈ t.projects.flatMap Project.entries,
      Fragment.ofText e.destination = [.literal e.destination] := by decide +kernel
  have hclean : ∀ e ∈ t.projects.flatMap Project.entries, '\\' ∉ e.destination.toList := by
    decide +kernel
  have hneutral : ∀ e ∈ t.projects.flatMap Project.entries,
      Renderer.NeutralText (t.variablesFor q.language q.values) e.destination := by
    intro e he body place hbody
    rw [hplain e he] at hbody
    simp at hbody
  have hslash : ∀ e ∈ t.projects.flatMap Project.entries, ∀ relative,
      e.LeadsTo (Generation.renderer t {} 2031 q) t relative → '\\' ∉ relative.toList := by
    intro e he relative hleads
    rw [Entry.eq_of_leadsTo (hplain e he) hleads]
    exact hclean e he
  have hfresh : files.Fresh ⟨"/work/out"⟩ :=
    FileSystem.fresh_of_missing (by decide +kernel) (by decide +kernel) (by decide +kernel)
  have hout : (Path.mk "out").absolute? files.workingPath = some ⟨"/work/out"⟩ := by decide +kernel
  have hbase : ∀ base ∈ q.destination.absolute? files.workingPath, files.Fresh base := by
    intro base hmem
    obtain rfl := Option.some.inj (hout.symm.trans hmem)
    exact hfresh
  exact ⟨files, t, _, _, rfl, by decide +kernel, rfl, rfl, hgenerated, hexported, hwritten, hfresh,
    layouts_agree t {} 2031 q ⟨"pkg"⟩ files files ⟨0, 0⟩ ⟨0, 0⟩ rfl hneutral hslash hbase hgenerated
      hexported⟩

end Stencil
