import Stencil.Proofs.Comparison.Flawless
import Stencil.Proofs.Generation.Preservation
import Stencil.Proofs.Package.Completion
import Stencil.Proofs.Package.Parts

namespace Stencil

open FileSystem (Grown Wrote)
open Stencil.Path (Written)

variable {made : FileSystem} {names : List String} {output : Path} {r : Renderer} {t : Template}

/-- A run has put parts into an output, and noted those of them that are noted. -/
structure Packed (r : Renderer) (output : Path) (made : FileSystem) (strict : Bool)
    (parts : List Part) (s : Run) : Prop where
  shipped : Shipped r (output.placeFrom []) made parts s.files
  written : s.written = parts.filterMap (Part.note? output)
  strict : s.expansion.journal.strict = strict

/-- A step puts some of its parts into an output, and all of them if the run is strict. -/
def Loads (r : Renderer) (output : Path) (made : FileSystem) (strict : Bool)
    (x : Attempt Run Unit) (more : List Part) : Prop :=
  ∀ parts, Triple (Packed r output made strict parts) x
    (fun _ s => ∃ kept, kept.Sublist more ∧ (strict = true → kept = more) ∧
      Packed r output made strict (parts ++ kept) s)
    (fun _ => True)

section

variable {strict : Bool} {parts more : List Part} {target : Path}

theorem Packed.of_quiet {α : Type} {F : Failure → Prop} {x : Attempt Run α} (hq : Quiet x)
    (hm : Matched Journal.onwardness.ofRuns F x) :
    Triple (Packed r output made strict parts) x (fun _ => Packed r output made strict parts)
      (fun _ => True) := by
  refine (hm.steady (hq.triple (P := fun files written =>
    Shipped r (output.placeFrom []) made parts files ∧
      written = parts.filterMap (Part.note? output)))).mono
    (fun s hs => ⟨⟨hs.shipped, hs.written⟩, hs.strict⟩) (fun _ s h => ?_) fun _ _ => trivial
  exact ⟨h.1.1, h.1.2, h.2⟩

/-- A step that writes a part or does nothing puts that part into the output. It is still to be
noted. -/
theorem Packed.put {F : Failure → Prop} {x : Attempt Run Unit}
    (part : Part) (hm : Matched Journal.onwardness.ofRuns F x)
    (hx : ∀ files written, Triple (fun s => s.files = files ∧ s.written = written) x
      (fun _ s => (∃ place content, Wrote files target place content s.files ∧
        part.Filled r files place content) ∧ s.written = written)
      (fun s => s.files = files ∧ s.written = written))
    (htarget : ∀ place, target.placeFrom place = output.placeFrom [] ++ part.way) :
    Triple (Packed r output made strict parts) x
      (fun _ s => Packed r output made strict (parts ++ [part])
        { s with written := s.written ++ (part.note? output).toList })
      (Packed r output made strict parts) := by
  intro s hs
  refine ((hm.steady (hx s.files s.written)).mono (fun _ h => h) (fun _ s' h => ?_)
    fun s' h => ?_) s ⟨⟨rfl, rfl⟩, hs.strict⟩
  · obtain ⟨⟨⟨place, content, hwrote, hfilled⟩, hwritten⟩, hstrict⟩ := h
    obtain rfl : place = output.placeFrom [] ++ part.way := hwrote.place_eq.trans (htarget _)
    refine ⟨hs.shipped.put hfilled hwrote, ?_, hstrict⟩
    cases hnote : part.note? output <;> simp [hwritten, hs.written, hnote]
  · obtain ⟨⟨hfiles, hwritten⟩, hstrict⟩ := h
    exact ⟨hfiles ▸ hs.shipped, hwritten.trans hs.written, hstrict⟩

/-- A part of which nothing is noted is there as soon as it is written. -/
theorem Packed.put_onFiles {x : FileStep Unit} (part : Part)
    (hx : ∀ fs, Triple (· = fs) x (fun _ fs' => ∃ place content, Wrote fs target place content fs' ∧
      part.Filled r fs place content) (· = fs))
    (htarget : ∀ place, target.placeFrom place = output.placeFrom [] ++ part.way)
    (hnote : part.note? output = none) :
    Triple (Packed r output made strict parts) (Run.onFiles x)
      (fun _ => Packed r output made strict (parts ++ [part])) (Packed r output made strict parts) := by
  have hm : Matched Journal.onwardness.ofRuns (fun _ => True) (Run.onFiles x) :=
    Matched.onFiles fun _ => trivial
  refine (Packed.put part hm (fun files written => Run.onFiles_triple (hx files) written)
    htarget).mono (fun _ h => h) (fun _ s h => ?_) fun _ h => h
  exact ⟨h.shipped, by simpa [hnote] using h.written, h.strict⟩

namespace Loads

theorem of_quiet {F : Failure → Prop} {x : Attempt Run Unit} (hq : Quiet x)
    (hm : Matched Journal.onwardness.ofRuns F x) : Loads r output made strict x [] := by
  intro parts
  refine (Packed.of_quiet hq hm).mono (fun _ h => h) (fun _ s h => ?_) fun _ h => h
  exact ⟨[], List.Sublist.refl _, fun _ => rfl, by rwa [List.append_nil]⟩

theorem grow (p : Path) :
    Loads r output made strict (Run.onFiles (FileSystem.createDirectories p)) [] := by
  intro parts s hs
  have hm : Matched Journal.onwardness.ofRuns (fun _ => True)
      (Run.onFiles (FileSystem.createDirectories p)) := Matched.onFiles fun _ => trivial
  refine ((hm.steady (Run.onFiles_triple (FileSystem.createDirectories_triple s.files p)
    s.written)).mono (fun _ h => h) (fun _ s' h => ?_) fun _ _ => trivial) s
    ⟨⟨Grown.refl _, rfl⟩, hs.strict⟩
  obtain ⟨⟨⟨hgrown, -⟩, hwritten⟩, hstrict⟩ := h
  refine ⟨[], List.Sublist.refl _, fun _ => rfl, ?_⟩
  rw [List.append_nil]
  exact ⟨hs.shipped.grow hgrown, hwritten.trans hs.written, hstrict⟩

/-- A run that gets past an error is not strict, and has put nothing there. -/
theorem of_error (message : String) (more : List Part) :
    Loads r output made strict (Run.say .error message) more := by
  intro parts s hs
  have hquiet := Packed.of_quiet (Quiet.say _ _)
    (Journal.spoken_onward.say .error message) s hs
  cases strict with
  | true =>
    have hraised := Run.strict_say message s hs.strict
    split at hraised
    · exact hraised.elim
    · trivial
  | false =>
    split at hquiet
    · exact ⟨[], List.nil_sublist _, nofun, by rwa [List.append_nil]⟩
    · trivial

theorem bind {x y : Attempt Run Unit} {more' : List Part} (hx : Loads r output made strict x more)
    (hy : Loads r output made strict y more') :
    Loads r output made strict (x >>= fun _ => y) (more ++ more') := by
  refine fun parts => (hx parts).bind fun _ => ?_
  rintro s ⟨kept, hsub, hall, hs⟩
  refine ((hy (parts ++ kept)).mono (fun _ h => h) (fun _ s' h => ?_) fun _ h => h) s hs
  obtain ⟨kept', hsub', hall', hs'⟩ := h
  refine ⟨kept ++ kept', hsub.append hsub', fun hstrict => ?_, by rwa [← List.append_assoc]⟩
  rw [hall hstrict, hall' hstrict]

theorem forM {γ : Type} {l : List γ} {f : γ → Attempt Run PUnit} {g : γ → List Part}
    (h : ∀ c ∈ l, Loads r output made strict (f c) (g c)) :
    Loads r output made strict (l.forM f) (l.flatMap g) := by
  induction l with
  | nil => exact of_quiet (Quiet.pure _) (Matched.pure _ : Matched _ (fun _ => False) _)
  | cons c l ih =>
    exact (h c List.mem_cons_self).bind (ih fun d hd => h d (List.mem_cons_of_mem _ hd))

end Loads

end

namespace Package

variable {strict : Bool} {entries : PackageEntries} {language : Language} {project : List String}

/-- A file that is tried is put where its names lead, or is not there. -/
theorem loads_tryFile (hrooted : output.isRooted = true) (hnames : ∀ n ∈ names, Written (.name n))
    (file : PackageFile) : Loads r output made strict
      (tryFile r file (output.join (pathOfNames names))) [.file names file] := by
  intro parts
  unfold tryFile
  refine (Triple.caught_strict (matched_writeFile Journal.spoken_strict r file _)
    (Packed.put (.file names file) (matched_writeFile Journal.spoken_onward r file _)
      (fun _ _ => writeFile_triple r file (output.join (pathOfNames names)))
      fun place => FileSystem.placeFrom_below hrooted hnames place)
    fun s hs => hs.strict).bind fun result => ?_
  cases result with
  | ok _ => exact fun s hs => ⟨_, List.Sublist.refl _, fun _ => rfl, hs⟩
  | error failure =>
    rintro s ⟨hs, hreported⟩
    -- what was reported is left out, and a strict run does not get here
    have hplain : Triple (Packed r output made strict parts)
        (if failure.endsRun then throw failure
          else Run.say .error
            s!"Error writing '{(output.join (pathOfNames names)).text}': {failure.message}")
        _ fun _ => True :=
      Triple.ite (fun _ _ _ => trivial) fun _ => Loads.of_error _ [.file names file] parts
    cases failure with
    | reported d =>
      refine ⟨[], List.nil_sublist _, fun hstrict => ?_, by rwa [List.append_nil]⟩
      exact absurd ⟨d, rfl⟩ (hreported hstrict).2
    | _ => exact hplain s hs

/-- The part that a piece is, if it is one. -/
def partOf (piece : PackagePiece) : List Part :=
  (piece.file?.map fun (names, file) => Part.file names file).toList

theorem loads_writePiece (hrooted : output.isRooted = true) {piece : PackagePiece}
    (hnames : ∀ n ∈ piece.1, Written (.name n)) :
    Loads r output made strict (writePiece r output piece) (partOf piece) := by
  obtain ⟨names, kind⟩ := piece
  cases kind with
  | some file => exact loads_tryFile hrooted hnames file
  | none => exact Loads.grow _

/-- The pieces of a layout put its files into the output. -/
theorem loads_pieces (hrooted : output.isRooted = true) (hproper : PackageEntries.ProperFrom entries) :
    Loads r output made strict ((PackageEntries.piecesFrom [] entries).forM (writePiece r output))
      (entries.files.map fun (names, file) => Part.file names file) := by
  have hparts : (entries.files.map fun (names, file) => Part.file names file) =
      (PackageEntries.piecesFrom [] entries).flatMap partOf := by
    unfold PackageEntries.files
    rw [PackageEntries.filesFrom_eq, List.map_filterMap, List.filterMap_eq_flatMap_toList]
    rfl
  rw [hparts]
  refine Loads.forM fun piece hpiece => loads_writePiece hrooted ?_
  obtain ⟨name, more, heq, -, hwritten⟩ :=
    PackageEntries.names_of_mem_piecesFrom entries hproper hpiece
  rwa [heq, List.nil_append]

theorem placeFrom_name (hrooted : output.isRooted = true) {name : String}
    (hname : Written (.name name)) (place : List String) :
    (output.join ⟨name⟩).placeFrom place = output.placeFrom [] ++ [name] := by
  have hnames : ∀ n ∈ [name], Written (.name n) := by simpa using hname
  simpa [pathOfNames] using FileSystem.placeFrom_below hrooted hnames place

theorem loads_copyAsset (hrooted : output.isRooted = true) (t : Template) (asset : Option String) :
    Loads r output made strict (copyAsset t output asset)
      (asset.map fun asset => Part.asset (t.directory.join ⟨asset⟩)).toList := by
  unfold copyAsset
  split
  · exact Loads.of_quiet (Quiet.pure _) (Matched.pure _ : Matched _ (fun _ => False) _)
  · next asset =>
    simp only
    split
    · exact Loads.of_error _ _
    · next name hname =>
      intro parts
      have hwritten : Written (.name name) :=
        Path.written_of_mem_moves (List.mem_of_getLast? (Path.fileName?_eq_some_iff.mp hname))
      have hcopy (fs : FileSystem) : Triple (· = fs)
          (FileSystem.copy (t.directory.join ⟨asset⟩) (output.join ⟨name⟩))
          (fun _ fs' => ∃ place content, Wrote fs (output.join ⟨name⟩) place content fs' ∧
            (Part.asset (t.directory.join ⟨asset⟩)).Filled r fs place content) (· = fs) := by
        refine (FileSystem.copy_copied fs _ _).mono (fun _ h => h) (fun _ _ h => ?_) fun _ h => h
        obtain ⟨place, content, hwrote, hcopied⟩ := h
        exact ⟨place, content, hwrote, Option.isSome_of_eq_some hname, hcopied⟩
      have htarget (place : List String) : (output.join ⟨name⟩).placeFrom place =
          output.placeFrom [] ++ (Part.asset (t.directory.join ⟨asset⟩)).way := by
        rw [Part.way, hname]
        exact placeFrom_name hrooted hwritten place
      refine (Packed.of_quiet Quiet.currentFiles
        (Matched.currentFiles : Matched _ (fun _ => False) _)).bind fun files => ?_
      refine Triple.ite (fun _ => ?_) fun _ => Loads.of_error _ _ parts
      -- a copy that fails has written nothing, and is reported
      refine (Triple.caught_result (Packed.put_onFiles _ hcopy htarget rfl)).bind fun result => ?_
      cases result with
      | ok _ => exact Triple.pure fun s hs => ⟨_, List.Sublist.refl _, fun _ => rfl, hs⟩
      | error failure =>
        cases failure with
        | file fault => exact Loads.of_error _ _ parts
        | _ => exact fun _ _ => trivial

/-- A descriptor that was written is there. -/
theorem packed_writeDescriptor {parts : List Part} {file : PackageFile}
    (hrooted : output.isRooted = true) (hfile : entries.files.lookup project = some file) :
    Triple (Packed r output made strict parts) (writeDescriptor t language output entries project)
      (fun _ => Packed r output made strict
        (parts ++ [.descriptor (Descriptor.text t language entries project file)]))
      (fun _ => True) := by
  have hwrite (text : String) (fs : FileSystem) : Triple (· = fs)
      (FileSystem.writeText (output.join ⟨Descriptor.fileName⟩) text)
      (fun _ fs' => ∃ place content,
        Wrote fs (output.join ⟨Descriptor.fileName⟩) place content fs' ∧
          (Part.descriptor text).Filled r fs place content) (· = fs) :=
    (FileSystem.write_triple fs _ text.toUTF8).mono (fun _ h => h)
      (fun _ _ ⟨place, hwrote⟩ => ⟨place, _, hwrote, rfl⟩) fun _ h => h
  have htarget (text : String) (place : List String) :
      (output.join ⟨Descriptor.fileName⟩).placeFrom place =
        output.placeFrom [] ++ (Part.descriptor text).way :=
    placeFrom_name hrooted ⟨by decide, by decide⟩ place
  unfold writeDescriptor
  rw [hfile]
  exact ((Packed.put_onFiles _ (hwrite _) (htarget _) rfl).mono_error fun _ _ => trivial).bind
    fun _ => Packed.of_quiet (Quiet.say _ _) (Journal.spoken_onward.say _ _)

/-- Where the declared assets of a template are. -/
def assets (t : Template) : List Path :=
  (t.icon.toList ++ t.preview.toList).map fun asset => t.directory.join ⟨asset⟩

/-- Files of a layout and copied assets, as parts of a package. -/
def contents (laid : List (List String × PackageFile)) (copied : List Path) : List Part :=
  (laid.map fun (names, file) => Part.file names file) ++ copied.map .asset

/-- All parts of a package. -/
def parts (laid : List (List String × PackageFile)) (copied : List Path) (text : String) : List Part :=
  contents laid copied ++ [.descriptor text]

theorem loads_besides (hrooted : output.isRooted = true) (t : Template) (entries : PackageEntries)
    (project : List String) :
    Loads r output made strict (besides t output entries project) ((assets t).map .asset) := by
  have hassets : (assets t).map Part.asset =
      (t.icon.map fun asset => Part.asset (t.directory.join ⟨asset⟩)).toList ++
        ((t.preview.map fun asset => Part.asset (t.directory.join ⟨asset⟩)).toList ++ []) := by
    unfold assets
    cases t.icon <;> cases t.preview <;> rfl
  rw [hassets]
  unfold besides
  refine (loads_copyAsset hrooted t t.icon).bind ((loads_copyAsset hrooted t t.preview).bind ?_)
  exact Loads.of_quiet (quiet_warnOfOutsiders entries project)
    (matched_warnOfOutsiders Journal.spoken_onward entries project)

section

variable {laid : List (List String × PackageFile)} {copied : List Path} {text : String} {s : Run}
  (h : Packed r output made strict (parts laid copied text) s)
include h

/-- Of all parts the files are noted. -/
theorem written_of_packed :
    s.written = laid.map fun (names, file) => ⟨file.source, output.join (pathOfNames names)⟩ := by
  have hcopied : (copied.map Part.asset).filterMap (Part.note? output) = [] := by
    simp [Part.note?]
  rw [h.written]
  simp [parts, contents, hcopied, Part.note?, Function.comp_def]

/-- The descriptor holds its text. -/
theorem descriptor_of_packed :
    s.files.at? (output.placeFrom [] ++ [Descriptor.fileName]) = some (some text.toUTF8) := by
  obtain ⟨_, content, hfilled, hc⟩ := h.shipped.last rfl
  obtain rfl : content = text.toUTF8 := hfilled
  exact hc

/-- The output holds what was noted, the copied assets, the descriptor and what was there before. -/
theorem found_of_packed (hrooted : output.isRooted = true)
    (hlaid : ∀ f ∈ laid, ∀ n ∈ f.1, Written (.name n)) (names : List String) :
    (∃ content, s.files.at? (output.placeFrom [] ++ names) = some (some content)) ↔
      (∃ w ∈ s.written, w.place = output.placeFrom [] ++ names) ∨
      (∃ source ∈ copied, names = [source.fileName?.getD ""]) ∨ names = [Descriptor.fileName] ∨
      ∃ content, made.at? (output.placeFrom [] ++ names) = some (some content) := by
  have hnoted : (∃ w ∈ s.written, w.place = output.placeFrom [] ++ names) ↔
      ∃ f ∈ laid, names = f.1 := by
    rw [written_of_packed h]
    have hplace (f : List String × PackageFile) (hf : f ∈ laid) :
        WrittenFile.place ⟨f.2.source, output.join (pathOfNames f.1)⟩ =
          output.placeFrom [] ++ names ↔ names = f.1 := by
      rw [WrittenFile.place, FileSystem.placeFrom_below hrooted (hlaid f hf), List.append_cancel_left_eq]
      exact eq_comm
    simp only [List.mem_map, exists_exists_and_eq_and]
    exact exists_congr fun f => and_congr_right fun hf => hplace f hf
  have hparts : (∃ part ∈ parts laid copied text,
      output.placeFrom [] ++ names = output.placeFrom [] ++ part.way) ↔
        (∃ f ∈ laid, names = f.1) ∨ (∃ source ∈ copied, names = [source.fileName?.getD ""]) ∨
          names = [Descriptor.fileName] := by
    simp [parts, contents, Part.way, or_and_right, exists_or]
  rw [h.shipped.file_iff, hnoted, hparts, or_assoc, or_assoc]

end

/-- What an export that came to its end has put into its output: some of the files and assets, all of
them if it was strict, and then the descriptor. -/
structure Loaded (t : Template) (r : Renderer) (p : Plan) (text : String) (files : FileSystem)
    (strict : Bool) (laid : List (List String × PackageFile)) (copied : List Path) (last : Run) :
    Prop where
  sublist : laid.Sublist p.2.1.files
  sublist_assets : copied.Sublist (assets t)
  all : strict = true → laid = p.2.1.files ∧ copied = assets t
  packed : Packed r p.1 files strict (parts laid copied text) last

theorem Loaded.of_sublist {p : Plan} {text : String} {kept : List Part} {last : Run}
    (hsub : kept.Sublist (contents p.2.1.files (assets t)))
    (hall : strict = true → kept = contents p.2.1.files (assets t))
    (h : Packed r p.1 made strict (kept ++ [.descriptor text]) last) :
    ∃ laid copied, Loaded t r p text made strict laid copied last := by
  -- unless all parts were kept, those that were are files and then assets
  by_cases hstrict : strict = true
  · rw [hall hstrict] at h
    exact ⟨_, _, List.Sublist.refl _, List.Sublist.refl _, fun _ => ⟨rfl, rfl⟩, h⟩
  · obtain ⟨files, copies, rfl, hfiles, hcopies⟩ := List.sublist_append_iff.mp hsub
    obtain ⟨laid, hlaid, rfl⟩ := List.sublist_map_iff.mp hfiles
    obtain ⟨copied, hcopied, rfl⟩ := List.sublist_map_iff.mp hcopies
    exact ⟨laid, copied, hlaid, hcopied, fun h => absurd h hstrict, h⟩

theorem loaded_writeOut {p : Plan} {file : PackageFile} (hrooted : p.1.isRooted = true)
    (hproper : PackageEntries.ProperFrom p.2.1) (hfile : p.2.1.files.lookup p.2.2 = some file) :
    Triple (Packed r p.1 made strict []) (writeOut t r language p)
      (fun _ s => ∃ laid copied, Loaded t r p (Descriptor.text t language p.2.1 p.2.2 file) made strict
        laid copied s) (fun _ => True) := by
  obtain ⟨output, entries, project⟩ := p
  have hload : Loads r output made strict (do
      Run.onFiles (FileSystem.createDirectories (output.join (pathOfNames [])))
      (PackageEntries.piecesFrom [] entries).forM (writePiece r output)
      besides t output entries project) (contents entries.files (assets t)) :=
    (Loads.grow _).bind ((loads_pieces hrooted hproper).bind
      (loads_besides hrooted t entries project))
  have hsteps : writeOut t r language (output, entries, project) = (do
      Run.onFiles (FileSystem.createDirectories (output.join (pathOfNames [])))
      (PackageEntries.piecesFrom [] entries).forM (writePiece r output)
      besides t output entries project) >>= fun _ =>
        writeDescriptor t language output entries project := by
    rw [writeOut_eq]
    simp only [fill, bind_assoc]
  rw [hsteps]
  -- what was kept is known here, and the descriptor is put behind it
  refine (hload []).bind fun _ => ?_
  rintro s ⟨kept, hsub, hall, hs⟩
  refine ((packed_writeDescriptor hrooted hfile).mono (fun _ h => h) (fun _ s' hs' => ?_)
    fun _ h => h) s hs
  exact Loaded.of_sublist hsub hall hs'

/-- An export that comes to its end had a plan, and loaded its output. -/
theorem exists_loaded {settings settings' : Settings} {year : Nat} {q : ExportRequest}
    {files : FileSystem} {guids : GuidSource} {last : Run}
    (h : (steps t settings year q).outcome (Run.start files guids settings') = (.ok (), last)) :
    ∃ p, ((plan t settings year q).outcome (Run.start files guids settings')).1 = .ok p ∧
      q.output.absolute? files.workingPath = some p.1 ∧ PackageEntries.ProperFrom p.2.1 ∧
      ∃ file, p.2.1.files.lookup p.2.2 = some file ∧ ∃ laid copied,
        Loaded t (renderer t settings year q) p (Descriptor.text t q.language p.2.1 p.2.2 file) files
          settings'.strict laid copied last := by
  obtain ⟨hfiles, hwritten⟩ := quiet_plan t settings year q (Run.start files guids settings')
  have honward := ((matched_plan Journal.spoken_onward t Journal.onward_fatal settings year q).onward
    (Run.start files guids settings')).strict
  have hplanned := plan_triple files t settings year q
  rw [steps_eq, Attempt.outcome_bind] at h
  generalize hplan : (plan t settings year q).outcome (Run.start files guids settings') = left
    at h hfiles hwritten honward
  obtain ⟨result, s⟩ := left
  cases result with
  | error e => cases h
  | ok p =>
    obtain ⟨habsolute, hproper, file, hproject⟩ := hplanned.of_outcome rfl hplan
    have hrooted : p.1.isRooted = true := Generation.isRooted_absolute habsolute
    obtain ⟨found, hlookup⟩ := PackageEntries.exists_lookup hproject
    have hpacked : Packed (renderer t settings year q) p.1 files settings'.strict [] s :=
      ⟨hfiles ▸ .start, hwritten, honward⟩
    exact ⟨p, rfl, habsolute, hproper, found, hlookup,
      (loaded_writeOut hrooted hproper hlookup).of_outcome hpacked h⟩

/-- A successful export has put all parts there, and then the descriptor. -/
theorem exists_packed {settings : Settings} {year : Nat} {q : ExportRequest} {files : FileSystem}
    {guids : GuidSource}
    (h : (exportPackage t settings year q files guids).1.outcome = .success) :
    ∃ p, ((plan t settings year q).outcome (Run.start files guids settings)).1 = .ok p ∧
      q.output.absolute? files.workingPath = some p.1 ∧ PackageEntries.ProperFrom p.2.1 ∧
      ∃ file, p.2.1.files.lookup p.2.2 = some file ∧ ∃ last,
        Packed (renderer t settings year q) p.1 files true
          (parts p.2.1.files (assets t) (Descriptor.text t q.language p.2.1 p.2.2 file)) last ∧
        (exportPackage t settings year q files guids).1.written = last.written ∧
        (exportPackage t settings year q files guids).2.files = last.files := by
  -- as a strict run it has put all parts there, and its plan is the plan of the run itself
  obtain ⟨last, hrun, hwritten, hfiles⟩ := Run.finish_success
    (matched_steps Journal.spoken_strictness t Journal.matched_fatal settings year q) h
  obtain ⟨p, hplan, habsolute, hproper, file, hfile, laid, copied, hloaded⟩ := exists_loaded hrun
  obtain ⟨s, hplan⟩ : ∃ s, (plan t settings year q).outcome
      (Run.start files guids { settings with strict := true }) = (.ok p, s) :=
    ⟨_, Prod.ext hplan rfl⟩
  have hvalue := Run.value_of_strict
    (matched_plan Journal.spoken_strictness t Journal.matched_fatal settings year q) hplan
  obtain ⟨rfl, rfl⟩ := hloaded.all rfl
  exact ⟨p, hvalue, habsolute, hproper, file, hfile, last, hloaded.packed, hwritten, hfiles⟩

end Package

end Stencil
