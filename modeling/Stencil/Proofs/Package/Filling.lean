import Stencil.Proofs.Package.Writing

namespace Stencil

open FileSystem (Retains SameDirectories)
open Stencil.Path (Written)

variable {fs made : FileSystem} {base names : List String} {output : Path} {entries : PackageEntries}

namespace FileSystem

/-- What can be written lies in a directory that is reached from the root. -/
theorem root_of_write {p : Path} {content : ByteArray} {fs' : FileSystem}
    (h : write p content fs = .ok () fs') : check p = .ok () ∧ fs.at? [] = some none := by
  have hwrote := write_triple fs p content fs rfl
  rw [h] at hwrote
  obtain ⟨place, hwrote⟩ := hwrote
  obtain ⟨above, last, hsite, -⟩ := hwrote.site
  refine ⟨hsite.check, ?_⟩
  cases above with
  | nil => exact hsite.directory
  | cons name rest =>
    have hsome : (fs.at? ([] ++ name :: rest)).isSome = true :=
      Option.isSome_of_eq_some hsite.directory
    exact (at?_of_append hsome).2 (List.cons_ne_nil _ _)

/-- A rooted path without a parent denotes the root. -/
theorem isDirectory_of_parent_eq_none {p : Path} (hrooted : p.isRooted = true)
    (hparent : p.parent? = none) (hcheck : check p = .ok ()) (hroot : fs.at? [] = some none) :
    fs.isDirectory p = true := by
  have hmoves := Path.moves_eq_nil_of_parent hparent
  have hplace : p.placeFrom fs.workingDirectory = [] := by
    rw [Path.placeFrom_eq, if_pos hrooted, hmoves, leads_nil]
  rw [← hplace] at hroot
  exact isDirectory_iff.mpr
    ⟨_, denotes_of_down hcheck (by simp [hmoves]) (by simp [hmoves]) hroot, hroot⟩

end FileSystem

namespace Package

variable {r : Renderer} {t : Template} {s : Run} {language : Language}

theorem copyAsset_sameDirectories (t : Template) (output : Path) (asset : Option String) :
    Triple (fun s => fs.SameDirectories s.files) (copyAsset t output asset)
      (fun _ s => fs.SameDirectories s.files) (fun s => fs.SameDirectories s.files) := by
  have hquiet {α : Type} {x : Attempt Run α} (hx : Quiet x) :=
    hx.triple (P := fun files _ => fs.SameDirectories files)
  have hcopy (source target : Path) :
      Triple (fun s => fs.SameDirectories s.files) (Run.onFiles (FileSystem.copy source target))
        (fun _ s => fs.SameDirectories s.files) (fun s => fs.SameDirectories s.files) := by
    intro s hs
    have hsame {s' : Run} (h : s.files.Scribbled target s'.files) : fs.SameDirectories s'.files :=
      hs.trans h.sameDirectories
    exact ((onFiles_scribbled (FileSystem.copy_triple s.files source target)).mono (fun _ h => h)
      (fun _ _ h => hsame h) fun _ h => hsame h) s rfl
  unfold copyAsset
  split
  · exact hquiet (Quiet.pure _)
  · simp only
    split
    · exact hquiet (Quiet.say _ _)
    · refine (hquiet Quiet.currentFiles).bind fun files => ?_
      refine Triple.ite (fun _ => ?_) fun _ => hquiet (Quiet.say _ _)
      refine (hcopy _ _).caught.bind fun result => ?_
      split
      · exact hquiet (Quiet.say _ _)
      · exact hquiet (Quiet.throw _)
      · exact hquiet (Quiet.pure _)

theorem quiet_warnOfOutsiders (entries : PackageEntries) (project : List String) :
    Quiet (warnOfOutsiders entries project) := by
  unfold warnOfOutsiders
  refine Quiet.of_triple fun files written => Triple.forM fun c _ => ?_
  have hquiet {x : Attempt Run Unit} (hx : Quiet x) :=
    hx.triple (P := fun fs w => fs = files ∧ w = written)
  exact Triple.ite (fun _ => hquiet (Quiet.pure _)) fun _ => hquiet (Quiet.say _ _)

theorem besides_sameDirectories (t : Template) (output : Path) (entries : PackageEntries)
    (project : List String) :
    Triple (fun s => fs.SameDirectories s.files) (besides t output entries project)
      (fun _ s => fs.SameDirectories s.files) (fun s => fs.SameDirectories s.files) := by
  unfold besides
  refine (copyAsset_sameDirectories t output _).bind fun _ => ?_
  refine (copyAsset_sameDirectories t output _).bind fun _ => ?_
  exact (quiet_warnOfOutsiders entries project).triple (P := fun files _ => fs.SameDirectories files)

/-- Besides the pieces nothing can halt an export. -/
theorem outcome_besides (t : Template) (output : Path) (entries : PackageEntries)
    (project : List String) (hs : s.expansion.journal.Lenient) :
    ∃ t', (besides t output entries project).outcome s = (.ok (), t') ∧
      t'.expansion.journal.Lenient ∧ s.files.SameDirectories t'.files := by
  have hmatched : Matched (Comparison.alone Journal.Lenient).ofRuns (Halting IsReported)
      (besides t output entries project) :=
    (matched_copyAsset Journal.spoken_lenient t output t.icon).bind fun _ =>
      (matched_copyAsset Journal.spoken_lenient t output t.preview).bind fun _ =>
        matched_warnOfOutsiders Journal.spoken_lenient entries project
  obtain ⟨_, t', hout, ht⟩ := hmatched.outcome_lenient hs
  exact ⟨t', hout, ht, (besides_sameDirectories t output entries project).of_outcome
    (SameDirectories.refl _) hout⟩

/-- A descriptor that was written lies below the root, and all that there was before is still there. -/
theorem writeDescriptor_triple (t : Template) (language : Language) (output : Path)
    (entries : PackageEntries) (project : List String) :
    Triple (fun s => Retains fs s.files) (writeDescriptor t language output entries project)
      (fun _ s => Retains fs s.files ∧
        FileSystem.check (output.join ⟨Descriptor.fileName⟩) = .ok () ∧ s.files.at? [] = some none)
      (fun s => Retains fs s.files) := by
  have hwrite (text : String) : Triple (fun s => Retains fs s.files)
      (Run.onFiles (FileSystem.writeText (output.join ⟨Descriptor.fileName⟩) text))
      (fun _ s => Retains fs s.files ∧
        FileSystem.check (output.join ⟨Descriptor.fileName⟩) = .ok () ∧ s.files.at? [] = some none)
      (fun s => Retains fs s.files) := by
    -- a text that is written has gone through the root, and one that is not leaves no trace
    intro s hs
    have hscribbled := FileSystem.write_triple s.files (output.join ⟨Descriptor.fileName⟩)
      text.toUTF8 s.files rfl
    unfold Run.onFiles FileSystem.writeText
    cases hout : FileSystem.write (output.join ⟨Descriptor.fileName⟩) text.toUTF8 s.files with
    | ok _ fs' =>
      rw [hout] at hscribbled
      obtain ⟨place, hwrote⟩ := hscribbled
      obtain ⟨hcheck, hroot⟩ := FileSystem.root_of_write hout
      exact ⟨hs.trans hwrote.retains, hcheck, hwrote.retains.directory _ hroot⟩
    | error fault fs' =>
      rw [hout] at hscribbled
      obtain rfl : fs' = s.files := hscribbled
      exact hs
  unfold writeDescriptor
  split
  · exact fun _ hs => hs
  · refine (hwrite _).bind fun _ => ?_
    exact ((Quiet.say _ _).triple (P := fun files _ => Retains fs files ∧
      FileSystem.check (output.join ⟨Descriptor.fileName⟩) = .ok () ∧
        files.at? [] = some none)).mono_error fun _ h => h.1

/-- Filling an output takes nothing away, and comes to its end only below the root. -/
theorem fill_triple (t : Template) (r : Renderer) (language : Language) (output : Path)
    (entries : PackageEntries) (project : List String) :
    Triple (fun s => Retains fs s.files) (fill t r language (output, entries, project))
      (fun _ s => Retains fs s.files ∧
        FileSystem.check (output.join ⟨Descriptor.fileName⟩) = .ok () ∧ s.files.at? [] = some none)
      (fun s => Retains fs s.files) := by
  have hbesides : Triple (fun s => Retains fs s.files) (besides t output entries project)
      (fun _ s => Retains fs s.files) (fun s => Retains fs s.files) := by
    intro s hs
    have hretains {s' : Run} (h : s.files.SameDirectories s'.files) : Retains fs s'.files :=
      hs.trans h.retains
    exact ((besides_sameDirectories t output entries project).mono (fun _ h => h)
      (fun _ _ h => hretains h) fun _ h => hretains h) s (SameDirectories.refl s.files)
  unfold fill
  refine (Triple.forM fun piece _ => writePiece_retains r output piece).bind fun _ => ?_
  exact hbesides.bind fun _ => writeDescriptor_triple t language output entries project

/-- A layout fits into an output that was made: all its directories have room, and its descriptor has
a slot beside them. -/
structure Fits (made : FileSystem) (output : Path) (entries : PackageEntries) : Prop where
  isDirectory : made.isDirectory (output.join (pathOfNames [])) = true
  room : ∀ names, (names, none) ∈ PackageEntries.piecesFrom [] entries → made.Room output names
  slot : made.Slot output [Descriptor.fileName]
  apart : ([Descriptor.fileName], none) ∉ PackageEntries.piecesFrom [] entries

theorem pathOfNames_fileName : pathOfNames ([] ++ [Descriptor.fileName]) = ⟨Descriptor.fileName⟩ := by
  simp [pathOfNames]

theorem written_fileName : ∀ n ∈ [] ++ [Descriptor.fileName], Written (.name n) := by
  intro n hn
  obtain rfl := List.mem_singleton.mp hn
  exact ⟨by decide, by decide⟩

/-- The descriptor has a slot if it had one in the output and no piece is a directory of its name. -/
theorem slot_iff {pieces : List PackagePiece} {laid : FileSystem} {name : String}
    (h : Laid made base ([([], none)] ++ pieces) laid) (hsame : laid.SameDirectories fs)
    (hbase : base = output.placeFrom []) :
    fs.Slot output [name] ↔ made.Slot output [name] ∧ ([name], none) ∉ pieces := by
  constructor
  · intro hslot
    refine ⟨⟨hslot.check, hslot.short, fun hmade => ?_⟩, fun hmem => ?_⟩
    · have hlaid := h.retains.directory _ hmade
      exact hslot.free (hsame.retains.directory _ hlaid)
    · obtain ⟨hlaid, -⟩ := h.present [name] (List.mem_append_right _ hmem)
      exact hslot.free (hbase ▸ hsame.retains.directory _ hlaid)
  · rintro ⟨hslot, hapart⟩
    refine ⟨hslot.check, hslot.short, fun hdir => ?_⟩
    rcases h.directory _ (hsame.directory _ hdir) with hmade | ⟨names, hmem, heq⟩
    · exact hslot.free hmade
    · have hnames : [name] = names := List.append_cancel_left (hbase ▸ heq)
      subst hnames
      rcases List.mem_append.mp hmem with hmem | hmem
      · simp at hmem
      · exact hapart hmem

theorem writeDescriptor_ok_iff {file : PackageFile} (hfile : entries.files.lookup names = some file)
    (hs : s.expansion.journal.Lenient) (hopens : s.files.Opens output base) :
    (∃ t', (writeDescriptor t language output entries names).outcome s = (.ok (), t')) ↔
      s.files.Slot output [Descriptor.fileName] := by
  have hbase : s.files.at? (base ++ []) = some none := by
    rw [List.append_nil]
    exact hopens.directory
  have hwrite := hopens.write_iff written_fileName hbase nofun
    (Descriptor.text t language entries names file).toUTF8
  rw [pathOfNames_fileName, List.nil_append] at hwrite
  rw [← hwrite]
  unfold writeDescriptor
  rw [hfile]
  simp only
  rw [Attempt.outcome_bind, Run.outcome_onFiles]
  unfold FileSystem.writeText
  cases hout : FileSystem.write (output.join ⟨Descriptor.fileName⟩)
    (Descriptor.text t language entries names file).toUTF8 s.files with
  | error fault same => simp
  | ok _ made =>
    -- saying so cannot fail any more
    have hlenient : ({ s with files := made } : Run).expansion.journal.Lenient := hs
    obtain ⟨_, t', hsay, -⟩ := (Journal.spoken_lenient.say .info
      s!"Wrote Visual Studio template to '{output.text}'.").outcome_lenient hlenient
    exact iff_of_true ⟨t', hsay⟩ ⟨made, rfl⟩

section

variable (hrooted : output.isRooted = true) (hproper : PackageEntries.ProperFrom entries)
  (hfile : ∃ file, entries.files.lookup names = some file) (hs : s.expansion.journal.Lenient)
include hrooted hproper hfile hs

theorem fill_ok_iff_of_isDirectory
    (hdir : s.files.isDirectory (output.join (pathOfNames [])) = true) :
    (∃ t', (fill t r language (output, entries, names)).outcome s = (.ok (), t')) ↔
      Fits s.files output entries := by
  obtain ⟨file, hfile⟩ := hfile
  have hopens : s.files.Opens output _ :=
    (FileSystem.opens_of_isDirectory (Path.isRooted_join hrooted _) hdir).of_join hrooted
  have hdescending := PackageEntries.descending_piecesFrom [] [([], none)] List.mem_cons_self entries
  have hnames : ∀ piece ∈ PackageEntries.piecesFrom [] entries, ∀ n ∈ piece.1, Written (.name n) := by
    intro piece hmem
    obtain ⟨name, more, heq, -, hwritten⟩ :=
      PackageEntries.names_of_mem_piecesFrom entries hproper hmem
    rwa [heq, List.nil_append]
  have hapart : ∀ names file, (names, none) ∈ PackageEntries.piecesFrom [] entries →
      (names, some file) ∉ [([], none)] ++ PackageEntries.piecesFrom [] entries := by
    intro names file hnone hsome
    rcases List.mem_append.mp hsome with hsome | hsome
    · simp at hsome
    · exact PackageEntries.no_both entries hproper hnone hsome
  -- the pieces come first, then what lies beside them, and the descriptor last
  have hpieces := piecesEnd_forM (r := r) hopens (Laid.start hopens.directory) hs hdescending hnames
    hapart
  unfold fill
  rw [Attempt.outcome_bind]
  generalize ((PackageEntries.piecesFrom [] entries).forM (writePiece r output)).outcome s = left
    at hpieces
  cases hpieces with
  | stuck hroom => exact iff_of_false (by simp) fun hfits => hroom hfits.room
  | @laid s₁ hroom hlaid hs₁ =>
    obtain ⟨s₂, hbesides, hs₂, hsame⟩ := outcome_besides t output entries names hs₁
    have hslot : s₂.files.Slot output [Descriptor.fileName] ↔ _ := slot_iff hlaid hsame hopens.base_eq
    have hopens₂ := hopens.mono (hlaid.retains.trans hsame.retains)
    simp only
    rw [Attempt.outcome_bind, hbesides]
    simp only
    rw [writeDescriptor_ok_iff hfile hs₂ hopens₂, hslot]
    constructor
    · rintro ⟨hmade, hname⟩
      exact ⟨hdir, hroom, hmade, hname⟩
    · intro hfits
      exact ⟨hfits.slot, hfits.apart⟩

end

/-- Only an output that is a directory can be filled to the end. -/
theorem isDirectory_of_fill (hrooted : output.isRooted = true)
    (hdir : ¬ ((output.join (pathOfNames [])).text = "" ∨
      (output.join (pathOfNames [])).parent?.isNone = true) →
        s.files.isDirectory (output.join (pathOfNames [])) = true) {t' : Run}
    (hfill : (fill t r language (output, entries, names)).outcome s = (.ok (), t')) :
    s.files.isDirectory (output.join (pathOfNames [])) = true := by
  have hjoin := Path.isRooted_join hrooted (pathOfNames [])
  by_cases hparent : (output.join (pathOfNames [])).parent?.isNone = true
  · obtain ⟨hretains, hcheck, hroot⟩ := (fill_triple t r language output entries names).of_outcome
      (Retains.refl s.files) hfill
    refine FileSystem.isDirectory_of_parent_eq_none hjoin (Option.isNone_iff_eq_none.mp hparent) ?_ ?_
    · have htext : output.join ⟨Descriptor.fileName⟩ =
          ⟨(output.join (pathOfNames [])).text ++ Descriptor.fileName⟩ := by
        have hrelative : (Path.mk Descriptor.fileName).isRooted = false := by decide
        have hnone : (pathOfNames []).isRooted = false := by decide
        unfold Path.join
        simp only [hrelative, hnone, Bool.false_eq_true, if_false]
        split <;> simp [pathOfNames]
      rw [htext] at hcheck
      exact FileSystem.check_of_append (Path.text_ne_empty hjoin) hcheck
    · -- a file in place of the root would still be there
      cases hat : s.files.at? [] with
      | none => cases hat
      | some kind =>
        cases kind with
        | none => rfl
        | some content =>
          obtain ⟨content', hafter⟩ := hretains.file _ content hat
          rw [hroot] at hafter
          cases hafter
  · exact hdir (not_or.mpr ⟨Path.text_ne_empty hjoin, hparent⟩)

/-- An output that was made is filled to the end exactly if the layout fits into it. -/
theorem fill_ok_iff (hrooted : output.isRooted = true) (hproper : PackageEntries.ProperFrom entries)
    (hfile : ∃ file, entries.files.lookup names = some file) (hs : s.expansion.journal.Lenient)
    (hdir : ¬ ((output.join (pathOfNames [])).text = "" ∨
      (output.join (pathOfNames [])).parent?.isNone = true) →
        s.files.isDirectory (output.join (pathOfNames [])) = true) :
    (∃ t', (fill t r language (output, entries, names)).outcome s = (.ok (), t')) ↔
      Fits s.files output entries := by
  constructor
  · rintro ⟨t', hfill⟩
    have hdirectory := isDirectory_of_fill hrooted hdir hfill
    exact (fill_ok_iff_of_isDirectory hrooted hproper hfile hs hdirectory).mp ⟨t', hfill⟩
  · intro hfits
    exact (fill_ok_iff_of_isDirectory hrooted hproper hfile hs hfits.isDirectory).mpr hfits

end Package

end Stencil
