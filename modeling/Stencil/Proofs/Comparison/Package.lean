import Stencil.Proofs.Comparison.Substitution
import Stencil.Proofs.Package.Pieces

namespace Stencil.Package

variable {C : Comparison Journal} {F : Failure → Prop} (h : Spoken C F) (r : Renderer) (t : Template)

section
include h

theorem matched_resolve (fs : FileSystem) (e : Entry) :
    Matched C.ofExpansions (Halting F) (resolve fs r t e) := by
  have hboth : Matched C.ofExpansions F (do
      let source ← e.resolveSource fs r t
      let relative ← e.resolveDestination r t
      return (source, relative)) :=
    (e.matched_resolveSource h r t fs).bind fun _ =>
      (e.matched_resolveDestination h r t).bind fun _ => Matched.pure _
  unfold resolve
  refine Matched.caught_bind hboth
    (H := fun result e' => result = .error e' ∧ ∀ d, e' ≠ .reported d)
    (fun result => ?_) (fun result hresult e' he' => ?_) fun e' he' => ?_
  · split
    · exact Matched.pure _
    · exact Matched.pure _
    · next failure hne => exact Matched.throw ⟨rfl, hne⟩
  · -- a failure of speaking that is not reported ends the run
    have hF := hresult e' he'.1
    have hrecorded := h.recorded e' hF
    cases e' with
    | fatal d => exact ⟨hF, rfl⟩
    | raised d => exact ⟨hF, rfl⟩
    | reported d => exact absurd rfl (he'.2 d)
    | _ => cases hrecorded
  · exact Failure.ending_cases he' (fun _ => rfl) (fun _ => rfl) fun _ => rfl

theorem matched_layOut (fs : FileSystem) (entries : PackageEntries) (e : Entry) :
    Matched C.ofExpansions (Halting F) (layOut fs r t entries e) := by
  unfold layOut
  refine (matched_resolve h r t fs e).bind fun found => ?_
  split
  · exact Matched.pure _
  · split
    · exact Matched.pure _
    · exact (h.expansion_sayAt _ _ _).bind fun _ => Matched.pure _

theorem matched_writeFile (file : PackageFile) (target : Path) :
    Matched C.ofRuns (Failing F) (writeFile r file target) := by
  have hfiles {x : FileStep Unit} : Matched C.ofRuns (Failing F) (Run.onFiles x) :=
    Matched.onFiles fun fault => Or.inr ⟨rfl, rfl⟩
  unfold writeFile
  refine Matched.ite (fun _ => hfiles) fun _ => ?_
  exact (Run.matched_expandSource h r file.source).bind fun _ => hfiles

/-- What a file does not report ends the run. -/
theorem matched_tryFile (file : PackageFile) (target : Path) :
    Matched C.ofRuns (Halting F) (tryFile r file target) := by
  unfold tryFile
  refine (matched_writeFile h r file target).caught_reporting (fun result => ?_) fun e' he' => ?_
  · split
    · exact Matched.addWritten _
    · exact Matched.pure _
    · refine Matched.ite (fun hends => Matched.throw (Or.inr ⟨rfl, hends⟩)) fun _ => ?_
      exact (h.say _ _).mono fun _ he => Or.inl he
  · exact Failure.ending_cases he' (fun _ => rfl) (fun _ => rfl) fun _ => rfl

theorem matched_writePiece (output : Path) (piece : PackagePiece) :
    Matched C.ofRuns (Unreported F) (writePiece r output piece) := by
  obtain ⟨trail, file⟩ := piece
  cases file with
  | some file => exact (matched_tryFile h r file _).unreported
  | none => exact Matched.onFiles fun fault => Or.inr rfl

theorem matched_writeNode (output : Path) (trail : List String) (node : PackageNode) :
    Matched C.ofRuns (Unreported F) (writeNode r output trail node) := by
  rw [writeNode_eq_forM]
  exact Matched.forM (matched_writePiece h r output) _

theorem matched_copyAsset (output : Path) (asset : Option String) :
    Matched C.ofRuns (Halting F) (copyAsset t output asset) := by
  unfold copyAsset
  split
  · exact Matched.pure _
  simp only
  split
  · exact h.say _ _
  refine Matched.currentFiles.bind fun files => ?_
  refine Matched.ite (fun _ => ?_) fun _ => h.say _ _
  refine Matched.caught_bind (F := fun e => ∃ fault, e = .file fault)
    (H := fun result e' => Halting F e' ∨ result = .error e' ∧ ∀ fault, e' ≠ .file fault)
    (Matched.onFiles fun fault => ⟨fault, rfl⟩) (fun result => ?_)
    (fun result hresult e' he' => ?_) fun e' he' => ?_
  · split
    · exact (h.say _ _).mono fun _ he => Or.inl he
    · next failure hne => exact Matched.throw (Or.inr ⟨rfl, hne⟩)
    · exact Matched.pure _
  · rcases he' with he' | ⟨hcaught, hne⟩
    · exact he'
    · obtain ⟨fault, hfault⟩ := hresult e' hcaught
      exact absurd hfault (hne fault)
  · cases e' with
    | file fault => cases he'
    | _ => rfl

theorem matched_warnOfOutsiders (entries : PackageEntries) (project : List String) :
    Matched C.ofRuns (Halting F) (warnOfOutsiders entries project) := by
  unfold warnOfOutsiders
  exact Matched.forM (fun file => Matched.ite (fun _ => Matched.pure _) fun _ => h.say _ _) _

theorem matched_writeDescriptor (language : Language) (output : Path) (entries : PackageEntries)
    (project : List String) :
    Matched C.ofRuns (Unreported F) (writeDescriptor t language output entries project) := by
  unfold writeDescriptor
  split
  · exact Matched.throw (Or.inr rfl)
  · exact (Matched.onFiles fun fault => Or.inr rfl).bind fun _ => (h.say _ _).unreported

end

variable (hfatal : ∀ {α : Type} location message,
  Matched C (Halting F) (Journal.fatal location message : Attempt Journal α))

include h hfatal in
theorem matched_layOutProject (fs : FileSystem) (p : Project) :
    Matched C.ofExpansions (Halting F) (layOutProject fs r t p) := by
  unfold layOutProject
  refine (matched_layOut h r t fs [] p.entry).bind fun found => ?_
  split
  · exact (hfatal _ _).journaled
  · refine (Matched.foldlM (fun entries e => ?_) _ _).bind fun full => Matched.pure _
    exact (matched_layOut h r t fs entries e).bind fun _ => Matched.pure _

include hfatal in
theorem matched_onlyProject : Matched C.ofRuns (Halting F) (onlyProject t) := by
  unfold onlyProject Run.journaled
  split
  · exact Matched.pure _
  · exact (hfatal _ _).journaled.expanding
  · exact (hfatal _ _).journaled.expanding

include h hfatal in
theorem matched_plan (settings : Settings) (year : Nat) (q : ExportRequest) :
    Matched C.ofRuns (Unreported F) (plan t settings year q) := by
  unfold plan
  refine ((Matched.destination _ _).mono fun _ he => Or.inr he).bind fun output => ?_
  refine (t.matched_mentionIgnored h _).unreported.bind fun _ => ?_
  refine (h.run_detail _).unreported.bind fun _ => ?_
  refine (matched_onlyProject t hfatal).unreported.bind fun project => ?_
  refine Matched.currentFiles.bind fun files => ?_
  exact (matched_layOutProject h _ t hfatal files project).expanding.unreported.bind
    fun _ => Matched.pure _

include h in
theorem matched_writeOut (language : Language) (p : Plan) :
    Matched C.ofRuns (Unreported F) (writeOut t r language p) := by
  obtain ⟨output, entries, names⟩ := p
  unfold writeOut
  refine (matched_writeNode h r output [] _).bind fun _ => ?_
  refine (matched_copyAsset h t output _).unreported.bind fun _ => ?_
  refine (matched_copyAsset h t output _).unreported.bind fun _ => ?_
  refine (matched_warnOfOutsiders h entries names).unreported.bind fun _ => ?_
  exact matched_writeDescriptor h t language output entries names

include h hfatal in
/-- Whole exports keep two runs together. -/
theorem matched_steps (settings : Settings) (year : Nat) (q : ExportRequest) :
    Matched C.ofRuns (Unreported F) (steps t settings year q) := by
  rw [steps_eq]
  exact (matched_plan h t hfatal settings year q).bind fun p => matched_writeOut h _ t q.language p

end Stencil.Package
