import Stencil.Proofs.Comparison.Lenience
import Stencil.Proofs.Comparison.Package
import Stencil.Proofs.Picking

namespace Stencil

variable {α : Type} {P : Diagnostic → Bool}

/-- Whether a diagnostic is a warning without a place. -/
def Diagnostic.isRemark (d : Diagnostic) : Bool := d.level = .warning && d.location.isNone

def Journal.remarks (j : Journal) : List Diagnostic := j.records.filter Diagnostic.isRemark

/-- The remarks on record, and the threshold that further ones have to pass. -/
abbrev Journal.remarked (j : Journal) : Level × List Diagnostic := j.picked Diagnostic.isRemark

/-- All that is said while a text is expanded is said of a place in it. -/
theorem Diagnostic.OfText.not_isRemark (d : Diagnostic) (h : d.OfText) : d.isRemark = false := by
  unfold isRemark
  by_cases hlevel : d.level = .warning
  · obtain ⟨location, hlocation⟩ := Option.isSome_iff_exists.mp (h hlevel).1
    simp [hlocation]
  · simp [hlevel]

namespace Package

variable (r : Renderer) (t : Template)

section

variable (hP : ∀ d : Diagnostic, d.OfText → P d = false)
include hP

theorem spares_resolve (fs : FileSystem) (e : Entry) : Expansion.Spares P (resolve fs r t e) := by
  unfold resolve
  refine Leaves.bind (Leaves.caught ?_) fun result => ?_
  · exact (e.spares_resolveSource hP r t fs).bind fun _ =>
      (e.spares_resolveDestination hP r t).bind fun _ => Leaves.pure _
  · split
    · exact Leaves.pure _
    · exact Leaves.pure _
    · exact Leaves.throw _

theorem spares_fatal {α : Type} (location : Option Location) (message : String) :
    Leaves (Journal.picked P) (Journal.fatal location message : Attempt Journal α) :=
  Journal.leaves_fatal (fun d hd => hP d (.of_error hd)) _ _

theorem spares_onlyProject : Run.Spares P (onlyProject t) := by
  unfold onlyProject
  split
  · exact Leaves.pure _
  · exact (spares_fatal hP _ _).journaled.expanding_part
  · exact (spares_fatal hP _ _).journaled.expanding_part

theorem spares_writePiece (output : Path) (piece : PackagePiece) :
    Run.Spares P (writePiece r output piece) := by
  obtain ⟨trail, file⟩ := piece
  cases file with
  | none => exact Run.spares_onFiles _
  | some file =>
    unfold writePiece tryFile
    refine Leaves.bind (Leaves.caught ?_) fun result => ?_
    · unfold writeFile
      exact Leaves.ite (Run.spares_onFiles _)
        ((Run.spares_expandSource hP r _).bind fun _ => Run.spares_onFiles _)
    · split
      · exact fun _ => rfl
      · exact Leaves.pure _
      · exact Leaves.ite (Leaves.throw _) (Run.spares_say (hP _ (.of_ne (by decide))))

theorem spares_copyAsset (output : Path) (asset : Option String) :
    Run.Spares P (copyAsset t output asset) := by
  have hsay (message : String) : Run.Spares P (Run.say .error message) :=
    Run.spares_say (hP _ (.of_ne (by decide)))
  unfold copyAsset
  split
  · exact Leaves.pure _
  · simp only
    split
    · exact hsay _
    · refine Leaves.currentFiles.bind fun files => ?_
      refine Leaves.ite (Leaves.bind (Leaves.caught (Run.spares_onFiles _)) fun result => ?_) (hsay _)
      split
      · exact hsay _
      · exact Leaves.throw _
      · exact Leaves.pure _

theorem spares_writeDescriptor (language : Language) (output : Path) (entries : PackageEntries)
    (project : List String) :
    Run.Spares P (writeDescriptor t language output entries project) := by
  unfold writeDescriptor
  split
  · exact Leaves.throw _
  · exact (Run.spares_onFiles _).bind fun _ => Run.spares_say (hP _ (.of_ne (by decide)))

end

theorem unremarked_layOut (fs : FileSystem) (entries : PackageEntries) (e : Entry) :
    Expansion.Spares Diagnostic.isRemark (layOut fs r t entries e) := by
  have hsay (level : Level) (location : Location) (message : String) :
      Expansion.Spares Diagnostic.isRemark (Expansion.sayAt level location message) :=
    (Journal.leaves_emit (by simp [Diagnostic.isRemark])).journaled
  unfold layOut
  refine (spares_resolve r t Diagnostic.OfText.not_isRemark fs e).bind fun found => ?_
  split
  · exact Leaves.pure _
  · split
    · exact Leaves.pure _
    · exact (hsay _ _ _).bind fun _ => Leaves.pure _

theorem unremarked_layOutProject (fs : FileSystem) (p : Project) :
    Expansion.Spares Diagnostic.isRemark (layOutProject fs r t p) := by
  unfold layOutProject
  refine (unremarked_layOut r t fs [] p.entry).bind fun found => ?_
  split
  · exact (spares_fatal Diagnostic.OfText.not_isRemark _ _).journaled
  · refine (Leaves.foldlM (fun entries e => ?_) _ _).bind fun _ => Leaves.pure _
    exact (unremarked_layOut r t fs entries e).bind fun _ => Leaves.pure _

/-- Nothing that comes before the files of a package are written gives a remark. -/
theorem unremarked_plan (settings : Settings) (year : Nat) (q : ExportRequest) :
    Run.Spares Diagnostic.isRemark (plan t settings year q) := by
  unfold plan
  refine (Run.spares_destination _ _).bind fun output =>
    (Run.spares_mentionIgnored t _).bind fun _ => ?_
  refine (Run.spares_detail _).bind fun _ =>
    (spares_onlyProject t Diagnostic.OfText.not_isRemark).bind fun project => ?_
  refine Leaves.currentFiles.bind fun fs => ?_
  exact (unremarked_layOutProject _ t fs project).expanding_part.bind fun _ => Leaves.pure _

end Package

end Stencil
