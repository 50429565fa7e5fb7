import Stencil.Generation
import Stencil.Proofs.Comparison.Substitution

namespace Stencil.Generation

variable {C : Comparison Journal} {F : Failure → Prop} (h : Spoken C F)
  (r : Renderer) (t : Template) (destination : Path)
include h

theorem matched_writeEntry (raw : Bool) (source target : Path) :
    Matched C.ofRuns (Failing F) (writeEntry r raw source target) := by
  have hfiles {x : FileStep Unit} : Matched C.ofRuns (Failing F) (Run.onFiles x) :=
    Matched.onFiles fun fault => Or.inr ⟨rfl, rfl⟩
  unfold writeEntry
  refine Matched.ite (fun _ => ?_) fun _ => ?_
  · exact (h.say _ _).failing.bind fun _ => hfiles
  · refine (h.say _ _).failing.bind fun _ => ?_
    refine (Run.matched_expandSource h r source).bind fun rendered => ?_
    exact (h.run_detail _).failing.bind fun _ => hfiles

theorem matched_fillTarget (e : Entry) (source target : Path) :
    Matched C.ofRuns (Failing F) (fillTarget r e source target) := by
  have hwrite : Matched C.ofRuns (Failing F) (writeTarget r e source target) := by
    unfold writeTarget
    exact (matched_writeEntry h r e.raw source target).bind fun _ =>
      (Matched.announce _).bind fun _ => (Matched.addWritten _).bind fun _ => Matched.pure _
  refine fillTarget_cases (fun parent _ => ?_) fun _ => hwrite
  exact (Matched.onFiles fun fault => Or.inr ⟨rfl, rfl⟩).bind fun _ => hwrite

theorem matched_makeFrom (e : Entry) (source : Path) :
    Matched C.ofRuns (Failing F) (makeFrom r t destination e source) := by
  unfold makeFrom
  refine ((e.matched_resolveDestination h r t).expanding.mono fun _ he => Or.inl he).bind
    fun relative => ?_
  refine Matched.currentFiles.bind fun now => Matched.ite (fun _ => ?_) fun _ => ?_
  · exact (h.sayAt _ _ _).failing.bind fun _ => Matched.pure _
  · exact matched_fillTarget h r e source _

theorem matched_makeEntry (e : Entry) :
    Matched C.ofRuns (Failing F) (makeEntry r t destination e) := by
  unfold makeEntry
  refine Matched.currentFiles.bind fun fs => ?_
  exact ((e.matched_resolveSource h r t fs).expanding.mono fun _ he => Or.inl he).bind
    fun source => matched_makeFrom h r t destination e source

/-- What an entry does not report ends the run. -/
theorem matched_tryEntry (e : Entry) :
    Matched C.ofRuns (Halting F) (tryEntry r t destination e) := by
  unfold tryEntry
  refine (matched_makeEntry h r t destination e).caught_reporting (fun result => ?_) fun e' he' => ?_
  · split
    · exact Matched.pure _
    · exact Matched.pure _
    · next failure _ =>
      refine Matched.ite (fun hends => Matched.throw (Or.inr ⟨rfl, hends⟩)) fun _ => ?_
      exact ((h.sayAt _ _ _).mono fun _ he => Or.inl he).bind fun _ => Matched.pure _
  · exact Failure.ending_cases he' (fun _ => rfl) (fun _ => rfl) fun _ => rfl

theorem matched_addEntry (kind : String) (e : Entry) :
    Matched C.ofRuns (Halting F) (addEntry r t destination kind e) := by
  unfold addEntry
  refine (matched_tryEntry h r t destination e).bind fun result => ?_
  split
  · exact Matched.pure _
  · unfold noteTarget
    refine (h.say _ _).bind fun _ => ?_
    exact Matched.ite (fun _ => Matched.addProject _) fun _ => Matched.pure _

theorem matched_addProject (p : Project) :
    Matched C.ofRuns (Halting F) (addProject r t destination p) := by
  unfold addProject
  refine (matched_addEntry h r t destination _ p.entry).bind fun _ => ?_
  exact Matched.forM (fun e => matched_addEntry h r t destination _ e) _

omit r destination

theorem matched_registerProject (name : String) (s : Solution) (project : Path) :
    Matched C.ofRuns (Halting F) (registerProject name s project) := by
  unfold registerProject
  refine Matched.currentFiles.bind fun fs => Matched.nextGuid.bind fun guid => ?_
  split
  · exact Matched.drawGuid.bind fun _ => (h.say _ _).bind fun _ => Matched.pure _
  · exact (h.run_detail _).bind fun _ => (h.say _ _).bind fun _ => Matched.pure _
  · exact (h.say _ _).bind fun _ => Matched.pure _

omit h in
theorem plain_of_load {fs : FileSystem} {path : Path} {e : Failure}
    (he : Solution.load fs path = .error e) : Plain e := by
  unfold Solution.load at he
  split at he
  · cases he
    exact ⟨rfl, rfl⟩
  · next content _ =>
    cases hparse : Solution.parse path content with
    | ok s =>
      rw [hparse] at he
      cases he
    | error fault =>
      rw [hparse] at he
      cases he
      exact ⟨rfl, rfl⟩

omit h in
theorem plain_of_loadOrCreate {fs : FileSystem} {path : Path} {e : Failure}
    (he : Solution.loadOrCreate fs path = .error e) : Plain e := by
  unfold Solution.loadOrCreate at he
  split at he
  · cases hload : Solution.load fs path with
    | ok s => simp [hload, Except.map] at he
    | error failure =>
      rw [hload] at he
      cases he
      exact plain_of_load hload
  · cases he

theorem matched_assembleSolution (path : Path) (projects : List Path) :
    Matched C.ofRuns (Failing F) (assembleSolution path projects) := by
  have hassemble (name : String) (solution : Solution) : Matched C.ofRuns (Failing F)
      (do
        let full ← projects.foldlM (registerProject name) solution
        Run.onFiles full.save) :=
    (Matched.foldlM (fun s p => matched_registerProject h name s p) _ _).failing.bind fun full =>
      Matched.onFiles fun fault => Or.inr ⟨rfl, rfl⟩
  unfold assembleSolution
  refine Matched.currentFiles.bind fun fs => ?_
  refine (Matched.ofExcept fun e he => Or.inr (plain_of_loadOrCreate he)).bind fun loaded => ?_
  obtain ⟨solution, created⟩ := loaded
  refine Matched.ite (fun _ => ?_) fun _ => hassemble _ solution
  exact (h.say _ _).failing.bind fun _ => hassemble _ solution

theorem matched_trySolution (path : Path) (projects : List Path) :
    Matched C.ofRuns (Halting F) (trySolution path projects) := by
  unfold trySolution
  refine (matched_assembleSolution h path projects).caught_reporting (fun result => ?_)
    fun e' he' => ?_
  · split
    · exact Matched.pure _
    · refine Matched.ite (fun hends => Matched.throw (Or.inr ⟨rfl, hends⟩)) fun _ => ?_
      exact (h.say _ _).mono fun _ he => Or.inl he
  · simp only [he', if_true]

/-- Whole generations keep two runs together. -/
theorem matched_steps (settings : Settings) (year : Nat) (q : GenerationRequest) :
    Matched C.ofRuns (Unreported F) (steps t settings year q) := by
  unfold steps
  refine ((Matched.destination _ _).mono fun _ he => Or.inr he).bind fun destination => ?_
  refine (t.matched_mentionIgnored h _).unreported.bind fun _ => ?_
  refine (Matched.onFiles fun fault => Or.inr rfl).bind fun _ => ?_
  refine (Matched.forM (fun p => matched_addProject h _ t destination p) _).unreported.bind fun _ => ?_
  split
  · exact Matched.get_projects fun projects =>
      (matched_trySolution h _ projects).unreported
  · exact Matched.pure _

end Stencil.Generation
