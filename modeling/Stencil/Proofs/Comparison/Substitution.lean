import Stencil.Proofs.Comparison.Lifting
import Stencil.Run

namespace Stencil

variable {C : Comparison Journal} {F : Failure → Prop}

namespace Spoken

variable (h : Spoken C F)
include h

theorem expansion_reported {α : Type} (location : Location) (message : String) :
    Matched C.ofExpansions F (Expansion.reported location message : Attempt Expansion α) :=
  (h.reported (some location) message).journaled

theorem expansion_sayAt_pure {α : Type} (level : Level) (location : Location) (message : String)
    (a : α) :
    Matched C.ofExpansions F (do Expansion.sayAt level location message; pure a) :=
  ((h.expansion_sayAt level location message).mono fun _ he => he.1).bind fun _ => Matched.pure a

end Spoken

namespace Renderer

variable (h : Spoken C F) (r : Renderer)
include h

omit h in
theorem matched_newGuid : Matched C.ofExpansions F r.newGuid := by
  have hout (e : Expansion) (j : Journal) : r.newGuid.outcome (e.under j) =
      ((r.newGuid.outcome e).1, (r.newGuid.outcome e).2.under j) ∧
        (r.newGuid.outcome e).2.journal = e.journal ∧ ∃ text, (r.newGuid.outcome e).1 = .ok text := by
    unfold Attempt.outcome newGuid
    cases r.expander <;> exact ⟨rfl, rfl, _, rfl⟩
  constructor
  · rintro s _ ⟨j, rfl, hj⟩
    obtain ⟨hblind, hjournal, text, htext⟩ := hout s j
    rw [hblind]
    generalize r.newGuid.outcome s = left at hjournal htext
    obtain ⟨result, s'⟩ := left
    cases htext
    exact .value ⟨j, rfl, hjournal ▸ hj⟩
  · intro s t hst
    change C.passed s.journal (r.newGuid.outcome t).2.journal
    rw [(hout t t.journal).2.1]
    exact hst

theorem matched_function (location : Location) (token : String) :
    Matched C.ofExpansions F (r.function location token) := by
  unfold function
  split
  · exact (r.matched_newGuid).bind fun guid => h.expansion_sayAt_pure _ _ _ _
  · exact Matched.pure _
  · exact h.expansion_sayAt_pure _ _ _ _

theorem matched_undeclared (location : Location) (token : String) :
    Matched C.ofExpansions F (r.undeclared location token) := by
  unfold undeclared
  split
  · exact h.expansion_sayAt_pure _ _ _ _
  · exact h.expansion_reported _ _

omit r in
theorem matched_valueOf (location : Location) (token : String) (v : Variable) :
    Matched C.ofExpansions F (valueOf location token v) := by
  unfold valueOf
  exact Matched.ite (fun _ => h.expansion_sayAt_pure _ _ _ _)
    fun _ => h.expansion_sayAt_pure _ _ _ _

omit r in
theorem matched_parameterFor (location : Location) (v : Variable) (role : String) :
    Matched C.ofExpansions F (parameterFor location v role) := by
  unfold parameterFor
  split
  · exact Matched.pure _
  · exact h.expansion_sayAt_pure _ _ _ _

theorem matched_declared (location : Location) (token : String) (v : Variable) :
    Matched C.ofExpansions F (r.declared location token v) := by
  unfold declared
  split
  · exact matched_parameterFor h _ _ _
  · exact matched_valueOf h _ _ _

theorem matched_token (location : Location) (token : String) :
    Matched C.ofExpansions F (r.token location token) := by
  unfold Renderer.token
  refine Matched.ite (fun _ => h.expansion_sayAt_pure _ _ _ _) fun _ => ?_
  refine Matched.ite (fun _ => r.matched_function h _ _) fun _ => ?_
  split
  · exact r.matched_undeclared h _ _
  · exact r.matched_declared h _ _ _

theorem matched_fragment (file : Path) (origin : Position) (f : Fragment) :
    Matched C.ofExpansions F (r.fragment file origin f) := by
  cases f with
  | literal text => exact Matched.pure _
  | token body place => exact r.matched_token h _ _
  | unclosed place => exact h.expansion_reported _ _

/-- Texts are expanded alike. -/
theorem matched_renderAt (file : Path) (origin : Position) (text : String) :
    Matched C.ofExpansions F (r.renderAt file origin text) := by
  unfold renderAt
  exact (Matched.mapM (fun f => r.matched_fragment h file origin f) _).bind fun _ => Matched.pure _

end Renderer

namespace Entry

variable (h : Spoken C F) (r : Renderer) (t : Template) (e : Entry)
include h

theorem matched_firstSource (fs : FileSystem) (candidates : List String) :
    Matched C.ofExpansions F (e.firstSource fs r t candidates) := by
  induction candidates with
  | nil => exact h.expansion_reported _ _
  | cons candidate rest ih =>
    unfold firstSource
    refine (r.matched_renderAt h _ _ _).bind fun path => ?_
    exact Matched.ite (fun _ => Matched.pure _) fun _ => ih

theorem matched_resolveSource (fs : FileSystem) :
    Matched C.ofExpansions F (e.resolveSource fs r t) := by
  unfold resolveSource
  exact ((h.expansion_say _ _).mono fun _ he => he.1).bind fun _ =>
    matched_firstSource h r t e fs e.candidates

theorem matched_resolveDestination : Matched C.ofExpansions F (e.resolveDestination r t) := by
  unfold resolveDestination
  refine (r.matched_renderAt h _ _ _).bind fun relative => ?_
  exact Matched.ite (fun _ => h.expansion_reported _ _) fun _ => Matched.pure _

end Entry

theorem Run.matched_expandSource (h : Spoken C F) (r : Renderer) (source : Path) :
    Matched C.ofRuns (fun e => F e ∨ Plain e) (Run.expandSource r source) := by
  unfold expandSource
  refine (Matched.looking fun fault => Or.inr ⟨rfl, rfl⟩).bind fun text => ?_
  exact (r.matched_renderAt h _ _ _).expanding.mono fun _ he => Or.inl he

theorem Template.matched_mentionIgnored (h : Spoken C F) (t : Template)
    (values : List (String × String)) :
    Matched C.ofRuns (Halting F) (Run.journaled (t.mentionIgnored values)) := by
  unfold Run.journaled mentionIgnored
  exact (Matched.forM (fun name => h.detail _) _).journaled.expanding

end Stencil
