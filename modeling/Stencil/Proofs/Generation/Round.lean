import Stencil.Proofs.Generation.Again

namespace Stencil

open FileSystem (Gained Grown Passes Retains Wrote)
open Journal (Warned)

variable {P : Diagnostic → Bool} {t : Template} {settings : Settings} {year : Nat}
  {q : GenerationRequest} {r : Renderer} {base : Path} {e : Entry} {s s' : Run}

/-- What a strict generation does for an entry that it gets past. -/
inductive Generation.Round (r : Renderer) (t : Template) (base : Path) (e : Entry) (s s' : Run) : Prop
  | left {relative : String} (hgives : Expansion.Gives (e.resolveDestination r t) relative)
    (hhas : s.files.has (base.join ⟨relative⟩) = true)
    (hsame : s'.files = s.files ∧ s'.written = s.written)
    (htold : Warned Diagnostic.tellsOfFile 1 s.expansion.journal s'.expansion.journal)
  | made {relative : String} {source : Path}
    (hgives : Expansion.Gives (e.resolveDestination r t) relative)
    (hfree : s.files.has (base.join ⟨relative⟩) = false)
    (hwrote : ∃ made place content, Grown s.files made ∧
      Wrote made (base.join ⟨relative⟩) place content s'.files)
    (hgained : Gained ((base.join ⟨relative⟩).Passing []) s.files s'.files)
    (hwritten : s'.written = s.written ++ [⟨source, base.join ⟨relative⟩⟩])
    (htold : Warned Diagnostic.tellsOfFile 0 s.expansion.journal s'.expansion.journal)

/-- What keeps the files and says nothing of the kind may follow in the same round. -/
theorem Generation.Round.later {s'' : Run} (h : Generation.Round r t base e s s')
    (hfiles : s''.files = s'.files)
    (hwritten : s''.written = s'.written)
    (hpicked : s''.expansion.journal.picked Diagnostic.tellsOfFile =
      s'.expansion.journal.picked Diagnostic.tellsOfFile) :
    Generation.Round r t base e s s'' := by
  have hquiet := Warned.of_picked hpicked
  cases h with
  | left hgives hhas hsame htold =>
    exact .left hgives hhas ⟨hfiles.trans hsame.1, hwritten.trans hsame.2⟩ (htold.trans hquiet)
  | made hgives hfree hwrote hgained hnoted htold =>
    rw [← hfiles] at hwrote hgained
    exact .made hgives hfree hwrote hgained (hwritten.trans hnoted) (htold.trans hquiet)

theorem Generation.Round.retains (h : Generation.Round r t base e s s') :
    Retains s.files s'.files := by
  cases h with
  | left _ _ hsame => exact hsame.1 ▸ Retains.refl _
  | made _ _ hwrote =>
    obtain ⟨made, place, content, hgrown, hwrote⟩ := hwrote
    exact hgrown.retains.trans hwrote.retains

namespace Generation

theorem fillTarget_result (r : Renderer) (e : Entry) (source target : Path) :
    Triple (fun _ => True) (fillTarget r e source target) (fun result _ => result = some target)
      fun _ => True := by
  have hwrite : Triple (fun _ => True) (writeTarget r e source target)
      (fun result _ => result = some target) fun _ => True := by
    unfold writeTarget
    refine (Triple.trivial _ _).bind fun _ => (Triple.trivial _ _).bind fun _ => ?_
    exact (Triple.trivial _ _).bind fun _ => Triple.pure fun _ _ => rfl
  exact fillTarget_cases (p := fun x => Triple _ x _ _)
    (fun _ _ => (Triple.trivial _ _).bind fun _ => hwrite) fun _ => hwrite

section

variable (hP : ∀ d : Diagnostic, d.OfText → P d = false)
include hP

theorem spares_writeEntry (r : Renderer) (raw : Bool) (source target : Path) :
    Run.Spares P (writeEntry r raw source target) := by
  have hsay (message : String) : Run.Spares P (Run.say .info message) :=
    Run.spares_say (hP _ (.of_ne (by decide)))
  unfold writeEntry
  refine Leaves.ite ((hsay _).bind fun _ => Run.spares_onFiles _) ?_
  refine (hsay _).bind fun _ => (Run.spares_expandSource hP r source).bind fun rendered => ?_
  exact (Run.spares_detail _).bind fun _ => Run.spares_onFiles _

theorem spares_fillTarget (r : Renderer) (e : Entry) (source target : Path) :
    Run.Spares P (fillTarget r e source target) := by
  have hannounce : Run.Spares P (Run.announce ⟨source, target⟩) := fun _ => rfl
  have hnote : Run.Spares P (Run.addWritten ⟨source, target⟩) := fun _ => rfl
  have hwrite : Run.Spares P (writeTarget r e source target) := by
    unfold writeTarget
    refine (spares_writeEntry hP r e.raw source target).bind fun _ => ?_
    exact hannounce.bind fun _ => hnote.bind fun _ => Leaves.pure _
  exact fillTarget_cases (p := fun x => Run.Spares P x)
    (fun _ _ => (Run.spares_onFiles _).bind fun _ => hwrite) fun _ => hwrite

end

/-- A tour that wrote one file has passed what its target passes. -/
theorem toured_singleton {source target : Path} {place : List String}
    (h : Toured [⟨source, target⟩] place) : target.Passing [] place := by
  obtain ⟨w, hw, hpassing⟩ := h
  rwa [List.mem_singleton.mp hw] at hpassing

/-- Making the file of an entry is a round, or ends it. -/
theorem round_of_makeEntry (hguid : Renderer.Guidless e.destination) (hb : base.isRooted = true)
    (hbase : s.files.Passes [] base.moves) (hs : s.Strict) {result : Option Path}
    (hrun : (makeEntry r t base e).outcome s = (.ok result, s')) : Round r t base e s s' := by
  obtain ⟨source, relative, after, last, hsource, hrelative, hend⟩ := makeEntry_eq_ok hrun
  have hspares := Diagnostic.OfText.not_tellsOfFile
  obtain ⟨hgives, -⟩ := Entry.gives_of_resolved hguid hs hsource hrelative
  -- expanding the two texts says nothing of the kind
  have hquiet : last.journal.picked Diagnostic.tellsOfFile =
      s.expansion.journal.picked Diagnostic.tellsOfFile :=
    ((e.spares_resolveDestination hspares r t).of_outcome hrelative).trans
      ((e.spares_resolveSource hspares r t s.files).of_outcome hsource)
  rcases hend with ⟨hhas, -, rfl⟩ | ⟨hfree, hfill⟩
  · have htold := Warned.publishFrom last.journal
      (existsRemark_tellsOfFile t e (base.join ⟨relative⟩)) rfl
    exact .left hgives hhas ⟨rfl, rfl⟩ ((Warned.of_picked hquiet).trans htold)
  · -- what was made and what is new is known of making the file as a whole
    obtain rfl := (fillTarget_result r e source _).of_outcome trivial hfill
    have htold := ((spares_fillTarget hspares r e source _).of_outcome hfill).trans hquiet
    obtain ⟨source', hmade, hwritten, -, -⟩ := (makeEntry_made r t e hb hbase).of_outcome rfl hrun
    obtain ⟨-, more, hmore, hgained⟩ := (makeEntry_gained r t hb e).of_outcome ⟨rfl, rfl⟩ hrun
    obtain rfl := List.append_cancel_left (hmore.symm.trans hwritten)
    obtain ⟨made, place, content, hgrown, -, hwrote⟩ := hmade.wrote
    exact .made hgives hfree ⟨made, place, content, hgrown, hwrote⟩
      (hgained.mono fun _ => toured_singleton) hwritten (.of_picked htold)

theorem spares_noteTarget (hP : ∀ d : Diagnostic, d.OfText → P d = false) (kind : String) (e : Entry)
    (target : Path) : Run.Spares P (noteTarget kind e target) := by
  have hnote : Run.Spares P (Run.addProject target) := fun _ => rfl
  unfold noteTarget
  exact (Run.spares_say (hP _ (.of_ne (by decide)))).bind fun _ => Leaves.ite hnote (Leaves.pure ())

/-- A strict generation that gets past an entry has taken a round for it, and is strict. -/
theorem round_of_addEntry (hguid : Renderer.Guidless e.destination) (hb : base.isRooted = true)
    (hbase : s.files.Passes [] base.moves) (hs : s.Strict) {kind : String}
    (hrun : (addEntry r t base kind e).outcome s = (.ok (), s')) :
    Round r t base e s s' ∧ s'.Strict := by
  have honward := (matched_addEntry Journal.spoken_onward r t base kind e).onward s
  rw [hrun] at honward
  refine ⟨?_, honward.strict.trans hs⟩
  unfold addEntry at hrun
  obtain ⟨result, taken, htry, hrest⟩ := Attempt.outcome_bind_eq_ok_iff.mp hrun
  obtain ⟨-, start, rfl, hmake⟩ :=
    (strictly_tryEntry (Triple.ran (P := (· = s)) (makeEntry r t base e))).of_outcome ⟨hs, rfl⟩ htry
  have hround := round_of_makeEntry hguid hb hbase hs hmake
  cases result with
  | none =>
    cases hrest
    exact hround
  | some target =>
    -- what follows the file only says that it is there, and notes a project
    have hnote : (noteTarget kind e target).outcome taken = (.ok (), s') := hrest
    obtain ⟨hfiles, hwritten⟩ := quiet_noteTarget kind e target taken
    rw [hnote] at hfiles hwritten
    have hpicked := (spares_noteTarget Diagnostic.OfText.not_tellsOfFile kind e target).of_outcome hnote
    exact hround.later hfiles hwritten hpicked

/-- What a generation has done before it takes up its entries: it has made its destination. -/
structure Begun (q : GenerationRequest) (base : Path) (s s' : Run) : Prop where
  absolute : q.destination.absolute? s.files.workingPath = some base
  made : FileSystem.createDirectories base s.files = .ok () s'.files
  passes : s'.files.Passes [] base.moves
  written : s'.written = s.written

theorem begun_of_opening (h : (opening t settings q).outcome s = (.ok base, s')) :
    Begun q base s s' := by
  obtain ⟨habsolute, hpasses, -⟩ := (opening_triple s.files).of_outcome rfl h
  obtain ⟨-, hmade, hwritten⟩ := opening_eq_ok h
  exact ⟨habsolute, hmade, hpasses, hwritten⟩

theorem spares_opening (t : Template) (settings : Settings) (q : GenerationRequest) :
    Run.Spares P (opening t settings q) := by
  unfold opening
  refine (Run.spares_destination _ _).bind fun base => (Run.spares_mentionIgnored t _).bind fun _ => ?_
  exact (Run.spares_onFiles _).bind fun _ => Leaves.pure _

/-- A strict generation without a solution that comes to its end has taken a round for each entry. -/
theorem rounds_of_steps (hguid : ∀ e ∈ t.projects.flatMap Project.entries,
      Renderer.Guidless e.destination)
    (hsolution : q.solution = none) (hs : s.Strict)
    (h : (steps t settings year q).outcome s = (.ok (), s')) :
    ∃ base begun, Begun q base s begun ∧
      begun.expansion.journal.picked P = s.expansion.journal.picked P ∧
      Linked (Round (renderer t settings year q) t base) (t.projects.flatMap Project.entries)
        begun s' := by
  rw [steps_eq_opening] at h
  obtain ⟨base, begun, hopening, h⟩ := Attempt.outcome_bind_eq_ok_iff.mp h
  obtain ⟨_, turned, hturned, hclosing⟩ := Attempt.outcome_bind_eq_ok_iff.mp h
  unfold closing at hclosing
  rw [hsolution] at hclosing
  cases hclosing
  have hbegun := begun_of_opening hopening
  have hb := isRooted_absolute hbegun.absolute
  have hstrict : begun.Strict := by
    have honward := opening_onward t settings q s
    rw [hopening] at honward
    exact honward.strict.trans hs
  refine ⟨base, begun, hbegun, (spares_opening t settings q).of_outcome hopening, ?_⟩
  -- what is on the way to the destination stays, so each entry finds it there
  rw [← map_tasks] at hguid ⊢
  refine (Linked.mono_kept (I := fun s => s.Strict ∧ s.files.Passes [] base.moves)
    (Linked.of_forM hturned) ⟨hstrict, hbegun.passes⟩ fun task htask s₁ s₂ hkept hrun => ?_).1.of_map
  obtain ⟨hstrict₁, hpasses₁⟩ := hkept
  obtain ⟨hround, hstrict₂⟩ :=
    round_of_addEntry (hguid task.2 (List.mem_map_of_mem htask)) hb hpasses₁ hstrict₁ hrun
  exact ⟨hround, hstrict₂, hpasses₁.mono hround.retains⟩

end Generation

end Stencil
