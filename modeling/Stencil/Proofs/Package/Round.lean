import Stencil.Proofs.Comparison.Flawless
import Stencil.Proofs.Lookup
import Stencil.Proofs.Package.Outsiders

namespace Stencil

open Journal (Warned)

variable {P : Diagnostic → Bool} {t : Template} {settings : Settings} {year : Nat} {q : ExportRequest}
  {files : FileSystem} {r : Renderer} {e : Entry} {entries : PackageEntries}
  {before after : Expansion} {s s' : Run}

/-- Whether a diagnostic is a warning that an entry was left out of a layout. -/
def Diagnostic.tellsOfDuplicate (d : Diagnostic) : Bool :=
  d.level = .warning && "Skipping entry: ".toList.isPrefixOf d.message.toList

/-- Expanding texts gives no such warning. -/
theorem Diagnostic.OfText.not_tellsOfDuplicate (d : Diagnostic) (h : d.OfText) :
    d.tellsOfDuplicate = false := h.not_starting (c := 'S') rfl (by decide)

/-- What a strict export does for an entry that it gets past, to its layout and to what it says. -/
inductive Package.Round (r : Renderer) (t : Template) (e : Entry)
    (p q : PackageEntries × Expansion) : Prop
  | left {relative : String} {file : PackageFile} {path : Path}
    (hgives : Expansion.Gives (e.resolveDestination r t) relative)
    (hinsert : p.1.insert relative file = .error (.duplicate path)) (hsame : q.1 = p.1)
    (htold : Warned Diagnostic.tellsOfDuplicate 1 p.2.journal q.2.journal)
  | laid {relative : String} {file : PackageFile} {names : List String}
    (hgives : Expansion.Gives (e.resolveDestination r t) relative)
    (hinsert : p.1.insert relative file = .ok (q.1, names))
    (htold : Warned Diagnostic.tellsOfDuplicate 0 p.2.journal q.2.journal)

namespace Package

/-- The source and the destination of an entry, looked up one after the other. -/
def pair (files : FileSystem) (r : Renderer) (t : Template) (e : Entry) :
    Attempt Expansion (Path × String) := do
  let source ← e.resolveSource files r t
  let relative ← e.resolveDestination r t
  return (source, relative)

theorem resolve_eq_pair : resolve files r t e = (do
    match ← (pair files r t e).caught with
    | .ok found => return some found
    | .error (.reported _) => return none
    | .error failure => throw failure) := rfl

/-- A strict export that gets past looking up an entry has found both. -/
theorem resolve_eq_ok (hs : before.journal.strict = true) {found : Option (Path × String)}
    (h : (resolve files r t e).outcome before = (.ok found, after)) :
    ∃ source relative between, found = some (source, relative) ∧
      (e.resolveSource files r t).outcome before = (.ok source, between) ∧
      (e.resolveDestination r t).outcome between = (.ok relative, after) := by
  -- both lookups are caught at once; a strict one fails by raising only
  have hpair : Matched (Comparison.alone (·.strict = true)).ofExpansions IsRaised (pair files r t e) :=
    (e.matched_resolveSource Journal.spoken_strict r t files).bind fun _ =>
      (e.matched_resolveDestination Journal.spoken_strict r t).bind fun _ => Matched.pure _
  rw [resolve_eq_pair] at h
  obtain ⟨result, caught, hcaught, h⟩ := Attempt.outcome_bind_eq_ok_iff.mp h
  rw [Attempt.outcome_caught] at hcaught
  obtain ⟨hresult, hlast⟩ := Prod.mk.inj hcaught
  obtain rfl := Except.ok.inj hresult
  cases hrun : (pair files r t e).outcome before with
  | mk result last =>
    have hfails := (hpair.outcome_alone_expansion hs).2
    rw [hrun] at h hfails hlast
    cases result with
    | error failure =>
      -- nothing is reported by a strict run, and other failures are passed on
      obtain ⟨d, rfl⟩ := hfails failure rfl
      cases h
    | ok found =>
      cases h
      obtain rfl : last = after := hlast
      obtain ⟨source, between, hsource, hrest⟩ := Attempt.outcome_bind_eq_ok_iff.mp hrun
      obtain ⟨relative, last, hrelative, hboth⟩ := Attempt.outcome_bind_eq_ok_iff.mp hrest
      cases hboth
      exact ⟨source, relative, between, rfl, hsource, hrelative⟩

/-- A strict export that goes on with an entry that cannot be inserted has found a duplicate. -/
theorem sayAt_levelOf_eq_ok {fault : InsertFault} {location : Location} {message : String}
    (hs : before.journal.strict = true)
    (h : (Expansion.sayAt (levelOf fault) location message).outcome before = (.ok (), after)) :
    (∃ path, fault = .duplicate path) ∧
      after.journal = before.journal.publishFrom ⟨.warning, message, some location⟩ := by
  unfold Expansion.sayAt at h
  rw [Expansion.outcome_journaled] at h
  unfold Journal.sayAt at h
  rw [Journal.outcome_emit, hs] at h
  cases fault with
  | duplicate path =>
    cases h
    exact ⟨⟨path, rfl⟩, rfl⟩
  | invalidPath text => cases h
  | notADirectory path => cases h

/-- Laying out an entry in a strict export is a round, or ends it. -/
theorem round_of_layOut (hguid : Renderer.Guidless e.destination) (hs : before.journal.strict = true)
    {grown : PackageEntries} {place : Option (List String)}
    (h : (layOut files r t entries e).outcome before = (.ok (grown, place), after)) :
    Round r t e (entries, before) (grown, after) := by
  unfold layOut at h
  obtain ⟨found, resolved, hresolve, h⟩ := Attempt.outcome_bind_eq_ok_iff.mp h
  have hspares := Diagnostic.OfText.not_tellsOfDuplicate
  have hquiet := (spares_resolve r t hspares files e).of_outcome hresolve
  obtain ⟨source, relative, between, rfl, hsource, hrelative⟩ := resolve_eq_ok hs hresolve
  obtain ⟨hgives, hresolved⟩ := Entry.gives_of_resolved hguid hs hsource hrelative
  simp only at h
  split at h
  · next laid names hinsert =>
    cases h
    exact .laid hgives hinsert (.of_picked hquiet)
  · next fault hinsert =>
    obtain ⟨_, told, htold, h⟩ := Attempt.outcome_bind_eq_ok_iff.mp h
    cases h
    obtain ⟨⟨path, rfl⟩, hjournal⟩ := sayAt_levelOf_eq_ok hresolved htold
    have hfront : "Skipping entry: ".toList <+:
        s!"Skipping entry: {(InsertFault.duplicate path).message}.".toList := by
      simp only [String.toList_append, List.append_assoc]
      exact List.prefix_append _ _
    -- the remark on the fault is one of the kind that is counted
    have hremark : Diagnostic.tellsOfDuplicate
        ⟨.warning, s!"Skipping entry: {(InsertFault.duplicate path).message}.",
          some ⟨t.path, e.position⟩⟩ = true := by
      unfold Diagnostic.tellsOfDuplicate
      rw [List.isPrefixOf_iff_prefix.mpr hfront]
      rfl
    have hjournals : Warned Diagnostic.tellsOfDuplicate 1 resolved.journal after.journal :=
      hjournal ▸ Warned.publishFrom resolved.journal hremark rfl
    exact .left hgives hinsert rfl ((Warned.of_picked hquiet).trans hjournals)

/-- A strict export that lays out a project has taken a round for each of its entries. -/
theorem rounds_of_layOutProject {p : Project} (hguid : ∀ e ∈ p.entries, Renderer.Guidless e.destination)
    (hs : before.journal.strict = true) {laid : PackageEntries × List String}
    (h : (layOutProject files r t p).outcome before = (.ok laid, after)) :
    Linked (Round r t) p.entries ([], before) (laid.1, after) := by
  -- an entry is a round from a strict state and leaves a strict one for the next
  have hround {e : Entry} (he : e ∈ p.entries) {entries grown : PackageEntries} {x y : Expansion}
      {place : Option (List String)} (hx : x.journal.strict = true)
      (hlaid : (layOut files r t entries e).outcome x = (.ok (grown, place), y)) :
      Round r t e (entries, x) (grown, y) ∧ y.journal.strict = true := by
    have honward := layOut_onward files r t entries e x
    rw [hlaid] at honward
    exact ⟨round_of_layOut (hguid e he) hx hlaid, honward.strict.trans hx⟩
  obtain ⟨entries, placed, hplaced, hloop⟩ := layOutProject_eq_ok h
  obtain ⟨hfirst, hplacedStrict⟩ := hround List.mem_cons_self hs hplaced
  have hrest : Linked (Round r t) p.files (entries, placed) (laid.1, after) := by
    refine (Linked.mono_kept (I := fun x : PackageEntries × Expansion => x.2.journal.strict = true)
      (Linked.of_foldlM hloop) hplacedStrict fun e he x y hx hstep => ?_).1
    obtain ⟨⟨grown, place⟩, last, hlaid, hvalue⟩ := Attempt.outcome_bind_eq_ok_iff.mp hstep
    obtain ⟨next, after⟩ := y
    cases hvalue
    exact hround (List.mem_cons_of_mem _ he) hx hlaid
  exact .cons hfirst hrest

theorem spares_opening (hP : ∀ d : Diagnostic, d.OfText → P d = false) (t : Template)
    (settings : Settings) (q : ExportRequest) : Run.Spares P (opening t settings q) := by
  unfold opening
  refine (Run.spares_destination _ _).bind fun output => ?_
  refine (Run.spares_mentionIgnored t _).bind fun _ => (Run.spares_detail _).bind fun _ => ?_
  exact (spares_onlyProject t hP).bind fun project => Leaves.pure _

/-- Writing a package says nothing of a kind unless it says it of outsiders. -/
theorem spares_writeOut (hP : ∀ d : Diagnostic, d.OfText → P d = false)
    (houtside : ∀ names, P (outsideRemark names) = false) (t : Template) (r : Renderer)
    (language : Language) (p : Plan) : Run.Spares P (writeOut t r language p) := by
  obtain ⟨output, entries, project⟩ := p
  have hwarn : Run.Spares P (warnOfOutsiders entries project) := by
    rw [warnOfOutsiders_eq]
    refine Leaves.forM (fun f => ?_) _
    have hsay : Run.Spares P (Run.say .warning (outsideRemark f.1).message) :=
      Run.spares_say (houtside f.1)
    exact Leaves.ite (Leaves.pure _) hsay
  simp only [writeOut, writeNode_eq_forM]
  refine (Leaves.forM (spares_writePiece r hP output) _).bind fun _ => ?_
  refine (spares_copyAsset t hP output t.icon).bind fun _ => ?_
  refine (spares_copyAsset t hP output t.preview).bind fun _ => hwarn.bind fun _ => ?_
  exact spares_writeDescriptor t hP language output entries project

/-- Warnings of outsiders are of another kind. -/
theorem not_tellsOfDuplicate_outsideRemark (names : List String) :
    (outsideRemark names).tellsOfDuplicate = false := by
  have hfront : ¬ "Skipping entry: ".toList <+: (outsideRemark names).message.toList := by
    simp only [outsideRemark, String.toList_append, List.append_assoc]
    intro hprefix
    exact absurd (List.cons_prefix_cons.mp hprefix).1 (by decide)
  unfold Diagnostic.tellsOfDuplicate
  rw [Bool.and_eq_false_iff]
  right
  rwa [Bool.eq_false_iff, ne_eq, List.isPrefixOf_iff_prefix]

/-- A strict export that comes to its end has taken a round for each entry, and what it says of the
kind it says in these rounds. -/
theorem rounds_of_steps (hguid : ∀ e ∈ t.projects.flatMap Project.entries,
      Renderer.Guidless e.destination) (hs : s.Strict)
    (h : (steps t settings year q).outcome s = (.ok (), s')) :
    ∃ p begun planned, ((plan t settings year q).outcome s).1 = .ok p ∧
      begun.journal.picked Diagnostic.tellsOfDuplicate =
        s.expansion.journal.picked Diagnostic.tellsOfDuplicate ∧
      Linked (Round (renderer t settings year q) t) (t.projects.flatMap Project.entries)
        ([], begun) (p.2.1, planned) ∧
      s'.expansion.journal.picked Diagnostic.tellsOfDuplicate =
        planned.journal.picked Diagnostic.tellsOfDuplicate := by
  have hspares := Diagnostic.OfText.not_tellsOfDuplicate
  -- an export plans and then writes, and plans by opening and laying out
  rw [steps_eq] at h
  obtain ⟨p, planned, hplan, hwriting⟩ := Attempt.outcome_bind_eq_ok_iff.mp h
  have hwritten := (spares_writeOut hspares not_tellsOfDuplicate_outsideRemark t _ q.language p).of_outcome
    hwriting
  have hvalue := congrArg Prod.fst hplan
  rw [plan_eq_opening] at hplan
  obtain ⟨⟨output, project⟩, begun, hopening, hplan⟩ := Attempt.outcome_bind_eq_ok_iff.mp hplan
  obtain ⟨fs, _, hfs, hplan⟩ := Attempt.outcome_bind_eq_ok_iff.mp hplan
  cases hfs
  obtain ⟨laid, _, hexpanded, hplan⟩ := Attempt.outcome_bind_eq_ok_iff.mp hplan
  obtain ⟨after, hlaid, rfl⟩ := Run.outcome_expanding_eq_ok_iff.mp hexpanded
  cases hplan
  have hbegun : begun.expansion.journal.strict = true := by
    have honward := opening_onward t settings q s
    rw [hopening] at honward
    exact honward.strict.trans hs
  rw [projects_of_opening hopening, List.flatMap_singleton] at hguid ⊢
  exact ⟨_, begun.expansion, after, hvalue, (spares_opening hspares t settings q).of_outcome hopening,
    rounds_of_layOutProject hguid hbegun hlaid, hwritten⟩

end Package

end Stencil
