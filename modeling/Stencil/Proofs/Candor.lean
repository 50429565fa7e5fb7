import Stencil.Proofs.Closing
import Stencil.Proofs.Comparison.Lifting
import Stencil.Run

/-! What a run says of its errors. As long as nothing stops it, its journal counts all errors that it
records, and it records those that its threshold lets pass. An error that stops the run is recorded
last. How a message starts tells the two apart, so no error is on record twice that ends a run. -/

namespace Stencil

variable {σ α β γ : Type} {settings : Settings}

/-- A text that starts with another one. -/
def Text.Starts (front text : String) : Prop := front.toList <+: text.toList

theorem Text.Starts.refl (text : String) : Text.Starts text text := List.prefix_refl _

theorem Text.Starts.append {front text : String} (h : Text.Starts front text) (more : String) :
    Text.Starts front (text ++ more) := by
  unfold Text.Starts
  rw [String.toList_append]
  exact h.trans (List.prefix_append _ _)

/-- How the errors start that a lenient run goes on after. -/
def passingFronts : List String :=
  ["Variable '", "Unknown semantic '", "No matching block end.", "Source file '", "Destination '",
    "Skipping entry: ", "Error rendering '", "Error writing '", "Invalid asset path '",
    "Failed to copy '", "Asset not found at '", "Could not add project '",
    "Failed to update solution '"]

/-- How the errors start that end every run. -/
def endingFronts : List String :=
  ["IO error: ", "XML error: ", "Template error: ", "The destination directory '",
    "Solution error: ", "Configuration error: ", "Validation error: ", "Project file '",
    "Template does not contain a project to export.",
    "VS templates with more than 1 project are not supported, found "]

namespace Diagnostic

/-- A diagnostic after which a lenient run goes on. -/
def Passing (d : Diagnostic) : Prop :=
  d.level = .error → ∃ front ∈ passingFronts, Text.Starts front d.message

/-- An error that ends a run, strict or not. -/
structure Ending (d : Diagnostic) : Prop where
  level : d.level = .error
  starts : ∃ front ∈ endingFronts, Text.Starts front d.message

theorem Passing.of_front {level : Level} {message front : String} {location : Option Location}
    (hfront : front ∈ passingFronts) (hstarts : Text.Starts front message) :
    Passing ⟨level, message, location⟩ := fun _ => ⟨front, hfront, hstarts⟩

theorem Passing.of_ne {level : Level} {message : String} {location : Option Location}
    (h : level ≠ .error) : Passing ⟨level, message, location⟩ := fun he => absurd he h

/-- No start of the one kind goes on to one of the other. -/
theorem fronts_apart : ∀ front ∈ passingFronts, ∀ other ∈ endingFronts,
    ¬ front.toList <+: other.toList ∧ ¬ other.toList <+: front.toList := by
  decide +kernel

theorem Ending.not_passing {d : Diagnostic} (h : d.Ending) : ¬ d.Passing := by
  intro hpassing
  obtain ⟨front, hfront, hstarts⟩ := hpassing h.level
  obtain ⟨other, hother, hends⟩ := h.starts
  obtain ⟨hleft, hright⟩ := fronts_apart front hfront other hother
  exact (List.prefix_or_prefix_of_prefix hstarts hends).elim hleft hright

end Diagnostic

/-- What the report of a run says of the failure that ended it. -/
def Failure.diagnostic : Failure → Diagnostic
  | .fatal d | .raised d | .reported d => d
  | failure => ⟨.error, failure.message, none⟩

/-- A failure that is not recorded until its run is closed reads like one that ends the run. -/
theorem Failure.ending_of_unrecorded {e : Failure} (h : e.isRecorded = false) : e.diagnostic.Ending := by
  have hends {front message : String} (hfront : front ∈ endingFronts)
      (hstarts : Text.Starts front message) : Diagnostic.Ending ⟨.error, message, none⟩ :=
    ⟨rfl, front, hfront, hstarts⟩
  cases e with
  | file fault => exact hends (by decide) (((Text.Starts.refl "IO error: ").append _).append _)
  | markup fault => exact hends (by decide) (((Text.Starts.refl "XML error: ").append _).append _)
  | template fault =>
    exact hends (by decide) (((Text.Starts.refl "Template error: ").append _).append _)
  | occupied destination =>
    exact hends (by decide)
      ((((Text.Starts.refl "The destination directory '").append _).append _).append _)
  | solution fault =>
    exact hends (by decide) (((Text.Starts.refl "Solution error: ").append _).append _)
  | configuration fault =>
    exact hends (by decide) (((Text.Starts.refl "Configuration error: ").append _).append _)
  | validation fault =>
    exact hends (by decide) (((Text.Starts.refl "Validation error: ").append _).append _)
  | _ => cases h

namespace Journal

variable {j : Journal} {d : Diagnostic} {result : Except Failure α}

/-- A journal that no error has stopped: it has counted all errors on record, and those that it has
counted are on record if its threshold lets them pass. -/
structure Faithful (settings : Settings) (j : Journal) : Prop where
  threshold : j.threshold = settings.threshold
  strict : j.strict = settings.strict
  levels : ∀ d ∈ j.records, d.level ≠ .none
  passing : ∀ d ∈ j.records, d.Passing
  counted : ∀ d ∈ j.records, d.level = .error → 0 < j.errors
  told : settings.threshold ≤ .error → 0 < j.errors → ∃ d ∈ j.records, d.level = .error
  patient : settings.strict = true → j.errors = 0

/-- A journal that an error has stopped, which is the last on record. -/
def Stopped (settings : Settings) (d : Diagnostic) (j : Journal) : Prop :=
  ∃ before : Journal, before.Faithful settings ∧ j.records = before.records ++ [d]

/-- How a step leaves a faithful journal. -/
inductive Leaving (settings : Settings) : Except Failure α → Journal → Prop
  | value {a : α} {j : Journal} (h : j.Faithful settings) : Leaving settings (.ok a) j
  | plain {e : Failure} {j : Journal} (he : e.isRecorded = false) (h : j.Faithful settings) :
    Leaving settings (.error e) j
  | reported {d : Diagnostic} {j : Journal} (hlenient : settings.strict = false)
    (h : j.Faithful settings) : Leaving settings (.error (.reported d)) j
  | raised {d : Diagnostic} {j : Journal} (hstrict : settings.strict = true)
    (hlevel : d.level = .error) (h : j.Stopped settings d) : Leaving settings (.error (.raised d)) j
  | fatal {d : Diagnostic} {j : Journal} (hends : d.Ending) (h : j.Stopped settings d) :
    Leaving settings (.error (.fatal d)) j

namespace Faithful

theorem start (settings : Settings) : settings.journal.Faithful settings where
  threshold := rfl
  strict := rfl
  levels := nofun
  passing := nofun
  counted := nofun
  told _ h := absurd h (Nat.lt_irrefl 0)
  patient _ := rfl

theorem mention (h : j.Faithful settings) (level : Level) (text : String) :
    (j.mention level text).Faithful settings :=
  ⟨h.threshold, h.strict, h.levels, h.passing, h.counted, h.told, h.patient⟩

/-- What is said besides errors changes nothing of what is said of errors. -/
theorem publishFrom (h : j.Faithful settings) (hnone : d.level ≠ .none) (herror : d.level ≠ .error) :
    (j.publishFrom d).Faithful settings := by
  unfold Journal.publishFrom
  split
  · exact h
  · have hmem {other : Diagnostic} (hother : other ∈ (j.publish d).records) :
        other ∈ j.records ∨ other = d :=
      (List.mem_append.mp hother).imp_right List.mem_singleton.mp
    exact {
      threshold := h.threshold
      strict := h.strict
      levels := fun other hother => (hmem hother).elim (h.levels other) (· ▸ hnone)
      passing := fun other hother =>
        (hmem hother).elim (h.passing other) fun heq he => absurd (heq ▸ he) herror
      counted := fun other hother he =>
        (hmem hother).elim (h.counted other · he) fun heq => absurd (heq ▸ he) herror
      told := fun hthreshold hcounted =>
        have ⟨other, hother, he⟩ := h.told hthreshold hcounted
        ⟨other, List.mem_append_left _ hother, he⟩
      patient := h.patient }

/-- A lenient journal goes on after an error. -/
theorem publishError (h : j.Faithful settings) (hlenient : settings.strict = false)
    (hlevel : d.level = .error) (hpassing : d.Passing) :
    (j.countError.publishFrom d).Faithful settings := by
  have hpatient {n : Nat} : settings.strict = true → n = 0 := by
    rw [hlenient]
    exact nofun
  unfold Journal.publishFrom
  split
  · next hbelow =>
    -- an error that is dropped is below the threshold, which then lets no error pass
    have hthreshold : ¬ settings.threshold ≤ .error := by
      rw [← h.threshold, ← hlevel]
      exact Level.not_le.mpr hbelow
    exact ⟨h.threshold, h.strict, h.levels, h.passing, fun _ _ _ => Nat.succ_pos _,
      fun hle => absurd hle hthreshold, hpatient⟩
  · have hmem {other : Diagnostic} (hother : other ∈ (j.countError.publish d).records) :
        other ∈ j.records ∨ other = d :=
      (List.mem_append.mp hother).imp_right List.mem_singleton.mp
    exact {
      threshold := h.threshold
      strict := h.strict
      levels := fun other hother =>
        (hmem hother).elim (h.levels other) fun heq => by rw [heq, hlevel]; decide
      passing := fun other hother => (hmem hother).elim (h.passing other) (· ▸ hpassing)
      counted := fun _ _ _ => Nat.succ_pos _
      told := fun _ _ => ⟨d, List.mem_append_right _ List.mem_cons_self, hlevel⟩
      patient := hpatient }

end Faithful

theorem leaving_emit (hj : j.Faithful settings) (h : d.Passing) :
    Leaving settings ((emit d).outcome j).1 ((emit d).outcome j).2 := by
  rw [outcome_emit]
  split
  · exact .value hj
  · next hnone =>
    split
    · next hlevel =>
      split
      · next hstrict => exact .raised (hj.strict.symm.trans hstrict) hlevel ⟨j, hj, rfl⟩
      · next hlenient =>
        have hlenient : settings.strict = false := by
          rw [← hj.strict]
          exact Bool.eq_false_iff.mpr hlenient
        exact .value (hj.publishError hlenient hlevel h)
    · next herror => exact .value (hj.publishFrom hnone herror)

theorem leaving_reported {location : Option Location} {message : String} (hj : j.Faithful settings)
    (h : Diagnostic.Passing ⟨.error, message, location⟩) :
    Leaving settings ((reported location message : Attempt Journal α).outcome j).1
      ((reported location message : Attempt Journal α).outcome j).2 := by
  rw [outcome_reported]
  split
  · next hstrict => exact .raised (hj.strict.symm.trans hstrict) rfl ⟨j, hj, rfl⟩
  · next hlenient =>
    have hlenient : settings.strict = false := by
      rw [← hj.strict]
      exact Bool.eq_false_iff.mpr hlenient
    exact .reported hlenient (hj.publishError hlenient rfl h)

end Journal

/-- A step after which a journal is as it should be that was so before. -/
def Candid (settings : Settings) (get : σ → Journal) (x : Attempt σ α) : Prop :=
  ∀ s, (get s).Faithful settings → Journal.Leaving settings (x.outcome s).1 (get (x.outcome s).2)

open Journal (Faithful Leaving)

namespace Candid

variable {get : σ → Journal} {x : Attempt σ α}

theorem pure (a : α) : Candid settings get (Pure.pure a : Attempt σ α) := fun _ h => .value h

theorem throw {e : Failure} (he : e.isRecorded = false) :
    Candid settings get (MonadExcept.throw e : Attempt σ α) := fun _ h => .plain he h

theorem bind {f : α → Attempt σ β} (hx : Candid settings get x)
    (hf : ∀ a, Candid settings get (f a)) : Candid settings get (x >>= f) := by
  intro s hs
  have hleft := hx s hs
  rw [Attempt.outcome_bind]
  generalize x.outcome s = left at hleft
  obtain ⟨result, s'⟩ := left
  cases result with
  | ok a =>
    cases hleft with
    | value h => exact hf a s' h
  | error e =>
    cases hleft with
    | plain he h => exact .plain he h
    | reported hlenient h => exact .reported hlenient h
    | raised hstrict hlevel h => exact .raised hstrict hlevel h
    | fatal hends h => exact .fatal hends h

/-- A failure that ends the run has to be passed on when it is caught. -/
theorem caught_bind {f : Except Failure α → Attempt σ β} (hx : Candid settings get x)
    (hf : ∀ result, (∀ e, result = .error e → ¬ e.endsRun = true) → Candid settings get (f result))
    (hthrow : ∀ e, e.endsRun = true → f (.error e) = MonadExcept.throw e) :
    Candid settings get (x.caught >>= f) := by
  have herror {e : Failure} (he : ¬ e.endsRun = true) : Candid settings get (f (.error e)) :=
    hf _ fun _ h => Except.error.inj h ▸ he
  intro s hs
  have hleft := hx s hs
  rw [Attempt.outcome_bind, Attempt.outcome_caught]
  generalize x.outcome s = left at hleft
  obtain ⟨result, s'⟩ := left
  -- what was recorded and ends the run comes back out of `f` as it went in
  cases hleft with
  | value h => exact hf (.ok _) nofun s' h
  | @plain e _ he h =>
    by_cases hends : e.endsRun = true
    · simp only [hthrow e hends]
      exact .plain he h
    · exact herror hends s' h
  | @reported d _ hlenient h => exact herror (e := .reported d) Bool.false_ne_true s' h
  | @raised d _ hstrict hlevel h =>
    simp only [hthrow (.raised d) rfl]
    exact .raised hstrict hlevel h
  | @fatal d _ hends h =>
    simp only [hthrow (.fatal d) rfl]
    exact .fatal hends h

theorem ite {c : Prop} [Decidable c] {y : Attempt σ α} (hx : c → Candid settings get x)
    (hy : ¬ c → Candid settings get y) : Candid settings get (if c then x else y) := by
  split
  · next h => exact hx h
  · next h => exact hy h

theorem mapM {f : β → Attempt σ α} (h : ∀ b, Candid settings get (f b)) (l : List β) :
    Candid settings get (l.mapM f) := by
  induction l with
  | nil => exact pure []
  | cons b l ih =>
    rw [List.mapM_cons]
    exact (h b).bind fun _ => ih.bind fun _ => pure _

theorem forM {f : β → Attempt σ PUnit} (h : ∀ b, Candid settings get (f b)) (l : List β) :
    Candid settings get (l.forM f) := by
  induction l with
  | nil => exact pure _
  | cons b l ih => exact (h b).bind fun _ => ih

theorem foldlM {f : β → γ → Attempt σ β} (h : ∀ b c, Candid settings get (f b c)) (l : List γ) (b : β) :
    Candid settings get (l.foldlM f b) := by
  induction l generalizing b with
  | nil => exact pure b
  | cons c l ih =>
    rw [List.foldlM_cons]
    exact (h b c).bind fun b' => ih b'

theorem journaled {y : Attempt Journal α} (h : Candid settings id y) :
    Candid settings (·.journal) (Expansion.journaled y) := by
  intro e he
  rw [Expansion.outcome_journaled]
  exact h e.journal he

theorem expanding {y : Attempt Expansion α} (h : Candid settings (·.journal) y) :
    Candid settings (·.expansion.journal) (Run.expanding y) := by
  intro r hr
  rw [Run.outcome_expanding]
  exact h r.expansion hr

theorem emit {d : Diagnostic} (h : d.Passing) : Candid settings id (Journal.emit d) :=
  fun _ hj => Journal.leaving_emit hj h

theorem detail (message : String) : Candid settings id (Journal.detail message) :=
  fun _ hj => .value (hj.mention _ _)

theorem fatal {location : Option Location} {message : String}
    (h : Diagnostic.Ending ⟨.error, message, location⟩) :
    Candid settings id (Journal.fatal location message : Attempt Journal α) :=
  fun j hj => .fatal h ⟨j, hj, rfl⟩

end Candid

/-- A step of expanding that leaves the journal as it should be. -/
abbrev Expansion.Candid (settings : Settings) (x : Attempt Expansion α) : Prop :=
  Stencil.Candid settings (fun e : Expansion => e.journal) x

/-- A step of a run that leaves the journal as it should be. -/
abbrev Run.Candid (settings : Settings) (x : Attempt Run α) : Prop :=
  Stencil.Candid settings (fun s : Run => s.expansion.journal) x

namespace Expansion

theorem candid_sayAt {level : Level} {location : Location} {message : String}
    (h : Diagnostic.Passing ⟨level, message, some location⟩) (a : α) :
    Candid settings (do sayAt level location message; pure a) :=
  (Candid.emit h).journaled.bind fun _ => Candid.pure a

theorem candid_reported {location : Location} {message : String}
    (h : Diagnostic.Passing ⟨.error, message, some location⟩) :
    Candid settings (reported location message : Attempt Expansion α) := by
  refine Candid.journaled fun j hj => ?_
  exact Journal.leaving_reported hj h

end Expansion

open Diagnostic (Passing)
open Expansion (candid_sayAt candid_reported)

namespace Renderer

variable (r : Renderer)

theorem candid_newGuid : Expansion.Candid settings r.newGuid := by
  intro e he
  unfold Attempt.outcome newGuid
  cases r.expander <;> exact .value he

theorem candid_function (location : Location) (token : String) :
    Expansion.Candid settings (r.function location token) := by
  unfold function
  split
  · exact r.candid_newGuid.bind fun _ => candid_sayAt (.of_ne (by decide)) _
  · exact Candid.pure _
  · exact candid_sayAt (.of_ne (by decide)) _

theorem candid_undeclared (location : Location) (token : String) :
    Expansion.Candid settings (r.undeclared location token) := by
  have hpassing : Passing ⟨.error, s!"Variable '{token}' does not exist.", some location⟩ :=
    .of_front (by decide) (((Text.Starts.refl "Variable '").append _).append _)
  unfold undeclared
  split
  · exact candid_sayAt hpassing _
  · exact candid_reported hpassing

theorem candid_declared (location : Location) (token : String) (v : Variable) :
    Expansion.Candid settings (r.declared location token v) := by
  unfold declared
  split
  · next role _ _ =>
    unfold parameterFor
    split
    · exact Candid.pure _
    · exact candid_sayAt (.of_front (by decide)
        (((((Text.Starts.refl "Unknown semantic '").append _).append _).append _).append _)) _
  · unfold valueOf
    exact Candid.ite (fun _ => candid_sayAt (.of_ne (by decide)) _)
      fun _ => candid_sayAt (.of_ne (by decide)) _

theorem candid_token (location : Location) (token : String) :
    Expansion.Candid settings (r.token location token) := by
  unfold Renderer.token
  refine Candid.ite (fun _ => candid_sayAt (.of_ne (by decide)) _) fun _ => ?_
  refine Candid.ite (fun _ => r.candid_function _ _) fun _ => ?_
  split
  · exact r.candid_undeclared _ _
  · exact r.candid_declared _ _ _

theorem candid_renderAt (file : Path) (origin : Position) (text : String) :
    Expansion.Candid settings (r.renderAt file origin text) := by
  have hfragment (f : Fragment) : Expansion.Candid settings (r.fragment file origin f) := by
    cases f with
    | literal text => exact Candid.pure _
    | token body place => exact r.candid_token _ _
    | unclosed place => exact candid_reported (.of_front (by decide) (.refl _))
  unfold renderAt
  exact (Candid.mapM hfragment _).bind fun _ => Candid.pure _

end Renderer

namespace Entry

variable (r : Renderer) (t : Template) (e : Entry)

theorem candid_resolveSource (fs : FileSystem) :
    Expansion.Candid settings (e.resolveSource fs r t) := by
  have hfirst (candidates : List String) :
      Expansion.Candid settings (e.firstSource fs r t candidates) := by
    induction candidates with
    | nil =>
      exact candid_reported (.of_front (by decide)
        (((Text.Starts.refl "Source file '").append _).append _))
    | cons candidate rest ih =>
      exact (r.candid_renderAt _ _ _).bind fun _ => Candid.ite (fun _ => Candid.pure _) fun _ => ih
  unfold resolveSource
  exact (Candid.emit (.of_ne (by decide))).journaled.bind fun _ => hfirst _

theorem candid_resolveDestination : Expansion.Candid settings (e.resolveDestination r t) := by
  refine (r.candid_renderAt _ _ _).bind fun _ => Candid.ite (fun _ => ?_) fun _ => Candid.pure _
  -- the message is two texts, joined
  exact candid_reported (.of_front (by decide)
    ((((Text.Starts.refl "Destination '").append _).append _).append _))

end Entry

end Stencil
