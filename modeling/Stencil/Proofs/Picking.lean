import Stencil.Proofs.Comparison.Journal
import Stencil.Proofs.Comparison.Lifting
import Stencil.Proofs.Leaving
import Stencil.Run

namespace Stencil

variable {α : Type} {P : Diagnostic → Bool} {d : Diagnostic} {j : Journal}

/-- What passes a threshold. -/
def Level.passing (θ : Level) (ds : List Diagnostic) : List Diagnostic :=
  ds.filter fun d => θ ≤ d.level

theorem Level.passing_append (θ : Level) (ds more : List Diagnostic) :
    θ.passing (ds ++ more) = θ.passing ds ++ θ.passing more := List.filter_append ..

/-- Of warnings all pass or none does. -/
theorem Level.passing_warnings (θ : Level) {ds : List Diagnostic} (h : ∀ d ∈ ds, d.level = .warning) :
    θ.passing ds = if θ ≤ .warning then ds else [] := by
  unfold Level.passing
  split
  · next hle =>
    refine List.filter_eq_self.mpr fun d hd => ?_
    rw [h d hd]
    exact decide_eq_true hle
  · next hnot =>
    refine List.filter_eq_nil_iff.mpr fun d hd => ?_
    rw [h d hd]
    simpa using hnot

namespace Journal

theorem records_publishFrom_passing (j : Journal) (d : Diagnostic) :
    (j.publishFrom d).records = j.records ++ j.threshold.passing [d] := by
  unfold publishFrom Level.passing
  split
  · next hlight => simp [Level.not_le.mpr hlight]
  · next hheavy => simp [publish, mention, record, Level.not_lt.mp hheavy]

/-- What is on record of a kind, and the threshold that more of it has to pass. -/
def picked (P : Diagnostic → Bool) (j : Journal) : Level × List Diagnostic :=
  (j.threshold, j.records.filter P)

theorem picked_record (h : P d = false) : (j.record d).picked P = j.picked P := by
  refine Prod.ext rfl ?_
  change (j.records ++ [d]).filter P = j.records.filter P
  rw [List.filter_append, List.filter_cons_of_neg (by simp [h]), List.filter_nil, List.append_nil]

theorem picked_publish (h : P d = false) : (j.publish d).picked P = j.picked P :=
  (picked_record h : (j.record d).picked P = j.picked P)

theorem picked_publishFrom (h : P d = false) : (j.publishFrom d).picked P = j.picked P := by
  unfold publishFrom
  split
  · rfl
  · exact picked_publish h

/-- A diagnostic of the kind goes on record as far as it passes. -/
theorem picked_publishFrom_self (h : P d = true) :
    (j.publishFrom d).picked P = (j.threshold, j.records.filter P ++ j.threshold.passing [d]) := by
  unfold publishFrom Level.passing
  by_cases hpasses : j.threshold ≤ d.level
  · rw [if_neg (Level.not_lt.mpr hpasses), List.filter_cons_of_pos (by simpa using hpasses),
      List.filter_nil]
    refine Prod.ext rfl ?_
    change (j.records ++ [d]).filter P = j.records.filter P ++ [d]
    rw [List.filter_append, List.filter_cons_of_pos h, List.filter_nil]
  · rw [if_pos (Level.not_le.mp hpasses), List.filter_cons_of_neg (by simpa using hpasses),
      List.filter_nil, List.append_nil]
    rfl

theorem leaves_emit (h : P d = false) : Leaves (picked P) (emit d) := by
  intro j
  rw [outcome_emit]
  split
  · rfl
  · split
    · split
      · exact picked_record h
      · exact picked_publishFrom h
    · exact picked_publishFrom h

theorem leaves_detail (message : String) : Leaves (picked P) (detail message) := fun _ => rfl

section

variable (hP : ∀ d : Diagnostic, d.level = .error → P d = false)
include hP

theorem leaves_reported (location : Option Location) (message : String) :
    Leaves (picked P) (reported location message : Attempt Journal α) :=
  (leaves_emit (hP ⟨.error, message, location⟩ rfl)).bind fun _ => Leaves.throw _

theorem leaves_fatal (location : Option Location) (message : String) :
    Leaves (picked P) (fatal location message : Attempt Journal α) := by
  intro j
  rw [outcome_fatal]
  have hfatal : P ⟨.error, message, location⟩ = false := hP _ rfl
  exact (picked_publish hfatal : (j.countError.publish _).picked P = j.countError.picked P)

end

/-- The second journal has given some more warnings of a kind, as far as they pass. -/
structure Warned (P : Diagnostic → Bool) (n : Nat) (j k : Journal) : Prop where
  threshold : k.threshold = j.threshold
  records : (k.records.filter P).length =
    (j.records.filter P).length + if j.threshold ≤ .warning then n else 0

namespace Warned

variable {k : Journal}

theorem of_picked (h : k.picked P = j.picked P) : Warned P 0 j k := by
  obtain ⟨hthreshold, hrecords⟩ := Prod.mk.inj h
  exact ⟨hthreshold, by rw [hrecords, ite_self, Nat.add_zero]⟩

theorem trans {l : Journal} {m n : Nat} (h : Warned P m j k) (h' : Warned P n k l) :
    Warned P (m + n) j l := by
  refine ⟨h'.threshold.trans h.threshold, ?_⟩
  rw [h'.records, h.records, h.threshold]
  split <;> omega

/-- How many there are if there were none before. -/
theorem length_eq {θ : Level} {n : Nat} (h : Warned P n j k) (hj : j.picked P = (θ, [])) :
    (k.records.filter P).length = if θ ≤ .warning then n else 0 := by
  obtain ⟨rfl, hrecords⟩ := Prod.mk.inj hj
  rw [h.records, hrecords, List.length_nil, Nat.zero_add]

theorem publishFrom (j : Journal) (h : P d = true) (hd : d.level = .warning) :
    Warned P 1 j (j.publishFrom d) := by
  have hpicked := Prod.mk.inj (picked_publishFrom_self (j := j) h)
  have hpassing : j.threshold.passing [d] = if j.threshold ≤ .warning then [d] else [] :=
    j.threshold.passing_warnings (List.forall_mem_singleton.mpr hd)
  refine ⟨hpicked.1, ?_⟩
  rw [hpicked.2, hpassing, List.length_append]
  split <;> rfl

end Warned

end Journal

namespace Leaves

theorem journaled {τ : Type} {get : Journal → τ} {x : Attempt Journal α} (h : Leaves get x) :
    Leaves (fun e : Expansion => get e.journal) (Expansion.journaled x) := by
  intro e
  rw [Expansion.outcome_journaled]
  exact h e.journal

theorem expanding_part {τ : Type} {get : Expansion → τ} {x : Attempt Expansion α} (h : Leaves get x) :
    Leaves (fun r : Run => get r.expansion) (Run.expanding x) := by
  intro r
  rw [Run.outcome_expanding]
  exact h r.expansion

end Leaves

/-- A step of expanding that says nothing of a kind. -/
abbrev Expansion.Spares (P : Diagnostic → Bool) (x : Attempt Expansion α) : Prop :=
  Leaves (fun e => e.journal.picked P) x

/-- A step of a run that says nothing of a kind. -/
abbrev Run.Spares (P : Diagnostic → Bool) (x : Attempt Run α) : Prop :=
  Leaves (fun s => s.expansion.journal.picked P) x

namespace Run

theorem spares_say {level : Level} {message : String} (h : P ⟨level, message, none⟩ = false) :
    Run.Spares P (Run.say level message) := (Journal.leaves_emit h).journaled.expanding_part

/-- A warning goes into the journal and changes nothing else. -/
theorem outcome_sayAt_warning (location : Location) (message : String) (s : Run) :
    (Run.sayAt .warning location message).outcome s =
      (.ok (), s.under (s.expansion.journal.publishFrom ⟨.warning, message, some location⟩)) := by
  unfold Run.sayAt Run.journaled Journal.sayAt
  rw [Run.outcome_expanding, Expansion.outcome_journaled, Journal.outcome_emit]
  rfl

theorem spares_onFiles (x : FileStep α) : Run.Spares P (Run.onFiles x) :=
  Leaves.onFiles (fun _ _ => rfl) x

theorem spares_detail (message : String) : Run.Spares P (Run.detail message) :=
  (Journal.leaves_detail message).journaled.expanding_part

theorem spares_destination (settings : Settings) (destination : Path) :
    Run.Spares P (Run.destination settings destination) := by
  intro s
  rw [Run.outcome_destination]

theorem spares_mentionIgnored (t : Template) (values : List (String × String)) :
    Run.Spares P (Run.journaled (t.mentionIgnored values)) :=
  (Leaves.forM (fun _ => Journal.leaves_detail _) _).journaled.expanding_part

end Run

/-- What is said while texts are expanded: no warnings, or warnings of a place that are one of three. -/
def Diagnostic.OfText (d : Diagnostic) : Prop :=
  d.level = .warning → d.location.isSome = true ∧ (d.message = "Empty token." ∨
    (∃ token : String, d.message = s!"Unknown function '{token}'.") ∨
      ∃ token : String, d.message = s!"Variable '{token}' not set.")

theorem Diagnostic.OfText.of_ne {level : Level} {message : String} {location : Option Location}
    (h : level ≠ .warning) : Diagnostic.OfText ⟨level, message, location⟩ := fun he => absurd he h

theorem Diagnostic.OfText.of_error (h : d.level = .error) : d.OfText :=
  fun he => nomatch h.symm.trans he

/-- None of these warnings starts as a text that has another first letter. -/
theorem Diagnostic.OfText.not_starting (h : d.OfText) {front : String} {c : Char} {rest : List Char}
    (hfront : front.toList = c :: rest) (hc : c ≠ 'E' ∧ c ≠ 'U' ∧ c ≠ 'V') :
    (d.level = .warning && front.toList.isPrefixOf d.message.toList) = false := by
  have hother {c' : Char} (hne : c ≠ c') (hhead : d.message.toList.head? = some c') :
      front.toList.isPrefixOf d.message.toList = false := by
    obtain ⟨more, hmessage⟩ := List.head?_eq_some_iff.mp hhead
    rw [hfront, hmessage, Bool.eq_false_iff, ne_eq, List.isPrefixOf_iff_prefix]
    exact fun hprefix => hne (List.cons_prefix_cons.mp hprefix).1
  by_cases hlevel : d.level = .warning
  · rw [Bool.and_eq_false_iff]
    right
    obtain ⟨-, hempty | ⟨token, hfunction⟩ | ⟨token, hunset⟩⟩ := h hlevel
    · exact hother hc.1 (by rw [hempty]; rfl)
    · refine hother hc.2.1 ?_
      rw [hfunction]
      simp only [String.toList_append, List.append_assoc]
      rfl
    · refine hother hc.2.2 ?_
      rw [hunset]
      simp only [String.toList_append, List.append_assoc]
      rfl
  · simp [hlevel]

variable (hP : ∀ d : Diagnostic, d.OfText → P d = false)
include hP

namespace Expansion

theorem spares_sayAt {level : Level} {location : Location} {message : String}
    (h : Diagnostic.OfText ⟨level, message, some location⟩) (a : α) :
    Spares P (do sayAt level location message; pure a) :=
  (Journal.leaves_emit (hP _ h)).journaled.bind fun _ => Leaves.pure a

theorem spares_reported (location : Location) (message : String) :
    Spares P (reported location message : Attempt Expansion α) :=
  (Journal.leaves_reported (fun d hd => hP d (.of_error hd)) _ _).journaled

end Expansion

open Expansion

namespace Renderer

variable (r : Renderer)

theorem spares_function (location : Location) (token : String) :
    Spares P (r.function location token) := by
  have hguid : Spares P r.newGuid := by
    intro e
    unfold Attempt.outcome newGuid
    cases r.expander <;> rfl
  unfold function
  split
  · exact hguid.bind fun _ => spares_sayAt hP (.of_ne (by decide)) _
  · exact Leaves.pure _
  · exact spares_sayAt hP (fun _ => ⟨rfl, .inr (.inl ⟨token, rfl⟩)⟩) _

theorem spares_declared (location : Location) (token : String) (v : Variable) :
    Spares P (r.declared location token v) := by
  unfold declared
  split
  · unfold parameterFor
    split
    · exact Leaves.pure _
    · exact spares_sayAt hP (.of_ne (by decide)) _
  · unfold valueOf
    exact Leaves.ite (spares_sayAt hP (fun _ => ⟨rfl, .inr (.inr ⟨token, rfl⟩)⟩) _)
      (spares_sayAt hP (.of_ne (by decide)) _)

theorem spares_undeclared (location : Location) (token : String) :
    Spares P (r.undeclared location token) := by
  unfold undeclared
  split
  · exact spares_sayAt hP (.of_ne (by decide)) _
  · exact spares_reported hP _ _

theorem spares_token (location : Location) (token : String) : Spares P (r.token location token) := by
  unfold Renderer.token
  refine Leaves.ite (spares_sayAt hP (fun _ => ⟨rfl, .inl rfl⟩) _)
    (Leaves.ite (r.spares_function hP _ _) ?_)
  split
  · exact r.spares_undeclared hP _ _
  · exact r.spares_declared hP _ _ _

theorem spares_renderAt (file : Path) (origin : Position) (text : String) :
    Spares P (r.renderAt file origin text) := by
  have hfragment (f : Fragment) : Spares P (r.fragment file origin f) := by
    cases f with
    | literal text => exact Leaves.pure _
    | token body place => exact r.spares_token hP _ _
    | unclosed place => exact spares_reported hP _ _
  unfold renderAt
  exact (Leaves.mapM hfragment _).bind fun _ => Leaves.pure _

end Renderer

namespace Entry

variable (r : Renderer) (t : Template) (e : Entry)

theorem spares_resolveSource (fs : FileSystem) : Spares P (e.resolveSource fs r t) := by
  have hfirst (candidates : List String) : Spares P (e.firstSource fs r t candidates) := by
    induction candidates with
    | nil => exact spares_reported hP _ _
    | cons candidate rest ih =>
      exact (r.spares_renderAt hP _ _ _).bind fun _ => Leaves.ite (Leaves.pure _) ih
  unfold resolveSource
  exact (Journal.leaves_emit (hP _ (.of_ne (by decide)))).journaled.bind fun _ => hfirst _

theorem spares_resolveDestination : Spares P (e.resolveDestination r t) :=
  (r.spares_renderAt hP _ _ _).bind fun _ => Leaves.ite (spares_reported hP _ _) (Leaves.pure _)

end Entry

theorem Run.spares_expandSource (r : Renderer) (source : Path) :
    Run.Spares P (Run.expandSource r source) :=
  (Leaves.looking _).bind fun _ => (r.spares_renderAt hP _ _ _).expanding_part

end Stencil
