import Stencil.Proofs.Comparison.Lenience
import Stencil.Proofs.Comparison.Substitution
import Stencil.Proofs.Picking
import Stencil.Proofs.Substitution.Composition
import Stencil.Proofs.Substitution.Fixed

namespace Stencil

variable {α : Type} {e : Expansion}

namespace Journal

/-- A journal that records all that is said. -/
def attentive : Journal := { threshold := .verbose }

theorem publishFrom_of_attentive {j : Journal} (h : j.threshold = .verbose) (d : Diagnostic) :
    (j.publishFrom d).records = j.records ++ [d] := by
  refine records_publishFrom ?_
  rw [h]
  exact Nat.zero_le _

/-- A lenient journal beside an attentive one: it has on record what passes its threshold of all that
was said. -/
structure Heard (base : List Diagnostic) (θ : Level) (j k : Journal) : Prop where
  attentive : j.threshold = .verbose
  threshold : k.threshold = θ
  lenient : j.strict = false ∧ k.strict = false
  records : k.records = base ++ θ.passing j.records

/-- Journals beside attentive ones. Neither run is ever cut off. -/
def hearing (base : List Diagnostic) (θ : Level) : Comparison Journal :=
  ⟨Heard base θ, fun _ _ => False⟩

variable {base : List Diagnostic} {θ : Level} {j k : Journal}

theorem Heard.countError (h : Heard base θ j k) : Heard base θ j.countError k.countError :=
  ⟨h.attentive, h.threshold, h.lenient, h.records⟩

theorem Heard.publishFrom (h : Heard base θ j k) (d : Diagnostic) :
    Heard base θ (j.publishFrom d) (k.publishFrom d) := by
  have hj := Onward.publishFrom j d
  have hk := Onward.publishFrom k d
  refine ⟨hj.threshold.trans h.attentive, hk.threshold.trans h.threshold,
    ⟨hj.strict.trans h.lenient.1, hk.strict.trans h.lenient.2⟩, ?_⟩
  rw [records_publishFrom_passing, publishFrom_of_attentive h.attentive, h.records, h.threshold,
    Level.passing_append, List.append_assoc]

theorem spoken_hearing : Spoken (hearing base θ) fun e => e.isRecorded = true where
  recorded := fun _ => id
  emit := fun d => by
    refine Matched.of_ends (fun _ _ => id) fun j k (h : Heard base θ j k) => ?_
    rw [outcome_emit, outcome_emit, h.lenient.1, h.lenient.2]
    split
    · exact .value h
    · split
      · exact .value (h.countError.publishFrom d)
      · exact .value (h.publishFrom d)
  reported := fun location message => by
    refine Matched.of_ends (fun _ _ => id) fun j k (h : Heard base θ j k) => ?_
    rw [outcome_reported, outcome_reported, h.lenient.1, h.lenient.2]
    exact .failure rfl (h.countError.publishFrom _)
  detail := fun _ => Matched.of_ends (fun _ _ => id) fun _ _ (h : Heard base θ _ _) =>
    .value ⟨h.attentive, h.threshold, h.lenient, h.records⟩

end Journal

namespace Expansion

/-- All that is said during a step that is taken from a state, if errors do not end it. -/
def said (e : Expansion) (x : Attempt Expansion α) : List Diagnostic :=
  (x.outcome (e.under .attentive)).2.journal.records

/-- Who listens does not matter: a step ends as it does before an attentive journal, and what passes the
threshold of all that is said goes on record. -/
theorem outcome_heard {F : Failure → Prop} {x : Attempt Expansion α} (he : e.Lenient)
    (hx : Matched (Journal.hearing e.journal.records e.journal.threshold).ofExpansions F x) :
    (x.outcome e).1 = (x.outcome (e.under .attentive)).1 ∧
      (x.outcome e).2.journal.records =
        e.journal.records ++ e.journal.threshold.passing (e.said x) := by
  -- the journals differ in who listens only, so one run is never cut off before the other
  have hends := hx.ends (e.under .attentive) e
    ⟨e.journal, rfl, rfl, rfl, ⟨rfl, he⟩, (List.append_nil _).symm⟩
  unfold said
  generalize x.outcome (e.under .attentive) = attentive, x.outcome e = actual at hends
  cases hends with
  | value h =>
    obtain ⟨k, rfl, hk⟩ := h
    exact ⟨rfl, hk.records⟩
  | failure _ h =>
    obtain ⟨k, rfl, hk⟩ := h
    exact ⟨rfl, hk.records⟩
  | cut _ _ h => exact h.elim

end Expansion

/-- The report of a reference to an undeclared variable. -/
def Diagnostic.ofUndeclared (location : Location) (name : String) : Diagnostic :=
  ⟨.error, s!"Variable '{name}' does not exist.", some location⟩

/-- Whether a diagnostic reports a reference to an undeclared variable. -/
def Diagnostic.TellsOfUndeclared (d : Diagnostic) : Prop :=
  ∃ location name, d = .ofUndeclared location name

theorem Diagnostic.not_tellsOfUndeclared {d : Diagnostic}
    (h : d.level = .error → d.message.toList.head? ≠ some 'V') : ¬ d.TellsOfUndeclared := by
  rintro ⟨location, name, rfl⟩
  refine h rfl ?_
  simp only [ofUndeclared, String.toList_append, List.append_assoc]
  rfl

namespace Expansion

/-- A step during which no undeclared variable is reported. -/
def Untold (x : Attempt Expansion α) : Prop :=
  ∀ P : Diagnostic → Bool, (∀ d, ¬ d.TellsOfUndeclared → P d = false) → Spares P x

namespace Untold

variable {β : Type} {x : Attempt Expansion α}

theorem pure (a : α) : Untold (Pure.pure a : Attempt Expansion α) := fun _ _ => Leaves.pure a

theorem bind {f : α → Attempt Expansion β} (hx : Untold x) (hf : ∀ a, Untold (f a)) :
    Untold (x >>= f) := fun P hP => (hx P hP).bind fun a => hf a P hP

theorem sayAt {level : Level} {location : Location} {message : String}
    (h : level = .error → message.toList.head? ≠ some 'V') (a : α) :
    Untold (do Expansion.sayAt level location message; Pure.pure a) := fun _ hP =>
  (Journal.leaves_emit (hP _ (Diagnostic.not_tellsOfUndeclared h))).journaled.bind fun _ =>
    Leaves.pure a

theorem remark {level : Level} {location : Location} {message : String} (h : level ≠ .error) (a : α) :
    Untold (do Expansion.sayAt level location message; Pure.pure a) := sayAt (fun he => absurd he h) a

theorem reported {location : Location} {message : String} (h : message.toList.head? ≠ some 'V') :
    Untold (Expansion.reported location message : Attempt Expansion α) := fun _ hP =>
  Leaves.journaled ((Journal.leaves_emit (hP _ (Diagnostic.not_tellsOfUndeclared fun _ => h))).bind
    fun _ => Leaves.throw _)

/-- What is said from an empty journal on is none of these reports. -/
theorem said (h : Untold x) : ∀ d ∈ e.said x, ¬ d.TellsOfUndeclared := by
  classical
  have hpicked := h (fun d => decide d.TellsOfUndeclared) (fun d hd => decide_eq_false hd)
    (e.under .attentive)
  intro d hd htells
  have hnone := List.filter_eq_nil_iff.mp (congrArg Prod.snd hpicked) d hd
  exact hnone (decide_eq_true htells)

end Untold

end Expansion

open Expansion (Untold)

namespace Renderer

variable (r : Renderer)

def withPolicy (policy : UnresolvedPolicy) : Renderer := { r with unresolved := policy }

/-- Whether a token refers to a variable that is not declared. -/
def Misses (token : String) : Prop :=
  token ≠ "" ∧ token.toList.head? ≠ some '#' ∧ r.store.get? token = none

instance (token : String) : Decidable (r.Misses token) := inferInstanceAs (Decidable (_ ∧ _ ∧ _))

/-- Whether a fragment is a reference to a variable that is not declared. -/
def MissesIn : Fragment → Prop
  | .token body _ => r.Misses body
  | _ => False

instance : DecidablePred r.MissesIn
  | .literal _ => inferInstanceAs (Decidable False)
  | .token body _ => inferInstanceAs (Decidable (r.Misses body))
  | .unclosed _ => inferInstanceAs (Decidable False)

variable {r}

theorem token_of_misses {token : String} (h : r.Misses token) (location : Location) :
    r.token location token = r.undeclared location token := by
  obtain ⟨hempty, hfunction, hnone⟩ := h
  rw [Renderer.token, if_neg hempty, if_neg hfunction, hnone]

/-- The policy counts for undeclared variables alone. -/
theorem token_withPolicy {token : String} (h : ¬ r.Misses token) (location : Location)
    (policy : UnresolvedPolicy) :
    (r.withPolicy policy).token location token = r.token location token := by
  unfold Renderer.token
  by_cases hempty : token = ""
  · rw [if_pos hempty, if_pos hempty]
  · rw [if_neg hempty, if_neg hempty]
    by_cases hfunction : token.toList.head? = some '#'
    · rw [if_pos hfunction, if_pos hfunction]
      rfl
    · rw [if_neg hfunction, if_neg hfunction]
      cases hv : r.store.get? token with
      | none => exact absurd ⟨hempty, hfunction, hv⟩ h
      | some v =>
        have hv' : (r.withPolicy policy).store.get? token = some v := hv
        rw [hv']
        rfl

theorem fragment_withPolicy {f : Fragment} (h : ¬ r.MissesIn f) (file : Path) (origin : Position)
    (policy : UnresolvedPolicy) :
    (r.withPolicy policy).fragment file origin f = r.fragment file origin f := by
  cases f with
  | literal text => rfl
  | token body place => exact token_withPolicy h _ policy
  | unclosed place => rfl

theorem untold_function (location : Location) (token : String) :
    Untold (r.function location token) := by
  have hguid : Untold r.newGuid := by
    intro P _ e
    unfold Attempt.outcome newGuid
    cases r.expander <;> rfl
  unfold function
  split
  · exact hguid.bind fun _ => .remark (by decide) _
  · exact .pure _
  · exact .remark (by decide) _

theorem untold_parameterFor (location : Location) (v : Variable) (role : String) :
    Untold (parameterFor location v role) := by
  unfold parameterFor
  split
  · exact .pure _
  · have hhead : s!"Unknown semantic '{role}' on variable '{v.name}'.".toList.head? = some 'U' := by
      simp only [String.toList_append, List.append_assoc]
      rfl
    refine .sayAt (fun _ => ?_) _
    rw [hhead]
    decide

theorem untold_declared (location : Location) (token : String) (v : Variable) :
    Untold (r.declared location token v) := by
  unfold declared
  split
  · exact untold_parameterFor _ _ _
  · unfold valueOf
    split
    · exact .remark (by decide) _
    · exact .remark (by decide) _

theorem untold_fragment {f : Fragment} (h : ¬ r.MissesIn f) (file : Path) (origin : Position) :
    Untold (r.fragment file origin f) := by
  cases f with
  | literal text => exact .pure _
  | token body place =>
    change Untold (r.token _ body)
    unfold Renderer.token
    split
    · exact .remark (by decide) _
    · next hempty =>
      split
      · exact untold_function _ _
      · next hfunction =>
        split
        · next hnone => exact absurd ⟨hempty, hfunction, hnone⟩ h
        · exact untold_declared _ _ _
  | unclosed place => exact .reported (by decide)

theorem untold_mapM {fragments : List Fragment} (h : ∀ f ∈ fragments, ¬ r.MissesIn f) (file : Path)
    (origin : Position) : Untold (fragments.mapM (r.fragment file origin)) := by
  induction fragments with
  | nil => exact .pure _
  | cons f rest ih =>
    rw [List.mapM_cons]
    exact (untold_fragment (h f List.mem_cons_self) file origin).bind fun _ =>
      (ih fun g hg => h g (List.mem_cons_of_mem _ hg)).bind fun _ => .pure _

end Renderer

namespace Fragment

theorem unclosed_notMem_dropLast_cut (passed cs : List Char) (place : Place) :
    .unclosed place ∉ (cut passed cs).dropLast := by
  fun_induction cut passed cs with
  | case1 => simp
  | case2 => simp
  | case3 passed cs i hopen j hclose ih =>
    obtain ⟨text, more, hrest⟩ :=
      exists_cut_eq_cons (passed ++ cs.take (i + 2 + j + 2)) (cs.drop (i + 2 + j + 2))
    rw [hrest] at ih ⊢
    simpa using ih

/-- Only the last fragment of a text can be a token that never ends. -/
theorem ended_of_append {text : String} {earlier later : List Fragment} {f : Fragment}
    (h : ofText text = earlier ++ f :: later) (place : Place) : .unclosed place ∉ earlier := by
  intro hmem
  -- what stands before another fragment is not the last one
  apply unclosed_notMem_dropLast_cut [] text.toList place
  rw [← ofText_eq_cut, h, List.dropLast_append_of_ne_nil (by simp)]
  exact List.mem_append_left _ hmem

end Fragment

namespace Renderer

variable {r : Renderer}

/-- Tokens that end are expanded if undeclared variables stand for nothing. -/
theorem outcome_ended (hr : r.unresolved = .proceed) {fragments : List Fragment}
    (h : ∀ place, .unclosed place ∉ fragments) (file : Path) (origin : Position) (he : e.Lenient) :
    ∃ texts e', (fragments.mapM (r.fragment file origin)).outcome e = (.ok texts, e') ∧ e'.Lenient := by
  induction fragments generalizing e with
  | nil => exact ⟨[], e, rfl, he⟩
  | cons f rest ih =>
    have hrest (place : Place) : .unclosed place ∉ rest :=
      fun hmem => h place (List.mem_cons_of_mem _ hmem)
    obtain ⟨text, e₁, hfirst, he₁⟩ : ∃ text e₁,
        r.fragment file origin f e = .ok text e₁ ∧ e₁.Lenient := by
      cases f with
      | literal text => exact ⟨text, e, rfl, he⟩
      | token body place =>
        obtain ⟨e₁, htoken, -, he₁⟩ := gives_token hr _ body he
        exact ⟨_, e₁, htoken, he₁⟩
      | unclosed place => exact absurd List.mem_cons_self (h place)
    obtain ⟨texts, e', houtcome, he'⟩ := ih hrest he₁
    refine ⟨text :: texts, e', ?_, he'⟩
    rw [outcome_mapM_cons hfirst, houtcome]
    rfl

theorem outcome_undeclared (he : e.Lenient) (location : Location) (name : String) :
    (r.undeclared location name).outcome e =
      (if r.unresolved = .proceed then .ok ""
        else .error (.reported (.ofUndeclared location name)),
      e.under (e.journal.countError.publishFrom (.ofUndeclared location name))) := by
  have hlenient : ¬ e.journal.strict = true := Bool.eq_false_iff.mp he
  have hlevel : Level.error ≠ .none := by decide
  unfold undeclared
  cases r.unresolved with
  | proceed =>
    have hsay : (Expansion.sayAt .error location s!"Variable '{name}' does not exist.").outcome e =
        (.ok (), e.under (e.journal.countError.publishFrom (.ofUndeclared location name))) := by
      rw [Expansion.sayAt, Expansion.outcome_journaled, Journal.sayAt, Journal.outcome_emit,
        if_neg hlevel, if_pos rfl, if_neg hlenient]
      rfl
    simp only [Attempt.outcome_bind, hsay]
    rfl
  | skipFile =>
    simp only [Expansion.reported, Expansion.outcome_journaled, Journal.outcome_reported,
      if_neg hlenient]
    rfl

/-- A text is expanded up to one of its tokens, then that token, and then what follows. -/
theorem renderAt_split {text name : String} {earlier later : List Fragment} {place : Place}
    (h : Fragment.ofText text = earlier ++ .token name place :: later) (file : Path)
    (origin : Position) :
    r.renderAt file origin text = (do
      let front ← earlier.mapM (r.fragment file origin)
      let out ← r.token ⟨file, origin.offset place.line place.column⟩ name
      let back ← later.mapM (r.fragment file origin)
      return String.join (front ++ out :: back)) := by
  simp only [renderAt, h, List.mapM_append, List.mapM_cons, bind_assoc, pure_bind]
  rfl

variable {file : Path} {origin : Position} {text : String}

/-- Without references to undeclared variables the policy does not count, and none is reported. -/
theorem renderAt_of_declared (h : ∀ f ∈ Fragment.ofText text, ¬ r.MissesIn f)
    (policy : UnresolvedPolicy) :
    (r.withPolicy policy).renderAt file origin text = r.renderAt file origin text ∧
      Untold (r.renderAt file origin text) := by
  unfold renderAt
  have hsame : (Fragment.ofText text).mapM ((r.withPolicy policy).fragment file origin) =
      (Fragment.ofText text).mapM (r.fragment file origin) :=
    mapM_congr fun f hf => fragment_withPolicy (h f hf) file origin policy
  rw [hsame]
  exact ⟨rfl, (untold_mapM h file origin).bind fun _ => .pure _⟩

section Miss

variable {earlier later : List Fragment} {name : String} {place : Place}
  (hsplit : Fragment.ofText text = earlier ++ .token name place :: later)
  (hearlier : ∀ f ∈ earlier, ¬ r.MissesIn f) (hmiss : r.Misses name)
include hsplit hearlier hmiss

/-- Both runs come to the first reference to an undeclared variable in one state. One fails there with
the report, and the other goes on from it. -/
theorem outcome_first_miss (he : e.Lenient) :
    let d := Diagnostic.ofUndeclared ⟨file, origin.offset place.line place.column⟩ name
    ∃ front e₁, (earlier.mapM (r.fragment file origin)).outcome e = (.ok front, e₁) ∧
      let e₂ := e₁.under (e₁.journal.countError.publishFrom d)
      ((r.withPolicy .skipFile).renderAt file origin text).outcome e = (.error (.reported d), e₂) ∧
        e₂.journal.Onward
          (((r.withPolicy .proceed).renderAt file origin text).outcome e).2.journal := by
  intro d
  -- up to the first miss no fragment asks for the policy
  have hfront (policy : UnresolvedPolicy) :
      earlier.mapM ((r.withPolicy policy).fragment file origin) =
        earlier.mapM (r.fragment file origin) :=
    mapM_congr fun f hf => fragment_withPolicy (hearlier f hf) file origin policy
  have hmiss' (policy : UnresolvedPolicy) : (r.withPolicy policy).Misses name := hmiss
  obtain ⟨front, e₁, hrun, he₁⟩ := outcome_ended (r := r.withPolicy .proceed) rfl
    (Fragment.ended_of_append hsplit) file origin he
  rw [hfront] at hrun
  refine ⟨front, e₁, hrun, ?_, ?_⟩
  · simp only [renderAt_split hsplit, Attempt.outcome_bind, hfront, hrun,
      token_of_misses (hmiss' _), outcome_undeclared he₁]
    rfl
  · have hrest : Matched Journal.onwardness.ofExpansions (fun _ => False) (do
        let back ← later.mapM ((r.withPolicy .proceed).fragment file origin)
        return String.join (front ++ "" :: back)) :=
      (Matched.mapM (fun f => matched_fragment Journal.spoken_onward _ file origin f) later).bind
        fun _ => Matched.pure _
    rw [renderAt_split hsplit, Attempt.outcome_bind, hfront, hrun]
    dsimp only
    rw [Attempt.outcome_bind, token_of_misses (hmiss' _), outcome_undeclared he₁]
    exact hrest.ahead _ _ (Journal.Onward.refl _)

end Miss

/-- The first report of an undeclared variable, `d`, among what is said under the policy that goes on. It
is that of the first such reference of the text. The other run says the same up to it, and fails with it. -/
structure StopsAt (r : Renderer) (file : Path) (origin : Position) (text : String) (e : Expansion)
    (before : List Diagnostic) (d : Diagnostic) (after : List Diagnostic) : Prop where
  first : e.said ((r.withPolicy .proceed).renderAt file origin text) = before ++ d :: after ∧
    d.TellsOfUndeclared ∧ ∀ b ∈ before, ¬ b.TellsOfUndeclared
  reference : ∃ earlier name place later,
    Fragment.ofText text = earlier ++ .token name place :: later ∧ r.Misses name ∧
      (∀ f ∈ earlier, ¬ r.MissesIn f) ∧
      d = .ofUndeclared ⟨file, origin.offset place.line place.column⟩ name
  fails : (((r.withPolicy .skipFile).renderAt file origin text).outcome e).1 = .error (.reported d)
  said : e.said ((r.withPolicy .skipFile).renderAt file origin text) = before ++ [d]

/-- How a text is expanded from one state under the two policies for undeclared variables. -/
structure PoliciesPart (r : Renderer) (file : Path) (origin : Position) (text : String)
    (e : Expansion) : Prop where
  /-- Of all that is said, what passes the threshold is on record. -/
  recorded : ∀ policy, let x := (r.withPolicy policy).renderAt file origin text
    (x.outcome e).2.journal.records =
      e.journal.records ++ e.journal.threshold.passing (e.said x)
  succeeds :
    (∃ out e', ((r.withPolicy .skipFile).renderAt file origin text).outcome e = (.ok out, e')) ↔
      (∃ out e', ((r.withPolicy .proceed).renderAt file origin text).outcome e = (.ok out, e')) ∧
        ∀ d ∈ e.said ((r.withPolicy .proceed).renderAt file origin text), ¬ d.TellsOfUndeclared
  same : (∀ d ∈ e.said ((r.withPolicy .proceed).renderAt file origin text), ¬ d.TellsOfUndeclared) →
    ((r.withPolicy .skipFile).renderAt file origin text).outcome e =
      ((r.withPolicy .proceed).renderAt file origin text).outcome e
  stops : (∃ d ∈ e.said ((r.withPolicy .proceed).renderAt file origin text), d.TellsOfUndeclared) →
    ∃ before d after, StopsAt r file origin text e before d after

theorem stopsAt_of_miss (he : e.Lenient) {earlier later : List Fragment} {name : String}
    {place : Place} (hsplit : Fragment.ofText text = earlier ++ .token name place :: later)
    (hearlier : ∀ f ∈ earlier, ¬ r.MissesIn f) (hmiss : r.Misses name) :
    ∃ before d after, StopsAt r file origin text e before d after := by
  have hattentive : (e.under .attentive).Lenient := rfl
  obtain ⟨front, e₁, hrun, hskip, honward⟩ :=
    @outcome_first_miss _ _ file origin _ _ _ _ _ hsplit hearlier hmiss hattentive
  -- up to the reference everything is heard, and none of it is about undeclared variables
  have hfront : Journal.Onward .attentive e₁.journal := by
    have hahead := (Matched.mapM (fun f => matched_fragment Journal.spoken_onward r file origin f)
      earlier).ahead (e.under .attentive) (e.under .attentive) (Journal.Onward.refl _)
    rwa [hrun] at hahead
  have hbefore : ∀ b ∈ e₁.journal.records, ¬ b.TellsOfUndeclared := by
    have hsaid := (untold_mapM hearlier file origin).said (e := e)
    rwa [Expansion.said, hrun] at hsaid
  have hreport := Journal.publishFrom_of_attentive (j := e₁.journal.countError) hfront.threshold
    (.ofUndeclared ⟨file, origin.offset place.line place.column⟩ name)
  obtain ⟨after, hafter⟩ := honward.records
  refine ⟨e₁.journal.records, _, after, ⟨?_, ⟨_, _, rfl⟩, hbefore⟩,
    ⟨earlier, name, place, later, hsplit, hmiss, hearlier, rfl⟩, ?_, ?_⟩
  · rw [Expansion.said, ← hafter, Expansion.under, hreport, List.append_assoc]
    rfl
  · exact (Expansion.outcome_heard he
      (matched_renderAt Journal.spoken_hearing _ file origin text)).1.trans (congrArg Prod.fst hskip)
  · rw [Expansion.said, hskip]
    exact hreport

theorem stopsAt_of_misses (he : e.Lenient) (h : ¬ ∀ f ∈ Fragment.ofText text, ¬ r.MissesIn f) :
    ∃ before d after, StopsAt r file origin text e before d after := by
  cases hfind : (Fragment.ofText text).find? fun f => decide (r.MissesIn f) with
  | none => exact absurd (fun f hf => by simpa using List.find?_eq_none.mp hfind f hf) h
  | some f =>
    obtain ⟨hmiss, earlier, later, hsplit, hearlier⟩ := List.find?_eq_some_iff_append.mp hfind
    have hmiss' := of_decide_eq_true hmiss
    cases f with
    | token name place =>
      exact stopsAt_of_miss he hsplit (fun g hg => by simpa using hearlier g hg) hmiss'
    | literal _ => exact hmiss'.elim
    | unclosed _ => exact hmiss'.elim

/-- The policies part at the first reference to an undeclared variable, and nowhere else. -/
theorem policies_part (he : e.Lenient) : PoliciesPart r file origin text e := by
  have hheard (policy : UnresolvedPolicy) := Expansion.outcome_heard he
    ((r.withPolicy policy).matched_renderAt Journal.spoken_hearing file origin text)
  -- without a miss both runs are the same, and with one the first of them parts the two
  by_cases hmisses : ∀ f ∈ Fragment.ofText text, ¬ r.MissesIn f
  · have hproceed := @renderAt_of_declared r file origin text hmisses .proceed
    have hskip := @renderAt_of_declared r file origin text hmisses .skipFile
    have hnone : ∀ d ∈ e.said (r.renderAt file origin text), ¬ d.TellsOfUndeclared := hproceed.2.said
    refine ⟨fun policy => (hheard policy).2, ?_, fun _ => ?_, ?_⟩
    · rw [hproceed.1, hskip.1]
      exact ⟨fun h => ⟨h, hnone⟩, And.left⟩
    · rw [hproceed.1, hskip.1]
    · rw [hproceed.1]
      rintro ⟨d, hd, htells⟩
      exact absurd htells (hnone d hd)
  · obtain ⟨before, d, after, hstops⟩ := stopsAt_of_misses he hmisses
    have htold : ∃ d ∈ e.said ((r.withPolicy .proceed).renderAt file origin text),
        d.TellsOfUndeclared := by
      obtain ⟨hsaid, htells, -⟩ := hstops.first
      exact ⟨d, hsaid ▸ List.mem_append_right _ List.mem_cons_self, htells⟩
    have hnot (h : ∀ d ∈ e.said ((r.withPolicy .proceed).renderAt file origin text),
        ¬ d.TellsOfUndeclared) : False := by
      obtain ⟨d, hd, htells⟩ := htold
      exact h d hd htells
    refine ⟨fun policy => (hheard policy).2, ⟨?_, fun h => (hnot h.2).elim⟩, fun h => (hnot h).elim,
      fun _ => ⟨before, d, after, hstops⟩⟩
    rintro ⟨out, e', hout⟩
    have hfails := hstops.fails
    rw [hout] at hfails
    cases hfails

/-- Of a text with two references to undeclared variables one run says all that passes the threshold, and
the other stops at the first of them, behind a new identifier and a warning. -/
theorem policies_part_behind_warning :
    let r : Renderer := ⟨⟨[]⟩, .parameters, .proceed, 2031⟩
    let text := "\x7b\x7b#newGuid\x7d\x7d\n\x7b\x7b\x7d\x7d\x7b\x7bx\x7d\x7d\x7b\x7by\x7d\x7d"
    let e : Expansion := ⟨{ threshold := .warning }, ⟨7, 0⟩, 1⟩
    let empty : Diagnostic := ⟨.warning, "Empty token.", some ⟨⟨"f.txt"⟩, ⟨2, 1⟩⟩⟩
    let first := Diagnostic.ofUndeclared ⟨⟨"f.txt"⟩, ⟨2, 5⟩⟩ "x"
    let second := Diagnostic.ofUndeclared ⟨⟨"f.txt"⟩, ⟨2, 10⟩⟩ "y"
    let skipping := ((r.withPolicy .skipFile).renderAt ⟨"f.txt"⟩ .start text).outcome e
    let proceeding := ((r.withPolicy .proceed).renderAt ⟨"f.txt"⟩ .start text).outcome e
    e.Lenient ∧ PoliciesPart r ⟨"f.txt"⟩ .start text e ∧
      skipping.1 = .error (.reported first) ∧ skipping.2.journal.records = [empty, first] ∧
      proceeding.1 = .ok "$guid1$\n" ∧ proceeding.2.journal.records = [empty, first, second] :=
  ⟨rfl, policies_part rfl, by decide +kernel, by decide +kernel, by decide +kernel, by decide +kernel⟩

end Renderer

end Stencil
