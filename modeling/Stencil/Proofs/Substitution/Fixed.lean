import Stencil.Proofs.Comparison.Journal
import Stencil.Proofs.Comparison.Lifting
import Stencil.Proofs.Substitution.Meaning
import Stencil.Run

namespace Stencil

variable {α β : Type} {r : Renderer} {t : Template} {e : Entry}

/-- A step with the same result in every lenient state, and in every strict one. -/
def Expansion.Fixed (x : Attempt Expansion α) : Prop :=
  ∀ strict, ∃ result, ∀ e : Expansion, e.journal.strict = strict →
    (x.outcome e).1 = result ∧ (x.outcome e).2.journal.strict = strict

namespace Expansion.Fixed

theorem pure (a : α) : Fixed (Pure.pure a : Attempt Expansion α) :=
  fun _ => ⟨.ok a, fun _ he => ⟨rfl, he⟩⟩

theorem bind {x : Attempt Expansion α} {f : α → Attempt Expansion β} (hx : Fixed x)
    (hf : ∀ a, Fixed (f a)) : Fixed (x >>= f) := by
  intro strict
  obtain ⟨result, hresult⟩ := hx strict
  cases result with
  | ok a =>
    obtain ⟨after, hafter⟩ := hf a strict
    refine ⟨after, fun e he => ?_⟩
    obtain ⟨hx, hstrict⟩ := hresult e he
    rw [Attempt.outcome_bind]
    cases hrun : x.outcome e with
    | mk result e' =>
      rw [hrun] at hx hstrict
      obtain rfl : result = .ok a := hx
      exact hafter e' hstrict
  | error failure =>
    refine ⟨.error failure, fun e he => ?_⟩
    obtain ⟨hx, hstrict⟩ := hresult e he
    rw [Attempt.outcome_bind]
    cases hrun : x.outcome e with
    | mk result e' =>
      rw [hrun] at hx hstrict
      obtain rfl : result = .error failure := hx
      exact ⟨rfl, hstrict⟩

theorem emit (d : Diagnostic) : Fixed (Expansion.journaled (Journal.emit d)) := by
  intro strict
  refine ⟨if d.level = .error ∧ strict = true then .error (.raised d) else .ok (), fun e he => ?_⟩
  subst he
  have honward := (Journal.Onward.emit e.journal d).strict
  rw [Expansion.outcome_journaled]
  refine ⟨?_, honward⟩
  rw [Journal.outcome_emit]
  by_cases hnone : d.level = .none
  · simp [hnone]
  · by_cases herror : d.level = .error
    · cases e.journal.strict <;> simp [herror]
    · simp [hnone, herror]

theorem say (level : Level) (message : String) : Fixed (Expansion.say level message) := emit _

theorem sayAt (level : Level) (location : Location) (message : String) :
    Fixed (Expansion.sayAt level location message) := emit _

theorem reported (location : Location) (message : String) :
    Fixed (Expansion.reported location message : Attempt Expansion α) := by
  intro strict
  refine ⟨if strict = true then .error (.raised ⟨.error, message, some location⟩)
    else .error (.reported ⟨.error, message, some location⟩), fun e he => ?_⟩
  subst he
  have honward := (Journal.Onward.reported (α := α) e.journal (some location) message).strict
  unfold Expansion.reported
  rw [Expansion.outcome_journaled]
  refine ⟨?_, honward⟩
  rw [Journal.outcome_reported]
  cases e.journal.strict <;> rfl

theorem mapM {f : α → Attempt Expansion β} {l : List α} (h : ∀ a ∈ l, Fixed (f a)) :
    Fixed (l.mapM f) := by
  induction l with
  | nil => exact pure []
  | cons a l ih =>
    rw [List.mapM_cons]
    exact (h a List.mem_cons_self).bind fun b =>
      (ih fun c hc => h c (List.mem_cons_of_mem _ hc)).bind fun _ => pure _

end Expansion.Fixed

open Expansion (Fixed)

/-- A step that gives a value in every strict state. -/
def Expansion.Gives (x : Attempt Expansion α) (a : α) : Prop :=
  ∀ before : Expansion, before.journal.strict = true →
    ∃ after, x.outcome before = (.ok a, after) ∧ after.journal.strict = true

/-- What a fixed step gives once in a strict state it always gives, and the state stays strict. -/
theorem Expansion.Fixed.gives {x : Attempt Expansion α} (h : Fixed x) {a : α}
    {before after : Expansion} (hstrict : before.journal.strict = true)
    (hrun : x.outcome before = (.ok a, after)) :
    Expansion.Gives x a ∧ after.journal.strict = true := by
  obtain ⟨result, hresult⟩ := h true
  obtain ⟨hfirst, hafter⟩ := hresult before hstrict
  rw [hrun] at hfirst hafter
  refine ⟨fun other hother => ?_, hafter⟩
  obtain ⟨hsame, hstays⟩ := hresult other hother
  exact ⟨(x.outcome other).2, Prod.ext (hsame.trans hfirst.symm) rfl, hstays⟩

/-- A step gives no more than one value. -/
theorem Expansion.Gives.unique {x : Attempt Expansion α} {a b : α} (ha : Expansion.Gives x a)
    (hb : Expansion.Gives x b) : a = b := by
  let before : Expansion := { journal := { strict := true }, guids := ⟨0, 0⟩ }
  obtain ⟨after, hfirst, -⟩ := ha before rfl
  obtain ⟨after', hsecond, -⟩ := hb before rfl
  have hsame := congrArg Prod.fst (hfirst.symm.trans hsecond)
  exact Except.ok.inj hsame

namespace Renderer

variable {location : Location} {body : String}

theorem fixed_function (h : body ≠ "#newGuid") : Fixed (r.function location body) := by
  unfold function
  split
  · exact absurd rfl h
  · exact .pure _
  · exact (Fixed.sayAt _ _ _).bind fun _ => .pure _

theorem fixed_valueOf (v : Variable) : Fixed (valueOf location body v) := by
  unfold valueOf
  split <;> exact (Fixed.sayAt _ _ _).bind fun _ => .pure _

/-- Only a new identifier depends on what was expanded before. -/
theorem fixed_token (h : body ≠ "#newGuid") : Fixed (r.token location body) := by
  unfold token
  split
  · exact (Fixed.sayAt _ _ _).bind fun _ => .pure _
  · split
    · exact fixed_function h
    · split
      · unfold undeclared
        cases r.unresolved with
        | proceed => exact (Fixed.sayAt _ _ _).bind fun _ => .pure _
        | skipFile => exact .reported _ _
      · unfold declared
        split
        · unfold parameterFor
          split
          · exact .pure _
          · exact (Fixed.sayAt _ _ _).bind fun _ => .pure _
        · exact fixed_valueOf _

/-- A token that stands for the same thing whoever reads it: no function with a parameter of its own,
and no variable with a role. -/
structure Neutral (store : VariableStore) (body : String) : Prop where
  newGuid : body ≠ "#newGuid"
  year : body ≠ "#year"
  role : ∀ v ∈ store.get? body, v.role? = none

theorem token_of_neutral (h : Neutral r.store body) (expander : Expander) :
    { r with expander }.token location body = r.token location body := by
  have hfunction : { r with expander }.function location body = r.function location body := by
    unfold function
    split
    · exact absurd rfl h.newGuid
    · exact absurd rfl h.year
    · rfl
  have hdeclared (v : Variable) (hv : v ∈ r.store.get? body) :
      { r with expander }.declared location body v = r.declared location body v := by
    unfold declared
    rw [h.role v hv]
    cases expander <;> cases r.expander <;> rfl
  unfold token
  rw [hfunction]
  cases hv : r.store.get? body with
  | none => rfl
  | some v => simp only [hdeclared v hv]

/-- Whether all tokens of a text stand for the same thing whoever reads it. -/
def NeutralText (store : VariableStore) (text : String) : Prop :=
  ∀ body place, .token body place ∈ Fragment.ofText text → Neutral store body

/-- Whether no token of a text asks for a new identifier. -/
def Guidless (text : String) : Prop :=
  ∀ body place, .token body place ∈ Fragment.ofText text → body ≠ "#newGuid"

theorem NeutralText.guidless {store : VariableStore} {text : String} (h : NeutralText store text) :
    Guidless text := fun body place hbody => (h body place hbody).newGuid

theorem fixed_renderAt {file : Path} {origin : Position} {text : String} (h : Guidless text) :
    Fixed (r.renderAt file origin text) := by
  unfold renderAt
  refine (Fixed.mapM fun f hf => ?_).bind fun _ => .pure _
  cases f with
  | literal text => exact .pure text
  | token body place => exact fixed_token (h body place hf)
  | unclosed place => exact .reported _ _

theorem mapM_congr {f g : α → Attempt Expansion β} {l : List α} (h : ∀ a ∈ l, f a = g a) :
    l.mapM f = l.mapM g := by
  induction l with
  | nil => rfl
  | cons a l ih =>
    rw [List.mapM_cons, List.mapM_cons, h a List.mem_cons_self,
      ih fun b hb => h b (List.mem_cons_of_mem _ hb)]

theorem renderAt_of_neutral {file : Path} {origin : Position} {text : String}
    (h : NeutralText r.store text) (expander : Expander) :
    { r with expander }.renderAt file origin text = r.renderAt file origin text := by
  have hfragments : (Fragment.ofText text).mapM ({ r with expander }.fragment file origin) =
      (Fragment.ofText text).mapM (r.fragment file origin) := by
    refine mapM_congr fun f hf => ?_
    cases f with
    | literal text => rfl
    | token body place => exact token_of_neutral (h body place hf) expander
    | unclosed place => rfl
  unfold renderAt
  rw [hfragments]

end Renderer

namespace Entry

variable {fs fs' : FileSystem} {candidates : List String}

/-- A path that a candidate of the entry expands to. -/
def Seeks (e : Entry) (r : Renderer) (t : Template) (path : Path) : Prop :=
  ∃ candidate ∈ e.candidates, ∃ before after,
    (r.renderAt t.path e.position candidate).outcome before = (.ok path.text, after)

/-- Whether the entry's source is looked for at the same paths whoever reads the template. -/
def Neutral (e : Entry) (store : VariableStore) : Prop :=
  ∀ candidate ∈ e.candidates, Renderer.NeutralText store candidate

theorem fixed_firstSource (h : ∀ candidate ∈ candidates, Renderer.Guidless candidate) :
    Expansion.Fixed (e.firstSource fs r t candidates) := by
  induction candidates with
  | nil => exact .reported _ _
  | cons candidate candidates ih =>
    unfold firstSource
    refine (Renderer.fixed_renderAt (h candidate List.mem_cons_self)).bind fun text => ?_
    simp only
    split
    · exact .pure _
    · exact ih fun c hc => h c (List.mem_cons_of_mem _ hc)

/-- Looking for a source has one result as long as the files stay the same. -/
theorem fixed_resolveSource (h : ∀ candidate ∈ e.candidates, Renderer.Guidless candidate) :
    Expansion.Fixed (e.resolveSource fs r t) := by
  unfold resolveSource
  exact (Expansion.Fixed.say _ _).bind fun _ => fixed_firstSource h

theorem fixed_resolveDestination (h : Renderer.Guidless e.destination) :
    Expansion.Fixed (e.resolveDestination r t) := by
  unfold resolveDestination
  refine (Renderer.fixed_renderAt h).bind fun relative => ?_
  split
  · exact .reported _ _
  · exact .pure _

theorem firstSource_of_neutral
    (h : ∀ candidate ∈ candidates, Renderer.NeutralText r.store candidate) (expander : Expander) :
    e.firstSource fs { r with expander } t candidates = e.firstSource fs r t candidates := by
  induction candidates with
  | nil => rfl
  | cons candidate candidates ih =>
    unfold firstSource
    rw [Renderer.renderAt_of_neutral (h candidate List.mem_cons_self),
      ih fun c hc => h c (List.mem_cons_of_mem _ hc)]

theorem resolveSource_of_neutral (h : e.Neutral r.store) (expander : Expander) :
    e.resolveSource fs { r with expander } t = e.resolveSource fs r t := by
  unfold resolveSource
  rw [firstSource_of_neutral h]

theorem resolveDestination_of_neutral (h : Renderer.NeutralText r.store e.destination)
    (expander : Expander) :
    e.resolveDestination { r with expander } t = e.resolveDestination r t := by
  unfold resolveDestination
  rw [Renderer.renderAt_of_neutral h]

/-- A source that is found is found where there are more files, though it may be another one. -/
theorem firstSource_mono (h : ∀ path, fs.isFile path = true → fs'.isFile path = true)
    {before after : Expansion} {source : Path}
    (hfound : (e.firstSource fs r t candidates).outcome before = (.ok source, after)) :
    ∃ source' after', (e.firstSource fs' r t candidates).outcome before = (.ok source', after') := by
  induction candidates generalizing before with
  | nil => exact ((Expansion.reported_triple _ _).of_outcome (P := fun _ => True) trivial hfound).elim
  | cons candidate candidates ih =>
    unfold firstSource at hfound ⊢
    obtain ⟨text, rendered, hrender, hfound⟩ := Attempt.outcome_bind_eq_ok_iff.mp hfound
    suffices hrest : ∃ source' after', Attempt.outcome
        (if fs'.isFile ⟨text⟩ = true then pure ⟨text⟩ else e.firstSource fs' r t candidates)
        rendered = (.ok source', after') by
      obtain ⟨source', after', hrest⟩ := hrest
      exact ⟨source', after', Attempt.outcome_bind_eq_ok_iff.mpr ⟨text, rendered, hrender, hrest⟩⟩
    by_cases hlater : fs'.isFile ⟨text⟩ = true
    · exact ⟨⟨text⟩, rendered, by rw [if_pos hlater]; rfl⟩
    · have hnow : ¬ fs.isFile ⟨text⟩ = true := fun hnow => hlater (h _ hnow)
      rw [if_neg hlater]
      simp only at hfound
      rw [if_neg hnow] at hfound
      exact ih hfound

theorem resolveSource_mono (h : ∀ path, fs.isFile path = true → fs'.isFile path = true)
    {before after : Expansion} {source : Path}
    (hfound : (e.resolveSource fs r t).outcome before = (.ok source, after)) :
    ∃ source' after', (e.resolveSource fs' r t).outcome before = (.ok source', after') := by
  unfold resolveSource at hfound ⊢
  obtain ⟨_, said, hsay, hfound⟩ := Attempt.outcome_bind_eq_ok_iff.mp hfound
  obtain ⟨source', after', hfirst⟩ := firstSource_mono h hfound
  exact ⟨source', after', Attempt.outcome_bind_eq_ok_iff.mpr ⟨_, said, hsay, hfirst⟩⟩

/-- Only whether the candidates are files matters. -/
theorem firstSource_congr (hsub : candidates ⊆ e.candidates)
    (h : ∀ path, e.Seeks r t path → fs.isFile path = fs'.isFile path) :
    e.firstSource fs r t candidates = e.firstSource fs' r t candidates := by
  induction candidates with
  | nil => rfl
  | cons candidate candidates ih =>
    funext before
    have hrest := ih fun c hc => hsub (List.mem_cons_of_mem _ hc)
    unfold firstSource
    simp only [Bind.bind, EStateM.bind]
    cases hrun : r.renderAt t.path e.position candidate before with
    | error failure after => rfl
    | ok text after =>
      have hsame := h ⟨text⟩ ⟨candidate, hsub List.mem_cons_self, before, after, by
        rw [Attempt.outcome, hrun]⟩
      simp only [hsame, hrest]

theorem resolveSource_congr (h : ∀ path, e.Seeks r t path → fs.isFile path = fs'.isFile path) :
    e.resolveSource fs r t = e.resolveSource fs' r t := by
  unfold resolveSource
  rw [firstSource_congr (List.Subset.refl _) h]

end Entry

end Stencil
