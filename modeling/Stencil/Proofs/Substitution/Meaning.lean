import Stencil.Proofs.Triple
import Stencil.Substitution

namespace Stencil

/-- What new identifiers are taken from. -/
structure Supply where
  guids : GuidSource
  nextParameter : Fin UInt32.size
deriving DecidableEq, Repr

def Expansion.supply (e : Expansion) : Supply := ⟨e.guids, e.nextParameter⟩

namespace Renderer

/-- What a new identifier is written as, and what is left to take from. The numbers of a development
environment have 32 bits and start again behind the last one. -/
def identifier (r : Renderer) (supply : Supply) : String × Supply :=
  match r.expander with
  | .values => (supply.guids.next.text, { supply with guids := supply.guids.advance })
  | .parameters =>
    ("$guid" ++ toString supply.nextParameter ++ "$",
      { supply with nextParameter :=
          ⟨(supply.nextParameter.val + 1) % UInt32.size, Nat.mod_lt _ (by decide)⟩ })

/-- What a declared variable stands for. A development environment has placeholders of its own for two
semantics; a variable with any other one, unless it is empty, is left out. -/
def variableMeaning (r : Renderer) (v : Variable) : String :=
  match r.expander, v.semantic with
  | .parameters, some semantic =>
    if semantic = "projectName" then "$safeprojectname$"
    else if semantic = "organization" then "$registeredorganization$"
    else if semantic = "" then v.value
    else ""
  | _, _ => v.value

/-- What a token stands for, and what is left of the supply. -/
def meaning (r : Renderer) (supply : Supply) (token : String) : String × Supply :=
  if token = "" then ("", supply)
  else if token = "#newGuid" then r.identifier supply
  else if token = "#year" then
    (match r.expander with
      | .values => toString r.year
      | .parameters => "$year$", supply)
  else if token.toList.head? = some '#' then ("", supply)
  else ((r.store.get? token).elim "" r.variableMeaning, supply)

end Renderer

namespace Expansion

/-- A state in which errors are only recorded. -/
def Lenient (e : Expansion) : Prop := e.journal.strict = false

/-- A report of an error never gives a value. -/
theorem reported_triple {α : Type} (location : Location) (message : String) :
    Triple (fun _ => True) (reported location message : Attempt Expansion α)
      (fun _ _ => False) fun _ => True := by
  intro e _
  unfold reported journaled Attempt.onPart Journal.reported
  simp only [Bind.bind, EStateM.bind]
  cases Journal.emit ⟨.error, message, some location⟩ e.journal <;> exact True.intro

end Expansion

theorem Journal.emit_of_lenient (d : Diagnostic) {j : Journal} (h : j.strict = false) :
    ∃ j', Journal.emit d j = .ok () j' ∧ j'.strict = false := by
  have hpublish (k : Journal) (hk : k.strict = false) : (k.publishFrom d).strict = false := by
    unfold publishFrom
    split
    · exact hk
    · exact hk
  unfold emit
  split
  · exact ⟨j, rfl, h⟩
  · rw [h]
    exact ⟨_, rfl, hpublish _ h⟩
  · exact ⟨_, rfl, hpublish _ h⟩

/-- A step gives a value and leaves a supply, whatever else it does to a lenient state. -/
def Gives {α : Type} (x : Attempt Expansion α) (e : Expansion) (a : α) (supply : Supply) : Prop :=
  ∃ e', x e = .ok a e' ∧ e'.supply = supply ∧ e'.Lenient

namespace Gives

variable {α β : Type} {x : Attempt Expansion α} {e : Expansion} {a : α} {b : β} {supply : Supply}

theorem pure (he : e.Lenient) : Gives (Pure.pure a) e a e.supply := ⟨e, rfl, rfl, he⟩

theorem sayAt (level : Level) (location : Location) (message : String) (he : e.Lenient) :
    Gives (Expansion.sayAt level location message) e () e.supply := by
  obtain ⟨j', hj, hstrict⟩ := Journal.emit_of_lenient ⟨level, message, some location⟩ he
  refine ⟨{ e with journal := j' }, ?_, rfl, hstrict⟩
  simp [Expansion.sayAt, Expansion.journaled, Attempt.onPart, Journal.sayAt, hj]

/-- A step that gives a value is followed by whatever is done with it. -/
theorem bind {f : α → Attempt Expansion β} (hx : Gives x e a supply)
    (hf : ∀ e', e'.supply = supply → e'.Lenient → Gives (f a) e' b supply) :
    Gives (x >>= f) e b supply := by
  obtain ⟨e₁, hx, hsupply, hlenient⟩ := hx
  obtain ⟨e₂, hf, hrest⟩ := hf e₁ hsupply hlenient
  exact ⟨e₂, by simp [Bind.bind, EStateM.bind, hx, hf], hrest⟩

/-- A remark, and then a value. -/
theorem say_pure (level : Level) (location : Location) (message : String) (he : e.Lenient) :
    Gives (do Expansion.sayAt level location message; Pure.pure a) e a e.supply :=
  (sayAt level location message he).bind fun _ hs he' => hs ▸ Gives.pure he'

end Gives

namespace Renderer

variable {r : Renderer} {e : Expansion}

theorem gives_newGuid (he : e.Lenient) :
    Gives r.newGuid e (r.identifier e.supply).1 (r.identifier e.supply).2 := by
  unfold newGuid identifier
  cases r.expander with
  | values => exact ⟨_, rfl, rfl, he⟩
  | parameters =>
    have htext : parameter s!"guid{e.nextParameter}" = "$guid" ++ toString e.nextParameter ++ "$" := by
      apply String.toList_injective
      simp [parameter, show (toString "guid") = "guid" from rfl]
    exact ⟨{ e with nextParameter := numberAfter e.nextParameter }, htext ▸ rfl, rfl, he⟩

theorem gives_function (location : Location) {token : String} (ht : token ≠ "")
    (hf : token.toList.head? = some '#') (he : e.Lenient) :
    Gives (r.function location token) e (r.meaning e.supply token).1
      (r.meaning e.supply token).2 := by
  unfold function
  split
  · rw [meaning, if_neg ht, if_pos rfl]
    refine (gives_newGuid he).bind fun e' hs he' => ?_
    exact hs ▸ Gives.say_pure _ _ _ he'
  · rw [meaning, if_neg ht, if_neg (by decide), if_pos rfl]
    have hyear : r.yearText = match r.expander with
        | .values => toString r.year
        | .parameters => "$year$" := by
      unfold yearText parameter
      rfl
    exact hyear ▸ Gives.pure he
  · next hguid hyear =>
    rw [meaning, if_neg ht, if_neg hguid, if_neg hyear, if_pos hf]
    exact Gives.say_pure _ _ _ he

theorem gives_valueOf (location : Location) (token : String) (v : Variable) (he : e.Lenient) :
    Gives (valueOf location token v) e v.value e.supply := by
  unfold valueOf
  split
  · next hempty => exact hempty ▸ Gives.say_pure _ _ _ he
  · exact Gives.say_pure _ _ _ he

theorem gives_parameterFor (location : Location) (v : Variable) {role : String} (hrole : role ≠ "")
    (he : e.Lenient) :
    Gives (parameterFor location v role) e
      (if role = "projectName" then "$safeprojectname$"
        else if role = "organization" then "$registeredorganization$"
        else if role = "" then v.value
        else "") e.supply := by
  unfold parameterFor reservedParameter?
  split
  · next hreserved =>
    split at hreserved
    · cases hreserved
      exact Gives.pure he
    · cases hreserved
      exact Gives.pure he
    · cases hreserved
  · next hreserved =>
    split at hreserved
    · cases hreserved
    · cases hreserved
    · next hproject horganization =>
      rw [if_neg hproject, if_neg horganization, if_neg hrole]
      exact Gives.say_pure _ _ _ he

theorem gives_declared (location : Location) (token : String) (v : Variable) (he : e.Lenient) :
    Gives (r.declared location token v) e (r.variableMeaning v) e.supply := by
  unfold declared variableMeaning Variable.role?
  cases r.expander with
  | values => exact gives_valueOf location token v he
  | parameters =>
    cases v.semantic with
    | none => exact gives_valueOf location token v he
    | some semantic =>
      by_cases hs : semantic = ""
      · simpa [hs] using gives_valueOf location token v he
      · simpa only [Option.filter, hs, ne_eq, not_false_eq_true, decide_true, if_true] using
          gives_parameterFor location v hs he

/-- Every token gives its meaning. -/
theorem gives_token (hr : r.unresolved = .proceed) (location : Location) (token : String)
    (he : e.Lenient) :
    Gives (r.token location token) e (r.meaning e.supply token).1
      (r.meaning e.supply token).2 := by
  unfold Renderer.token
  by_cases ht : token = ""
  · rw [if_pos ht, meaning, if_pos ht]
    exact Gives.say_pure _ _ _ he
  · rw [if_neg ht]
    by_cases hf : token.toList.head? = some '#'
    · rw [if_pos hf]
      exact gives_function location ht hf he
    · -- a token without a mark of functions is the name of none
      have hfunction (name : String) (hn : name.toList.head? = some '#') : token ≠ name :=
        fun h => hf (h ▸ hn)
      rw [if_neg hf, meaning, if_neg ht, if_neg (hfunction "#newGuid" rfl),
        if_neg (hfunction "#year" rfl), if_neg hf]
      cases r.store.get? token with
      | none =>
        simp only [undeclared, hr]
        exact Gives.say_pure _ _ _ he
      | some v => exact gives_declared location token v he

end Renderer

end Stencil
