import Stencil.Markup.Event

namespace Stencil.Markup

variable {events inner rest : List Event} {level : Nat}

/-- The number of open elements after an event, from the number before it. -/
def levelAfter (level : Nat) : Event → Nat
  | .tag _ false _ => level + 1
  | .close => level - 1
  | _ => level

/-- Each event with the number of elements that are open before it. -/
def leveled (level : Nat) : List Event → List (Nat × Event)
  | [] => []
  | event :: events => (level, event) :: leveled (levelAfter level event) events

theorem leveled_append (level : Nat) (events others : List Event) :
    leveled level (events ++ others) =
      leveled level events ++ leveled (events.foldl levelAfter level) others := by
  induction events generalizing level with
  | nil => rfl
  | cons event events ih => exact congrArg ((level, event) :: ·) (ih (levelAfter level event))

/-- The first of some events is on the level on which they begin. -/
theorem head?_leveled_le : ∀ p ∈ (leveled level events).head?, p.1 ≤ level := by
  intro p hp
  cases events with
  | nil => cases hp
  | cons event events =>
    cases hp
    exact Nat.le_refl level

/-- Whether an event neither opens nor closes an element. -/
def Event.isLoose : Event → Bool
  | .tag _ _ _ => false
  | .close => false
  | _ => true

/-- Events among which each start tag has its end tag, and each end tag its start tag. Names are not
compared: an end tag is delivered only under the name of the innermost open element. -/
inductive Balanced : List Event → Prop where
  | nil : Balanced []
  | loose {event : Event} {rest : List Event} : event.isLoose = true → Balanced rest →
      Balanced (event :: rest)
  | closed {body : List Char} {stop : Nat} {rest : List Event} : Balanced rest →
      Balanced (.tag body true stop :: rest)
  | element {body : List Char} {stop : Nat} {inner rest : List Event} : Balanced inner →
      Balanced rest → Balanced (.tag body false stop :: (inner ++ .close :: rest))

/-- The events of one element: an empty-element tag, or a start tag, what is in the element, and its end
tag. -/
inductive OneElement : List Event → Prop where
  | closed (body : List Char) (stop : Nat) : OneElement [.tag body true stop]
  | element (body : List Char) (stop : Nat) {inner : List Event} : Balanced inner →
      OneElement (.tag body false stop :: (inner ++ [.close]))

/-- The tags among the events form one single balanced element. -/
def Single (events : List Event) : Prop := ∃ front root back, events = front ++ (root ++ back) ∧
  (∀ event ∈ front, event.isLoose = true) ∧ OneElement root ∧ ∀ event ∈ back, event.isLoose = true

theorem levelAfter_of_isLoose {event : Event} (h : event.isLoose = true) :
    levelAfter level event = level := by
  cases event with
  | tag body closed stop => cases h
  | close => cases h
  | _ => rfl

/-- Balanced events leave open what was open before them. -/
theorem Balanced.foldl_levelAfter (h : Balanced events) (level : Nat) :
    events.foldl levelAfter level = level := by
  induction h generalizing level with
  | nil => rfl
  | loose hloose _ ih =>
    rw [List.foldl_cons, levelAfter_of_isLoose hloose]
    exact ih level
  | closed _ ih => exact ih level
  | element _ _ ihinner ihrest =>
    rw [List.foldl_cons, List.foldl_append, levelAfter, ihinner (level + 1)]
    exact ihrest level

theorem Balanced.leveled_element (h : Balanced inner) (level : Nat) (body : List Char) (stop : Nat)
    (rest : List Event) : leveled level (.tag body false stop :: (inner ++ .close :: rest)) =
      (level, .tag body false stop) ::
        (leveled (level + 1) inner ++ (level + 1, .close) :: leveled level rest) := by
  rw [leveled, leveled_append, levelAfter, h.foldl_levelAfter, leveled, levelAfter]
  rfl

/-- What was open before balanced events stays open in all of them. -/
theorem Balanced.le_of_mem_leveled (h : Balanced events) (level : Nat) :
    ∀ p ∈ leveled level events, level ≤ p.1 := by
  induction h generalizing level with
  | nil => nofun
  | loose hloose _ ih =>
    rw [leveled, levelAfter_of_isLoose hloose, List.forall_mem_cons]
    exact ⟨Nat.le_refl level, ih level⟩
  | closed _ ih =>
    rw [leveled, List.forall_mem_cons]
    exact ⟨Nat.le_refl level, ih level⟩
  | element hinner _ ihinner ihrest =>
    rw [hinner.leveled_element, List.forall_mem_cons, List.forall_mem_append, List.forall_mem_cons]
    refine ⟨Nat.le_refl level, fun p hp => ?_, Nat.le_succ level, ihrest level⟩
    have hle := ihinner (level + 1) p hp
    omega

/-- If fewer elements are open behind some events than before them, the innermost of those that were open
is closed by one of the events, and what stands in front of that end tag is balanced. -/
theorem exists_close (events : List Event) (level : Nat)
    (h : events.foldl levelAfter (level + 1) ≤ level) :
    ∃ inner rest, events = inner ++ .close :: rest ∧ Balanced inner := by
  cases events with
  | nil => exact absurd h (Nat.not_succ_le_self level)
  | cons event events =>
    rw [List.foldl_cons] at h
    cases hloose : event.isLoose with
    | true =>
      rw [levelAfter_of_isLoose hloose] at h
      obtain ⟨inner, rest, rfl, hinner⟩ := exists_close events level h
      exact ⟨event :: inner, rest, rfl, hinner.loose hloose⟩
    | false =>
      cases event with
      | tag body closed stop =>
        cases closed with
        | true =>
          obtain ⟨inner, rest, rfl, hinner⟩ := exists_close events level h
          exact ⟨.tag body true stop :: inner, rest, rfl, hinner.closed⟩
        | false =>
          -- first the element that is opened here is closed, then the one around it
          obtain ⟨inner, next, rfl, hinner⟩ := exists_close events (level + 1) (Nat.le_succ_of_le h)
          rw [levelAfter, List.foldl_append, hinner.foldl_levelAfter, List.foldl_cons] at h
          obtain ⟨others, rest, rfl, hothers⟩ := exists_close next level h
          exact ⟨.tag body false stop :: (inner ++ .close :: others), rest, by simp,
            hinner.element hothers⟩
      | close => exact ⟨[], events, rfl, .nil⟩
      | text raw => cases hloose
      | verbatim raw => cases hloose
      | aside => cases hloose
termination_by events.length

end Stencil.Markup
