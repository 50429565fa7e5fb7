import Stencil.Proofs.Path.Moves

namespace Stencil

/-- Where a component leads from a place. -/
def Component.lead (place : List String) : Component → List String
  | .root => []
  | .here => place
  | .up => place.dropLast
  | .name text => place ++ [text]

/-- Where components lead from a place, one after the other. -/
def leads (place : List String) (way : List Component) : List String := way.foldl Component.lead place

/-- The place that a path denotes for a program that runs in a place. -/
def Path.placeFrom (p : Path) (place : List String) : List String := leads place p.components

/-- How far above its start a way rises. -/
def rise : List Component → Nat
  | [] => 0
  | .up :: way => rise way + 1
  | _ :: way => rise way - 1

/-- A way that only goes up and down. -/
def Moving (way : List Component) : Prop := ∀ c ∈ way, c = .up ∨ ∃ text, c = .name text

@[simp]
theorem leads_nil (place : List String) : leads place [] = place := rfl

@[simp]
theorem leads_cons (place : List String) (c : Component) (way : List Component) :
    leads place (c :: way) = leads (c.lead place) way := rfl

@[simp]
theorem leads_append (place : List String) (way more : List Component) :
    leads place (way ++ more) = leads (leads place way) more := List.foldl_append

/-- A way ends behind what its rise leaves of its start. -/
theorem leads_eq_take {way : List Component} (h : Moving way) (place : List String) :
    leads place way = place.take (place.length - rise way) ++ leads [] way := by
  induction way generalizing place with
  | nil => simp [rise]
  | cons c way ih =>
    have hway : Moving way := fun x hx => h x (List.mem_cons_of_mem _ hx)
    rcases h c List.mem_cons_self with rfl | ⟨text, rfl⟩
    · simp only [leads_cons, Component.lead, rise, List.dropLast_nil]
      rw [ih hway, List.dropLast_eq_take, List.take_take, List.length_take]
      congr 2
      omega
    · simp only [leads_cons, Component.lead, rise, List.nil_append]
      rw [ih hway (place ++ [text]), ih hway [text]]
      simp only [List.length_append, List.length_singleton, ← List.append_assoc]
      congr 1
      -- the name stays exactly if the rest of the way does not rise
      by_cases hr : rise way = 0
      · simp [hr, List.take_of_length_le]
      · rw [List.take_append_of_le_length (by omega), Nat.sub_eq_zero_of_le (by omega : 1 ≤ rise way)]
        simp only [List.take_zero, List.append_nil]
        congr 1
        omega

/-- Steps upwards take names off the end. -/
theorem leads_replicate_up (n : Nat) (place : List String) :
    leads place (List.replicate n .up) = place.take (place.length - n) := by
  induction n generalizing place with
  | zero => simp
  | succ n ih =>
    rw [List.replicate_succ, leads_cons, ih, Component.lead, List.dropLast_eq_take, List.take_take,
      List.length_take]
    congr 1
    omega

theorem length_lead_le (place : List String) (c : Component) :
    (c.lead place).length ≤ place.length + 1 := by
  cases c with
  | root => simp [Component.lead]
  | here => simp [Component.lead]
  | up =>
    simp only [Component.lead, List.length_dropLast]
    omega
  | name text => simp [Component.lead]

theorem length_leads_le (way : List Component) (place : List String) :
    (leads place way).length ≤ place.length + way.length := by
  induction way generalizing place with
  | nil => simp
  | cons c way ih =>
    have hc := length_lead_le place c
    have := ih (c.lead place)
    simp only [leads_cons, List.length_cons]
    omega

/-- Only names lengthen a place, so a way with a step upwards stays short of its full length. -/
theorem length_leads_lt {way : List Component} (h : .up ∈ way) (place : List String) :
    (leads place way).length < place.length + way.length := by
  induction way generalizing place with
  | nil => simp at h
  | cons c way ih =>
    simp only [leads_cons, List.length_cons]
    rcases List.mem_cons.mp h with rfl | h
    · have := length_leads_le way place.dropLast
      rw [List.length_dropLast] at this
      simp only [Component.lead]
      omega
    · have hc := length_lead_le place c
      have := ih h (c.lead place)
      omega

theorem leads_eq_append {way : List Component} (h : Moving way) (hup : .up ∉ way)
    (place : List String) :
    ∃ names, leads place way = place ++ names ∧ names.length = way.length := by
  induction way generalizing place with
  | nil => exact ⟨[], by simp, rfl⟩
  | cons c way ih =>
    rcases h c List.mem_cons_self with rfl | ⟨text, rfl⟩
    · exact absurd List.mem_cons_self hup
    · obtain ⟨names, hn, hl⟩ := ih (fun x hx => h x (List.mem_cons_of_mem _ hx))
        (fun hx => hup (List.mem_cons_of_mem _ hx)) (place ++ [text])
      exact ⟨text :: names, by simp [Component.lead, hn], by simp [hl]⟩

/-- Going up as many steps as a way has components undoes the way, unless it has a step upwards
itself and does not start at the root. -/
theorem leads_back {way : List Component} (h : Moving way) (place : List String) :
    ∃ n ≤ place.length, leads (leads place way) (List.replicate way.length .up) = place.take n ∧
      (n = place.length ↔ .up ∉ way ∨ place = []) := by
  rw [leads_replicate_up]
  by_cases hup : Component.up ∈ way
  · -- the way ends above its full length, so going back ends above its start or at the root
    refine ⟨(leads place way).length - way.length, ?_, ?_, ?_⟩
    · have := length_leads_le way place
      omega
    · rw [leads_eq_take h, List.length_append, List.length_take]
      have hnames := length_leads_le way []
      simp only [List.length_nil, Nat.zero_add] at hnames
      rw [List.take_append_of_le_length (by simp only [List.length_take]; omega), List.take_take]
      congr 1
      omega
    · have := length_leads_lt hup place
      simp only [hup, not_true, false_or, ← List.length_eq_zero_iff]
      omega
  · obtain ⟨names, hn, hl⟩ := leads_eq_append h hup place
    refine ⟨place.length, Nat.le_refl _, ?_, by simp [hup]⟩
    rw [hn, List.length_append, hl, Nat.add_sub_cancel, List.take_append_of_le_length (Nat.le_refl _)]

/-- The way back over one way and down another leads where the other leads from the same start,
exactly if the first has no step upwards or the second rises to the root. -/
theorem leads_back_then_iff {back way : List Component} (hback : Moving back) (hway : Moving way)
    (place : List String) :
    leads (leads place back) (List.replicate back.length .up ++ way) = leads place way ↔
      .up ∉ back ∨ place.length ≤ rise way := by
  obtain ⟨n, hn, htake, hiff⟩ := leads_back hback place
  rw [leads_append, htake, leads_eq_take hway (place.take n), leads_eq_take hway place,
    List.append_left_inj, List.take_take, List.length_take]
  -- both ends go on with the same names, so only what is left of the start matters
  have hlen : (place.take (min (min n place.length - rise way) n)).length =
      n - rise way := by
    simp only [List.length_take]
    omega
  constructor
  · intro heq
    have := congrArg List.length heq
    rw [hlen, List.length_take] at this
    by_cases hfull : n = place.length
    · rcases hiff.mp hfull with hup | hnil
      · exact Or.inl hup
      · exact Or.inr (by simp [hnil])
    · exact Or.inr (by omega)
  · intro hor
    congr 1
    rcases hor with hup | hle
    · rw [hiff.mpr (Or.inl hup)]
      omega
    · omega

end Stencil
