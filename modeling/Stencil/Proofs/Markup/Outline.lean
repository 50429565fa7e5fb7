import Stencil.Markup.Element
import Stencil.Proofs.Markup.Nesting
import Stencil.Proofs.Triple

namespace Stencil.Markup

variable {source : List Char} {events inner rest : List Event} {event : Event} {level depth : Nat}
  {e : Element}

/-- An element without the elements in it, and the number of elements that it stands in. -/
structure Node where
  name : String
  attributes : List (String × String)
  depth : Nat
  text : String
deriving DecidableEq

mutual

/-- An element and all elements in it, in document order. -/
def Element.outline (depth : Nat) : Element → List Node
  | ⟨name, attributes, text, children, _⟩ =>
    ⟨name, attributes, depth, text⟩ :: outlineOf (depth + 1) children

def outlineOf (depth : Nat) : List Element → List Node
  | [] => []
  | e :: rest => e.outline depth ++ outlineOf depth rest

end

/-- The attributes that a tag states; other events state none. -/
def Event.attributes : Event → Except Fault (List (String × String))
  | .tag body _ _ => tagAttributes body
  | _ => .ok []

/-- The text that an event adds to the element around it. -/
def Event.content : Event → Except Fault String
  | .text raw => (unescape raw).mapError .badReference
  | .verbatim raw => .ok (String.ofList raw)
  | _ => .ok ""

/-- The texts at a level, one behind the other. -/
def contentAt (level : Nat) (events : List (Nat × Event)) : Except Fault String :=
  String.join <$> (events.filter (·.1 = level)).mapM (·.2.content)

/-- What the tags among the events say of their elements. An element reaches as far as the events behind its
tag are on higher levels, and the texts on the next level are its own. -/
def described : List (Nat × Event) → List (Except Fault Node)
  | [] => []
  | (depth, .tag body _ _) :: rest => (do
      let attributes ← tagAttributes body
      let text ← contentAt (depth + 1) (rest.takeWhile (depth < ·.1))
      return ⟨String.ofList (tagName body), attributes, depth, text⟩) :: described rest
  | _ :: rest => described rest

/-- Every text in an element can be read; texts outside of the root need not be. -/
def TextsReadable (events : List Event) : Prop :=
  ∀ p ∈ leveled 0 events, 0 < p.1 → p.2.content.isOk = true

theorem contentAt_append {events others : List (Nat × Event)} {text more : String}
    (h : contentAt level events = .ok text) (hothers : contentAt level others = .ok more) :
    contentAt level (events ++ others) = .ok (text ++ more) := by
  unfold contentAt at h hothers ⊢
  rw [List.filter_append, List.mapM_append]
  cases hfirst : (events.filter (·.1 = level)).mapM (·.2.content) with
  | error fault =>
    rw [hfirst] at h
    cases h
  | ok texts =>
    cases hsecond : (others.filter (·.1 = level)).mapM (·.2.content) with
    | error fault =>
      rw [hsecond] at hothers
      cases hothers
    | ok texts' =>
      rw [hfirst] at h
      rw [hsecond] at hothers
      cases h
      cases hothers
      exact congrArg Except.ok String.join_append

theorem contentAt_single (level : Nat) (event : Event) :
    contentAt level [(level, event)] = event.content := by
  rw [contentAt, List.filter_cons_of_pos (by simp), List.filter_nil, List.mapM_cons, List.mapM_nil]
  cases event.content with
  | error fault => rfl
  | ok text => exact congrArg Except.ok (String.join_cons.trans String.append_empty)

theorem contentAt_above {above : List (Nat × Event)} (h : ∀ p ∈ above, level < p.1) :
    contentAt level above = .ok "" := by
  have hnone : above.filter (·.1 = level) = [] := by
    apply List.filter_eq_nil_iff.mpr
    intro p hp
    have hlt := h p hp
    simp only [decide_eq_true_eq]
    omega
  rw [contentAt, hnone, List.mapM_nil]
  rfl

/-- Events that begin on no higher level than a tag are out of the reach of its element. -/
theorem takeWhile_beyond {others : List (Nat × Event)} (h : ∀ p ∈ others.head?, p.1 ≤ depth) :
    others.takeWhile (depth < ·.1) = [] := by
  cases others with
  | nil => rfl
  | cons next others =>
    have hle := h next rfl
    exact List.takeWhile_cons_of_neg (by simpa using hle)

theorem described_append {events others : List (Nat × Event)} (hevents : ∀ p ∈ events, level ≤ p.1)
    (hothers : ∀ p ∈ others.head?, p.1 ≤ level) :
    described (events ++ others) = described events ++ described others := by
  induction events with
  | nil => rfl
  | cons p events ih =>
    obtain ⟨hp, hevents⟩ := List.forall_mem_cons.mp hevents
    have hrest := ih hevents
    obtain ⟨depth, event⟩ := p
    cases event with
    | tag body closed stop =>
      have hreach : (events ++ others).takeWhile (depth < ·.1) = events.takeWhile (depth < ·.1) := by
        have hbeyond : ∀ q ∈ others.head?, q.1 ≤ depth := fun q hq => Nat.le_trans (hothers q hq) hp
        rw [List.takeWhile_append, takeWhile_beyond hbeyond, List.append_nil]
        split
        · next hall => exact ((List.takeWhile_prefix _).eq_of_length hall).symm
        · rfl
      rw [List.cons_append, described, described, hreach, hrest, List.cons_append]
    | _ => exact hrest

theorem described_loose (h : event.isLoose = true) (level : Nat) (rest : List Event) :
    described (leveled level (event :: rest)) = described (leveled level rest) := by
  rw [leveled, levelAfter_of_isLoose h]
  cases event with
  | tag body closed stop => cases h
  | close => cases h
  | _ => rfl

theorem described_loose_append (h : ∀ event ∈ events, event.isLoose = true) (level : Nat)
    (rest : List Event) : described (leveled level (events ++ rest)) = described (leveled level rest) := by
  induction events with
  | nil => rfl
  | cons event events ih =>
    obtain ⟨hevent, hevents⟩ := List.forall_mem_cons.mp h
    exact (described_loose hevent level (events ++ rest)).trans (ih hevents)

/-- An element with more in it. -/
def Element.fill (e : Element) (text : String) (children : List Element) : Element :=
  { e with text := e.text ++ text, children := e.children ++ children }

@[simp]
theorem Element.fill_nothing (e : Element) : e.fill "" [] = e := by
  cases e
  simp [fill]

@[simp]
theorem Element.fill_fill (e : Element) (text text' : String) (children children' : List Element) :
    (e.fill text children).fill text' children' = e.fill (text ++ text') (children ++ children') := by
  simp [fill, String.append_assoc]

theorem Element.addText_eq_fill (e : Element) (text : String) : e.addText text = e.fill text [] := by
  simp [fill, addText]

theorem Element.addChild_eq_fill (e child : Element) : e.addChild child = e.fill "" [child] := by
  simp [fill, addChild]

/-- A tag with the events of its element behind it, and others behind these. -/
theorem described_tag {body : List Char} {closed : Bool} {stop : Nat} {text : String}
    {children siblings : List Element} {reach others : List (Nat × Event)}
    (htag : Element.ofTag source body stop = .ok e) (hreach : ∀ p ∈ reach, level < p.1)
    (hothers : ∀ p ∈ others.head?, p.1 ≤ level) (htext : contentAt (level + 1) reach = .ok text)
    (hchildren : described reach = (outlineOf (level + 1) children).map .ok)
    (hsiblings : described others = (outlineOf level siblings).map .ok) :
    described ((level, .tag body closed stop) :: (reach ++ others)) =
      (outlineOf level (e.fill text children :: siblings)).map .ok := by
  have hall : (reach ++ others).takeWhile (level < ·.1) = reach := by
    rw [List.takeWhile_append_of_pos fun p hp => decide_eq_true (hreach p hp), takeWhile_beyond hothers,
      List.append_nil]
  obtain ⟨position, -, htag⟩ := bind_eq_ok_iff.mp htag
  obtain ⟨attributes, hattributes, htag⟩ := bind_eq_ok_iff.mp htag
  cases htag
  have hapart : described (reach ++ others) = described reach ++ described others :=
    described_append hreach fun p hp => Nat.le_succ_of_le (hothers p hp)
  rw [described, hall, hattributes, htext, hapart, hchildren, hsiblings, outlineOf, Element.fill,
    Element.outline, List.map_append, List.map_cons, String.empty_append, List.nil_append]
  rfl

theorem described_closed {body : List Char} {stop : Nat} {siblings : List Element}
    (htag : Element.ofTag source body stop = .ok e)
    (hsiblings : described (leveled level rest) = (outlineOf level siblings).map .ok) :
    described (leveled level (.tag body true stop :: rest)) =
      (outlineOf level (e :: siblings)).map .ok := by
  rw [← e.fill_nothing]
  exact described_tag htag (List.forall_mem_nil _) head?_leveled_le rfl rfl hsiblings

/-- The tags among events on a level are those of some elements, and the texts there make up one text. -/
structure Say (level : Nat) (events : List Event) (text : String) (children : List Element) : Prop where
  text : contentAt level (leveled level events) = .ok text
  children : described (leveled level events) = (outlineOf level children).map .ok

theorem described_element {body : List Char} {stop : Nat} {text : String}
    {children siblings : List Element} (htag : Element.ofTag source body stop = .ok e)
    (hinner : Balanced inner) (hsay : Say (level + 1) inner text children)
    (hsiblings : described (leveled level rest) = (outlineOf level siblings).map .ok) :
    described (leveled level (.tag body false stop :: (inner ++ .close :: rest))) =
      (outlineOf level (e.fill text children :: siblings)).map .ok := by
  -- the reach of the element ends with its end tag
  let reach := leveled (level + 1) inner ++ [(level + 1, .close)]
  have hsplit : leveled level (.tag body false stop :: (inner ++ .close :: rest)) =
      (level, .tag body false stop) :: (reach ++ leveled level rest) := by
    rw [hinner.leveled_element, List.append_assoc]
    rfl
  have hreach : ∀ p ∈ reach, level < p.1 := by
    intro p hp
    rcases List.mem_append.mp hp with hp | hp
    · exact hinner.le_of_mem_leveled (level + 1) p hp
    · rw [List.mem_singleton.mp hp]
      exact Nat.lt_succ_self level
  have htext : contentAt (level + 1) reach = .ok text := by
    rw [← String.append_empty (s := text)]
    exact contentAt_append hsay.text (contentAt_single (level + 1) .close)
  have hchildren : described reach = (outlineOf (level + 1) children).map .ok := by
    have hclose : ∀ p ∈ [(level + 1, Event.close)].head?, p.1 ≤ level + 1 := by
      intro p hp
      cases hp
      exact Nat.le_refl (level + 1)
    rw [described_append (hinner.le_of_mem_leveled (level + 1)) hclose, hsay.children]
    exact List.append_nil _
  rw [hsplit]
  exact described_tag htag hreach head?_leveled_le htext hchildren hsiblings

namespace Say

variable {text more : String} {children siblings : List Element} {body : List Char} {stop : Nat}

theorem nil (level : Nat) : Say level [] "" [] := ⟨rfl, rfl⟩

theorem loose (h : event.isLoose = true) (htext : event.content = .ok text)
    (hrest : Say level rest more children) : Say level (event :: rest) (text ++ more) children := by
  refine ⟨?_, (described_loose h level rest).trans hrest.children⟩
  rw [leveled, levelAfter_of_isLoose h]
  exact contentAt_append ((contentAt_single level event).trans htext) hrest.text

theorem closed (htag : Element.ofTag source body stop = .ok e)
    (hrest : Say level rest more siblings) :
    Say level (.tag body true stop :: rest) more (e :: siblings) := by
  refine ⟨?_, described_closed htag hrest.children⟩
  rw [← String.empty_append (s := more)]
  exact contentAt_append (contentAt_single level (.tag body true stop)) hrest.text

theorem element (htag : Element.ofTag source body stop = .ok e) (hinner : Balanced inner)
    (hsay : Say (level + 1) inner text children) (hrest : Say level rest more siblings) :
    Say level (.tag body false stop :: (inner ++ .close :: rest)) more
      (e.fill text children :: siblings) := by
  refine ⟨?_, described_element htag hinner hsay hrest.children⟩
  have hinside : contentAt level (leveled (level + 1) inner) = .ok "" :=
    contentAt_above (hinner.le_of_mem_leveled (level + 1))
  have hclose : contentAt level [(level + 1, Event.close)] = .ok "" :=
    contentAt_above (List.forall_mem_singleton.mpr (Nat.lt_succ_self level))
  have htag : contentAt level [(level, Event.tag body false stop)] = .ok "" :=
    contentAt_single level (.tag body false stop)
  have hall := contentAt_append htag (contentAt_append hinside (contentAt_append hclose hrest.text))
  rw [hinner.leveled_element]
  simpa using hall

end Say

end Stencil.Markup
