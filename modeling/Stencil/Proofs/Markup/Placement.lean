import Mathlib.Data.List.Forall2
import Stencil.Proofs.Markup.Site

namespace Stencil.Markup

variable {source cs front : List Char} {event : Event} {b b' : Building} {element : Element}

/-- Two pieces at the front of a text end at different positions. -/
theorem positionAfter_inj {p q : List Char} (hp : p <+: cs) (hq : q <+: cs)
    (h : positionAfter p = positionAfter q) : p = q := by
  have hextended (p more : List Char) (h : positionAfter p = positionAfter (p ++ more)) : more = [] := by
    obtain ⟨hline, hcolumn⟩ := Position.mk.inj h
    have hfree : '\n' ∉ more := by
      apply List.count_eq_zero.mp
      rw [List.count_append] at hline
      omega
    -- with no line feed between the two, the longer one is further right on the same line
    have hplain : ∀ c ∈ more.reverse, (c != '\n') = true := by
      intro c hc
      exact bne_iff_ne.mpr fun hfeed => hfree (hfeed ▸ List.mem_reverse.mp hc)
    rw [List.reverse_append, List.takeWhile_append_of_pos hplain, List.length_append,
      List.length_reverse] at hcolumn
    exact List.eq_nil_of_length_eq_zero (by omega)
  rcases List.prefix_or_prefix_of_prefix hp hq with ⟨more, rfl⟩ | ⟨more, rfl⟩
  · rw [hextended p more h, List.append_nil]
  · rw [hextended q more h.symm, List.append_nil]

theorem dropWhile_append_of_free {w : List Char} (h : '<' ∉ w) (rest : List Char) :
    (w.reverse ++ rest).dropWhile (· != '<') = rest.dropWhile (· != '<') := by
  apply List.dropWhile_append_of_pos
  intro c hc
  exact bne_iff_ne.mpr fun hbracket => h (hbracket ▸ List.mem_reverse.mp hc)

theorem beforeLastBracket_of_free (h : '<' ∉ cs) : beforeLastBracket cs = [] := by
  have hnone := dropWhile_append_of_free h []
  rw [List.append_nil] at hnone
  rw [beforeLastBracket, hnone]
  rfl

theorem beforeLastBracket_append {w : List Char} (h : '<' ∉ w) (before : List Char) :
    beforeLastBracket (before ++ '<' :: w) = before := by
  have hreverse : (before ++ '<' :: w).reverse = w.reverse ++ '<' :: before.reverse := by simp
  rw [beforeLastBracket, hreverse, dropWhile_append_of_free h]
  simp

theorem exists_last_bracket (h : '<' ∈ cs) : ∃ before w, cs = before ++ '<' :: w ∧ '<' ∉ w := by
  obtain ⟨w, before, hreverse, hfree⟩ := List.eq_append_cons_of_mem (List.mem_reverse.mpr h)
  refine ⟨before.reverse, w.reverse, ?_, fun hmem => hfree (List.mem_reverse.mp hmem)⟩
  rw [← List.reverse_reverse cs, hreverse]
  simp

namespace Site

variable {s : Site}

/-- Behind the bracket that opens a tag there is no other one up to the end of the tag, less as many bytes
as the mark of the text has. -/
def Plain (s : Site) : Prop := ∃ searched tail, s.inside ++ ['>'] = searched ++ tail ∧
  byteLength tail = byteLength (orderMark s.whole) ∧ '<' ∉ searched

/-- The position that is worked out for a tag is that of its bracket exactly if the tag is plain. -/
theorem tagPosition_iff {p : Position} (h : tagPosition s.whole s.stop = .ok p) :
    p = positionAfter s.before ↔ s.Plain := by
  have hbefore : s.before <+: s.whole := (List.prefix_append _ _).trans s.through_prefix
  unfold tagPosition at h
  split at h
  · next front hfront =>
    cases h
    obtain ⟨hstarts, -⟩ := takeBytes?_eq_some_iff.mp hfront
    obtain ⟨tail, hthrough, htail⟩ := takeBytes?_stop.mp hfront
    constructor
    · intro h
      have hfound : beforeLastBracket front = s.before :=
        positionAfter_inj ((beforeLastBracket_front front).trans hstarts) hbefore h
      by_cases hbracket : '<' ∈ front
      · obtain ⟨before, searched, rfl, hfree⟩ := exists_last_bracket hbracket
        rw [beforeLastBracket_append hfree] at hfound
        rw [through, tag, hfound, List.append_assoc] at hthrough
        exact ⟨searched, tail, (List.cons.inj (List.append_cancel_left hthrough)).2, htail, hfree⟩
      · -- the search fails only in front of the first tag, and there is no mark then
        rw [beforeLastBracket_of_free hbracket] at hfound
        have hmark : orderMark s.whole = [] :=
          List.prefix_nil.mp (hfound ▸ s.orderMark_prefix)
        rw [hmark] at htail
        rw [eq_nil_of_byteLength htail, List.append_nil] at hthrough
        exact absurd (hthrough ▸ List.mem_append_right _ List.mem_cons_self) hbracket
    · rintro ⟨searched, rest, hinside, hrest, hfree⟩
      -- the slice ends in the part that is searched, and the bracket is the last one in it
      have hsplit : s.through = (s.before ++ '<' :: searched) ++ rest := by
        rw [through, tag, hinside, List.append_assoc]
        rfl
      have hcut := takeBytes?_stop.mpr ⟨rest, hsplit, hrest⟩
      rw [Option.some.inj (hfront.symm.trans hcut), beforeLastBracket_append hfree]
  · cases h

end Site

/-- What the tag of an element says of it: all but its content. -/
structure Head where
  name : String
  attributes : List (String × String)
  position : Position

def Element.head (e : Element) : Head := ⟨e.name, e.attributes, e.position⟩

mutual

/-- The heads of an element and of all elements in it, in document order. -/
def Element.heads : Element → List Head
  | ⟨name, attributes, _, children, position⟩ => ⟨name, attributes, position⟩ :: headsOf children

def headsOf : List Element → List Head
  | [] => []
  | e :: rest => e.heads ++ headsOf rest

end

theorem headsOf_append (es others : List Element) :
    headsOf (es ++ others) = headsOf es ++ headsOf others := by
  induction es with
  | nil => rfl
  | cons e es ih => rw [List.cons_append, headsOf, headsOf, ih, List.append_assoc]

theorem Element.heads_eq (e : Element) : e.heads = e.head :: headsOf e.children := by
  cases e
  rfl

theorem Element.heads_addText (e : Element) (text : String) : (e.addText text).heads = e.heads := by
  rw [heads_eq, heads_eq]
  rfl

theorem Element.heads_addChild (e child : Element) :
    (e.addChild child).heads = e.heads ++ child.heads := by
  rw [heads_eq, heads_eq e, List.cons_append, ← List.append_nil child.heads]
  exact congrArg (e.head :: ·) (headsOf_append e.children [child])

namespace Building

/-- The heads of all elements read so far, in document order. -/
def heads (b : Building) : List Head := headsOf (b.root.toList ++ b.opened.reverse)

theorem heads_push (b : Building) (element : Element) :
    heads ⟨element :: b.opened, b.root⟩ = b.heads ++ element.heads := by
  rw [heads, heads, List.reverse_cons, ← List.append_assoc, headsOf_append, headsOf, headsOf,
    List.append_nil]

/-- A complete element comes behind all that was read before. -/
theorem heads_attach (h : b.attach element = .ok b') : b'.heads = b.heads ++ element.heads := by
  obtain ⟨opened, root⟩ := b
  unfold attach at h
  cases opened with
  | cons parent others =>
    cases h
    -- the innermost open element is the last one so far, and its last child comes behind all others
    have hpush (e : Element) := heads_push ⟨others, root⟩ e
    rw [hpush (parent.addChild element), hpush parent, Element.heads_addChild, List.append_assoc]
  | nil =>
    cases root with
    | none =>
      cases h
      exact List.append_nil _
    | some root => cases h

theorem heads_addText {text : Except Fault String} (h : b.addText text = .ok b') :
    b'.heads = b.heads := by
  obtain ⟨opened, root⟩ := b
  unfold addText at h
  cases opened with
  | nil =>
    cases h
    rfl
  | cons top others =>
    cases text with
    | error fault => cases h
    | ok text =>
      cases h
      have hpush (e : Element) := heads_push ⟨others, root⟩ e
      rw [hpush (top.addText text), hpush top, Element.heads_addText]

theorem heads_finish {root : Element} (h : b.finish = .ok root) : b.heads = root.heads := by
  obtain ⟨opened, root'⟩ := b
  unfold finish at h
  cases opened with
  | cons top others => cases h
  | nil =>
    cases root' with
    | none => cases h
    | some found =>
      cases h
      exact List.append_nil _

end Building

/-- The head of the element that a tag opens. -/
def Event.Opens (source : List Char) (event : Event) (head : Head) : Prop :=
  ∃ body closed stop, event = .tag body closed stop ∧ head.name = String.ofList (tagName body) ∧
    tagAttributes body = .ok head.attributes ∧ tagPosition source stop = .ok head.position

theorem Element.ofTag_eq_ok {body : List Char} {stop : Nat}
    (h : Element.ofTag source body stop = .ok element) (closed : Bool) :
    Event.Opens source (.tag body closed stop) element.head ∧ element.heads = [element.head] := by
  obtain ⟨position, hposition, h⟩ := bind_eq_ok_iff.mp h
  obtain ⟨attributes, hattributes, h⟩ := bind_eq_ok_iff.mp h
  cases h
  exact ⟨⟨body, closed, stop, rfl, rfl, hattributes, hposition⟩, rfl⟩

/-- A step of building adds the head of a tag, and nothing for another event. -/
theorem Building.heads_step (h : b.step source event = .ok b') :
    (event.isTag = true ∧ ∃ head, Event.Opens source event head ∧ b'.heads = b.heads ++ [head]) ∨
      (event.isTag = false ∧ b'.heads = b.heads) := by
  cases event with
  | tag body closed stop =>
    refine .inl ⟨rfl, ?_⟩
    unfold step at h
    dsimp only at h
    split at h
    · cases h
    · next element helement =>
      obtain ⟨hopens, hheads⟩ := Element.ofTag_eq_ok helement closed
      refine ⟨element.head, hopens, ?_⟩
      rw [← hheads]
      split at h
      · exact heads_attach h
      · cases h
        exact b.heads_push element
  | close =>
    -- the element that is closed was the last one of the open ones, and becomes a last child
    refine .inr ⟨rfl, ?_⟩
    obtain ⟨opened, root⟩ := b
    cases opened with
    | nil => cases h
    | cons top others => exact (heads_attach h).trans (heads_push ⟨others, root⟩ top).symm
  | text raw => exact .inr ⟨rfl, heads_addText h⟩
  | verbatim raw =>
    have hadd : b.addText (.ok (String.ofList raw)) = .ok b' := h
    exact .inr ⟨rfl, heads_addText hadd⟩
  | aside =>
    cases h
    exact .inr ⟨rfl, rfl⟩

theorem Building.heads_foldlM {events : List Event}
    (h : events.foldlM (Building.step source) b = .ok b') : ∃ heads, b'.heads = b.heads ++ heads ∧
      List.Forall₂ (Event.Opens source) (events.filter Event.isTag) heads := by
  induction events generalizing b with
  | nil =>
    cases h
    exact ⟨[], (List.append_nil _).symm, .nil⟩
  | cons event events ih =>
    rw [List.foldlM_cons] at h
    obtain ⟨b₁, hstep, h⟩ := bind_eq_ok_iff.mp h
    obtain ⟨heads, hheads, hopens⟩ := ih h
    rcases heads_step hstep with ⟨htag, head, hopen, hfirst⟩ | ⟨htag, hsame⟩
    · refine ⟨head :: heads, ?_, ?_⟩
      · rw [hheads, hfirst, List.append_assoc]
        rfl
      · rw [List.filter_cons_of_pos htag]
        exact .cons hopen hopens
    · refine ⟨heads, by rw [hheads, hsame], ?_⟩
      rwa [List.filter_cons_of_neg (by simp [htag])]

/-- In document order, the elements of a tree are those that the tags of the document open. -/
theorem Element.opens_of_ofText {source : String} {root : Element}
    (h : Element.ofText source = .ok root) : List.Forall₂ (Event.Opens source.toList)
      ((Event.ofText source).1.filter Event.isTag) root.heads := by
  obtain ⟨b, hbuilt, h⟩ := bind_eq_ok_iff.mp h
  obtain ⟨heads, hheads, hopens⟩ := Building.heads_foldlM hbuilt
  split at h
  · cases h
  · rw [Building.heads_finish h] at hheads
    rwa [hheads]

/-- An element has the name and the attributes of its tag, and its place is that of the tag's bracket
exactly if the tag is plain. -/
structure Site.Opens (s : Site) (head : Head) : Prop where
  name : head.name = String.ofList (tagName s.body)
  attributes : tagAttributes s.body = .ok head.attributes
  position : head.position = positionAfter s.before ↔ s.Plain

theorem Site.opens_of_event {s : Site} {head : Head} (h : Event.Opens s.whole s.event head) :
    s.Opens head := by
  obtain ⟨body, closed, stop, hevent, hname, hattributes, hposition⟩ := h
  cases hevent
  exact ⟨hname, hattributes, tagPosition_iff hposition⟩

/-- In document order the elements of a tree belong to the tags of the document one by one, and have their
place where the tag stands, as far as the tag is plain. -/
theorem Element.placed_iff {source : String} {root : Element} (h : Element.ofText source = .ok root) :
    ∃ sites, Sited source.toList (Event.ofText source).1 sites ∧
      List.Forall₂ Site.Opens sites root.heads := by
  obtain ⟨sites, hsited⟩ := Event.sited_ofText source
  refine ⟨sites, hsited, ?_⟩
  have hopens := opens_of_ofText h
  rw [hsited.tags, List.forall₂_map_left_iff] at hopens
  have hboth := (List.forall₂_and_left sites root.heads).mpr ⟨hsited.whole, hopens⟩
  apply hboth.imp
  intro site head hsite
  exact Site.opens_of_event (hsite.1.symm ▸ hsite.2)

/-- Tags in a comment and in verbatim text are none, and brackets there move nothing. -/
theorem Element.placed_beside_comment :
    let source := "<?xml version=\"1.0\"?>\n<!--<T>-->\n<a b=\"1\"><![CDATA[<T>]]>\n <c/></a>"
    ∃ root, Element.ofText source = .ok root ∧
      (∃ sites, Sited source.toList (Event.ofText source).1 sites ∧
        List.Forall₂ Site.Opens sites root.heads) ∧
      root.heads.map Head.position = [⟨3, 1⟩, ⟨4, 2⟩] := by
  intro source
  have hread : (Element.ofText source).toOption.map (fun root => root.heads.map Head.position) =
      some [⟨3, 1⟩, ⟨4, 2⟩] := by
    decide +kernel
  obtain ⟨root, hroot, hpositions⟩ := exists_of_toOption hread
  exact ⟨root, hroot, Element.placed_iff hroot, hpositions⟩

/-- A bracket in an attribute value is taken for the one that opens the tag. -/
theorem Element.misplaced_by_value :
    let source := "<a b=\"<\"/>"
    ∃ root, Element.ofText source = .ok root ∧
      Sited source.toList (Event.ofText source).1 [⟨[], "a b=\"<\"".toList, true, []⟩] ∧
      root.heads.map Head.position = [⟨1, 7⟩] ∧ positionAfter [] = ⟨1, 1⟩ := by
  intro source
  have hread : (Element.ofText source).toOption.map (fun root => root.heads.map Head.position) =
      some [⟨1, 7⟩] := by
    decide +kernel
  have hsited : Sited source.toList (Event.ofText source).1 [⟨[], "a b=\"<\"".toList, true, []⟩] := by
    refine ⟨by decide +kernel, ?_, List.pairwise_singleton _ _⟩
    intro site hsite
    rw [List.mem_singleton.mp hsite]
    decide +kernel
  obtain ⟨root, hroot, hpositions⟩ := exists_of_toOption hread
  exact ⟨root, hroot, hsited, hpositions, rfl⟩

end Stencil.Markup
