import Stencil.Proofs.Markup.Site

/-! Whether a document can be cut where its tags end. The place of an element is read off a slice of the
document up to the end of its tag, as the reader counts bytes. Without a byte order mark in front the
slice always ends between two characters; behind a mark it ends as many bytes short as the mark has, and
may end inside a character. Nothing else in the reading of a document cuts a text by a number of bytes. -/

namespace Stencil

variable {ε α β : Type}

/-- A fold that fails does so at one element, and goes through what stands before that. -/
theorem foldlM_eq_error_iff {f : β → α → Except ε β} {l : List α} {b : β} {fault : ε} :
    l.foldlM f b = .error fault ↔ ∃ front x back b', l = front ++ x :: back ∧
      front.foldlM f b = .ok b' ∧ f b' x = .error fault := by
  constructor
  · intro h
    induction l generalizing b with
    | nil => cases h
    | cons x l ih =>
      rw [List.foldlM_cons] at h
      cases hx : f b x with
      | error other =>
        rw [hx] at h
        cases h
        exact ⟨[], x, l, b, rfl, rfl, hx⟩
      | ok b₁ =>
        rw [hx] at h
        obtain ⟨front, y, back, b', rfl, hfront, hy⟩ := ih h
        refine ⟨x :: front, y, back, b', rfl, ?_, hy⟩
        rw [List.foldlM_cons, hx]
        exact hfront
  · rintro ⟨front, x, back, b', rfl, hfront, hx⟩
    rw [List.foldlM_append, hfront]
    change List.foldlM f b' (x :: back) = _
    rw [List.foldlM_cons, hx]
    rfl

namespace Markup

variable {source cs front : List Char} {event : Event} {r : Reader} {b : Building} {offset : Nat}

/-- A result that is not a failure over a cut. -/
def Uncut {α : Type} (x : Except Fault α) : Prop := ∀ offset, x ≠ .error (.splitCharacter offset)

namespace Uncut

variable {α β : Type}

theorem bind {x : Except Fault α} {f : α → Except Fault β} (hx : Uncut x) (hf : ∀ a, Uncut (f a)) :
    Uncut (x >>= f) := by
  intro offset
  cases x with
  | error fault => exact fun h => hx offset (congrArg Except.error (Except.error.inj h))
  | ok a => exact hf a offset

theorem map {x : Except Fault α} (hx : Uncut x) (f : α → β) : Uncut (x.map f) := by
  intro offset
  cases x with
  | error fault => exact fun h => hx offset (congrArg Except.error (Except.error.inj h))
  | ok a => exact nofun

theorem readAttributes (seen : List (List Char × Nat)) (position : Nat) (cs : List Char) :
    Uncut (readAttributes seen position cs) := by
  fun_induction Markup.readAttributes seen position cs with
  | case6 =>
    -- the fault of the attributes that follow
    rename_i hothers ih
    rwa [hothers] at ih
  | _ => exact nofun

theorem cutDeclaration (mark : Option Char) (cs : List Char) : Uncut (cutDeclaration mark cs) := by
  unfold Markup.cutDeclaration
  dsimp only
  split
  case h_5 => exact nofun
  all_goals split <;> exact nofun

theorem declarationEvent (construct : Construct) (body : List Char) :
    Uncut (declarationEvent construct body) := by
  unfold Markup.declarationEvent
  split
  · split <;> exact nofun
  · split <;> exact nofun
  · split
    · split <;> exact nofun
    · exact nofun

theorem closeEvent (opened : List (List Char)) (body : List Char) : Uncut (closeEvent opened body) := by
  unfold Markup.closeEvent
  dsimp only
  split
  · exact nofun
  · split <;> exact nofun

theorem markup (r : Reader) (cs : List Char) : Uncut (r.markup cs) := by
  unfold Reader.markup
  dsimp only
  split
  · exact nofun
  · apply (cutDeclaration _ _).bind
    intro cut
    exact (declarationEvent _ _).bind fun event => nofun
  · split
    · exact nofun
    · exact (closeEvent _ _).bind fun opened => nofun
  · split
    · exact nofun
    · split <;> exact nofun
  · split <;> exact nofun

theorem next? (r : Reader) : Uncut r.next? := by
  unfold Reader.next?
  split
  · exact nofun
  · exact (markup _ _).map some
  · exact nofun

end Uncut

/-- A reader does not fail over a cut: it goes from character to character. -/
theorem Reader.events_ne_split (r : Reader) (offset : Nat) :
    r.events.2 ≠ some (.splitCharacter offset) := by
  fun_induction Reader.events r with
  | case1 r fault h =>
    intro hfault
    exact Uncut.next? r offset (h.trans (congrArg Except.error (Option.some.inj hfault)))
  | case2 r h =>
    intro hnone
    cases hnone
  | case3 r event after h hless others fault hothers ih => rwa [hothers] at ih

theorem Building.attach_ne_markup {element : Element} {fault : Fault} :
    b.attach element ≠ .error (.markup fault) := by
  unfold attach
  split
  · simp
  · split <;> simp

theorem Building.finish_ne_markup {fault : Fault} : b.finish ≠ .error (.markup fault) := by
  unfold finish
  split
  · exact nofun
  · split <;> exact nofun

theorem tagPosition_eq_split_iff (source : List Char) (stop offset : Nat) :
    tagPosition source stop = .error (.splitCharacter offset) ↔
      stop = offset ∧ takeBytes? source offset = none := by
  unfold tagPosition
  split
  · next hcut =>
    constructor
    · nofun
    · rintro ⟨rfl, hnone⟩
      cases hcut.symm.trans hnone
  · next hnone =>
    constructor
    · intro h
      cases h
      exact ⟨rfl, hnone⟩
    · rintro ⟨rfl, -⟩
      rfl

theorem Element.ofTag_eq_split_iff (source body : List Char) (stop offset : Nat) :
    Element.ofTag source body stop = .error (.splitCharacter offset) ↔
      stop = offset ∧ takeBytes? source offset = none := by
  rw [← tagPosition_eq_split_iff]
  unfold ofTag
  cases hposition : tagPosition source stop with
  | error fault => exact ⟨fun h => congrArg Except.error (Except.error.inj h), fun h => by cases h; rfl⟩
  | ok position =>
    have hrest : Uncut (tagAttributes body >>= fun attributes => .ok
        (Element.mk (String.ofList (tagName body)) attributes "" [] position)) :=
      Uncut.bind (Uncut.readAttributes _ _ _) fun attributes => nofun
    exact ⟨fun h => absurd h (hrest offset), nofun⟩

/-- A step of building fails over a cut exactly at a tag that does not end between characters. -/
theorem Building.step_eq_split_iff : b.step source event = .error (.markup (.splitCharacter offset)) ↔
    ∃ body closed, event = .tag body closed offset ∧ takeBytes? source offset = none := by
  cases event with
  | tag body closed stop =>
    have htag := Element.ofTag_eq_split_iff source body stop offset
    unfold step
    dsimp only
    split
    · next fault hfault =>
      rw [hfault] at htag
      constructor
      · intro h
        cases h
        obtain ⟨rfl, hnone⟩ := htag.mp rfl
        exact ⟨body, closed, rfl, hnone⟩
      · rintro ⟨_, _, hevent, hnone⟩
        cases hevent
        cases htag.mpr ⟨rfl, hnone⟩
        rfl
    · next element helement =>
      rw [helement] at htag
      constructor
      · intro h
        split at h
        · exact absurd h attach_ne_markup
        · cases h
      · rintro ⟨_, _, hevent, hnone⟩
        cases hevent
        cases htag.mpr ⟨rfl, hnone⟩
  -- only a tag is sliced out of the source, so the other events fail over something else
  | close =>
    refine ⟨fun h => ?_, nofun⟩
    unfold step at h
    dsimp only at h
    split at h
    · cases h
    · exact absurd h attach_ne_markup
  | text raw =>
    refine ⟨fun h => ?_, nofun⟩
    unfold step addText at h
    dsimp only at h
    split at h
    · cases h
    · split at h
      · cases h
      · next hfault =>
        cases hraw : unescape raw with
        | error reference =>
          rw [hraw] at hfault
          cases hfault
          cases h
        | ok text =>
          rw [hraw] at hfault
          cases hfault
  | verbatim raw =>
    refine ⟨fun h => ?_, nofun⟩
    unfold step addText at h
    dsimp only at h
    split at h <;> cases h
  | aside => exact ⟨nofun, nofun⟩

/-- A number of bytes from the front of a text ends between two characters, or at an end of the text. -/
def OnBoundary (cs : List Char) (count : Nat) : Prop := ∃ front, front <+: cs ∧ byteLength front = count

namespace Site

variable {s : Site}

/-- The text through a tag can be cut as many bytes before its end as the mark of the text has. With no
mark it always can: the cut is at the end. -/
def EndsWhole (s : Site) : Prop :=
  ∃ front tail, s.through = front ++ tail ∧ byteLength tail = byteLength (orderMark s.whole)

/-- The two slices that the place of a tag is read off: up to the end of the tag, and in that up to the
last bracket. -/
structure Slices (s : Site) (front : List Char) : Prop where
  cut : takeBytes? s.whole s.stop = some front
  stop : OnBoundary s.whole s.stop
  start : OnBoundary s.whole (byteLength (beforeLastBracket front))

theorem endsWhole_of_unmarked (h : orderMark s.whole = []) : s.EndsWhole :=
  ⟨s.through, [], (List.append_nil _).symm, by rw [h]⟩

theorem endsWhole_iff : s.EndsWhole ↔ ∃ front, takeBytes? s.whole s.stop = some front := by
  constructor
  · rintro ⟨front, tail, hthrough, htail⟩
    exact ⟨front, takeBytes?_stop.mpr ⟨tail, hthrough, htail⟩⟩
  · rintro ⟨front, hfront⟩
    obtain ⟨tail, hthrough, htail⟩ := takeBytes?_stop.mp hfront
    exact ⟨front, tail, hthrough, htail⟩

theorem slices_of_endsWhole (h : s.EndsWhole) : ∃ front, s.Slices front := by
  obtain ⟨front, hfront⟩ := endsWhole_iff.mp h
  obtain ⟨hstarts, hlength⟩ := takeBytes?_eq_some_iff.mp hfront
  exact ⟨front, hfront, ⟨front, hstarts, hlength⟩,
    ⟨beforeLastBracket front, (beforeLastBracket_front front).trans hstarts, rfl⟩⟩

/-- A tag of a document whose element comes to be built: nothing fails in front of it. -/
def Reached (source : String) (s : Site) : Prop := s.whole = source.toList ∧ ∃ front back b,
  (Event.ofText source).1 = front ++ s.event :: back ∧
    front.foldlM (Building.step source.toList) ⟨[], none⟩ = .ok b

end Site

/-- The reading of a document fails over a cut exactly at a tag that it reaches and that does not end
between characters. -/
theorem Element.ofText_eq_split_iff (source : String) :
    (∃ offset, Element.ofText source = .error (.markup (.splitCharacter offset))) ↔
      ∃ site : Site, site.Reached source ∧ ¬ site.EndsWhole := by
  constructor
  · rintro ⟨offset, h⟩
    unfold Element.ofText Element.ofEvents at h
    dsimp only at h
    cases hbuilt : (Event.ofText source).1.foldlM (Building.step source.toList) ⟨[], none⟩ with
    | ok b =>
      -- the events go through, and what ends them or is left open is no cut
      rw [hbuilt] at h
      have hevents : (Event.ofText source).2 ≠ some (.splitCharacter offset) :=
        Reader.events_ne_split _ offset
      simp only [bind, Except.bind] at h
      split at h
      · next fault hfault =>
        cases h
        exact absurd hfault hevents
      · exact absurd h b.finish_ne_markup
    | error failure =>
      rw [hbuilt] at h
      cases h
      obtain ⟨front, event, back, b, hevents, hfront, hstep⟩ := foldlM_eq_error_iff.mp hbuilt
      obtain ⟨body, closed, rfl, hnone⟩ := Building.step_eq_split_iff.mp hstep
      obtain ⟨sites, hsited⟩ := Event.sited_ofText source
      obtain ⟨site, hsite, hevent⟩ := hsited.site_of_mem (hevents ▸ List.mem_append_cons_self) rfl
      have hwhole := hsited.whole site hsite
      refine ⟨site, ⟨hwhole, front, back, b, hevent ▸ hevents, hfront⟩, fun hends => ?_⟩
      obtain ⟨cut, hcut⟩ := Site.endsWhole_iff.mp hends
      have hstop : site.stop = offset := (Event.tag.inj hevent).2.2
      rw [hwhole, hstop] at hcut
      cases hcut.symm.trans hnone
  · rintro ⟨site, ⟨hwhole, front, back, b, hevents, hfront⟩, hcut⟩
    refine ⟨site.stop, ?_⟩
    have hnone : takeBytes? source.toList site.stop = none := by
      rw [← hwhole]
      exact Option.eq_none_iff_forall_ne_some.mpr fun cut h => hcut (Site.endsWhole_iff.mpr ⟨cut, h⟩)
    have hstep : b.step source.toList site.event = .error (.markup (.splitCharacter site.stop)) :=
      Building.step_eq_split_iff.mpr ⟨site.body, site.closed, rfl, hnone⟩
    unfold Element.ofText Element.ofEvents
    dsimp only
    rw [foldlM_eq_error_iff.mpr ⟨front, _, back, b, hevents, hfront, hstep⟩]
    rfl

/-- A document is cut well: at each tag that is reached both slices are within the text and end between
characters, and the reading ends with a tree or with a failure of another kind. -/
structure Element.CutWell (source : String) : Prop where
  slices (site : Site) : site.Reached source → ∃ front, site.Slices front
  ends (offset : Nat) : Element.ofText source ≠ .error (.markup (.splitCharacter offset))

/-- A document without a byte order mark is always cut well; one with a mark is, exactly if each tag that
is reached can be cut as many bytes before its end as the mark has. -/
theorem Element.cutWell_iff (source : String) :
    (orderMark source.toList = [] → Element.CutWell source) ∧
      (Element.CutWell source ↔ ∀ site : Site, site.Reached source → site.EndsWhole) := by
  have hiff : Element.CutWell source ↔ ∀ site : Site, site.Reached source → site.EndsWhole := by
    constructor
    · intro hwell site hreached
      apply Classical.byContradiction
      intro hcut
      obtain ⟨offset, hfails⟩ := (Element.ofText_eq_split_iff source).mpr ⟨site, hreached, hcut⟩
      exact hwell.ends offset hfails
    · intro hends
      constructor
      · intro site hreached
        exact Site.slices_of_endsWhole (hends site hreached)
      · intro offset hfails
        obtain ⟨site, hreached, hcut⟩ := (Element.ofText_eq_split_iff source).mp ⟨offset, hfails⟩
        exact hcut (hends site hreached)
  refine ⟨fun hmark => hiff.mpr fun site hreached => ?_, hiff⟩
  exact Site.endsWhole_of_unmarked (hreached.1 ▸ hmark)

/-- Behind a mark, an attribute value that ends with a character of two bytes is cut through. -/
theorem Element.ofText_cut_through :
    Element.ofText "\uFEFF<T a=\"é\"></T>" = .error (.markup (.splitCharacter 10)) := by
  apply eq_error_of_failureOf?
  decide +kernel

end Markup

end Stencil
