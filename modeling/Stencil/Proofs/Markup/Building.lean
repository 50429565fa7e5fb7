import Stencil.Proofs.Markup.Boundary
import Stencil.Proofs.Markup.Outline

namespace Stencil.Markup

variable {source : List Char} {events rest : List Event} {event : Event} {b b' : Building} {e : Element}
  {others : List Element} {root : Option Element}

namespace Building

variable {top : Element} {body : List Char} {closed : Bool} {stop : Nat} {Q : Building → Prop}

/-- A failure that is not one over the nesting. -/
def Unread (failure : Failure) : Prop := ∃ fault, failure = .markup fault

theorem ends_loose (h : event.isLoose = true) : Ends (step source ⟨top :: others, root⟩ event)
    (fun b => ∃ text, event.content = .ok text ∧ b = ⟨top.fill text [] :: others, root⟩) Unread := by
  cases event with
  | tag body closed stop => cases h
  | close => cases h
  | text raw =>
    unfold step addText Event.content
    dsimp only
    split
    · next text htext => exact ⟨text, htext, by rw [Element.addText_eq_fill]⟩
    · next fault _ => exact ⟨fault, rfl⟩
  | verbatim raw => exact ⟨String.ofList raw, rfl, by rw [← Element.addText_eq_fill]⟩
  | aside => exact ⟨"", rfl, by rw [Element.fill_nothing]⟩

/-- A tag whose element can be read adds the element as its kind asks for. -/
theorem ends_tag (h : ∀ e, Element.ofTag source body stop = .ok e →
      Ends ((if closed then b.attach e else .ok { b with opened := e :: b.opened }) >>= fun b =>
        rest.foldlM (step source) b) Q Unread) :
    Ends ((.tag body closed stop :: rest).foldlM (step source) b) Q Unread := by
  rw [List.foldlM_cons, step]
  split
  · next fault _ => exact ⟨fault, rfl⟩
  · next e he => exact h e he

/-- Balanced events fill the innermost open element with what they say, unless one of them cannot be
read. -/
theorem ends_balanced (h : Balanced events) (level : Nat) (top : Element) (others : List Element) :
    Ends (events.foldlM (step source) ⟨top :: others, root⟩)
      (fun b => ∃ text children, Say level events text children ∧
        b = ⟨top.fill text children :: others, root⟩) Unread := by
  induction h generalizing level top others with
  | nil => exact ⟨"", [], .nil level, by rw [Element.fill_nothing]⟩
  | loose hloose _ ih =>
    rw [List.foldlM_cons]
    apply (ends_loose hloose).bind
    intro b hb
    obtain ⟨text, htext, rfl⟩ := hb
    apply (ih level (top.fill text []) others).mono
    intro b hb
    obtain ⟨more, children, hsay, rfl⟩ := hb
    refine ⟨text ++ more, children, hsay.loose hloose htext, ?_⟩
    rw [Element.fill_fill, List.nil_append]
  | closed _ ih =>
    apply ends_tag
    intro e he
    apply (ih level (top.addChild e) others).mono
    intro b hb
    obtain ⟨more, siblings, hsay, rfl⟩ := hb
    refine ⟨more, e :: siblings, hsay.closed he, ?_⟩
    rw [Element.addChild_eq_fill, Element.fill_fill, String.empty_append, List.singleton_append]
  | @element body stop inner rest hinner _ ihinner ihrest =>
    apply ends_tag
    intro e he
    change Ends ((inner ++ .close :: rest).foldlM (step source) ⟨e :: top :: others, root⟩) _ _
    rw [List.foldlM_append]
    -- the new element is on top of the stack now, and what is in it stands one level higher
    apply (ihinner (level + 1) e (top :: others)).bind
    intro b hb
    obtain ⟨text, children, hsay, rfl⟩ := hb
    -- its end tag takes it off the stack and makes it a child of the element that was there before
    apply (ihrest level (top.addChild (e.fill text children)) others).mono
    intro b hb
    obtain ⟨more, siblings, hrest, rfl⟩ := hb
    refine ⟨more, e.fill text children :: siblings, .element he hinner hsay hrest, ?_⟩
    rw [Element.addChild_eq_fill, Element.fill_fill, String.empty_append, List.singleton_append]

/-- Outside of all elements, what neither opens nor closes one changes nothing. -/
theorem foldlM_loose (h : ∀ event ∈ events, event.isLoose = true) (rest : List Event) :
    (events ++ rest).foldlM (step source) ⟨[], root⟩ = rest.foldlM (step source) ⟨[], root⟩ := by
  induction events with
  | nil => rfl
  | cons event events ih =>
    obtain ⟨hevent, hevents⟩ := List.forall_mem_cons.mp h
    have hstep : step source ⟨[], root⟩ event = .ok ⟨[], root⟩ := by
      cases event with
      | tag body closed stop => cases hevent
      | close => cases hevent
      | _ => rfl
    rw [List.cons_append, List.foldlM_cons, hstep]
    exact ih hevents

/-- A single element becomes the root, and all its elements are as its events describe them. -/
theorem ends_single (h : Single events) : Ends (events.foldlM (step source) ⟨[], none⟩)
    (fun b => ∃ root, b = ⟨[], some root⟩ ∧
      described (leveled 0 events) = (root.outline 0).map .ok) Unread := by
  obtain ⟨front, element, back, rfl, hfront, helement, hback⟩ := h
  have hnone : described (leveled 0 back) = (outlineOf 0 []).map .ok := by
    have hloose := described_loose_append hback 0 []
    rwa [List.append_nil] at hloose
  rw [foldlM_loose hfront, described_loose_append hfront]
  have houtside (e : Element) : back.foldlM (step source) ⟨[], some e⟩ = .ok ⟨[], some e⟩ := by
    have hloose := @foldlM_loose source back (some e) hback []
    rwa [List.append_nil] at hloose
  have houtline (e : Element) : e.outline 0 = outlineOf 0 [e] := (List.append_nil _).symm
  cases helement with
  | closed body stop =>
    apply ends_tag
    intro e he
    change Ends (back.foldlM (step source) ⟨[], some e⟩) _ _
    rw [houtside]
    refine ⟨e, rfl, ?_⟩
    rw [houtline]
    exact described_closed he hnone
  | @element body stop inner hinner =>
    rw [List.cons_append, List.append_assoc]
    apply ends_tag
    intro e he
    change Ends ((inner ++ .close :: back).foldlM (step source) ⟨[e], none⟩) _ _
    rw [List.foldlM_append]
    apply (ends_balanced hinner 1 e []).bind
    intro b hb
    obtain ⟨text, children, hsay, rfl⟩ := hb
    -- with the last element closed nothing is open, and the element is the root
    change Ends (back.foldlM (step source) ⟨[], some (e.fill text children)⟩) _ _
    rw [houtside]
    refine ⟨e.fill text children, rfl, ?_⟩
    rw [houtline]
    exact described_element he hinner hsay hnone

theorem length_attach (h : b.attach e = .ok b') : b'.opened.length = b.opened.length := by
  obtain ⟨opened, root⟩ := b
  cases opened with
  | cons parent others =>
    cases h
    rfl
  | nil =>
    cases root with
    | none =>
      cases h
      rfl
    | some root => cases h

theorem step_tag (h : b.step source (.tag body closed stop) = .ok b') : ∃ e,
    Element.ofTag source body stop = .ok e ∧
      (if closed then b.attach e else .ok { b with opened := e :: b.opened }) = .ok b' := by
  unfold step at h
  dsimp only at h
  split at h
  · cases h
  · next e he => exact ⟨e, he, h⟩

/-- A step that goes through moves the level as its event does, and has read the text of the event if that
is in an element. -/
theorem level_step (h : b.step source event = .ok b') :
    b'.opened.length = levelAfter b.opened.length event ∧
      (0 < b.opened.length → event.content.isOk = true) := by
  obtain ⟨opened, root⟩ := b
  cases event with
  | tag body closed stop =>
    obtain ⟨e, -, h⟩ := step_tag h
    refine ⟨?_, fun _ => rfl⟩
    cases closed with
    | true => exact length_attach h
    | false =>
      cases h
      rfl
  | close =>
    refine ⟨?_, fun _ => rfl⟩
    cases opened with
    | nil => cases h
    | cons top others => exact length_attach h
  -- outside of all elements a text is passed over, whether or not it can be read
  | text raw =>
    cases opened with
    | nil =>
      cases h
      exact ⟨rfl, nofun⟩
    | cons top others =>
      unfold step addText at h
      dsimp only at h
      split at h
      · next text htext =>
        cases h
        exact ⟨rfl, fun _ => congrArg Except.isOk htext⟩
      · cases h
  | verbatim raw =>
    refine ⟨?_, fun _ => rfl⟩
    cases opened <;> cases h <;> rfl
  | aside =>
    cases h
    exact ⟨rfl, fun _ => rfl⟩

theorem level_foldlM (h : events.foldlM (step source) b = .ok b') :
    b'.opened.length = events.foldl levelAfter b.opened.length ∧
      ∀ p ∈ leveled b.opened.length events, 0 < p.1 → p.2.content.isOk = true := by
  induction events generalizing b with
  | nil =>
    cases h
    exact ⟨rfl, nofun⟩
  | cons event events ih =>
    rw [List.foldlM_cons] at h
    obtain ⟨b₁, hstep, h⟩ := bind_eq_ok_iff.mp h
    obtain ⟨hlevel, hread⟩ := level_step hstep
    obtain ⟨hlevels, hreads⟩ := ih h
    rw [hlevel] at hlevels hreads
    exact ⟨hlevels, List.forall_mem_cons.mpr ⟨hread, hreads⟩⟩

/-- What is read with no element open and ends with none open either starts with the root, and there was
none before. -/
theorem exists_root (h : (.tag body closed stop :: rest).foldlM (step source) ⟨[], root⟩ = .ok b)
    (hopened : b.opened = []) : root = none ∧ ∃ element behind e, OneElement element ∧
      Event.tag body closed stop :: rest = element ++ behind ∧
      behind.foldlM (step source) ⟨[], some e⟩ = .ok b := by
  -- the root is attached when it is complete
  have hattach {e : Element} {b₁ : Building} (h : attach ⟨[], root⟩ e = .ok b₁) :
      root = none ∧ b₁ = ⟨[], some e⟩ := by
    cases root with
    | none =>
      cases h
      exact ⟨rfl, rfl⟩
    | some root => cases h
  rw [List.foldlM_cons] at h
  obtain ⟨b₁, hstep, h⟩ := bind_eq_ok_iff.mp h
  obtain ⟨e, -, hstep⟩ := step_tag hstep
  cases closed with
  | true =>
    obtain ⟨hroot, rfl⟩ := hattach hstep
    exact ⟨hroot, [.tag body true stop], rest, e, .closed body stop, rfl, h⟩
  | false =>
    cases hstep
    have hlevel := (level_foldlM h).1
    rw [hopened] at hlevel
    obtain ⟨inner, behind, rfl, hinner⟩ := exists_close rest 0 (Nat.le_of_eq hlevel.symm)
    rw [List.foldlM_append] at h
    obtain ⟨b₁, hbuilt, h⟩ := bind_eq_ok_iff.mp h
    obtain ⟨text, children, -, rfl⟩ := (ends_balanced hinner 1 e []).of_ok hbuilt
    rw [List.foldlM_cons] at h
    obtain ⟨b₂, hclose, h⟩ := bind_eq_ok_iff.mp h
    obtain ⟨hroot, rfl⟩ := hattach hclose
    exact ⟨hroot, _, behind, _, .element body stop hinner, by simp, h⟩

/-- Once there is a root, no other element follows. -/
theorem loose_of_foldlM (h : events.foldlM (step source) ⟨[], some e⟩ = .ok b)
    (hopened : b.opened = []) : ∀ event ∈ events, event.isLoose = true := by
  induction events with
  | nil => nofun
  | cons event events ih =>
    cases event with
    | tag body closed stop => cases (exists_root h hopened).1
    | close => cases h
    | _ => exact List.forall_mem_cons.mpr ⟨rfl, ih h⟩

theorem single_of_foldlM (h : events.foldlM (step source) ⟨[], none⟩ = .ok b)
    (hopened : b.opened = []) (hroot : b.root ≠ none) : Single events := by
  induction events with
  | nil =>
    cases h
    exact absurd rfl hroot
  | cons event events ih =>
    have hloose (hevent : event.isLoose = true)
        (h : events.foldlM (step source) ⟨[], none⟩ = .ok b) : Single (event :: events) := by
      obtain ⟨front, root, back, rfl, hfront, hone, hback⟩ := ih h
      exact ⟨event :: front, root, back, rfl, List.forall_mem_cons.mpr ⟨hevent, hfront⟩, hone, hback⟩
    cases event with
    | tag body closed stop =>
      obtain ⟨-, root, back, e, hone, hevents, h⟩ := exists_root h hopened
      exact ⟨[], root, back, hevents, nofun, hone, loose_of_foldlM h hopened⟩
    | close => cases h
    | _ => exact hloose rfl h

theorem nesting_of_attach {failure : Failure} (h : b.attach e = .error failure) :
    ∃ fault, failure = .template (.nesting fault) := by
  unfold attach at h
  split at h
  · cases h
  · split at h
    · cases h
    · cases h
      exact ⟨_, rfl⟩

/-- Where a step fails, it does so over the nesting, over a text in an element, or over a tag. -/
theorem fault_of_step {failure : Failure} (h : b.step source event = .error failure) :
    (∃ fault, failure = .template (.nesting fault)) ∨ ∃ fault, failure = .markup fault ∧
      (0 < b.opened.length ∧ event.content = .error fault ∨
        ∃ body closed stop, event = .tag body closed stop ∧
          Element.ofTag source body stop = .error fault) := by
  obtain ⟨opened, root⟩ := b
  cases event with
  | tag body closed stop =>
    unfold step at h
    dsimp only at h
    split at h
    · next fault hfault =>
      cases h
      exact .inr ⟨fault, rfl, .inr ⟨body, closed, stop, rfl, hfault⟩⟩
    · split at h
      · exact .inl (nesting_of_attach h)
      · cases h
  | close =>
    cases opened with
    | nil =>
      cases h
      exact .inl ⟨.strayEnd, rfl⟩
    | cons top others => exact .inl (nesting_of_attach h)
  | text raw =>
    cases opened with
    | nil => cases h
    | cons top others =>
      unfold step addText at h
      dsimp only at h
      split at h
      · cases h
      · next fault hfault =>
        cases h
        exact .inr ⟨fault, rfl, .inl ⟨Nat.succ_pos _, hfault⟩⟩
  | verbatim raw => cases opened <;> cases h
  | aside => cases h

end Building

theorem Event.badReference_of_content {fault : Fault} (h : event.content = .error fault) :
    ∃ reference, fault = .badReference reference := by
  cases event with
  | text raw =>
    unfold content at h
    dsimp only at h
    cases hraw : unescape raw with
    | error reference =>
      rw [hraw] at h
      cases h
      exact ⟨reference, rfl⟩
    | ok text =>
      rw [hraw] at h
      cases h
  | _ => cases h

/-- If the attributes of a tag can be read, its element cannot be only where the tag cannot be cut. -/
theorem Element.splitCharacter_of_ofTag {body : List Char} {stop : Nat} {fault : Fault}
    (hattributes : (tagAttributes body).isOk = true)
    (h : Element.ofTag source body stop = .error fault) : fault = .splitCharacter stop := by
  unfold ofTag at h
  cases hposition : tagPosition source stop with
  | error other =>
    rw [hposition] at h
    cases h
    unfold tagPosition at hposition
    split at hposition
    · cases hposition
    · cases hposition
      rfl
  | ok position =>
    rw [hposition] at h
    cases hread : tagAttributes body with
    | error other =>
      rw [hread] at hattributes
      cases hattributes
    | ok attributes =>
      rw [hread] at h
      cases h

/-- Reading ends as the events say: with a tree if the tags form one single element and the texts in it can
be read, with a failure over the nesting if they do not, and with one over a reference if a text in the
single element cannot be read. -/
structure Builds (events : List Event) (result : Except Failure Element) : Prop where
  single : (∃ root, result = .ok root) ↔ Single events ∧ TextsReadable events
  outline (root : Element) : result = .ok root →
    described (leveled 0 events) = (root.outline 0).map .ok
  nesting : TextsReadable events → ¬ Single events →
    ∃ fault, result = .error (.template (.nesting fault))
  reference : Single events → ¬ TextsReadable events →
    ∃ fault, result = .error (.markup (.badReference fault))

namespace Builds

variable {result : Except Failure Element}

theorem of_ok {e : Element} (hsingle : Single events) (hreadable : TextsReadable events)
    (houtline : described (leveled 0 events) = (e.outline 0).map .ok) : Builds events (.ok e) := by
  refine ⟨⟨fun _ => ⟨hsingle, hreadable⟩, fun _ => ⟨e, rfl⟩⟩, fun root hroot => ?_,
    fun _ hnone => absurd hsingle hnone, fun _ hunread => absurd hreadable hunread⟩
  cases hroot
  exact houtline

theorem of_nesting {fault : NestingFault} (hsingle : ¬ Single events) :
    Builds events (.error (.template (.nesting fault))) :=
  ⟨⟨nofun, fun h => absurd h.1 hsingle⟩, nofun, fun _ _ => ⟨fault, rfl⟩, fun h => absurd h hsingle⟩

theorem of_reference {fault : ReferenceFault} (hreadable : ¬ TextsReadable events) :
    Builds events (.error (.markup (.badReference fault))) :=
  ⟨⟨nofun, fun h => absurd h.2 hreadable⟩, nofun, fun h => absurd h hreadable, fun _ _ => ⟨fault, rfl⟩⟩

end Builds

/-- What is built of events that go through. -/
theorem Building.builds_finish (h : events.foldlM (step source) ⟨[], none⟩ = .ok b) :
    Builds events b.finish := by
  have hreadable : TextsReadable events := (level_foldlM h).2
  have hends (hsingle : Single events) := (ends_single hsingle).of_ok h
  obtain ⟨opened, root⟩ := b
  cases opened with
  | cons top others =>
    refine Builds.of_nesting fun hsingle => ?_
    obtain ⟨e, hb, -⟩ := hends hsingle
    cases hb
  | nil =>
    cases root with
    | none =>
      refine Builds.of_nesting fun hsingle => ?_
      obtain ⟨e, hb, -⟩ := hends hsingle
      cases hb
    | some root =>
      have hsingle : Single events := single_of_foldlM h rfl nofun
      obtain ⟨e, hb, houtline⟩ := hends hsingle
      cases hb
      exact Builds.of_ok hsingle hreadable houtline

/-- The tree of a document is what its events describe, if they are delivered without a fault, the
attributes of the tags can be read, and reading does not end inside a character. -/
theorem Element.built_as_described {source : String} (hdelivered : (Event.ofText source).2 = none)
    (hattributes : ∀ event ∈ (Event.ofText source).1, event.attributes.isOk = true)
    (hcut : ∀ offset, Element.ofText source ≠ .error (.markup (.splitCharacter offset))) :
    Builds (Event.ofText source).1 (Element.ofText source) := by
  have hresult : Element.ofText source =
      (Event.ofText source).1.foldlM (Building.step source.toList) ⟨[], none⟩ >>= Building.finish := by
    unfold ofText ofEvents
    dsimp only
    rw [hdelivered]
  cases hbuilt : (Event.ofText source).1.foldlM (Building.step source.toList) ⟨[], none⟩ with
  | ok b =>
    rw [hresult, hbuilt]
    exact Building.builds_finish hbuilt
  | error failure =>
    rw [hbuilt] at hresult
    rw [hresult] at hcut ⊢
    obtain ⟨front, event, back, b, hevents, hfront, hstep⟩ := foldlM_eq_error_iff.mp hbuilt
    rcases Building.fault_of_step hstep with
      ⟨fault, rfl⟩ | ⟨fault, rfl, ⟨hlevel, hcontent⟩ | ⟨body, closed, stop, rfl, hfault⟩⟩
    · refine Builds.of_nesting fun hsingle => ?_
      obtain ⟨other, hother⟩ := (Building.ends_single hsingle).of_error hbuilt
      cases hother
    · obtain ⟨reference, rfl⟩ := Event.badReference_of_content hcontent
      refine Builds.of_reference fun hreadable => ?_
      -- the text stands in an element: as many are open as the level of its event says
      have hmem : (b.opened.length, event) ∈ leveled 0 (Event.ofText source).1 := by
        have hopen := (Building.level_foldlM hfront).1
        rw [List.length_nil] at hopen
        rw [hevents, leveled_append, ← hopen]
        exact List.mem_append_right _ List.mem_cons_self
      have hread := hreadable _ hmem hlevel
      rw [hcontent] at hread
      cases hread
    · have hread := hattributes _ (hevents ▸ List.mem_append_cons_self)
      rw [Element.splitCharacter_of_ofTag hread hfault] at hcut
      exact absurd rfl (hcut stop)

/-- Texts of both kinds on two levels, and behind the root a text that cannot be read. -/
theorem Element.built_with_texts :
    let source := "<?xml version=\"1.0\"?>\n<a k=\"1 &lt; 2\">x &amp; <b>y<![CDATA[<z>&]]></b>w<!-- v -->" ++
      "<c/>\n</a>&u;"
    let nodes : List Node :=
      [⟨"a", [("k", "1 < 2")], 0, "x & w\n"⟩, ⟨"b", [], 1, "y<z>&"⟩, ⟨"c", [], 1, ""⟩]
    ∃ root, Element.ofText source = .ok root ∧ root.outline 0 = nodes ∧
      described (leveled 0 (Event.ofText source).1) = nodes.map .ok := by
  intro source nodes
  have hread : (Element.ofText source).toOption.map (Element.outline 0) = some nodes := by
    decide +kernel
  obtain ⟨root, hroot, houtline⟩ := exists_of_toOption hread
  have hcut : ∀ offset, Element.ofText source ≠ .error (.markup (.splitCharacter offset)) := by
    rw [hroot]
    nofun
  have hbuilds := @Element.built_as_described source (by decide +kernel) (by decide +kernel) hcut
  exact ⟨root, hroot, houtline, houtline ▸ hbuilds.outline root hroot⟩

/-- One single element is no tree if a text in it cannot be read. -/
theorem Element.unbuilt_by_reference :
    let source := "<a>&b;</a>"
    (Event.ofText source).2 = none ∧
      (∀ event ∈ (Event.ofText source).1, event.attributes.isOk = true) ∧
      Single (Event.ofText source).1 ∧
      Element.ofText source = .error (.markup (.badReference (.unknownEntity 1 2 "b"))) := by
  intro source
  have hevents : Event.ofText source = ([.tag ['a'] false 3, .text "&b;".toList, .close], none) := by
    decide +kernel
  have hsingle : Single [.tag ['a'] false 3, .text "&b;".toList, .close] :=
    ⟨[], _, [], rfl, nofun, .element ['a'] 3 (.loose rfl .nil), nofun⟩
  rw [hevents]
  refine ⟨rfl, by decide +kernel, hsingle, ?_⟩
  apply eq_error_of_failureOf?
  decide +kernel

end Stencil.Markup
