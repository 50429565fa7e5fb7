import Stencil.Proofs.Markup.Reading
import Stencil.Proofs.Triple

namespace Stencil.Markup

variable {cs front : List Char}

/-- The byte order mark in front of a text, if there is one. -/
def orderMark (cs : List Char) : List Char :=
  if cs.head? = some '\uFEFF' then ['\uFEFF'] else []

theorem eq_nil_of_byteLength (h : byteLength cs = 0) : cs = [] := by
  cases cs with
  | nil => rfl
  | cons c cs =>
    have hpos := c.utf8Size_pos
    rw [byteLength_cons] at h
    omega

/-- Of two pieces at the front of a text, the one with fewer bytes is at the front of the other. -/
theorem prefix_of_byteLength_le {a b : List Char} (ha : a <+: cs) (hb : b <+: cs)
    (h : byteLength a ≤ byteLength b) : a <+: b := by
  rcases List.prefix_or_prefix_of_prefix ha hb with hshort | ⟨rest, rfl⟩
  · exact hshort
  · rw [byteLength_append] at h
    obtain rfl : rest = [] := eq_nil_of_byteLength (by omega)
    exact ⟨[], by simp⟩

/-- What is taken off a text is its front with that number of bytes. -/
theorem takeBytes?_eq_some_iff {count : Nat} :
    takeBytes? cs count = some front ↔ front <+: cs ∧ byteLength front = count := by
  constructor
  · intro h
    induction cs generalizing front count with
    | nil =>
      unfold takeBytes? at h
      split at h
      · next hzero =>
        cases h
        exact ⟨List.prefix_rfl, hzero.symm⟩
      · cases h
    | cons c cs ih =>
      unfold takeBytes? at h
      split at h
      · next hzero =>
        cases h
        exact ⟨List.nil_prefix, hzero.symm⟩
      · split at h
        · next hfits =>
          obtain ⟨more, hmore, rfl⟩ := Option.map_eq_some_iff.mp h
          obtain ⟨hstarts, hlength⟩ := ih hmore
          refine ⟨(List.prefix_cons_inj c).mpr hstarts, ?_⟩
          rw [byteLength_cons, hlength]
          omega
        · cases h
  · rintro ⟨⟨rest, rfl⟩, rfl⟩
    exact takeBytes?_append front rest

theorem beforeLastBracket_front (cs : List Char) : beforeLastBracket cs <+: cs := by
  have hsuffix : (cs.reverse.dropWhile (· != '<')).drop 1 <:+ cs.reverse :=
    (List.drop_suffix _ _).trans (List.dropWhile_suffix _)
  have hstarts := List.reverse_prefix.mpr hsuffix
  rwa [List.reverse_reverse] at hstarts

/-- A start tag or an empty-element tag in a text, with what stands before and behind it. -/
structure Site where
  before : List Char
  body : List Char
  closed : Bool
  behind : List Char

namespace Site

variable {s : Site}

/-- The text between the brackets of a tag. -/
def inside (s : Site) : List Char := if s.closed then s.body ++ ['/'] else s.body

def tag (s : Site) : List Char := '<' :: (s.inside ++ ['>'])

/-- The text up to the end of a tag. -/
def through (s : Site) : List Char := s.before ++ s.tag

/-- The text that a tag stands in. -/
def whole (s : Site) : List Char := s.through ++ s.behind

/-- The byte offset of the end of a tag in a text whose mark is not counted. -/
def stop (s : Site) : Nat := byteLength s.through - byteLength (orderMark s.whole)

def event (s : Site) : Event := .tag s.body s.closed s.stop

/-- A byte order mark stands before every tag. -/
theorem orderMark_prefix (s : Site) : orderMark s.whole <+: s.before := by
  unfold orderMark whole through tag
  cases s.before with
  | nil => exact List.nil_prefix
  | cons c before =>
    split
    · next hmark =>
      rw [Option.some.inj hmark]
      exact (List.prefix_cons_inj _).mpr List.nil_prefix
    · exact List.nil_prefix

theorem through_prefix (s : Site) : s.through <+: s.whole := List.prefix_append _ _

theorem byteLength_orderMark_le (s : Site) : byteLength (orderMark s.whole) ≤ byteLength s.through := by
  obtain ⟨rest, hrest⟩ := s.orderMark_prefix
  rw [through, ← hrest, byteLength_append, byteLength_append]
  omega

/-- The text up to where a tag's event ends is the text through the tag, less as many bytes as the mark
has. -/
theorem takeBytes?_stop : takeBytes? s.whole s.stop = some front ↔
    ∃ tail, s.through = front ++ tail ∧ byteLength tail = byteLength (orderMark s.whole) := by
  have hmark := s.byteLength_orderMark_le
  rw [takeBytes?_eq_some_iff, stop]
  constructor
  · rintro ⟨hstarts, hlength⟩
    -- both are fronts of the whole text, and what is cut off has fewer bytes
    obtain ⟨tail, htail⟩ := prefix_of_byteLength_le hstarts s.through_prefix (by omega)
    refine ⟨tail, htail.symm, ?_⟩
    rw [← htail, byteLength_append] at hlength hmark
    omega
  · rintro ⟨tail, hthrough, htail⟩
    refine ⟨(List.prefix_append front tail).trans (hthrough ▸ s.through_prefix), ?_⟩
    rw [hthrough, byteLength_append]
    omega

end Site

/-- Whether an event is a start tag or an empty-element tag. -/
def Event.isTag : Event → Bool
  | .tag _ _ _ => true
  | _ => false

variable {event : Event} {r after : Reader}

theorem upTo_eq_some {complete : List Char → Bool} {seen body rest : List Char}
    (h : upTo complete seen cs = some (body, rest)) :
    ∃ read, body = seen.reverse ++ read ∧ cs = read ++ '>' :: rest := by
  induction cs generalizing seen with
  | nil => cases h
  | cons c cs ih =>
    unfold upTo at h
    split at h
    · next hend =>
      cases h
      have hc : c = '>' := beq_iff_eq.mp (Bool.and_eq_true_iff.mp hend).1
      exact ⟨[], by simp, by rw [hc]; rfl⟩
    · obtain ⟨read, hbody, hcs⟩ := ih h
      exact ⟨c :: read, by simp [hbody], by rw [hcs]; rfl⟩

/-- What is cut up to a bracket stands in front of that bracket. -/
theorem eq_of_upTo {complete : List Char → Bool} {body rest : List Char}
    (h : upTo complete [] cs = some (body, rest)) : cs = body ++ '>' :: rest := by
  obtain ⟨read, rfl, hcs⟩ := upTo_eq_some h
  exact hcs

theorem eq_of_cutDeclaration {mark : Option Char} {body rest : List Char} {construct : Construct}
    (h : cutDeclaration mark cs = .ok (construct, body, rest)) : cs = body ++ '>' :: rest := by
  unfold cutDeclaration at h
  dsimp only at h
  split at h
  case h_5 => cases h
  -- whatever the construct is, it ends at the bracket where it is complete
  all_goals
    split at h
    · next found =>
      cases h
      exact eq_of_upTo found
    · cases h

theorem isTag_of_declarationEvent {construct : Construct} {body : List Char}
    (h : declarationEvent construct body = .ok event) : event.isTag = false := by
  unfold declarationEvent at h
  split at h
  · split at h
    · cases h; rfl
    · cases h
  · split at h
    · cases h; rfl
    · cases h
  · split at h
    · split at h
      · cases h
      · cases h; rfl
    · cases h

/-- What an event takes off the text that a reader has left: a tag takes itself, and ends where the
reader goes on. -/
structure Reader.Takes (r : Reader) (event : Event) (after : Reader) (piece : List Char) : Prop where
  rest : r.rest = piece ++ after.rest
  offset : after.offset = r.offset + byteLength piece
  tag (read : List Char) : event.isTag = true → ∃ body closed,
    event = .tag body closed after.offset ∧ piece = (Site.mk read body closed after.rest).tag

/-- Markup takes the text through the bracket that ends it. -/
theorem Reader.takes_of_markup (hrest : r.rest = '<' :: cs) (h : r.markup cs = .ok (event, after)) :
    ∃ piece, r.Takes event after piece := by
  -- in each case a body was cut up to a bracket
  have hother {body rest : List Char} {opened : List (List Char)} (hcs : cs = body ++ '>' :: rest)
      (hafter : after = ⟨rest, r.offset + 2 + byteLength body, opened⟩)
      (htag : event.isTag = true → ∃ inner closed, event = .tag inner closed after.offset ∧
        body = (Site.mk [] inner closed rest).inside) : ∃ piece, r.Takes event after piece := by
    subst hafter
    refine ⟨'<' :: (body ++ ['>']), by simp [hrest, hcs], ?_, fun read hevent => ?_⟩
    · rw [byteLength_brackets, Nat.add_assoc, Nat.add_comm 2]
    · obtain ⟨inner, closed, hevent, hbody⟩ := htag hevent
      exact ⟨inner, closed, hevent, by rw [hbody]; rfl⟩
  unfold markup at h
  dsimp only at h
  split at h
  · cases h
  · -- a comment, a verbatim text or a declaration, and none of them is a tag
    obtain ⟨⟨construct, body, rest⟩, hcut, h⟩ := bind_eq_ok_iff.mp h
    obtain ⟨found, hfound, h⟩ := bind_eq_ok_iff.mp h
    cases h
    refine hother (eq_of_cutDeclaration hcut) rfl fun htag => ?_
    cases (isTag_of_declarationEvent hfound).symm.trans htag
  · split at h
    · cases h
    · next hcut =>
      obtain ⟨opened, -, h⟩ := bind_eq_ok_iff.mp h
      cases h
      exact hother (eq_of_upTo hcut) rfl nofun
  · split at h
    · cases h
    · next hcut =>
      split at h
      · cases h
      · cases h
        exact hother (eq_of_upTo hcut) rfl nofun
  · split at h
    · cases h
    · next body rest hcut =>
      cases h
      refine hother (eq_of_upTo hcut) rfl fun _ => ?_
      unfold tagEvent
      split
      · -- the slash of an empty-element tag is not part of the body of its event
        next hclosed =>
        obtain ⟨inner, rfl⟩ := List.getLast?_eq_some_iff.mp hclosed
        exact ⟨_, true, rfl, by rw [List.dropLast_concat]; rfl⟩
      · exact ⟨body, false, rfl, rfl⟩

theorem Reader.takes_of_next (h : r.next? = .ok (some (event, after))) :
    ∃ piece, r.Takes event after piece := by
  unfold next? at h
  split at h
  · cases h
  · next cs hrest =>
    cases hmarkup : r.markup cs with
    | error fault =>
      rw [hmarkup] at h
      cases h
    | ok found =>
      rw [hmarkup] at h
      cases h
      exact takes_of_markup hrest hmarkup
  · cases h
    exact ⟨_, (List.takeWhile_append_dropWhile).symm, rfl, nofun⟩

/-- The tags among events, each at its place in a text, and one behind the other. -/
structure Sited (whole : List Char) (events : List Event) (sites : List Site) : Prop where
  tags : events.filter Event.isTag = sites.map Site.event
  whole : ∀ site ∈ sites, site.whole = whole
  apart : sites.Pairwise fun s t => s.through <+: t.before

theorem Sited.site_of_mem {whole : List Char} {events : List Event} {sites : List Site}
    (h : Sited whole events sites) (hmem : event ∈ events) (htag : event.isTag = true) :
    ∃ site ∈ sites, site.event = event := by
  have hfilter : event ∈ events.filter Event.isTag := List.mem_filter.mpr ⟨hmem, htag⟩
  rw [h.tags] at hfilter
  exact List.mem_map.mp hfilter

/-- The tags that a reader goes on to find have their places behind what was read. -/
theorem Reader.sited_events (read : List Char) (r : Reader)
    (hoffset : r.offset + byteLength (orderMark (read ++ r.rest)) = byteLength read) :
    ∃ sites, Sited (read ++ r.rest) r.events.1 sites ∧ ∀ site ∈ sites, read <+: site.before := by
  fun_induction Reader.events r generalizing read with
  | case1 r fault h => exact ⟨[], ⟨rfl, nofun, .nil⟩, nofun⟩
  | case2 r h => exact ⟨[], ⟨rfl, nofun, .nil⟩, nofun⟩
  | case3 r event after h hless others fault hothers ih =>
    -- the event moves both the offset and what was read on by the piece that it takes
    obtain ⟨piece, htakes⟩ := takes_of_next h
    have hwhole : read ++ piece ++ after.rest = read ++ r.rest := by
      rw [htakes.rest, List.append_assoc]
    have hnext : after.offset + byteLength (orderMark (read ++ piece ++ after.rest)) =
        byteLength (read ++ piece) := by
      rw [hwhole, byteLength_append, htakes.offset]
      omega
    obtain ⟨sites, hsited, hbehind⟩ := ih (read ++ piece) hnext
    rw [hothers, hwhole] at hsited
    have hread : ∀ site ∈ sites, read <+: site.before := fun site hsite =>
      (List.prefix_append read piece).trans (hbehind site hsite)
    cases htag : event.isTag with
    | false =>
      refine ⟨sites, ⟨?_, hsited.whole, hsited.apart⟩, hread⟩
      rw [List.filter_cons_of_neg (by simp [htag])]
      exact hsited.tags
    | true =>
      obtain ⟨body, closed, hevent, hpiece⟩ := htakes.tag read htag
      let site : Site := ⟨read, body, closed, after.rest⟩
      have hthrough : site.through = read ++ piece := by rw [Site.through, hpiece]
      have hsite : site.whole = read ++ r.rest := by rw [Site.whole, hthrough, hwhole]
      refine ⟨site :: sites, ⟨?_, ?_, ?_⟩, ?_⟩
      · have hstop : site.stop = after.offset := by
          rw [Site.stop, hthrough, hsite, ← hnext, hwhole, Nat.add_sub_cancel]
        rw [List.filter_cons_of_pos htag, List.map_cons, ← hsited.tags, hevent, Site.event, hstop]
      · exact List.forall_mem_cons.mpr ⟨hsite, hsited.whole⟩
      · refine List.pairwise_cons.mpr ⟨fun other hother => ?_, hsited.apart⟩
        rw [hthrough]
        exact hbehind other hother
      · exact List.forall_mem_cons.mpr ⟨List.prefix_rfl, hread⟩

/-- Every tag of a document has its place in it. -/
theorem Event.sited_ofText (source : String) :
    ∃ sites, Sited source.toList (Event.ofText source).1 sites := by
  unfold ofText
  dsimp only
  split
  · next hmark =>
    obtain ⟨rest, hrest⟩ := List.head?_eq_some_iff.mp hmark
    rw [hrest]
    obtain ⟨sites, hsited, -⟩ := Reader.sited_events ['\uFEFF'] ⟨rest, 0, []⟩ (Nat.zero_add _)
    exact ⟨sites, hsited⟩
  · next hmark =>
    have hnone : orderMark source.toList = [] := if_neg hmark
    obtain ⟨sites, hsited, -⟩ := Reader.sited_events [] ⟨source.toList, 0, []⟩
      (by rw [List.nil_append, hnone]; rfl)
    exact ⟨sites, hsited⟩

end Stencil.Markup
