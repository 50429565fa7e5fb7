import Stencil.Markup.Attribute

/-!
A markup document as the sequence of its tags and texts. Tags are only cut out here: what stands
between their brackets is read when an element is built. End tags must match the open start tags.
-/

namespace Stencil.Markup

inductive Event where
  /-- A start tag, or with `closed` an empty-element tag: the text between its brackets, and the
  number of bytes up to its end. -/
  | tag (body : List Char) (closed : Bool) (stop : Nat)
  | close
  /-- Text in which references stand for characters. -/
  | text (raw : List Char)
  /-- Text that is taken as it is. -/
  | verbatim (raw : List Char)
  /-- A comment, an instruction or a declaration. -/
  | aside
deriving DecidableEq, Repr

/-- Where reading stands: the text left, the number of bytes before it, and the names of the open
elements, innermost first. -/
structure Reader where
  rest : List Char
  offset : Nat
  opened : List (List Char)

/-- The text up to the first `>` at which what was read is complete, and what follows it. `seen`
holds the characters read so far, last first. -/
def upTo (complete : List Char → Bool) (seen : List Char) :
    List Char → Option (List Char × List Char)
  | [] => none
  | c :: rest =>
    if c == '>' && complete seen then some (seen.reverse, rest)
    else upTo complete (c :: seen) rest

/-- Whether all quotes are closed again, for characters given last first. -/
def outsideQuotes (seen : List Char) : Bool :=
  seen.foldr (fun c quote =>
    match quote with
    | none => if c = '"' ∨ c = '\'' then some c else none
    | some q => if c = q then none else some q) none |>.isNone

/-- Whether as many brackets are closed as are opened. -/
def balanced (seen : List Char) : Bool := seen.count '<' == seen.count '>'

/-- Whether a comment's text is complete, for characters given last first. -/
def endsComment (seen : List Char) : Bool := 4 < seen.length && ['-', '-'].isPrefixOf seen

/-- Whether a verbatim text is complete, for characters given last first. -/
def endsVerbatim (seen : List Char) : Bool := [']', ']'].isPrefixOf seen

/-- Whether an instruction is complete, for characters given last first. -/
def endsInstruction (seen : List Char) : Bool := seen.head? = some '?'

/-- The name in an end tag: white space may follow it, unless there is nothing else. -/
def endName (body : List Char) : List Char :=
  let name := (body.reverse.dropWhile isSpace).reverse
  if name = [] then body else name

/-- What starts with `<!`, cut out up to its end; `mark` is the character after the two. -/
def cutDeclaration (mark : Option Char) (cs : List Char) :
    Except Fault (Construct × List Char × List Char) :=
  let cut (construct : Construct) (complete : List Char → Bool) :=
    match upTo complete [] cs with
    | some (body, rest) => .ok (construct, body, rest)
    | none => .error (.unclosed construct)
  match mark with
  | some '[' => cut .verbatim endsVerbatim
  | some '-' => cut .comment endsComment
  | some 'D' => cut .doctype balanced
  | some 'd' => cut .doctype balanced
  | _ => .error .unknownMark

/-- The event that a text after `<!` amounts to. -/
def declarationEvent (construct : Construct) (body : List Char) : Except Fault Event :=
  match construct with
  | .comment => if ['-', '-'].isPrefixOf body then .ok .aside else .error (.unclosed .comment)
  | .verbatim => match Text.afterStart "[CDATA[".toList body with
    | some text => .ok (.verbatim (text.take (text.length - 2)))
    | none => .error (.unclosed .verbatim)
  | _ =>
    if (body.take 7).map Char.toUpper = "DOCTYPE".toList then
      if (body.drop 7).all isSpace then .error .namelessDoctype else .ok .aside
    else .error (.unclosed .doctype)

def closeEvent (opened : List (List Char)) (body : List Char) :
    Except Fault (List (List Char)) :=
  let found := endName body
  match opened with
  | [] => .error (.strayEnd (String.ofList found))
  | expected :: others =>
    if found = expected then .ok others
    else .error (.wrongEnd (String.ofList expected) (String.ofList found))

/-- The event of a tag with its text between the brackets, and the elements open after it. -/
def tagEvent (opened : List (List Char)) (stop : Nat) (body : List Char) :
    Event × List (List Char) :=
  if body.getLast? = some '/' then (.tag body.dropLast true stop, opened)
  else (.tag body false stop, tagName body :: opened)

/-- The event that starts with `<`, given what follows that character. -/
def Reader.markup (r : Reader) (cs : List Char) : Except Fault (Event × Reader) :=
  let after (body rest : List Char) (opened : List (List Char)) : Reader :=
    ⟨rest, r.offset + 2 + byteLength body, opened⟩
  match cs with
  | [] => .error (.unclosed .tag)
  | '!' :: declaration => do
    let (construct, whole, rest) ← cutDeclaration declaration.head? cs
    let event ← declarationEvent construct whole.tail
    return (event, after whole rest r.opened)
  | '/' :: _ =>
    match upTo outsideQuotes [] cs with
    | none => .error (.unclosed .tag)
    | some (body, rest) => do
      let opened ← closeEvent r.opened body.tail
      return (.close, after body rest opened)
  | '?' :: _ =>
    match upTo endsInstruction [] cs with
    | none => .error (.unclosed .instruction)
    | some (body, rest) =>
      if body.length = 1 then .error (.unclosed .instruction)
      else .ok (.aside, after body rest r.opened)
  | _ =>
    match upTo outsideQuotes [] cs with
    | none => .error (.unclosed .tag)
    | some (body, rest) =>
      let (event, opened) := tagEvent r.opened (r.offset + 2 + byteLength body) body
      .ok (event, after body rest opened)

def Reader.next? (r : Reader) : Except Fault (Option (Event × Reader)) :=
  match r.rest with
  | [] => .ok none
  | '<' :: rest => (r.markup rest).map some
  | _ =>
    let text := r.rest.takeWhile (· != '<')
    let rest := r.rest.dropWhile (· != '<')
    .ok (some (.text text, ⟨rest, r.offset + byteLength text, r.opened⟩))

theorem length_upTo {complete : List Char → Bool} {seen cs body rest : List Char}
    (h : upTo complete seen cs = some (body, rest)) : rest.length < cs.length := by
  induction cs generalizing seen with
  | nil => simp [upTo] at h
  | cons c cs ih =>
    simp only [upTo] at h
    split at h
    · simp only [Option.some.injEq, Prod.mk.injEq] at h
      simp [h.2]
    · have := ih h
      simp only [List.length_cons]
      omega

theorem length_cutDeclaration {mark : Option Char} {cs body rest : List Char}
    {construct : Construct} (h : cutDeclaration mark cs = .ok (construct, body, rest)) :
    rest.length < cs.length := by
  have cut {k : Construct} {complete : List Char → Bool}
      (h : (match upTo complete [] cs with
        | some (body, rest) => Except.ok (k, body, rest)
        | none => .error (Fault.unclosed k)) = .ok (construct, body, rest)) :
      rest.length < cs.length := by
    split at h
    · next found => cases h; exact length_upTo found
    · simp at h
  simp only [cutDeclaration] at h
  split at h
  · exact cut h
  · exact cut h
  · exact cut h
  · exact cut h
  · simp at h

/-- Every event of markup uses up some of the text. -/
theorem Reader.length_markup {r after : Reader} {cs : List Char} {event : Event}
    (h : r.markup cs = .ok (event, after)) : after.rest.length < cs.length := by
  simp only [Reader.markup] at h
  split at h
  · simp at h
  · next declaration =>
    simp only [bind, Except.bind] at h
    split at h
    · simp at h
    · next cut found =>
      split at h
      · simp at h
      · cases h
        exact length_cutDeclaration found
  · split at h
    · simp at h
    · next found =>
      simp only [bind, Except.bind] at h
      split at h
      · simp at h
      · cases h
        exact length_upTo found
  · split at h
    · simp at h
    · next found =>
      split at h
      · simp at h
      · cases h
        exact length_upTo found
  · split at h
    · simp at h
    · next found =>
      cases h
      exact length_upTo found

theorem Reader.length_next? {r after : Reader} {event : Event}
    (h : r.next? = .ok (some (event, after))) : after.rest.length < r.rest.length := by
  simp only [Reader.next?] at h
  split at h
  · simp at h
  · next rest whole =>
    cases found : r.markup rest with
    | error fault => simp [found, Except.map] at h
    | ok pair =>
      obtain ⟨e, a⟩ := pair
      simp only [found, Except.map, Except.ok.injEq, Option.some.injEq, Prod.mk.injEq] at h
      have := Reader.length_markup found
      rw [← h.2, whole, List.length_cons]
      omega
  · next notEmpty notMarkup =>
    cases h
    cases whole : r.rest with
    | nil => exact absurd whole notEmpty
    | cons c rest =>
      have : (c != '<') = true := by
        simp only [bne_iff_ne, ne_eq]
        intro same
        exact notMarkup rest (same ▸ whole)
      simp only [List.dropWhile_cons, this, if_true, List.length_cons]
      have := length_dropWhile_le (· != '<') rest
      omega

/-- All events from a reader on, and the fault that ends them, if one does. -/
def Reader.events (r : Reader) : List Event × Option Fault :=
  match h : r.next? with
  | .error fault => ([], some fault)
  | .ok none => ([], none)
  | .ok (some (event, after)) =>
    have : after.rest.length < r.rest.length := Reader.length_next? h
    let (others, fault) := after.events
    (event :: others, fault)
termination_by r.rest.length

/-- The events of a document. A byte order mark in front is dropped and not counted. -/
def Event.ofText (source : String) : List Event × Option Fault :=
  let cs := source.toList
  Reader.events ⟨if cs.head? = some '\uFEFF' then cs.tail else cs, 0, []⟩

end Stencil.Markup
