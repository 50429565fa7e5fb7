import Stencil.Markup.Element
import Stencil.Proofs.Markup.Tag

namespace Stencil.Markup

variable {source text rest read : List Char} {opened : List (List Char)} {b b' : Building}
  {name : String} {attributes : List (String × String)}

/-- What is built from where a reader stands on. -/
def Reader.build (source : List Char) (r : Reader) (b : Building) : Except Failure Element := do
  let built ← r.events.1.foldlM (Building.step source) b
  match r.events.2 with
  | some fault => .error (.markup fault)
  | none => built.finish

theorem Reader.build_of_next {r after : Reader} {event : Event}
    (h : r.next? = .ok (some (event, after))) (hstep : b.step source event = .ok b') :
    r.build source b = after.build source b' := by
  have hevents : r.events = (event :: after.events.1, after.events.2) := by
    rw [Reader.events]
    split
    · next hfault => cases h.symm.trans hfault
    · next hnone => cases h.symm.trans hnone
    · next found => cases h.symm.trans found; rfl
  rw [Reader.build, hevents, List.foldlM_cons, hstep]
  rfl

theorem Reader.build_of_end {r : Reader} (h : r.rest = []) : r.build source b = b.finish := by
  have hnext : r.next? = .ok none := by rw [Reader.next?, h]
  have hevents : r.events = ([], none) := by
    rw [Reader.events]
    split
    · next hfault => cases hnext.symm.trans hfault
    · rfl
    · next hsome => cases hnext.symm.trans hsome
  rw [Reader.build, hevents]
  rfl

/-- A reader between what it has read and what is left. -/
def Reader.between (read rest : List Char) (opened : List (List Char)) : Reader :=
  ⟨rest, byteLength read, opened⟩

@[simp]
theorem byteLength_nil : byteLength [] = 0 := rfl

@[simp]
theorem byteLength_cons (c : Char) (cs : List Char) :
    byteLength (c :: cs) = c.utf8Size + byteLength cs := rfl

@[simp]
theorem byteLength_append (a b : List Char) : byteLength (a ++ b) = byteLength a + byteLength b := by
  induction a with
  | nil => simp
  | cons c a ih => simp [ih, Nat.add_assoc]

theorem byteLength_brackets (body : List Char) :
    byteLength ('<' :: (body ++ ['>'])) = byteLength body + 2 := by
  have hopen : '<'.utf8Size = 1 := rfl
  have hclose : '>'.utf8Size = 1 := rfl
  simp only [byteLength_cons, byteLength_append, byteLength_nil, hopen, hclose]
  omega

theorem Reader.between_brackets (read body rest : List Char) (opened : List (List Char)) :
    between (read ++ '<' :: (body ++ ['>'])) rest opened =
      ⟨rest, byteLength read + 2 + byteLength body, opened⟩ := by
  rw [between, byteLength_append, byteLength_brackets]
  congr 1
  omega

theorem takeBytes?_append (read rest : List Char) :
    takeBytes? (read ++ rest) (byteLength read) = some read := by
  induction read with
  | nil => cases rest <;> rfl
  | cons c read ih =>
    have hpos := c.utf8Size_pos
    have hlength : byteLength (c :: read) = c.utf8Size + byteLength read := rfl
    rw [hlength, List.cons_append, takeBytes?, if_neg (by omega), if_pos (by omega),
      Nat.add_sub_cancel_left, ih]
    rfl

theorem Reader.next?_of_markup {r : Reader} {cs : List Char} {found : Event × Reader}
    (hrest : r.rest = '<' :: cs) (h : r.markup cs = .ok found) : r.next? = .ok (some found) := by
  rw [next?, hrest]
  exact congrArg (Except.map some) h

/-- What stands between brackets up to a bracket where it is complete. -/
theorem upTo_brackets {complete : List Char → Bool} {body : List Char} (hfree : '>' ∉ body)
    (hcomplete : complete body.reverse = true) (rest : List Char) :
    upTo complete [] (body ++ '>' :: rest) = some (body, rest) :=
  upTo_append hfree (by rwa [List.append_nil]) rest

theorem Reader.markup_start (r : Reader) (hname : IsName name) (hattributes : Attributes attributes)
    (rest : List Char) : r.markup (tagChars name attributes ++ '>' :: rest) =
      .ok (.tag (tagChars name attributes) false (r.offset + 2 + byteLength (tagChars name attributes)),
        ⟨rest, r.offset + 2 + byteLength (tagChars name attributes), name.toList :: r.opened⟩) := by
  have hcut := upTo_brackets (tagChars_free hname hattributes)
    (outsideQuotes_tagChars hname hattributes) rest
  obtain ⟨first, more, hfirst⟩ := List.exists_cons_of_ne_nil hname.1
  have hmark (c : Char) (hc : c ∈ marks) : first ≠ c := fun h =>
    hname.2 first (hfirst ▸ List.mem_cons_self) (h ▸ hc)
  have htag : tagEvent r.opened (r.offset + 2 + byteLength (tagChars name attributes))
      (tagChars name attributes) = (.tag (tagChars name attributes) false
        (r.offset + 2 + byteLength (tagChars name attributes)), name.toList :: r.opened) := by
    rw [tagEvent, if_neg (getLast?_tagChars hname attributes), tagName_tagChars hname]
  have hchars : tagChars name attributes ++ '>' :: rest =
      first :: (more ++ (attributeChars attributes ++ '>' :: rest)) := by
    rw [tagChars, hfirst]
    simp
  unfold markup
  -- what begins another kind of tag cannot begin a name
  split
  · next hnil => simp [hchars] at hnil
  · next hcons =>
    rw [hchars] at hcons
    exact absurd (List.cons.inj hcons).1 (hmark '!' (by decide))
  · next hcons =>
    rw [hchars] at hcons
    exact absurd (List.cons.inj hcons).1 (hmark '/' (by decide))
  · next hcons =>
    rw [hchars] at hcons
    exact absurd (List.cons.inj hcons).1 (hmark '?' (by decide))
  · simp only [hcut, htag]

theorem endName_of_isName (hname : IsName name) : endName name.toList = name.toList := by
  have hplain : ∀ c ∈ name.toList.reverse, isSpace c = false := fun c hc =>
    isSpace_of_notMem (hname.2 c (List.mem_reverse.mp hc))
  have hkept : name.toList.reverse.dropWhile isSpace = name.toList.reverse := by
    cases hreverse : name.toList.reverse with
    | nil => rfl
    | cons c cs =>
      rw [List.dropWhile_cons, hplain c (hreverse ▸ List.mem_cons_self)]
      rfl
  rw [endName, hkept, List.reverse_reverse, if_neg hname.1]

theorem Reader.markup_end {r : Reader} (hname : IsName name) (hopened : r.opened = name.toList :: opened)
    (rest : List Char) : r.markup ('/' :: name.toList ++ '>' :: rest) =
      .ok (.close, ⟨rest, r.offset + 2 + byteLength ('/' :: name.toList), opened⟩) := by
  have hfree : '>' ∉ '/' :: name.toList := by
    rw [List.mem_cons, not_or]
    exact ⟨by decide, notMem_of_isName hname (by decide)⟩
  have hquotes : outsideQuotes ('/' :: name.toList).reverse = true := by
    rw [outsideQuotes_reverse, List.foldl_cons,
      show quoteAfter none '/' = none from rfl, foldl_quoteAfter_name hname]
    rfl
  have hcut := upTo_brackets hfree hquotes rest
  have hclose : closeEvent r.opened name.toList = .ok opened := by
    rw [hopened]
    simp only [closeEvent, endName_of_isName hname, if_true]
  rw [List.cons_append] at hcut ⊢
  simp only [markup, hcut, List.tail_cons, hclose]
  rfl

/-- The declaration in front of a document is an instruction. -/
theorem Reader.markup_declaration (r : Reader) (rest : List Char) :
    r.markup (declaration.toList.tail ++ rest) =
      .ok (.aside, ⟨rest, r.offset + byteLength declaration.toList, r.opened⟩) := by
  have hcut := upTo_brackets (show '>' ∉ declaration.toList.tail.dropLast by decide)
    (show endsInstruction declaration.toList.tail.dropLast.reverse = true by decide) rest
  have hchars : declaration.toList.tail ++ rest =
      '?' :: (declaration.toList.tail.dropLast.tail ++ '>' :: rest) := by
    rw [← List.singleton_append, ← List.append_assoc]
    rfl
  have hlength : declaration.toList.tail.dropLast.length ≠ 1 := by decide
  have hoffset : r.offset + 2 + byteLength declaration.toList.tail.dropLast =
      r.offset + byteLength declaration.toList := Nat.add_assoc _ _ _
  rw [hchars]
  change upTo endsInstruction [] ('?' :: (declaration.toList.tail.dropLast.tail ++ '>' :: rest)) = _
    at hcut
  simp only [markup, hcut, if_neg hlength, hoffset]

@[simp]
theorem Element.addText_empty (e : Element) : e.addText "" = e := by
  cases e
  simp [addText]

@[simp]
theorem Building.addText_empty (b : Building) : b.addText (.ok "") = .ok b := by
  obtain ⟨opened, root⟩ := b
  cases opened with
  | nil => rfl
  | cons top others => simp [addText]

/-- Text up to the next tag goes to the innermost open element. -/
theorem Reader.build_text {content : String} (hadd : b.addText (.ok content) = .ok b')
    (hrest : rest.head? = some '<') :
    (between read ((escape content).toList ++ rest) opened).build source b =
      (between (read ++ (escape content).toList) rest opened).build source b' := by
  obtain ⟨after, rfl⟩ := List.head?_eq_some_iff.mp hrest
  cases htext : (escape content).toList with
  | nil =>
    -- an empty text is no event
    rw [eq_empty_of_escape htext, Building.addText_empty] at hadd
    rw [Except.ok.inj hadd, List.nil_append, List.append_nil]
  | cons c text =>
    have hplain : ∀ d ∈ c :: text, (d != '<') = true := fun d hd =>
      bne_iff_ne.mpr (escape_free (htext ▸ hd)).1
    have hnext : (between read (c :: text ++ '<' :: after) opened).next? =
        .ok (some (.text (c :: text), between (read ++ c :: text) ('<' :: after) opened)) := by
      have htake : (c :: text ++ '<' :: after).takeWhile (· != '<') = c :: text := by
        rw [List.takeWhile_append_of_pos hplain]
        simp
      have hdrop : (c :: text ++ '<' :: after).dropWhile (· != '<') = '<' :: after := by
        rw [List.dropWhile_append_of_pos hplain]
        simp
      rw [next?]
      split
      · next hnil => cases hnil
      · next hcons =>
        cases hcons
        exact absurd (hplain _ List.mem_cons_self) (by simp)
      · simp only [between, htake, hdrop, byteLength_append]
    refine build_of_next hnext ?_
    simp only [Building.step, ← htext, unescape_escape]
    exact hadd

/-- The instruction in front of a document is skipped. -/
theorem Reader.build_declaration (rest : List Char) (b : Building) :
    (between [] (declaration.toList ++ rest) opened).build source b =
      (between declaration.toList rest opened).build source b := by
  have hnext : (between [] (declaration.toList ++ rest) opened).next? =
      .ok (some (.aside, between declaration.toList rest opened)) := by
    refine next?_of_markup rfl ((markup_declaration _ rest).trans ?_)
    rw [between, byteLength_nil, Nat.zero_add]
    rfl
  exact build_of_next hnext rfl

/-- A start tag opens an element. -/
theorem Reader.build_start (opened : List (List Char)) (b : Building) (hname : IsName name)
    (hattributes : Attributes attributes)
    (hsource : source = read ++ ((startTag name attributes).toList ++ rest)) :
    ∃ position, (between read ((startTag name attributes).toList ++ rest) opened).build source b =
      (between (read ++ (startTag name attributes).toList) rest (name.toList :: opened)).build source
        ⟨⟨name, attributes, "", [], position⟩ :: b.opened, b.root⟩ := by
  -- the tag ends between two characters, so its place can be told
  obtain ⟨position, hposition⟩ : ∃ position,
      tagPosition source (byteLength (read ++ (startTag name attributes).toList)) = .ok position :=
    ⟨_, by rw [tagPosition, hsource, ← List.append_assoc, takeBytes?_append]⟩
  have helement : Element.ofTag source (tagChars name attributes)
      (byteLength (read ++ (startTag name attributes).toList)) =
        .ok ⟨name, attributes, "", [], position⟩ := by
    simp only [Element.ofTag, hposition, tagAttributes_tagChars hname hattributes,
      tagName_tagChars hname, String.ofList_toList]
    rfl
  have hnext : (between read ((startTag name attributes).toList ++ rest) opened).next? =
      .ok (some (.tag (tagChars name attributes) false
          (byteLength (read ++ (startTag name attributes).toList)),
        between (read ++ (startTag name attributes).toList) rest (name.toList :: opened))) := by
    have hstop : byteLength (read ++ (startTag name attributes).toList) =
        byteLength read + 2 + byteLength (tagChars name attributes) := by
      rw [toList_startTag, byteLength_append, byteLength_brackets]
      omega
    rw [hstop, toList_startTag, between_brackets]
    refine next?_of_markup ?_ (markup_start _ hname hattributes rest)
    simp [between]
  refine ⟨position, build_of_next hnext ?_⟩
  simp only [Building.step, helement, Bool.false_eq_true, if_false]

/-- An end tag closes the innermost open element. -/
theorem Reader.build_close {top : Element} {others : List Element} {root : Option Element}
    (hname : IsName name) (hattach : Building.attach ⟨others, root⟩ top = .ok b') :
    (between read ((endTag name).toList ++ rest) (name.toList :: opened)).build source
        ⟨top :: others, root⟩ =
      (between (read ++ (endTag name).toList) rest opened).build source b' := by
  have hnext : (between read ((endTag name).toList ++ rest) (name.toList :: opened)).next? =
      .ok (some (.close, between (read ++ (endTag name).toList) rest opened)) := by
    rw [toList_endTag, ← List.cons_append, between_brackets]
    refine next?_of_markup ?_ (markup_end hname rfl rest)
    simp [between]
  exact build_of_next hnext hattach

mutual

/-- Whether all names in a tree can be read as names. -/
def Tree.Sound : Tree → Prop
  | .leaf name attributes _ => IsName name ∧ Attributes attributes
  | .branch name attributes children => IsName name ∧ Attributes attributes ∧ Tree.AllSound children

def Tree.AllSound : List Tree → Prop
  | [] => True
  | tree :: rest => tree.Sound ∧ Tree.AllSound rest

end

mutual

/-- An element as it was written: for a leaf with its text, for a branch with the elements in it. -/
def Tree.Mirrors : Tree → Element → Prop
  | .leaf name attributes text, e =>
    e.name = name ∧ e.attributes = attributes ∧ e.text = text ∧ e.children = []
  | .branch name attributes children, e =>
    e.name = name ∧ e.attributes = attributes ∧ Tree.AllMirror children e.children

def Tree.AllMirror : List Tree → List Element → Prop
  | [], [] => True
  | tree :: trees, e :: es => tree.Mirrors e ∧ Tree.AllMirror trees es
  | _, _ => False

end

@[simp]
theorem Tree.allMirror_nil {es : List Element} : Tree.AllMirror [] es ↔ es = [] := by
  cases es <;> simp [AllMirror]

@[simp]
theorem Tree.allMirror_cons {tree : Tree} {trees : List Tree} {es : List Element} :
    Tree.AllMirror (tree :: trees) es ↔
      ∃ e rest, es = e :: rest ∧ tree.Mirrors e ∧ Tree.AllMirror trees rest := by
  cases es with
  | nil => simp [AllMirror]
  | cons e rest =>
    constructor
    · exact fun h => ⟨e, rest, rfl, h⟩
    · rintro ⟨_, _, ⟨⟩, h⟩
      exact h

/-- Lines as they stand behind others. -/
def printed (lines : List String) : List Char := lines.flatMap fun line => '\n' :: line.toList

/-- The text between a tag and the tag on the next line. -/
def gap (depth : Nat) : String := "\n" ++ indent depth

theorem escape_gap (depth : Nat) : escape (gap depth) = gap depth := by
  refine escape_of_plain fun c hc => ?_
  simp only [gap, indent, String.toList_append, String.toList_ofList, List.mem_append,
    List.mem_replicate] at hc
  rcases hc with hbreak | ⟨-, rfl⟩
  · rw [show c = '\n' by simpa using hbreak]
    rfl
  · rfl

theorem printed_leaf (depth : Nat) (name : String) (attributes : List (String × String))
    (text : String) : printed ((Tree.leaf name attributes text).lines depth) =
      (gap depth).toList ++ ((startTag name attributes).toList ++ ((escape text).toList ++
        (endTag name).toList)) := by
  simp [printed, Tree.lines, gap]

theorem printed_branch (depth : Nat) (name : String) (attributes : List (String × String))
    (children : List Tree) : printed ((Tree.branch name attributes children).lines depth) =
      (gap depth).toList ++ ((startTag name attributes).toList ++
        (printed (Tree.linesOf (depth + 1) children) ++ ((gap depth).toList ++
          (endTag name).toList))) := by
  simp [printed, Tree.lines, gap]

theorem printed_cons (depth : Nat) (tree : Tree) (rest : List Tree) :
    printed (Tree.linesOf depth (tree :: rest)) =
      printed (tree.lines depth) ++ printed (Tree.linesOf depth rest) := by
  rw [Tree.linesOf, printed, List.flatMap_append]
  rfl

theorem head?_startTag (name : String) (attributes : List (String × String)) (rest : List Char) :
    ((startTag name attributes).toList ++ rest).head? = some '<' := by
  rw [toList_startTag]
  rfl

theorem head?_endTag (name : String) (rest : List Char) :
    ((endTag name).toList ++ rest).head? = some '<' := by
  rw [toList_endTag]
  rfl

theorem Reader.build_gap {depth : Nat} (hadd : b.addText (.ok (gap depth)) = .ok b')
    (hrest : rest.head? = some '<') :
    (between read ((gap depth).toList ++ rest) opened).build source b =
      (between (read ++ (gap depth).toList) rest opened).build source b' := by
  rw [← escape_gap]
  exact build_text hadd hrest

mutual

/-- A tree is read behind the gap in front of it and is attached as an element of its shape. -/
theorem Tree.build_lines (depth : Nat) (read rest : List Char) (opened : List (List Char))
    {b b₁ : Building} (hgap : b.addText (.ok (gap depth)) = .ok b₁)
    (htakes : ∀ e, ∃ b₂, b₁.attach e = .ok b₂) :
    (tree : Tree) → tree.Sound → source = read ++ (printed (tree.lines depth) ++ rest) →
      ∃ e b₂, tree.Mirrors e ∧ b₁.attach e = .ok b₂ ∧
        (Reader.between read (printed (tree.lines depth) ++ rest) opened).build source b =
          (Reader.between (read ++ printed (tree.lines depth)) rest opened).build source b₂
  | .leaf name attributes text, ⟨hname, hattributes⟩, hsource => by
    rw [printed_leaf] at hsource ⊢
    simp only [List.append_assoc] at hsource ⊢
    obtain ⟨position, hstart⟩ := Reader.build_start opened b₁ hname hattributes
      (hsource.trans (List.append_assoc _ _ _).symm)
    let started : Element := ⟨name, attributes, "", [], position⟩
    obtain ⟨b₂, hattach⟩ := htakes (started.addText text)
    refine ⟨started.addText text, b₂, ⟨rfl, rfl, by simp [started, Element.addText], rfl⟩, hattach, ?_⟩
    -- the gap, the start tag, the text and the end tag are read in turn
    rw [Reader.build_gap hgap (head?_startTag _ _ _), hstart]
    calc (Reader.between (read ++ (gap depth).toList ++ (startTag name attributes).toList)
            ((escape text).toList ++ ((endTag name).toList ++ rest))
            (name.toList :: opened)).build source ⟨started :: b₁.opened, b₁.root⟩
        _ = (Reader.between (read ++ (gap depth).toList ++ (startTag name attributes).toList ++
              (escape text).toList) ((endTag name).toList ++ rest) (name.toList :: opened)).build source
                ⟨started.addText text :: b₁.opened, b₁.root⟩ :=
          Reader.build_text rfl (head?_endTag _ _)
        _ = _ := by
          rw [Reader.build_close hname hattach]
          simp only [List.append_assoc]
  | .branch name attributes children, ⟨hname, hattributes, hchildren⟩, hsource => by
    rw [printed_branch] at hsource ⊢
    simp only [List.append_assoc] at hsource ⊢
    obtain ⟨position, hstart⟩ := Reader.build_start opened b₁ hname hattributes
      (hsource.trans (List.append_assoc _ _ _).symm)
    obtain ⟨text, es, hmirror, hinner⟩ := Tree.build_linesOf (depth + 1)
      (read ++ (gap depth).toList ++ (startTag name attributes).toList)
      ((gap depth).toList ++ ((endTag name).toList ++ rest)) (name.toList :: opened) b₁.opened b₁.root
      ⟨name, attributes, "", [], position⟩ children hchildren (by simp only [hsource, List.append_assoc])
    let filled : Element := ⟨name, attributes, text, es, position⟩
    obtain ⟨b₂, hattach⟩ := htakes (filled.addText (gap depth))
    refine ⟨filled.addText (gap depth), b₂, ⟨rfl, rfl, hmirror⟩, hattach, ?_⟩
    -- the gap in front of the end tag is a text of the element itself
    rw [Reader.build_gap hgap (head?_startTag _ _ _), hstart, hinner]
    calc (Reader.between (read ++ (gap depth).toList ++ (startTag name attributes).toList ++
            printed (Tree.linesOf (depth + 1) children))
            ((gap depth).toList ++ ((endTag name).toList ++ rest)) (name.toList :: opened)).build source
              ⟨filled :: b₁.opened, b₁.root⟩
        _ = (Reader.between (read ++ (gap depth).toList ++ (startTag name attributes).toList ++
              printed (Tree.linesOf (depth + 1) children) ++ (gap depth).toList)
              ((endTag name).toList ++ rest) (name.toList :: opened)).build source
                ⟨filled.addText (gap depth) :: b₁.opened, b₁.root⟩ :=
          Reader.build_gap rfl (head?_endTag _ _)
        _ = _ := by
          rw [Reader.build_close hname hattach]
          simp only [List.append_assoc]

/-- Trees in an element are read one after the other. -/
theorem Tree.build_linesOf (depth : Nat) (read rest : List Char) (opened : List (List Char))
    (others : List Element) (root : Option Element) (top : Element) :
    (trees : List Tree) → Tree.AllSound trees →
      source = read ++ (printed (Tree.linesOf depth trees) ++ rest) →
      ∃ text es, Tree.AllMirror trees es ∧
        (Reader.between read (printed (Tree.linesOf depth trees) ++ rest) opened).build source
            ⟨top :: others, root⟩ =
          (Reader.between (read ++ printed (Tree.linesOf depth trees)) rest opened).build source
            ⟨{ top with text := text, children := top.children ++ es } :: others, root⟩
  | [], _, _ => by
    refine ⟨top.text, [], trivial, ?_⟩
    cases top
    simp [Tree.linesOf, printed]
  | tree :: trees, ⟨htree, htrees⟩, hsource => by
    rw [printed_cons, List.append_assoc] at hsource ⊢
    obtain ⟨e, b₂, hmirror, hattach, hfirst⟩ := Tree.build_lines depth read _ opened
      (b := ⟨top :: others, root⟩) rfl (fun _ => ⟨_, rfl⟩) tree htree hsource
    obtain rfl := Except.ok.inj hattach
    obtain ⟨text, es, hmirrors, hrest⟩ := Tree.build_linesOf depth
      (read ++ printed (tree.lines depth)) rest opened others root
      ((top.addText (gap depth)).addChild e) trees htrees (hsource.trans (List.append_assoc _ _ _).symm)
    refine ⟨text, e :: es, ⟨hmirror, hmirrors⟩, hfirst.trans (hrest.trans ?_)⟩
    simp only [Element.addText, Element.addChild, List.append_assoc, List.singleton_append]

end

theorem toList_document (tree : Tree) :
    tree.document.toList = declaration.toList ++ printed (tree.lines 0) := by
  have hlines (line : String) (lines : List String) :
      List.intercalate ['\n'] (line.toList :: lines.map String.toList) =
        line.toList ++ printed lines := by
    induction lines generalizing line with
    | nil => simp [printed]
    | cons next lines ih =>
      rw [List.map_cons, List.intercalate_cons_cons, ih]
      simp [printed]
  rw [Tree.document, String.toList_intercalate]
  exact hlines _ _

/-- Reading a written document gives an element of the shape that was written. -/
theorem Tree.ofText_document (tree : Tree) (h : tree.Sound) :
    ∃ e, Element.ofText tree.document = .ok e ∧ tree.Mirrors e := by
  have hsource : tree.document.toList = declaration.toList ++ (printed (tree.lines 0) ++ []) := by
    rw [toList_document, List.append_nil]
  obtain ⟨e, b, hmirrors, hattach, hbuild⟩ := Tree.build_lines 0 declaration.toList [] []
    (b := ⟨[], none⟩) rfl (fun _ => ⟨_, rfl⟩) tree h hsource
  obtain rfl := Except.ok.inj hattach
  have hmark : (declaration.toList ++ printed (tree.lines 0)).head? ≠ some '\uFEFF' := by
    rw [show (declaration.toList ++ printed (tree.lines 0)).head? = some '<' from rfl]
    decide
  refine ⟨e, ?_, hmirrors⟩
  -- there is no byte order mark to be dropped, and at the end nothing is open
  calc Element.ofText tree.document
      = (Reader.between [] (declaration.toList ++ printed (tree.lines 0)) []).build
          tree.document.toList ⟨[], none⟩ := by
        rw [Element.ofText, Event.ofText, toList_document, if_neg hmark]
        rfl
    _ = (Reader.between declaration.toList (printed (tree.lines 0)) []).build tree.document.toList
          ⟨[], none⟩ := Reader.build_declaration _ _
    _ = .ok e := by
      rw [← List.append_nil (printed (tree.lines 0)), hbuild, Reader.build_of_end rfl]
      rfl

end Stencil.Markup
