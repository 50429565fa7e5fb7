import Stencil.Markup.Element
import Stencil.Markup.Event
import Stencil.Proofs.Markup.Escape
import Stencil.Proofs.Text.Parts

namespace Stencil.Markup

variable {name : String} {attributes : List (String × String)} {cs body rest key : List Char}
  {seen : List (List Char × Nat)}

/-- The characters that have a meaning in a tag. -/
def marks : List Char := [' ', '\t', '\n', '\r', '<', '>', '/', '=', '!', '?', '\'', '"']

/-- Whether a word can name elements and attributes. -/
def IsName (word : String) : Prop := word.toList ≠ [] ∧ ∀ c ∈ word.toList, c ∉ marks

instance (word : String) : Decidable (IsName word) :=
  @instDecidableAnd _ _ inferInstance (List.decidableBAll _ _)

theorem isSpace_of_notMem {c : Char} (h : c ∉ marks) : isSpace c = false := by
  simp only [marks, List.mem_cons, not_or] at h
  simp [isSpace, h]

theorem endsKey_of_notMem {c : Char} (h : c ∉ marks) : endsKey c = false := by
  rw [endsKey, isSpace_of_notMem h]
  simp only [marks, List.mem_cons, not_or] at h
  simp [h]

theorem upTo_append {complete : List Char → Bool} {before : List Char} (hfree : '>' ∉ body)
    (hcomplete : complete (body.reverse ++ before) = true) (rest : List Char) :
    upTo complete before (body ++ '>' :: rest) = some (before.reverse ++ body, rest) := by
  induction body generalizing before with
  | nil =>
    rw [List.nil_append, upTo, List.append_nil]
    simp only [List.reverse_nil, List.nil_append] at hcomplete
    simp [hcomplete]
  | cons c body ih =>
    have hc : (c == '>') = false := beq_false_of_ne fun h => hfree (h ▸ List.mem_cons_self)
    rw [List.cons_append, upTo, hc]
    simp only [Bool.false_and, Bool.false_eq_true, if_false]
    rw [ih (fun h => hfree (List.mem_cons_of_mem _ h)) (by simpa using hcomplete)]
    simp

/-- The quote that is open behind a character. -/
def quoteAfter (quote : Option Char) (c : Char) : Option Char :=
  match quote with
  | none => if c = '"' ∨ c = '\'' then some c else none
  | some q => if c = q then none else some q

theorem outsideQuotes_reverse (cs : List Char) :
    outsideQuotes cs.reverse = (cs.foldl quoteAfter none).isNone := by
  rw [outsideQuotes, List.foldr_reverse]
  rfl

theorem foldl_quoteAfter_none (h : ∀ c ∈ cs, c ≠ '"' ∧ c ≠ '\'') :
    cs.foldl quoteAfter none = none := by
  induction cs with
  | nil => rfl
  | cons c cs ih =>
    have hc := h c List.mem_cons_self
    rw [List.foldl_cons, quoteAfter, if_neg (by simp [hc])]
    exact ih fun d hd => h d (List.mem_cons_of_mem _ hd)

theorem foldl_quoteAfter_name (hname : IsName name) : name.toList.foldl quoteAfter none = none :=
  foldl_quoteAfter_none fun c hc =>
    ⟨fun he => hname.2 c hc (he ▸ by decide), fun he => hname.2 c hc (he ▸ by decide)⟩

theorem foldl_quoteAfter_some {quote : Char} (h : quote ∉ cs) :
    cs.foldl quoteAfter (some quote) = some quote := by
  induction cs with
  | nil => rfl
  | cons c cs ih =>
    have hc : c ≠ quote := fun he => h (he ▸ List.mem_cons_self)
    rw [List.foldl_cons, quoteAfter, if_neg hc]
    exact ih fun hd => h (List.mem_cons_of_mem _ hd)

/-- The attributes of a tag as they are written. -/
def attributeChars (attributes : List (String × String)) : List Char :=
  attributes.flatMap fun pair => (attributeText pair).toList

theorem attributeChars_cons (pair : String × String) (attributes : List (String × String)) :
    attributeChars (pair :: attributes) =
      ' ' :: (pair.1.toList ++ '=' :: '"' :: ((escape pair.2).toList ++
        '"' :: attributeChars attributes)) := by
  simp [attributeChars, attributeText]

/-- Attributes whose names are names, and are given once. -/
structure Attributes (attributes : List (String × String)) : Prop where
  names : ∀ pair ∈ attributes, IsName pair.1
  distinct : (attributes.map Prod.fst).Nodup

theorem notMem_of_isName {c : Char} (h : IsName name) (hc : c ∈ marks) : c ∉ name.toList :=
  fun hmem => h.2 c hmem hc

/-- No tag ends inside its attributes. -/
theorem attributeChars_free (h : ∀ pair ∈ attributes, IsName pair.1) :
    '>' ∉ attributeChars attributes := by
  intro hmem
  obtain ⟨pair, hpair, hmem⟩ := List.mem_flatMap.mp hmem
  have hname := notMem_of_isName (c := '>') (h pair hpair) (by decide)
  have hvalue : '>' ∉ (escape pair.2).toList := fun hc => (escape_free hc).2.1 rfl
  simp [attributeText, hname, hvalue] at hmem

/-- All quotes around values are closed again. -/
theorem foldl_quoteAfter_attributes (h : ∀ pair ∈ attributes, IsName pair.1) :
    (attributeChars attributes).foldl quoteAfter none = none := by
  induction attributes with
  | nil => rfl
  | cons pair attributes ih =>
    have hkey := foldl_quoteAfter_name (h pair List.mem_cons_self)
    have hvalue : (escape pair.2).toList.foldl quoteAfter (some '"') = some '"' :=
      foldl_quoteAfter_some fun hc => (escape_free hc).2.2.2 rfl
    -- no quote is open up to the equals sign, and one is in the value
    rw [attributeChars_cons, List.foldl_cons, List.foldl_append]
    rw [show quoteAfter none ' ' = none from rfl, hkey, List.foldl_cons, List.foldl_cons,
      show quoteAfter none '=' = none from rfl, show quoteAfter none '"' = some '"' from rfl,
      List.foldl_append, hvalue, List.foldl_cons, show quoteAfter (some '"') '"' = none from rfl]
    exact ih fun p hp => h p (List.mem_cons_of_mem _ hp)

/-- A key that is followed by an equals sign is cut off. -/
theorem cutKey_append {first : Char} {more : List Char} (h : ∀ c ∈ more, c ∉ marks) (position : Nat)
    (rest : List Char) : cutKey position first (more ++ '=' :: rest) =
      .ok ⟨first :: more, position, position + byteLength (first :: more) + 1, rest⟩ := by
  have hkey : ∀ c ∈ more, (!endsKey c) = true := fun c hc => by rw [endsKey_of_notMem (h c hc)]; rfl
  have hends : (!endsKey '=') = false := rfl
  have hblank : isSpace '=' = false := rfl
  simp only [cutKey, List.takeWhile_append_of_pos hkey, List.dropWhile_append_of_pos hkey,
    List.takeWhile_cons, List.dropWhile_cons, hends, hblank, Bool.false_eq_true, if_false,
    List.append_nil]
  rfl

/-- A value in double quotes is cut off. -/
theorem cutValue_append {value : List Char} (h : '"' ∉ value) (position : Nat) (rest : List Char) :
    cutValue position ('"' :: (value ++ '"' :: rest)) =
      .ok ⟨value, position + 2 + byteLength value, rest⟩ := by
  have hblank : isSpace '"' = false := rfl
  simp only [cutValue, List.takeWhile_cons, List.dropWhile_cons, hblank, Bool.false_eq_true, if_false,
    true_or, if_true, Text.splitAtFirst_append h]
  rfl

/-- An attribute is read if its key and its value are cut off, the key is new and the value can be
decoded. -/
theorem readAttributes_step {position : Nat} {first : Char} {tail : List Char} {cutting : KeyCut}
    {value : ValueCut} {decoded : String} (hblank : cs.dropWhile isSpace = first :: tail)
    (hkey : cutKey (position + byteLength (cs.takeWhile isSpace)) first tail = .ok cutting)
    (hnew : seen.lookup cutting.key = none)
    (hvalue : cutValue cutting.valueStart cutting.rest = .ok value)
    (hdecoded : unescape value.value = .ok decoded) :
    readAttributes seen position cs =
      (readAttributes ((cutting.key, cutting.start) :: seen) value.stop value.rest).map
        ((String.ofList cutting.key, decoded) :: ·) := by
  rw [readAttributes]
  -- of each choice of the reader only the one that was cut off is left
  split
  · next hnil =>
    rw [hblank] at hnil
    cases hnil
  · next c rest hcons =>
    obtain ⟨rfl, rfl⟩ : first = c ∧ tail = rest := by simpa [hblank] using hcons
    split
    · next hfault =>
      rw [hkey] at hfault
      cases hfault
    · next found hfound =>
      obtain rfl := Except.ok.inj (hkey.symm.trans hfound)
      rw [hnew]
      simp only
      split
      · next hfault =>
        rw [hvalue] at hfault
        cases hfault
      · next found hfound =>
        obtain rfl := Except.ok.inj (hvalue.symm.trans hfound)
        simp only [hdecoded]
        cases readAttributes ((cutting.key, cutting.start) :: seen) value.stop value.rest <;> rfl

/-- The first attribute of a text is read as it was written. -/
theorem readAttributes_cons (pair : String × String) (hname : IsName pair.1)
    (hnew : seen.lookup pair.1.toList = none) (position : Nat) (rest : List Char) :
    ∃ start stop, readAttributes seen position
        (' ' :: (pair.1.toList ++ '=' :: '"' :: ((escape pair.2).toList ++ '"' :: rest))) =
      (readAttributes ((pair.1.toList, start) :: seen) stop rest).map (pair :: ·) := by
  obtain ⟨first, more, hkey⟩ := List.exists_cons_of_ne_nil hname.1
  have hmarks := hname.2
  have hpair : (String.ofList (first :: more), pair.2) = pair := by
    rw [← hkey, String.ofList_toList]
  rw [hkey] at hnew hmarks ⊢
  have hfirst : isSpace first = false := isSpace_of_notMem (hmarks first List.mem_cons_self)
  have hspace : isSpace ' ' = true := rfl
  have hblank : (' ' :: (first :: more ++ '=' :: '"' :: ((escape pair.2).toList ++
      '"' :: rest))).dropWhile isSpace =
        first :: (more ++ '=' :: '"' :: ((escape pair.2).toList ++ '"' :: rest)) := by
    simp [hspace, hfirst]
  have hquote : '"' ∉ (escape pair.2).toList := fun hc => (escape_free hc).2.2.2 rfl
  have hmore : ∀ c ∈ more, c ∉ marks := fun c hc => hmarks c (List.mem_cons_of_mem _ hc)
  have hstep := readAttributes_step hblank (cutKey_append hmore (position + byteLength _) _) hnew
    (cutValue_append hquote _ rest) (unescape_escape pair.2)
  rw [hpair] at hstep
  exact ⟨_, _, hstep⟩

/-- The attributes of a tag are read as they were written. -/
theorem readAttributes_attributeChars (h : Attributes attributes)
    (hnew : ∀ pair ∈ attributes, seen.lookup pair.1.toList = none) (position : Nat) :
    readAttributes seen position (attributeChars attributes) = .ok attributes := by
  induction attributes generalizing seen position with
  | nil =>
    rw [show attributeChars [] = [] from rfl, readAttributes]
    split
    · rfl
    · next hcons => cases hcons
  | cons pair attributes ih =>
    obtain ⟨start, stop, hfirst⟩ := readAttributes_cons pair (h.names pair List.mem_cons_self)
      (hnew pair List.mem_cons_self) position (attributeChars attributes)
    obtain ⟨hother, hdistinct⟩ := List.nodup_cons.mp h.distinct
    rw [attributeChars_cons, hfirst,
      ih ⟨fun p hp => h.names p (List.mem_cons_of_mem _ hp), hdistinct⟩]
    · rfl
    · -- the key that was just read is not given again
      intro p hp
      have hne : p.1.toList ≠ pair.1.toList := fun he =>
        hother (String.toList_inj.mp he ▸ List.mem_map_of_mem hp)
      rw [List.lookup_cons, beq_false_of_ne hne]
      exact hnew p (List.mem_cons_of_mem _ hp)

/-- What stands between the brackets of a start tag. -/
def tagChars (name : String) (attributes : List (String × String)) : List Char :=
  name.toList ++ attributeChars attributes

theorem toList_startTag (name : String) (attributes : List (String × String)) :
    (startTag name attributes).toList = '<' :: (tagChars name attributes ++ ['>']) := by
  simp [startTag, tagChars, attributeChars, String.toList_join, List.flatMap_map]

theorem toList_endTag (name : String) :
    (endTag name).toList = '<' :: '/' :: (name.toList ++ ['>']) := by
  simp [endTag]

/-- Where the name of a tag ends. -/
theorem span_tagChars (hname : IsName name) (attributes : List (String × String)) :
    (tagChars name attributes).takeWhile (!isSpace ·) = name.toList ∧
      (tagChars name attributes).dropWhile (!isSpace ·) = attributeChars attributes := by
  have hplain : ∀ c ∈ name.toList, (!isSpace c) = true := fun c hc => by
    rw [isSpace_of_notMem (hname.2 c hc)]
    rfl
  have hspace : (!isSpace ' ') = false := rfl
  rw [tagChars, List.takeWhile_append_of_pos hplain, List.dropWhile_append_of_pos hplain]
  cases attributes with
  | nil => simp [attributeChars]
  | cons pair attributes =>
    rw [attributeChars_cons, List.takeWhile_cons, List.dropWhile_cons, hspace]
    simp

theorem tagName_tagChars (hname : IsName name) (attributes : List (String × String)) :
    tagName (tagChars name attributes) = name.toList := (span_tagChars hname attributes).1

theorem tagAttributes_tagChars (hname : IsName name) (h : Attributes attributes) :
    tagAttributes (tagChars name attributes) = .ok attributes := by
  rw [tagAttributes, (span_tagChars hname attributes).2]
  exact readAttributes_attributeChars h (fun _ _ => rfl) _

theorem tagChars_free (hname : IsName name) (h : Attributes attributes) :
    '>' ∉ tagChars name attributes := by
  rw [tagChars, List.mem_append, not_or]
  exact ⟨notMem_of_isName hname (by decide), attributeChars_free h.names⟩

theorem outsideQuotes_tagChars (hname : IsName name) (h : Attributes attributes) :
    outsideQuotes (tagChars name attributes).reverse = true := by
  rw [outsideQuotes_reverse, tagChars, List.foldl_append, foldl_quoteAfter_name hname,
    foldl_quoteAfter_attributes h.names]
  rfl

/-- A start tag is not taken for an empty element. -/
theorem getLast?_tagChars (hname : IsName name) (attributes : List (String × String)) :
    (tagChars name attributes).getLast? ≠ some '/' := by
  intro hlast
  -- the last character is that of the name, or it is the quote behind the last value
  rcases List.eq_nil_or_concat attributes with rfl | ⟨attributes, pair, rfl⟩
  · rw [tagChars, show attributeChars [] = [] from rfl, List.append_nil] at hlast
    exact hname.2 '/' (List.mem_of_getLast? hlast) (by decide)
  · have hchars : tagChars name (attributes.concat pair) = tagChars name attributes ++
        ' ' :: (pair.1.toList ++ '=' :: '"' :: (escape pair.2).toList) ++ ['"'] := by
      simp [tagChars, attributeChars, attributeText]
    rw [hchars, List.getLast?_concat] at hlast
    cases hlast

end Stencil.Markup
