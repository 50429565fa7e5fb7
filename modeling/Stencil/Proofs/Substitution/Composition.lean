import Stencil.Proofs.Comparison.Rules
import Stencil.Proofs.Substitution.Reference

namespace Stencil

/-- Two texts whose border does not lie within a line break. -/
def Unsplit (a b : List Char) : Prop := ¬(a.getLast? = some '\r' ∧ b.head? = some '\n')

instance (a b : List Char) : Decidable (Unsplit a b) := inferInstanceAs (Decidable (¬_))

theorem Unsplit.take {a b c : List Char} (h : Unsplit a (b ++ c)) (n : Nat) :
    Unsplit a (b ++ c.take n) := by
  rintro ⟨hlast, hhead⟩
  refine h ⟨hlast, ?_⟩
  have hwhole : b ++ c = b ++ c.take n ++ c.drop n := by simp
  rw [hwhole, List.head?_append, hhead]
  rfl

theorem lineBreaks_append {a b : List Char} (h : Unsplit a b) :
    lineBreaks (a ++ b) = lineBreaks a + lineBreaks b := by
  induction a with
  | nil => simp [lineBreaks]
  | cons c a ih =>
    -- whether a carriage return is a break of its own is told by what follows it
    have hhead : c = '\r' → (a ++ b).head? ≠ some '\n' ↔ c = '\r' → a.head? ≠ some '\n' := by
      cases a with
      | nil => simpa using fun hc hb => h ⟨by simp [hc], hb⟩
      | cons d a => simp
    have hrest : Unsplit a b := by
      rintro ⟨hlast, hb⟩
      exact h ⟨by rw [List.getLast?_cons, hlast]; rfl, hb⟩
    have hbreak : (c = '\n' ∨ c = '\r' ∧ (a ++ b).head? ≠ some '\n') ↔
        (c = '\n' ∨ c = '\r' ∧ a.head? ≠ some '\n') :=
      or_congr_right (and_congr_right_iff.mpr fun hc => ⟨fun hn => hhead.mp (fun _ => hn) hc,
        fun hn => hhead.mpr (fun _ => hn) hc⟩)
    rw [List.cons_append, lineBreaks, lineBreaks, ih hrest, Nat.add_assoc]
    simp only [hbreak]

theorem lastLine_eq_length {cs : List Char} : lastLine cs = cs.length ↔ cs.any isBreak = false := by
  refine ⟨fun h => ?_, lastLine_of_free⟩
  rw [lastLine] at h
  have hall := (List.takeWhile_prefix (fun c => !isBreak c)).eq_of_length
    (h.trans List.length_reverse.symm)
  exact List.any_eq_false.mpr fun c hc => by
    simpa using List.takeWhile_eq_self_iff.mp hall c (List.mem_reverse.mpr hc)

theorem lastLine_append (a b : List Char) :
    lastLine (a ++ b) = if b.any isBreak then lastLine b else lastLine a + b.length := by
  have hlast : lastLine (a ++ b) =
      if lastLine b = b.length then b.length + lastLine a else lastLine b := by
    simp only [lastLine, List.reverse_append, List.takeWhile_append, List.length_reverse]
    exact (apply_ite List.length _ _ _).trans (if_congr Iff.rfl (by simp) rfl)
  rw [hlast]
  cases hb : b.any isBreak with
  | true => simp [lastLine_eq_length, hb]
  | false => simp [lastLine_eq_length, hb, Nat.add_comm]

theorem lineBreaks_eq_zero {cs : List Char} : lineBreaks cs = 0 ↔ cs.any isBreak = false := by
  induction cs with
  | nil => simp [lineBreaks]
  | cons c cs ih =>
    rw [lineBreaks, Nat.add_eq_zero_iff, ih, List.any_cons, Bool.or_eq_false_iff]
    refine and_congr_left fun hfree => ?_
    have hhead : cs.head? ≠ some '\n' := by
      cases cs with
      | nil => simp
      | cons x cs =>
        simp only [List.any_cons, Bool.or_eq_false_iff, isBreak] at hfree
        simpa using beq_eq_false_iff_ne.mp hfree.1.1
    simp [isBreak, hhead]

/-- The place behind a text. -/
def Place.behind (cs : List Char) : Place := ⟨lineBreaks cs, lastLine cs⟩

/-- The position behind a text that starts at a position. -/
def Position.behind (p : Position) (cs : List Char) : Position :=
  p.offset (lineBreaks cs) (lastLine cs)

theorem Position.behind_append (p : Position) {a b : List Char} (h : Unsplit a b) :
    p.behind (a ++ b) = (p.behind a).behind b := by
  simp only [behind, offset, lineBreaks_append h, lastLine_append]
  cases hb : b.any isBreak with
  | true =>
    have hlines : lineBreaks b ≠ 0 := fun hzero => by simp [lineBreaks_eq_zero.mp hzero] at hb
    have hsum : lineBreaks a + lineBreaks b ≠ 0 := by omega
    rw [if_neg hlines, if_neg hsum, if_pos rfl]
    by_cases ha : lineBreaks a = 0 <;> simp [ha, Nat.add_assoc]
  | false =>
    rw [lineBreaks_eq_zero.mpr hb, lastLine_of_free hb]
    by_cases ha : lineBreaks a = 0 <;> simp [ha] <;> omega

variable {delimiter a b : List Char}

/-- What is found in a text is found at the same place in every text that starts with it. -/
theorem firstAt_append_of_some {i : Nat} (h : firstAt delimiter a = some i) :
    firstAt delimiter (a ++ b) = some i := by
  have hfits : i + delimiter.length ≤ a.length := by
    have hlength := congrArg List.length (drop_of_firstAt h)
    have hlt := firstAt_lt h
    simp only [List.length_drop, List.length_append] at hlength
    omega
  induction a generalizing i with
  | nil => simp [firstAt] at h
  | cons c a ih =>
    -- the delimiter fits into the first text, so that it stands in both or in none
    have hprefix : delimiter.isPrefixOf (c :: (a ++ b)) = delimiter.isPrefixOf (c :: a) := by
      rw [Bool.eq_iff_iff, List.isPrefixOf_iff_prefix, List.isPrefixOf_iff_prefix]
      exact ⟨fun hp => List.prefix_of_prefix_length_le hp (List.prefix_append (c :: a) b)
          (by simpa using Nat.le_trans (Nat.le_add_left _ i) hfits),
        fun hp => hp.trans (List.prefix_append (c :: a) b)⟩
    rw [firstAt_cons] at h
    rw [List.cons_append, firstAt_cons, hprefix]
    split at h
    · next hstart => rw [if_pos hstart, h]
    · next hstart =>
      obtain ⟨k, hk, rfl⟩ := Option.map_eq_some_iff.mp h
      rw [if_neg hstart, ih hk (by simp only [List.length_cons] at hfits; omega)]
      rfl

/-- An opening that is not in the first text nor across the border is the first one of the second. -/
theorem firstAt_append_of_none (h : firstAt tokenOpen a = none)
    (hborder : ¬(a.getLast? = some '{' ∧ b.head? = some '{')) :
    firstAt tokenOpen (a ++ b) = (firstAt tokenOpen b).map (a.length + ·) := by
  induction a with
  | nil => simp
  | cons c a ih =>
    rw [firstAt_cons] at h
    split at h
    · simp at h
    · next hstart =>
      have hnone := Option.map_eq_none_iff.mp h
      have hrest : ¬(a.getLast? = some '{' ∧ b.head? = some '{') := by
        rintro ⟨hlast, hhead⟩
        refine hborder ⟨?_, hhead⟩
        rw [List.getLast?_cons, hlast]
        rfl
      -- only for the last character of the first text does the second one matter
      have hstart' : ¬tokenOpen.isPrefixOf (c :: (a ++ b)) = true := by
        cases a with
        | nil =>
          cases b with
          | nil => simpa using hstart
          | cons x b =>
            simp only [tokenOpen, List.nil_append, List.isPrefixOf, Bool.and_true,
              Bool.and_eq_true, beq_iff_eq]
            rintro ⟨rfl, rfl⟩
            exact hborder ⟨rfl, rfl⟩
        | cons x a => simpa [tokenOpen, List.isPrefixOf] using hstart
      rw [List.cons_append, firstAt_cons, if_neg hstart', ih hnone hrest]
      cases firstAt tokenOpen b <;> simp [Nat.add_right_comm]

namespace Fragment

/-- The fragments of a text that stands behind another one. -/
def cut (passed cs : List Char) : List Fragment :=
  match firstAt tokenOpen cs with
  | none => [.literal (String.ofList cs)]
  | some i =>
    match _ : firstAt tokenClose (cs.drop (i + 2)) with
    | none =>
      [.literal (String.ofList (cs.take i)), .unclosed (.behind (passed ++ cs.take i))]
    | some j =>
      .literal (String.ofList (cs.take i)) ::
        .token (Text.trim (String.ofList ((cs.drop (i + 2)).take j)))
          (.behind (passed ++ cs.take i)) ::
        cut (passed ++ cs.take (i + 2 + j + 2)) (cs.drop (i + 2 + j + 2))
termination_by cs.length
decreasing_by
  have := firstAt_lt (by assumption)
  simp only [List.length_drop] at this ⊢
  omega

theorem cut_of_plain {passed cs : List Char} (h : firstAt tokenOpen cs = none) :
    cut passed cs = [.literal (String.ofList cs)] := by
  rw [cut]
  simp only [h]

theorem cut_of_unclosed {passed cs : List Char} {i : Nat} (h : firstAt tokenOpen cs = some i)
    (hclose : firstAt tokenClose (cs.drop (i + 2)) = none) :
    cut passed cs = [.literal (String.ofList (cs.take i)),
      .unclosed (.behind (passed ++ cs.take i))] := by
  rw [cut]
  simp only [h]
  split
  · rfl
  · next found => simp [hclose] at found

theorem cut_of_token {passed cs : List Char} {i j : Nat} (h : firstAt tokenOpen cs = some i)
    (hclose : firstAt tokenClose (cs.drop (i + 2)) = some j) :
    cut passed cs = .literal (String.ofList (cs.take i)) ::
      .token (Text.trim (String.ofList ((cs.drop (i + 2)).take j)))
        (.behind (passed ++ cs.take i)) ::
      cut (passed ++ cs.take (i + 2 + j + 2)) (cs.drop (i + 2 + j + 2)) := by
  rw [cut]
  simp only [h]
  split
  · next missing => simp [hclose] at missing
  · next found =>
    obtain rfl : j = _ := Option.some.inj (hclose.symm.trans found)
    rfl

/-- The scanner cuts out the fragments of what it has yet to read. -/
theorem fragments_eq_cut {passed cs : List Char} {s : Scanner} (hrest : s.rest = cs)
    (hs : s.Behind passed) : s.fragments = cut passed cs := by
  fun_induction cut passed cs generalizing s with
  | case1 passed cs hopen =>
    subst hrest
    exact Scanner.fragments_of_plain hopen
  | case2 passed cs i hopen hclose =>
    subst hrest
    exact Scanner.fragments_of_unclosed hs hopen hclose
  | case3 passed cs i hopen j hclose ih =>
    subst hrest
    obtain ⟨after, hafter, hbehind, hfragments⟩ := Scanner.fragments_of_token hs hopen hclose
    rw [hfragments, ih hafter hbehind]
    rfl

theorem ofText_eq_cut (text : String) : ofText text = cut [] text.toList :=
  fragments_eq_cut rfl (Scanner.behind_ofText text)

/-- Every text has a literal in front of its first token, if only the empty one. -/
theorem exists_cut_eq_cons (passed cs : List Char) :
    ∃ text more, cut passed cs = .literal text :: more := by
  fun_cases cut passed cs with
  | case1 => exact ⟨_, _, rfl⟩
  | case2 => exact ⟨_, _, rfl⟩
  | case3 => exact ⟨_, _, rfl⟩

/-- A text ends with a literal or within a token. -/
theorem getLast?_cut (passed cs : List Char) :
    (∃ text, (cut passed cs).getLast? = some (.literal text)) ∨
      ∃ init place, cut passed cs = init ++ [.unclosed place] := by
  fun_induction cut passed cs with
  | case1 => exact .inl ⟨_, rfl⟩
  | case2 passed cs i => exact .inr ⟨[.literal (String.ofList (cs.take i))], _, rfl⟩
  | case3 passed cs i hopen j hclose ih =>
    rcases ih with ⟨text, hlast⟩ | ⟨init, place, hall⟩
    · refine .inl ⟨text, ?_⟩
      obtain ⟨first, more, hrest⟩ :=
        exists_cut_eq_cons (passed ++ cs.take (i + 2 + j + 2)) (cs.drop (i + 2 + j + 2))
      rw [hrest] at hlast ⊢
      simpa using hlast
    · exact .inr ⟨_ :: _ :: init, place, congrArg (_ :: _ :: ·) hall⟩

/-- The last literal of the first text and the first one of the second become one, and all other
fragments stay as they are. -/
theorem cut_append {passed : List Char} {last first : String} {more : List Fragment}
    (hlast : (cut passed a).getLast? = some (.literal last))
    (hfirst : cut (passed ++ a) b = .literal first :: more)
    (hborder : ¬(last.toList.getLast? = some '{' ∧ b.head? = some '{')) :
    ∃ init, cut passed a = init ++ [.literal last] ∧
      cut passed (a ++ b) = init ++ .literal (last ++ first) :: more := by
  fun_induction cut passed a with
  | case1 passed a hopen =>
    -- the first text is all literal, so the first fragments of the second follow it at once
    obtain rfl : String.ofList a = last := by simpa using hlast
    rw [String.toList_ofList] at hborder
    refine ⟨[], rfl, ?_⟩
    have hopen' := firstAt_append_of_none hopen hborder
    cases hb : firstAt tokenOpen b with
    | none =>
      rw [hb] at hopen'
      rw [cut_of_plain hb] at hfirst
      obtain ⟨⟨rfl⟩, rfl⟩ := List.cons.inj hfirst
      rw [cut_of_plain hopen', String.ofList_append]
      rfl
    | some i =>
      rw [hb] at hopen'
      have htake (n : Nat) : (a ++ b).take (a.length + n) = a ++ b.take n :=
        List.take_length_add_append n
      have hdrop (n : Nat) : (a ++ b).drop (a.length + n) = b.drop n :=
        List.drop_length_add_append n
      cases hclose : firstAt tokenClose (b.drop (i + 2)) with
      | none =>
        rw [cut_of_unclosed hb hclose] at hfirst
        obtain ⟨⟨rfl⟩, rfl⟩ := List.cons.inj hfirst
        rw [cut_of_unclosed hopen' (by rw [Nat.add_assoc, hdrop, hclose]), htake,
          String.ofList_append, List.append_assoc]
        rfl
      | some j =>
        rw [cut_of_token hb hclose] at hfirst
        obtain ⟨⟨rfl⟩, rfl⟩ := List.cons.inj hfirst
        rw [cut_of_token hopen' (by rw [Nat.add_assoc, hdrop, hclose])]
        simp only [Nat.add_assoc, htake, hdrop, String.ofList_append, List.append_assoc,
          List.nil_append]
  | case2 passed a i hopen hclose => simp at hlast
  | case3 passed a i hopen j hclose ih =>
    have hlast' : (cut (passed ++ a.take (i + 2 + j + 2)) (a.drop (i + 2 + j + 2))).getLast? =
        some (.literal last) := by
      obtain ⟨text, rest, hrest⟩ :=
        exists_cut_eq_cons (passed ++ a.take (i + 2 + j + 2)) (a.drop (i + 2 + j + 2))
      rw [hrest] at hlast ⊢
      simpa using hlast
    obtain ⟨init, hinit, happend⟩ := ih hlast'
      (by rwa [List.append_assoc, List.take_append_drop])
    -- the token of the first text lies within it, and so do its delimiters
    have hin : i + 2 + j + 2 ≤ a.length := by
      have hlength := congrArg List.length (drop_of_firstAt hclose)
      have hlt := firstAt_lt hclose
      simp only [List.length_drop, List.length_append, tokenClose, List.length_cons,
        List.length_nil] at hlength hlt
      omega
    have hdrop {n : Nat} (hn : n ≤ a.length) : (a ++ b).drop n = a.drop n ++ b :=
      List.drop_append_of_le_length hn
    have htake {n : Nat} (hn : n ≤ a.length) : (a ++ b).take n = a.take n :=
      List.take_append_of_le_length hn
    have hclose' : firstAt tokenClose ((a ++ b).drop (i + 2)) = some j := by
      rw [hdrop (by omega)]
      exact firstAt_append_of_some hclose
    refine ⟨_ :: _ :: init, congrArg (_ :: _ :: ·) hinit, ?_⟩
    rw [cut_of_token (firstAt_append_of_some hopen) hclose', hdrop hin, htake hin,
      htake (by omega : i ≤ a.length), hdrop (by omega : i + 2 ≤ a.length), happend,
      List.take_append_of_le_length (by simp only [List.length_drop]; omega)]
    rfl

end Fragment

/-- The text behind the last token of a text, up to its end. -/
def lastLiteral (text : String) : String :=
  match (Fragment.ofText text).getLast? with
  | some (.literal last) => last
  | _ => ""

/-- Two texts whose border forms neither an opening nor a line break of both. -/
structure Seam (a b : String) : Prop where
  opening : ¬((lastLiteral a).toList.getLast? = some '{' ∧ b.toList.head? = some '{')
  unsplit : Unsplit a.toList b.toList

namespace Renderer

variable {r : Renderer} {file : Path} {origin : Position}

/-- What stands before a text only moves the position that the text starts at. -/
theorem mapM_cut_passed {p q cs : List Char} (h : Unsplit p (q ++ cs)) :
    (Fragment.cut (p ++ q) cs).mapM (r.fragment file origin) =
      (Fragment.cut q cs).mapM (r.fragment file (origin.behind p)) := by
  fun_induction Fragment.cut q cs with
  | case1 q cs hopen => rw [Fragment.cut_of_plain hopen]; rfl
  | case2 q cs i hopen hclose =>
    have hstart : r.fragment file origin (.unclosed (.behind (p ++ (q ++ cs.take i)))) =
        r.fragment file (origin.behind p) (.unclosed (.behind (q ++ cs.take i))) :=
      congrArg (fun start => Expansion.reported ⟨file, start⟩ "No matching block end.")
        (origin.behind_append (h.take i))
    rw [Fragment.cut_of_unclosed hopen hclose, List.append_assoc, List.mapM_cons, List.mapM_cons,
      List.mapM_cons, List.mapM_cons, hstart]
    rfl
  | case3 q cs i hopen j hclose ih =>
    have hstart (body : String) :
        r.fragment file origin (.token body (.behind (p ++ (q ++ cs.take i)))) =
          r.fragment file (origin.behind p) (.token body (.behind (q ++ cs.take i))) :=
      congrArg (fun start => r.token ⟨file, start⟩ body) (origin.behind_append (h.take i))
    rw [Fragment.cut_of_token hopen hclose, List.append_assoc, List.append_assoc, List.mapM_cons,
      List.mapM_cons, List.mapM_cons, List.mapM_cons, hstart,
      ih (by rwa [List.append_assoc, List.take_append_drop])]
    rfl

/-- A text whose rendering succeeds ends with a literal. -/
theorem getLast?_of_rendered {text out : String} {s t : Expansion}
    (h : (r.renderAt file origin text).outcome s = (.ok out, t)) :
    (Fragment.ofText text).getLast? = some (.literal (lastLiteral text)) := by
  rcases Fragment.getLast?_cut [] text.toList with ⟨last, hlast⟩ | ⟨init, place, hall⟩
  · rw [← Fragment.ofText_eq_cut] at hlast
    simp only [lastLiteral, hlast]
  · -- the token without an end is reported when its turn comes
    have hfails : Triple (fun _ => True) (r.renderAt file origin text) (fun _ _ => False)
        fun _ => True := by
      simp only [renderAt, Fragment.ofText_eq_cut, hall, List.mapM_append, List.mapM_cons,
        bind_assoc]
      exact (Triple.trivial _ _).bind fun _ => (Expansion.reported_triple _ _).bind
        fun _ => fun _ hno => hno.elim
    exact (hfails.of_outcome True.intro h).elim

/-- Two texts with a seam between them render one after the other, the second from the position where
the first one ends. Both runs go through one state: the second writes to the journal behind the first
one, and takes the identifiers that the first one left. -/
theorem renderAt_append (r : Renderer) (file : Path) (origin : Position) {a b out : String}
    {s t : Expansion} (ha : (r.renderAt file origin a).outcome s = (.ok out, t)) (hseam : Seam a b) :
    (r.renderAt file origin (a ++ b)).outcome s =
      match (r.renderAt file (origin.behind a.toList) b).outcome t with
      | (.ok rest, u) => (.ok (out ++ rest), u)
      | (.error failure, u) => (.error failure, u) := by
  have hlast := getLast?_of_rendered ha
  rw [Fragment.ofText_eq_cut] at hlast
  obtain ⟨first, more, hfirst⟩ := Fragment.exists_cut_eq_cons ([] ++ a.toList) b.toList
  -- the literals at the seam become one, and what they render to is joined either way
  obtain ⟨init, hinit, happend⟩ := Fragment.cut_append hlast hfirst hseam.opening
  have hrest : (Fragment.cut ([] ++ a.toList) b.toList).mapM (r.fragment file origin) =
      (Fragment.cut [] b.toList).mapM (r.fragment file (origin.behind a.toList)) := by
    rw [← mapM_cut_passed hseam.unsplit, List.append_nil, List.nil_append]
  have hliteral (start : Position) (text : String) :
      r.fragment file start (.literal text) = pure text := rfl
  have hwhole : r.renderAt file origin (a ++ b) = (do
      let out ← r.renderAt file origin a
      let rest ← r.renderAt file (origin.behind a.toList) b
      return out ++ rest) := by
    simp only [renderAt, Fragment.ofText_eq_cut, String.toList_append, happend, hinit, ← hrest,
      hfirst, List.mapM_append, List.mapM_cons, List.mapM_nil, hliteral, bind_assoc, pure_bind,
      String.join_append, String.join_cons, String.append_assoc, String.join_nil,
      String.empty_append]
  rw [hwhole, Attempt.outcome_bind, ha]
  simp only [Attempt.outcome_bind]
  cases (r.renderAt file (origin.behind a.toList) b).outcome t with
  | mk result u => cases result <;> rfl

/-- A text that is cut behind a brace, some lines into a file: identifiers are counted through both
parts, and what the second part says is said of the whole file's lines. -/
theorem renderAt_append_numbered :
    ∃ (r : Renderer) (a b : String) (s t : Expansion),
      (r.renderAt ⟨"f.txt"⟩ ⟨3, 5⟩ a).outcome s = (.ok "x\r\n$guid1$ \x7b", t) ∧ Seam a b ∧
        (Position.mk 3 5).behind a.toList = ⟨4, 15⟩ ∧
        ((r.renderAt ⟨"f.txt"⟩ ⟨4, 15⟩ b).outcome t).1 = .ok "y\r$guid2$\n" ∧
        ((r.renderAt ⟨"f.txt"⟩ ⟨3, 5⟩ (a ++ b)).outcome s).1 =
          .ok "x\r\n$guid1$ \x7by\r$guid2$\n" ∧
        ((r.renderAt ⟨"f.txt"⟩ ⟨3, 5⟩ (a ++ b)).outcome s).2.journal.records =
          [⟨.error, "Variable 'z' does not exist.", some ⟨⟨"f.txt"⟩, ⟨6, 1⟩⟩⟩] := by
  let r : Renderer := ⟨⟨[]⟩, .parameters, .proceed, 2031⟩
  let a := "x\r\n\x7b\x7b#newGuid\x7d\x7d \x7b"
  let b := "y\r\x7b\x7b #newGuid \x7d\x7d\n\x7b\x7bz\x7d\x7d"
  have ha : (r.renderAt ⟨"f.txt"⟩ ⟨3, 5⟩ a).outcome ⟨{}, ⟨7, 0⟩, 1⟩ =
      (.ok "x\r\n$guid1$ \x7b", ((r.renderAt ⟨"f.txt"⟩ ⟨3, 5⟩ a).outcome ⟨{}, ⟨7, 0⟩, 1⟩).2) :=
    Prod.ext (by decide +kernel) rfl
  have hseam : Seam a b := ⟨by decide +kernel, by decide +kernel⟩
  have hb : ((r.renderAt ⟨"f.txt"⟩ ⟨4, 15⟩ b).outcome
      ((r.renderAt ⟨"f.txt"⟩ ⟨3, 5⟩ a).outcome ⟨{}, ⟨7, 0⟩, 1⟩).2) =
        (.ok "y\r$guid2$\n", ((r.renderAt ⟨"f.txt"⟩ ⟨4, 15⟩ b).outcome
          ((r.renderAt ⟨"f.txt"⟩ ⟨3, 5⟩ a).outcome ⟨{}, ⟨7, 0⟩, 1⟩).2).2) :=
    Prod.ext (by decide +kernel) rfl
  have hbehind : (Position.mk 3 5).behind a.toList = ⟨4, 15⟩ := by decide +kernel
  have hall := renderAt_append r ⟨"f.txt"⟩ ⟨3, 5⟩ ha hseam
  rw [hbehind, hb] at hall
  refine ⟨r, a, b, ⟨{}, ⟨7, 0⟩, 1⟩, _, ha, hseam, hbehind, congrArg Prod.fst hb, ?_, ?_⟩
  · rw [hall]
    decide +kernel
  · rw [hall]
    decide +kernel

end Renderer

end Stencil
