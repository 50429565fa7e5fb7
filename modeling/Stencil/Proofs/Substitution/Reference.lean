import Stencil.Proofs.Scanner.Reading
import Stencil.Proofs.Substitution.Meaning

namespace Stencil

namespace Renderer

/-- The text with its tokens substituted, given what was passed over before it, or the position of an
opening without a closing. -/
def substitute (r : Renderer) (passed : List Char) (supply : Supply) (cs : List Char) :
    Except Position String × Supply :=
  match firstAt tokenOpen cs with
  | none => (.ok (String.ofList cs), supply)
  | some i =>
    match _ : firstAt tokenClose (cs.drop (i + 2)) with
    | none => (.error (positionBehind (passed ++ cs.take i)), supply)
    | some j =>
      let token := Text.trim (String.ofList ((cs.drop (i + 2)).take j))
      let stands := r.meaning supply token
      let rest := r.substitute (passed ++ cs.take (i + 2 + j + 2)) stands.2
        (cs.drop (i + 2 + j + 2))
      (rest.1.map fun more => String.ofList (cs.take i) ++ stands.1 ++ more, rest.2)
termination_by cs.length
decreasing_by
  have := firstAt_lt (by assumption)
  simp only [List.length_drop] at this ⊢
  omega

/-- The failure with which an opening at a position of a file is reported. -/
def unclosed (file : Path) (position : Position) : Failure :=
  .reported ⟨.error, "No matching block end.", some ⟨file, position⟩⟩

end Renderer

namespace Scanner

variable {s : Scanner} {passed : List Char}

theorem tokenOpen_subset : tokenOpen ⊆ ['{', '}'] := by decide

theorem tokenClose_subset : tokenClose ⊆ ['{', '}'] := by decide

theorem fragments_of_plain (h : firstAt tokenOpen s.rest = none) :
    s.fragments = [.literal (String.ofList s.rest)] := by
  obtain ⟨hbefore, hfound⟩ := readTo_of_none tokenOpen_subset h
  rw [fragments]
  simp [hbefore, hfound]

/-- The scanner behind the first opening. -/
theorem opened (hs : s.Behind passed) {i : Nat} (h : firstAt tokenOpen s.rest = some i) :
    (s.readTo tokenOpen).before = s.rest.take i ∧ (s.readTo tokenOpen).found = true ∧
      (s.readTo tokenOpen).after.rest = s.rest.drop (i + 2) ∧
      (s.readTo tokenOpen).after.mark =
        ⟨lineBreaks (passed ++ s.rest.take i), lastLine (passed ++ s.rest.take i)⟩ ∧
      (s.readTo tokenOpen).after.Behind (passed ++ s.rest.take (i + 2)) := by
  have hmark := mark_readTo tokenOpen_subset (by decide) h hs
  have hbehind := behind_readTo tokenOpen_subset (by decide) h hs
  rw [readTo_of_some tokenOpen_subset (by decide) h] at hmark hbehind ⊢
  exact ⟨rfl, rfl, rfl, hmark, hbehind⟩

theorem fragments_of_unclosed (hs : s.Behind passed) {i : Nat}
    (h : firstAt tokenOpen s.rest = some i)
    (hclose : firstAt tokenClose (s.rest.drop (i + 2)) = none) :
    s.fragments = [.literal (String.ofList (s.rest.take i)),
      .unclosed ⟨lineBreaks (passed ++ s.rest.take i), lastLine (passed ++ s.rest.take i)⟩] := by
  obtain ⟨hbefore, hfound, hrest, hmark, -⟩ := opened hs h
  obtain ⟨-, hmissing⟩ := readTo_of_none tokenClose_subset (hrest ▸ hclose)
  rw [fragments]
  simp [hbefore, hfound, hmark, hmissing]

theorem fragments_of_token (hs : s.Behind passed) {i j : Nat}
    (h : firstAt tokenOpen s.rest = some i)
    (hclose : firstAt tokenClose (s.rest.drop (i + 2)) = some j) :
    ∃ after : Scanner, after.rest = s.rest.drop (i + 2 + j + 2) ∧
      after.Behind (passed ++ s.rest.take (i + 2 + j + 2)) ∧
      s.fragments = .literal (String.ofList (s.rest.take i)) ::
        .token (Text.trim (String.ofList ((s.rest.drop (i + 2)).take j)))
          ⟨lineBreaks (passed ++ s.rest.take i), lastLine (passed ++ s.rest.take i)⟩ ::
        after.fragments := by
  obtain ⟨hbefore, hfound, hrest, hmark, hbehind⟩ := opened hs h
  rw [← hrest] at hclose
  have hnext := behind_readTo tokenClose_subset (by decide) hclose hbehind
  have hread := readTo_of_some tokenClose_subset (by decide) hclose
  refine ⟨((s.readTo tokenOpen).after.readTo tokenClose).after, ?_, ?_, ?_⟩
  · rw [hread]
    simp only [hrest, List.drop_drop]
    congr 1
  · rw [hrest, List.append_assoc, ← List.take_add] at hnext
    exact hnext
  · rw [fragments]
    have hfound' : ((s.readTo tokenOpen).after.readTo tokenClose).found = true := by rw [hread]
    have hbefore' : ((s.readTo tokenOpen).after.readTo tokenClose).before =
        (s.rest.drop (i + 2)).take j := by rw [hread, hrest]
    simp [hbefore, hfound, hmark, hfound', hbefore', Text.trim]

end Scanner

namespace Renderer

variable {r : Renderer}

/-- Expanding fragments ends as a reference result says. -/
def Agrees (file : Path) (result : Except Failure (List String) × Expansion)
    (reference : Except Position String × Supply) : Prop :=
  result.1.map String.join = reference.1.mapError (unclosed file) ∧
    result.2.supply = reference.2

theorem outcome_mapM_cons {σ α β : Type} {f : α → Attempt σ β} {a : α} {b : β} {s t : σ}
    (h : f a s = .ok b t) (l : List α) :
    Attempt.outcome ((a :: l).mapM f) s =
      ((Attempt.outcome (l.mapM f) t).1.map (b :: ·), (Attempt.outcome (l.mapM f) t).2) := by
  rw [List.mapM_cons]
  simp only [Attempt.outcome, Bind.bind, EStateM.bind, h]
  cases List.mapM f l t <;> rfl

theorem fragment_literal (file : Path) (text : String) (e : Expansion) :
    r.fragment file .start (.literal text) e = .ok text e := rfl

theorem fragment_unclosed (file : Path) (passed : List Char) {e : Expansion} (he : e.Lenient) :
    ∃ e', r.fragment file .start (.unclosed ⟨lineBreaks passed, lastLine passed⟩) e =
      .error (unclosed file (positionBehind passed)) e' ∧ e'.supply = e.supply := by
  obtain ⟨j', hj, -⟩ := Journal.emit_of_lenient
    ⟨.error, "No matching block end.", some ⟨file, positionBehind passed⟩⟩ he
  refine ⟨{ e with journal := j' }, ?_, rfl⟩
  simp only [fragment, Expansion.reported, Expansion.journaled, Attempt.onPart, Journal.reported,
    offset_start, Bind.bind, EStateM.bind, hj]
  rfl

theorem map_join_cons {file : Path} {parts : Except Failure (List String)}
    {reference : Except Position String}
    (h : parts.map String.join = reference.mapError (unclosed file)) (before text : String) :
    ((parts.map (text :: ·)).map (before :: ·)).map String.join =
      (reference.map fun more => before ++ text ++ more).mapError (unclosed file) := by
  cases parts with
  | error failure =>
    cases reference with
    | error position => exact h
    | ok more => cases h
  | ok parts =>
    cases reference with
    | error position => cases h
    | ok more =>
      have hmore : String.join parts = more := Except.ok.inj h
      simp [Except.map, Except.mapError, String.join_cons, hmore, String.append_assoc]

/-- Induction on the text: the scanner is behind what was passed, and the state has the supply that
is left. -/
theorem agrees_substitute (hr : r.unresolved = .proceed) (file : Path) {passed : List Char}
    {supply : Supply} {cs : List Char} {s : Scanner} (hrest : s.rest = cs) (hs : s.Behind passed)
    {e : Expansion} (he : e.Lenient) (hsupply : e.supply = supply) :
    Agrees file (Attempt.outcome (s.fragments.mapM (r.fragment file .start)) e)
      (r.substitute passed supply cs) := by
  fun_induction r.substitute passed supply cs generalizing s e with
  | case1 passed supply cs hopen =>
    subst hrest
    rw [Scanner.fragments_of_plain hopen, outcome_mapM_cons (fragment_literal file _ e)]
    exact ⟨by simp [Attempt.outcome, Except.map, Except.mapError, String.join, Pure.pure,
      EStateM.pure], hsupply⟩
  | case2 passed supply cs i hopen hclose =>
    -- the text before the opening is expanded, and then the run of fragments fails
    subst hrest
    obtain ⟨e', hfail, hsame⟩ := fragment_unclosed (r := r) file (passed ++ s.rest.take i) he
    rw [Scanner.fragments_of_unclosed hs hopen hclose,
      outcome_mapM_cons (fragment_literal file _ e), List.mapM_cons]
    simp only [Attempt.outcome, Bind.bind, EStateM.bind, hfail]
    exact ⟨rfl, hsame.trans hsupply⟩
  | case3 passed supply cs i hopen j hclose token stands rest =>
    -- the token gives its meaning, and the rest follows by induction from behind the closing
    rename_i ih
    subst hrest
    obtain ⟨after, hafter, hbehind, hfragments⟩ := Scanner.fragments_of_token hs hopen hclose
    obtain ⟨e', htoken, hnext, he'⟩ := gives_token hr
      ⟨file, positionBehind (passed ++ s.rest.take i)⟩ token he
    rw [hsupply] at htoken hnext
    have hfragment : r.fragment file .start (.token token
        ⟨lineBreaks (passed ++ s.rest.take i), lastLine (passed ++ s.rest.take i)⟩) e =
          .ok stands.1 e' := by
      simpa only [fragment, offset_start] using htoken
    obtain ⟨hout, hstate⟩ := ih hafter hbehind he' hnext
    rw [hfragments, outcome_mapM_cons (fragment_literal file _ e), outcome_mapM_cons hfragment]
    exact ⟨map_join_cons hout _ _, hstate⟩

/-- Rendering a text substitutes its tokens as the reference definition says. It fails exactly where
that finds an opening without a closing, with the position of the opening. -/
theorem render_eq_substitute (hr : r.unresolved = .proceed) {e : Expansion}
    (he : e.journal.strict = false) (file : Path) (text : String) :
    ((r.render file text).outcome e).1 =
        (r.substitute [] e.supply text.toList).1.mapError (unclosed file) ∧
      ((r.render file text).outcome e).2.supply = (r.substitute [] e.supply text.toList).2 := by
  obtain ⟨hout, hstate⟩ := agrees_substitute hr file rfl (Scanner.behind_ofText text) he rfl
  have hrender : (r.render file text).outcome e =
      ((Attempt.outcome ((Fragment.ofText text).mapM (r.fragment file .start)) e).1.map String.join,
        (Attempt.outcome ((Fragment.ofText text).mapM (r.fragment file .start)) e).2) := by
    simp only [render, renderAt, Attempt.outcome, Bind.bind, EStateM.bind]
    cases List.mapM (r.fragment file .start) (Fragment.ofText text) e <;> rfl
  rw [hrender]
  exact ⟨hout, hstate⟩

/-- A variable without a semantic, whose value looks like a token, and one with every kind of semantic. -/
def everySemantic : VariableStore := ⟨[
  { name := "x", value := "\x7b\x7by\x7d\x7d" },
  { name := "app", value := "App", semantic := some "projectName" },
  { name := "firm", value := "Firm", semantic := some "organization" },
  { name := "team", value := "Team", semantic := some "team" },
  { name := "city", value := "Rome", semantic := some "" }]⟩

/-- A value is not scanned again, an undeclared name stands for nothing, and an opening without a
closing is reported where it stands. For a development environment a semantic takes the place of the
value, and identifiers and the year are left to it. -/
theorem render_every_token :
    Renderer.unresolved ⟨everySemantic, .values, .proceed, 2031⟩ = .proceed ∧
      Renderer.unresolved ⟨everySemantic, .parameters, .proceed, 2031⟩ = .proceed ∧
      (Expansion.mk {} ⟨7, 0⟩ 1).journal.strict = false ∧
      ((render ⟨everySemantic, .values, .proceed, 2031⟩ ⟨"f.txt"⟩
          "\x7b\x7b x \x7d\x7d|\x7b\x7b\x7bx\x7d\x7d|\x7b\x7bapp\x7d\x7d \x7b\x7b#year\x7d\x7d").outcome
          ⟨{}, ⟨7, 0⟩, 1⟩).1 = .ok "\x7b\x7by\x7d\x7d||App 2031" ∧
      ((render ⟨everySemantic, .values, .proceed, 2031⟩ ⟨"f.txt"⟩
          "\x7b\x7b#newGuid\x7d\x7d").outcome ⟨{}, ⟨7, 0⟩, 1⟩).1 =
        .ok "00000000-0000-4000-8000-000000000007" ∧
      ((render ⟨everySemantic, .values, .proceed, 2031⟩ ⟨"f.txt"⟩
          "\x7b\x7bx\x7d\x7d\r\n \x7b\x7bx").outcome ⟨{}, ⟨7, 0⟩, 1⟩).1 =
        .error (unclosed ⟨"f.txt"⟩ ⟨2, 2⟩) ∧
      ((render ⟨everySemantic, .parameters, .proceed, 2031⟩ ⟨"f.txt"⟩
          "\x7b\x7bapp\x7d\x7d \x7b\x7bfirm\x7d\x7d \x7b\x7bteam\x7d\x7d \x7b\x7bcity\x7d\x7d \x7b\x7bx\x7d\x7d").outcome
          ⟨{}, ⟨7, 0⟩, 1⟩).1 =
        .ok "$safeprojectname$ $registeredorganization$  Rome \x7b\x7by\x7d\x7d" ∧
      ((render ⟨everySemantic, .parameters, .proceed, 2031⟩ ⟨"f.txt"⟩
          "\x7b\x7b#newGuid\x7d\x7d \x7b\x7b#newGuid\x7d\x7d \x7b\x7b#year\x7d\x7d").outcome
          ⟨{}, ⟨7, 0⟩, 1⟩).1 = .ok "$guid1$ $guid2$ $year$" :=
  ⟨rfl, rfl, rfl, (render_eq_substitute rfl rfl _ _).1.trans (by decide +kernel),
    (render_eq_substitute rfl rfl _ _).1.trans (by decide +kernel),
    (render_eq_substitute rfl rfl _ _).1.trans (by decide +kernel),
    (render_eq_substitute rfl rfl _ _).1.trans (by decide +kernel),
    (render_eq_substitute rfl rfl _ _).1.trans (by decide +kernel)⟩

end Renderer

end Stencil
