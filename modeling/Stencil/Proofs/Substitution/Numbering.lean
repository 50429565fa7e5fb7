import Stencil.Proofs.Comparison.Journal
import Stencil.Proofs.Comparison.Lifting
import Stencil.Proofs.Leaving

namespace Stencil

/-- The parameter for the identifier of a number. -/
def guidParameter (number : Fin UInt32.size) : String := parameter s!"guid{number}"

/-- A number that is so many after another one. -/
def ahead (number : Fin UInt32.size) : Nat → Fin UInt32.size
  | 0 => number
  | n + 1 => ahead (numberAfter number) n

/-- Numbers wrap around, so they are those of counting as long as they are small. -/
theorem val_ahead (number : Fin UInt32.size) (n : Nat) :
    (ahead number n).val = (number.val + n) % UInt32.size := by
  induction n generalizing number with
  | zero => exact (Nat.mod_eq_of_lt number.isLt).symm
  | succ n ih =>
    have hsucc : (numberAfter number).val = (number.val + 1) % UInt32.size := rfl
    calc (ahead (numberAfter number) n).val
        = ((number.val + 1) % UInt32.size + n) % UInt32.size := by rw [ih, hsucc]
      _ = (number.val + (n + 1)) % UInt32.size := by rw [Nat.mod_add_mod, Nat.add_assoc, Nat.add_comm 1]

/-- Results that are the parameters from a number on, and the number behind them. -/
inductive Numbered : Fin UInt32.size → List (Except Failure String) → Fin UInt32.size → Prop
  | nil {number : Fin UInt32.size} : Numbered number [] number
  | cons {number last : Fin UInt32.size} {rest : List (Except Failure String)}
    (h : Numbered (numberAfter number) rest last) :
    Numbered number (.ok (guidParameter number) :: rest) last

namespace Numbered

variable {number next last : Fin UInt32.size} {results more : List (Except Failure String)}

theorem append (h : Numbered number results next) (h' : Numbered next more last) :
    Numbered number (results ++ more) last := by
  induction h with
  | nil => exact h'
  | cons _ ih => exact .cons (ih h')

theorem eq_map (h : Numbered number results last) :
    results = (List.range results.length).map (fun i => .ok (guidParameter (ahead number i))) ∧
      last = ahead number results.length := by
  -- the positions behind the first are those of the rest, counted from the next number
  induction h with
  | nil => exact ⟨rfl, rfl⟩
  | @cons number _ rest _ ih =>
    refine ⟨?_, ih.2⟩
    rw [List.length_cons, List.range_succ_eq_map, List.map_cons, List.map_map]
    exact congrArg (_ :: ·) ih.1

end Numbered

/-- Whether a fragment asks for a new identifier. -/
def Fragment.asksForGuid : Fragment → Bool
  | .token body _ => body == "#newGuid"
  | _ => false

namespace Renderer

variable {r : Renderer} {file : Path} {origin : Position} {fragments : List Fragment} {e : Expansion}

/-- The fragments that an expansion reaches, with what becomes of each. Behind one that fails there is
none. -/
def reached (r : Renderer) (file : Path) (origin : Position) :
    List Fragment → Expansion → List (Fragment × Except Failure String)
  | [], _ => []
  | f :: rest, e =>
    match (r.fragment file origin f).outcome e with
    | (.ok text, next) => (f, .ok text) :: r.reached file origin rest next
    | (.error failure, _) => [(f, .error failure)]

theorem reached_isPrefix (r : Renderer) (file : Path) (origin : Position) (fragments : List Fragment)
    (e : Expansion) : (r.reached file origin fragments e).map (·.1) <+: fragments := by
  induction fragments generalizing e with
  | nil => exact List.nil_prefix
  | cons f rest ih =>
    unfold reached
    split
    · exact List.cons_prefix_cons.mpr ⟨rfl, ih _⟩
    · exact List.cons_prefix_cons.mpr ⟨rfl, List.nil_prefix⟩

/-- An expansion that comes to its end reaches all fragments. -/
theorem map_reached_of_ok {texts : List String} (h :
    ((fragments.mapM (r.fragment file origin)).outcome e).1 = .ok texts) :
    (r.reached file origin fragments e).map (·.1) = fragments := by
  induction fragments generalizing e texts with
  | nil => rfl
  | cons f rest ih =>
    rw [List.mapM_cons] at h
    obtain ⟨text, next, hf, hrest⟩ := Attempt.outcome_bind_eq_ok_iff.mp (Prod.ext h rfl)
    obtain ⟨more, last, hmore, -⟩ := Attempt.outcome_bind_eq_ok_iff.mp hrest
    rw [reached, hf]
    dsimp only
    rw [List.map_cons, ih (congrArg Prod.fst hmore)]

/-- What becomes of the fragments that are reached is what becomes of all. -/
theorem outcome_mapM_fragment (r : Renderer) (file : Path) (origin : Position)
    (fragments : List Fragment) (e : Expansion) :
    ((fragments.mapM (r.fragment file origin)).outcome e).1 =
      (r.reached file origin fragments e).mapM (·.2) := by
  induction fragments generalizing e with
  | nil => rfl
  | cons f rest ih =>
    unfold reached
    rw [List.mapM_cons, Attempt.outcome_bind]
    split
    · next text next hf =>
      rw [hf, List.mapM_cons, ← ih next]
      dsimp only
      rw [Attempt.outcome_bind]
      generalize (rest.mapM (r.fragment file origin)).outcome next = left
      obtain ⟨result, last⟩ := left
      cases result <;> rfl
    · next failure next hf =>
      rw [hf]
      rfl

theorem leaves_journaled {α : Type} (x : Attempt Journal α) :
    Leaves Expansion.nextParameter (Expansion.journaled x) := by
  intro e
  rw [Expansion.outcome_journaled]
  rfl

theorem leaves_sayAt {α : Type} (level : Level) (location : Location) (message : String) (a : α) :
    Leaves Expansion.nextParameter (do Expansion.sayAt level location message; pure a) :=
  (leaves_journaled _).bind fun _ => Leaves.pure a

theorem leaves_declared (r : Renderer) (location : Location) (token : String) (v : Variable) :
    Leaves Expansion.nextParameter (r.declared location token v) := by
  unfold declared
  split
  · unfold parameterFor
    split
    · exact Leaves.pure _
    · exact leaves_sayAt _ _ _ _
  · unfold valueOf
    exact Leaves.ite (leaves_sayAt _ _ _ _) (leaves_sayAt _ _ _ _)

theorem leaves_undeclared (r : Renderer) (location : Location) (token : String) :
    Leaves Expansion.nextParameter (r.undeclared location token) := by
  unfold undeclared
  cases r.unresolved with
  | proceed => exact leaves_sayAt _ _ _ _
  | skipFile => exact leaves_journaled _

/-- Nothing but a token that asks for an identifier counts, whether it can be expanded or not. -/
theorem leaves_fragment {f : Fragment} (h : f.asksForGuid = false) (r : Renderer) (file : Path)
    (origin : Position) : Leaves Expansion.nextParameter (r.fragment file origin f) := by
  cases f with
  | literal text => exact Leaves.pure text
  | unclosed place => exact leaves_journaled _
  | token body place =>
    have hbody : body ≠ "#newGuid" := by simpa [Fragment.asksForGuid] using h
    unfold fragment Renderer.token
    refine Leaves.ite (leaves_sayAt _ _ _ _) (Leaves.ite ?_ ?_)
    -- of the functions, only the one for new identifiers would count
    · unfold function
      split
      · exact absurd rfl hbody
      · exact Leaves.pure _
      · exact leaves_sayAt _ _ _ _
    · split
      · exact leaves_undeclared r _ _
      · exact leaves_declared r _ _ _

/-- A token that asks for an identifier gets the next one. Saying so never fails, for it is no error. -/
theorem fragment_of_asksForGuid (hr : r.expander = .parameters) {f : Fragment}
    (h : f.asksForGuid = true) (file : Path) (origin : Position) (e : Expansion) :
    ∃ next, (r.fragment file origin f).outcome e = (.ok (guidParameter e.nextParameter), next) ∧
      next.nextParameter = numberAfter e.nextParameter := by
  cases f with
  | literal text => cases h
  | unclosed place => cases h
  | token body place =>
    obtain rfl : body = "#newGuid" := by simpa [Fragment.asksForGuid] using h
    -- the number is taken first, and then it is said to whom it was given
    let drawn : Expansion := { e with nextParameter := numberAfter e.nextParameter }
    have hdraw : r.newGuid.outcome e = (.ok (guidParameter e.nextParameter), drawn) := by
      unfold newGuid Attempt.outcome
      rw [hr]
      rfl
    have hsay (location : Location) (message : String) :
        (Expansion.sayAt .verbose location message).outcome drawn =
          (.ok (), drawn.under (drawn.journal.publishFrom ⟨.verbose, message, some location⟩)) := by
      rw [Expansion.sayAt, Expansion.outcome_journaled, Journal.sayAt, Journal.outcome_emit,
        if_neg nofun, if_neg nofun]
    have hfunction (location : Location) : ∃ j,
        (r.function location "#newGuid").outcome e =
          (.ok (guidParameter e.nextParameter), drawn.under j) := by
      unfold function
      simp only
      rw [Attempt.outcome_bind, hdraw]
      dsimp only
      rw [Attempt.outcome_bind, hsay]
      exact ⟨_, rfl⟩
    obtain ⟨j, hfragment⟩ := hfunction ⟨file, origin.offset place.line place.column⟩
    exact ⟨drawn.under j, hfragment, rfl⟩

/-- What becomes of the fragments that ask for an identifier. -/
def newGuids (reached : List (Fragment × Except Failure String)) : List (Except Failure String) :=
  (reached.filter (·.1.asksForGuid)).map (·.2)

theorem newGuids_of_asking {f : Fragment} (h : f.asksForGuid = true) (result : Except Failure String)
    (rest : List (Fragment × Except Failure String)) :
    newGuids ((f, result) :: rest) = result :: newGuids rest := by
  unfold newGuids
  rw [List.filter_cons_of_pos (by exact h), List.map_cons]

theorem newGuids_of_idle {f : Fragment} (h : ¬ f.asksForGuid = true) (result : Except Failure String)
    (rest : List (Fragment × Except Failure String)) :
    newGuids ((f, result) :: rest) = newGuids rest := by
  unfold newGuids
  rw [List.filter_cons_of_neg (by exact h)]

/-- However far an expansion comes, the tokens that it reaches are numbered from where it begins. -/
theorem numbered_reached (hr : r.expander = .parameters) (file : Path) (origin : Position)
    (fragments : List Fragment) (e : Expansion) :
    Numbered e.nextParameter (newGuids (r.reached file origin fragments e))
      ((fragments.mapM (r.fragment file origin)).outcome e).2.nextParameter := by
  induction fragments generalizing e with
  | nil => exact .nil
  | cons f rest ih =>
    -- the counter behind the first fragment is where the others are numbered from
    have hrest {text : String} {next : Expansion}
        (hf : (r.fragment file origin f).outcome e = (.ok text, next)) :
        (((f :: rest).mapM (r.fragment file origin)).outcome e).2 =
          ((rest.mapM (r.fragment file origin)).outcome next).2 := by
      rw [List.mapM_cons, Attempt.outcome_bind, hf]
      dsimp only
      rw [Attempt.outcome_bind]
      split
      · next hrun => rw [hrun]; rfl
      · next hrun => rw [hrun]
    by_cases hguid : f.asksForGuid = true
    -- such a token never fails, so the number that it takes is not lost
    · obtain ⟨next, hf, hnext⟩ := fragment_of_asksForGuid hr hguid file origin e
      have hreached : r.reached file origin (f :: rest) e =
          (f, .ok (guidParameter e.nextParameter)) :: r.reached file origin rest next := by
        rw [reached, hf]
      have hnumbered := ih next
      rw [hnext] at hnumbered
      rw [hrest hf, hreached, newGuids_of_asking hguid]
      exact .cons hnumbered
    -- any other fragment leaves the number as it is, also where it ends the expansion
    · have hleaves := leaves_fragment (Bool.eq_false_iff.mpr hguid) r file origin e
      unfold reached
      split
      · next text next hf =>
        rw [hf] at hleaves
        rw [hrest hf, newGuids_of_idle hguid, ← hleaves]
        exact ih next
      · next failure next hf =>
        rw [hf] at hleaves
        have hlast : (((f :: rest).mapM (r.fragment file origin)).outcome e).2 = next := by
          rw [List.mapM_cons, Attempt.outcome_bind, hf]
        rw [hlast, newGuids_of_idle hguid, ← hleaves]
        exact .nil

end Renderer

/-- A text that is expanded, where it comes from, and the state that its expansion begins in. -/
structure Rendering where
  file : Path
  origin : Position
  text : String
  begun : Expansion

namespace Rendering

variable (g : Rendering) (r : Renderer)

def outcome : Except Failure String × Expansion :=
  (r.renderAt g.file g.origin g.text).outcome g.begun

/-- The fragments of the text that are reached, with what becomes of each. -/
def reached : List (Fragment × Except Failure String) :=
  r.reached g.file g.origin (Fragment.ofText g.text) g.begun

def newGuids : List (Except Failure String) := Renderer.newGuids (g.reached r)

/-- What is reached is the front of the text, and it tells how the expansion ends. -/
structure Told : Prop where
  front : (g.reached r).map (·.1) <+: Fragment.ofText g.text
  whole : ∀ out, (g.outcome r).1 = .ok out → (g.reached r).map (·.1) = Fragment.ofText g.text
  result : (g.outcome r).1 =
    ((g.reached r).mapM (·.2) : Except Failure (List String)).map String.join

theorem outcome_eq : g.outcome r =
    ((Attempt.outcome ((Fragment.ofText g.text).mapM (r.fragment g.file g.origin))
        g.begun).1.map String.join,
      (Attempt.outcome ((Fragment.ofText g.text).mapM (r.fragment g.file g.origin)) g.begun).2) := by
  unfold outcome Renderer.renderAt
  rw [Attempt.outcome_bind]
  generalize Attempt.outcome ((Fragment.ofText g.text).mapM (r.fragment g.file g.origin)) g.begun = left
  obtain ⟨result, last⟩ := left
  cases result <;> rfl

theorem told : g.Told r := by
  -- the text of an expansion is joined from what became of its fragments
  refine ⟨r.reached_isPrefix _ _ _ _, fun out hout => ?_, ?_⟩
  · rw [outcome_eq] at hout
    dsimp only at hout
    cases hrun : (((Fragment.ofText g.text).mapM (r.fragment g.file g.origin)).outcome g.begun).1 with
    | ok texts => exact Renderer.map_reached_of_ok hrun
    | error failure =>
      rw [hrun] at hout
      cases hout
  · rw [outcome_eq, Renderer.outcome_mapM_fragment]
    rfl

end Rendering

/-- Texts that one renderer expands, each with the number that the one before it left. -/
inductive Chained (r : Renderer) : Fin UInt32.size → List Rendering → Fin UInt32.size → Prop
  | nil {number : Fin UInt32.size} : Chained r number [] number
  | cons {g : Rendering} {rest : List Rendering} {last : Fin UInt32.size}
    (h : Chained r (g.outcome r).2.nextParameter rest last) :
    Chained r g.begun.nextParameter (g :: rest) last

namespace Chained

variable {r : Renderer} {number next last : Fin UInt32.size} {gs more : List Rendering}

theorem append (h : Chained r number gs next) (h' : Chained r next more last) :
    Chained r number (gs ++ more) last := by
  induction h with
  | nil => exact h'
  | cons _ ih => exact .cons (ih h')

theorem numbered (hr : r.expander = .parameters) (h : Chained r number gs last) :
    Numbered number (gs.flatMap (·.newGuids r)) last := by
  induction h with
  | nil => exact .nil
  | @cons g rest _ _ ih =>
    rw [List.flatMap_cons]
    have hfirst : Numbered g.begun.nextParameter (g.newGuids r) (g.outcome r).2.nextParameter := by
      rw [g.outcome_eq r]
      exact Renderer.numbered_reached hr g.file g.origin (Fragment.ofText g.text) g.begun
    exact hfirst.append ih

end Chained

namespace Renderer

variable (r : Renderer)

/-- Texts that are expanded in turn, each with the state that the one before it left. -/
def inTurn : List (Path × Position × String) → Expansion → List Rendering
  | [], _ => []
  | (file, origin, text) :: rest, e =>
    ⟨file, origin, text, e⟩ :: inTurn rest ((r.renderAt file origin text).outcome e).2

/-- The state behind texts that are expanded in turn. -/
def behind (calls : List (Path × Position × String)) (e : Expansion) : Expansion :=
  calls.foldl (fun e call => ((r.renderAt call.1 call.2.1 call.2.2).outcome e).2) e

theorem chained_inTurn (calls : List (Path × Position × String)) (e : Expansion) :
    Chained r e.nextParameter (r.inTurn calls e) (r.behind calls e).nextParameter := by
  induction calls generalizing e with
  | nil => exact .nil
  | cons call rest ih =>
    obtain ⟨file, origin, text⟩ := call
    exact .cons (g := ⟨file, origin, text, e⟩) (ih _)

end Renderer

theorem guidParameter_eq (number : Fin UInt32.size) :
    guidParameter number = s!"$guid{number.val}$" := by
  apply String.toList_injective
  simp [guidParameter, parameter, show toString number = toString number.val from rfl,
    show (toString "guid") = "guid" from rfl, show (toString "$guid") = "$guid" from rfl,
    show (toString "$") = "$" from rfl]

/-- Counting from one, a parameter has its own number as long as the numbers last. -/
theorem guidParameter_ahead {i : Nat} (h : i + 1 < UInt32.size) :
    guidParameter (ahead firstNumber i) = s!"$guid{i + 1}$" := by
  have hval : (ahead firstNumber i).val = i + 1 := by
    calc (ahead firstNumber i).val
        = (1 + i) % UInt32.size := val_ahead firstNumber i
      _ = i + 1 := by rw [Nat.add_comm, Nat.mod_eq_of_lt h]
  rw [guidParameter_eq, hval]

/-- Parameters with the same number are those of one position. -/
theorem eq_of_guid_eq {m n : Nat} (h : s!"$guid{m + 1}$" = s!"$guid{n + 1}$") : m = n := by
  have hdigits : Nat.toDigits 10 (m + 1) = Nat.toDigits 10 (n + 1) := by
    simpa [ToString.toString] using congrArg String.toList h
  have hsucc : m + 1 = n + 1 := by
    calc m + 1
        = Nat.ofDigitChars 10 (Nat.toDigits 10 (m + 1)) 0 :=
          (Nat.ofDigitChars_toDigits (by decide) (by decide)).symm
      _ = n + 1 := by rw [hdigits, Nat.ofDigitChars_toDigits (by decide) (by decide)]
  omega

/-- The identifiers of texts that are expanded one after the other: they are numbered from one on, in
the order in which they are reached, and the next number is the one behind the last. -/
structure Counted (r : Renderer) (gs : List Rendering) (last : Fin UInt32.size) : Prop where
  told : ∀ g ∈ gs, g.Told r
  results : gs.flatMap (·.newGuids r) =
    (List.range (gs.flatMap (·.newGuids r)).length).map fun i => .ok s!"$guid{i + 1}$"
  distinct : (gs.flatMap (·.newGuids r)).Nodup
  next : last.val = ((gs.flatMap (·.newGuids r)).length + 1) % UInt32.size

theorem Chained.counted {r : Renderer} {gs : List Rendering} {last : Fin UInt32.size}
    (hr : r.expander = .parameters) (h : Chained r firstNumber gs last)
    (hfew : (gs.flatMap (·.newGuids r)).length < UInt32.size) : Counted r gs last := by
  obtain ⟨hresults, hlast⟩ := (h.numbered hr).eq_map
  -- none of the numbers is large enough to wrap around
  have hnumber : ∀ i ∈ List.range (gs.flatMap (·.newGuids r)).length,
      (.ok (guidParameter (ahead firstNumber i)) : Except Failure String) = .ok s!"$guid{i + 1}$" := by
    intro i hi
    have hi := List.mem_range.mp hi
    rw [guidParameter_ahead (by omega)]
  rw [List.map_congr_left hnumber] at hresults
  refine ⟨fun g _ => g.told r, hresults, ?_, ?_⟩
  · -- different positions have different numbers, and these are written differently
    rw [hresults]
    refine List.Pairwise.map _ (fun m n (hne : m ≠ n) heq => hne ?_) List.nodup_range
    exact eq_of_guid_eq (Except.ok.inj heq)
  · calc last.val
        = (1 + (gs.flatMap (·.newGuids r)).length) % UInt32.size := by rw [hlast, val_ahead]; rfl
      _ = ((gs.flatMap (·.newGuids r)).length + 1) % UInt32.size := by rw [Nat.add_comm]

end Stencil
