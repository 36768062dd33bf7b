import SchemeMachine.Proofs.Elision.Interpreter
import SchemeMachine.Proofs.History

/-!
# Superfluous frames are invisible

The machine does not save the environment at a call in tail position, where the frame
below restores one already.  The plain machine saves it at every call.  This module
shows that nobody can tell the two apart: not by what evaluations give, not by how
they fail and with which trace, not by the output or the variables, and not by
whether they end.

The user of an interpreter sees the outcomes of a history of commands and the session
it leads to.  Each command keeps two sessions alike, `perform_agree`, and so does a
whole history, `leads_forth` and `leads_back`.
-/

namespace SchemeMachine

namespace Session

/-- Everything that a session holds is sound. -/
structure Sound (s : Session) : Prop where
  interpreter : s.interpreter.Sound
  evaluations : ∀ ev ∈ s.evaluations, ev.Sound

/-- Collapsing all that a session with the plain machine holds gives what a session
with the other machine holds. -/
structure Alike (plain real : Session) : Prop where
  interpreter : real.interpreter = plain.interpreter.collapse
  evaluations : real.evaluations.map Evaluation.bare = plain.evaluations.map Evaluation.collapse

theorem Alike.shared {plain real : Session} (h : plain.Alike real) :
    real.interpreter.shared = plain.interpreter.shared.collapse := by
  rw [h.interpreter]
  rfl

theorem Alike.evaluation {plain real : Session} (h : plain.Alike real) (number : Nat) :
    Option.Rel (fun ev other : Evaluation => ev ∈ plain.evaluations ∧ other.bare = ev.collapse)
      plain.evaluations[number]? real.evaluations[number]? := by
  have hat := congrArg (fun evaluations => evaluations[number]?) h.evaluations
  simp only [List.getElem?_map] at hat
  cases hev : plain.evaluations[number]? with
  | none =>
      rw [hev] at hat
      rw [Option.map_eq_none_iff.mp hat]
      exact .none
  | some ev =>
      rw [hev] at hat
      obtain ⟨other, hother, hbare⟩ := Option.map_eq_some_iff.mp hat
      rw [hother]
      exact .some ⟨List.mem_of_getElem? hev, hbare⟩

/-- Of a command with either machine, one ends if the other does, with the same
outcome and in sessions that are alike. -/
structure Agree (plain real : Nat → Outcome × Session) : Prop where
  forth : ∀ {outcome s}, Ends plain outcome s →
    s.Sound ∧ ∃ other, Ends real outcome.collapse other ∧ s.Alike other
  back : ∀ {outcome s}, Ends real outcome s → ∃ outcome s, Ends plain outcome s

variable {s real : Session}

theorem Agree.const {v : Value} (hs : s.Sound) (halike : s.Alike real) :
    Agree (fun _ => (.value v, s)) (fun _ => (.value v.collapse, real)) := by
  constructor
  · rintro outcome s ⟨hended, _, hgiven⟩
    cases hgiven
    exact ⟨hs, real, ⟨nofun, 0, rfl⟩, halike⟩
  · rintro outcome other _
    exact ⟨.value v, s, nofun, 0, rfl⟩

/-! ## Commands -/

theorem ends_compute {f : Nat → Interpreter → Except Stop Value × Interpreter} {outcome : Outcome}
    {next : Session} :
    Ends (fun n => s.compute (f n)) outcome next ↔
      ∃ given i, Interpreter.Gives (fun n => f n s.interpreter) given i ∧
        outcome = .ofResult (given.mapError .failure) ∧ next = ⟨i, s.evaluations⟩ := by
  constructor
  · rintro ⟨hended, n, hcompute⟩
    simp only [compute] at hcompute
    cases hgiven : f n s.interpreter with
    | mk result i =>
        rw [hgiven] at hcompute
        cases hcompute
        obtain (failure | _) | v := result
        · exact ⟨.error failure, i, ⟨n, hgiven⟩, rfl, rfl⟩
        · exact absurd rfl hended
        · exact ⟨.ok v, i, ⟨n, hgiven⟩, rfl, rfl⟩
  · rintro ⟨given, i, ⟨n, hgiven⟩, rfl, rfl⟩
    dsimp only at hgiven
    refine ⟨?_, n, ?_⟩
    · intro hexhausted
      cases given <;> cases hexhausted
    · simp only [compute, hgiven]

theorem compute_agree {f g : Nat → Interpreter → Except Stop Value × Interpreter} (hs : s.Sound)
    (halike : s.Alike real)
    (h : Interpreter.ValueAgree (fun n => f n s.interpreter)
      (fun n => g n s.interpreter.collapse)) :
    Agree (fun n => s.compute (f n)) (fun n => real.compute (g n)) := by
  rw [← halike.interpreter] at h
  constructor
  · intro outcome next hends
    obtain ⟨given, i, hgiven, rfl, rfl⟩ := ends_compute.mp hends
    obtain ⟨_, hi, hreal⟩ := h.forth hgiven
    refine ⟨⟨hi, hs.evaluations⟩, _, ends_compute.mpr ⟨_, _, hreal, ?_, rfl⟩,
      ⟨rfl, halike.evaluations⟩⟩
    cases given <;> rfl
  · intro outcome next hends
    obtain ⟨_, _, hreal, _⟩ := ends_compute.mp hends
    obtain ⟨given, i, hgiven⟩ := h.back hreal
    exact ⟨_, _, ends_compute.mpr ⟨given, i, hgiven, rfl, rfl⟩⟩

theorem ends_advance {act : Nat → Evaluation → Shared → Stretch} {number : Nat} {ev : Evaluation}
    (hev : s.evaluations[number]? = some ev) {outcome : Outcome} {next : Session} :
    Ends (fun n => s.advance number (act n)) outcome next ↔
      ∃ stretch, Evaluation.ComesTo (fun n => act n ev s.interpreter.shared) stretch ∧
        outcome = stretch.1.1 ∧
        next = ⟨⟨stretch.2, s.interpreter.lines⟩, s.evaluations.set number stretch.1.2⟩ := by
  constructor
  · rintro ⟨hended, n, hadvance⟩
    simp only [advance, hev, Interpreter.onShared] at hadvance
    cases hadvance
    exact ⟨_, ⟨hended, n, rfl⟩, rfl, rfl⟩
  · rintro ⟨stretch, ⟨hended, n, rfl⟩, rfl, rfl⟩
    refine ⟨hended, n, ?_⟩
    simp only [advance, hev, Interpreter.onShared]

theorem advance_agree {act other : Nat → Evaluation → Shared → Stretch} (hs : s.Sound)
    (halike : s.Alike real) (number : Nat)
    (h : ∀ ev ev', ev.Sound → ev'.bare = ev.collapse →
      Stretch.Agree (fun n => act n ev s.interpreter.shared)
        (fun n => other n ev' s.interpreter.shared.collapse)) :
    Agree (fun n => s.advance number (act n)) (fun n => real.advance number (other n)) := by
  have hat := halike.evaluation number
  generalize hev : s.evaluations[number]? = found, hev' : real.evaluations[number]? = found' at hat
  cases hat with
  | none =>
      simp only [advance, hev, hev']
      exact .const hs halike
  | some hboth =>
      obtain ⟨hmem, hbare⟩ := hboth
      have hagree := h _ _ (hs.evaluations _ hmem) hbare
      rw [← halike.shared] at hagree
      constructor
      · intro outcome next hends
        obtain ⟨stretch, hstretch, rfl, rfl⟩ := (ends_advance hev).mp hends
        obtain ⟨hsound, found, hfound, hmatches⟩ := hagree.forth hstretch
        refine ⟨⟨hsound.store, ?_⟩, _,
          (ends_advance hev').mpr ⟨found, hfound, hmatches.outcome.symm, rfl⟩, ⟨?_, ?_⟩⟩
        · intro ev hmem
          rcases List.mem_or_eq_of_mem_set hmem with hmem | rfl
          · exact hs.evaluations ev hmem
          · exact hsound.evaluation
        · simp only [hmatches.shared, halike.interpreter]
          rfl
        · simp only [List.map_set, halike.evaluations, hmatches.evaluation]
      · intro outcome next hends
        obtain ⟨found, hfound, _⟩ := (ends_advance hev').mp hends
        obtain ⟨stretch, hstretch⟩ := hagree.back hfound
        exact ⟨_, _, (ends_advance hev).mpr ⟨stretch, hstretch, rfl, rfl⟩⟩

theorem submit_sound (hs : s.Sound) (expression : Datum) (env : Addr) :
    (s.submit expression env).Sound := by
  refine ⟨hs.interpreter.place expression, ?_⟩
  intro ev hmem
  rcases List.mem_append.mp hmem with hmem | hmem
  · exact hs.evaluations ev hmem
  · rw [List.mem_singleton.mp hmem]
    exact ⟨Store.place_meets expression s.interpreter.shared.store, trivial, .nil⟩

theorem submit_alike (halike : s.Alike real) (expression : Datum) (env : Addr) :
    (s.submit expression env).Alike (real.submit expression env) := by
  have hplaced := Interpreter.place_collapse expression s.interpreter
  rw [← halike.interpreter] at hplaced
  constructor
  · simp only [submit, hplaced]
  · simp only [submit, hplaced, List.map_append, halike.evaluations]
    rfl

theorem feed_agree (text : String) {i : Interpreter} (hi : i.Sound) :
    Interpreter.ValueAgree (fun _ => feed text i) (fun _ => feed text i.collapse) := by
  have hinput : i.collapse.shared.input = i.shared.input := rfl
  simp only [feed, hinput]
  cases i.shared.input.feed text with
  | error f => exact .stop (Interpreter.fault f) hi
  | ok input =>
      exact @Interpreter.Agree.value _ _ _ Value.void
        { i with shared := { i.shared with input := input } } trivial hi

theorem repl_agree (freshPrompt openPrompt : String) {i : Interpreter} (hi : i.Sound) :
    Interpreter.ValueAgree (fun n => @repl .always n freshPrompt openPrompt i)
      (fun n => repl n freshPrompt openPrompt i.collapse) := by
  have hagree : Interpreter.ValueAgree _ _ :=
    (Interpreter.repl_agree freshPrompt openPrompt hi).map (fun _ => Value.void) id
      (fun _ _ => trivial) (fun _ => rfl) (fun _ => rfl) (fun _ hi => hi)
  exact hagree

theorem line_agree (text : String) {i : Interpreter} (hi : i.Sound) :
    Interpreter.ValueAgree (fun _ => (.ok .void, { i with lines := i.lines ++ [text] }))
      (fun _ => (.ok .void, { i.collapse with lines := i.lines ++ [text] })) :=
  @Interpreter.Agree.value _ _ _ Value.void { i with lines := i.lines ++ [text] } trivial hi

/-- Whatever the user does next, it comes to the same with either machine. -/
theorem perform_agree (command : Command) (hs : s.Sound) (halike : s.Alike real) :
    Agree (fun n => @perform .always n command s) (fun n => real.perform n command) := by
  have hi := hs.interpreter
  cases command with
  | eval text => exact compute_agree hs halike (Interpreter.eval_agree text hi)
  | load name source => exact compute_agree hs halike (Interpreter.load_agree name source hi)
  | evaluate expression => exact compute_agree hs halike (Interpreter.evaluate_agree expression hi)
  | evaluateAlone expression =>
      exact compute_agree hs halike (Interpreter.evaluateAlone_agree expression hi)
  | repl freshPrompt openPrompt =>
      exact compute_agree hs halike (repl_agree freshPrompt openPrompt hi)
  | read freshPrompt openPrompt =>
      exact compute_agree hs halike (Interpreter.readExpression_agree freshPrompt openPrompt hi)
  | line text =>
      exact compute_agree (f := fun _ i => (.ok .void, { i with lines := i.lines ++ [text] }))
        (g := fun _ i => (.ok .void, { i with lines := i.lines ++ [text] })) hs halike
        (line_agree text hi)
  | feed text => exact compute_agree hs halike (feed_agree text hi)
  | submit expression env =>
      exact .const (submit_sound hs expression env) (submit_alike halike expression env)
  | start number =>
      exact advance_agree hs halike number fun ev ev' hsound hbare =>
        Evaluation.start_agree hbare hsound hi
  | resume number answer =>
      exact advance_agree hs halike number fun ev ev' hsound hbare =>
        Evaluation.resume_agree hbare hsound hi answer

/-! ## Histories -/

theorem leads_forth {history : List Command} {outcomes : List Outcome} {last : Session}
    (hs : s.Sound) (halike : s.Alike real) (h : @Leads .always history s outcomes last) :
    last.Sound ∧ ∃ other, real.Leads history (outcomes.map Outcome.collapse) other ∧
      last.Alike other := by
  induction history generalizing s real outcomes with
  | nil =>
      obtain ⟨rfl, rfl⟩ := (@leads_nil .always _ _ _).mp h
      exact ⟨hs, real, leads_nil.mpr ⟨rfl, rfl⟩, halike⟩
  | cons command history ih =>
      obtain ⟨outcome, next, rest, hends, hrest, rfl⟩ := (@leads_cons .always _ _ _ _ _).mp h
      obtain ⟨hnext, next', hends', halike'⟩ := (perform_agree command hs halike).forth hends
      obtain ⟨hlast, other, hother, hmatch⟩ := ih hnext halike' hrest
      exact ⟨hlast, other, leads_cons.mpr ⟨_, next', _, hends', hother, rfl⟩, hmatch⟩

theorem leads_back {history : List Command} {outcomes : List Outcome} {last : Session}
    (hs : s.Sound) (halike : s.Alike real) (h : real.Leads history outcomes last) :
    ∃ outcomes last, @Leads .always history s outcomes last := by
  induction history generalizing s real outcomes with
  | nil => exact ⟨[], s, (@leads_nil .always _ _ _).mpr ⟨rfl, rfl⟩⟩
  | cons command history ih =>
      obtain ⟨outcome, next, rest, hends, hrest, rfl⟩ := leads_cons.mp h
      have hagree := perform_agree command hs halike
      obtain ⟨plainOutcome, plainNext, hplain⟩ := hagree.back hends
      obtain ⟨hnext, next', hends', halike'⟩ := hagree.forth hplain
      -- the command has but one end, so that it is the one the history went on from
      obtain ⟨_, rfl⟩ := ends_unique hends hends'
      obtain ⟨outcomes, last, hlast⟩ := ih hnext halike' hrest
      exact ⟨_, last, (@leads_cons .always _ _ _ _ _).mpr ⟨_, _, outcomes, hplain, hlast, rfl⟩⟩

theorem start_sound (lines : List String) : (start lines).Sound :=
  ⟨Store.initial_meets _, nofun⟩

theorem start_alike (lines : List String) : (start lines).Alike (start lines) := by
  constructor
  · simp only [start, Interpreter.start, Interpreter.collapse, Shared.initial, Shared.collapse,
      Store.collapse_initial]
  · rfl

/-- Whichever evaluation is started or resumed next, with whatever answer, its runs in
the two sessions are in lockstep. -/
def InLockstep (plain real : Session) : Prop :=
  ∀ number : Nat, Option.Rel (fun ev other : Evaluation =>
      Option.Rel Transition.InLockstep (ev.started plain.interpreter.shared)
        (other.started real.interpreter.shared) ∧
      ∀ answer, Option.Rel Transition.InLockstep (ev.resumed answer plain.interpreter.shared)
        (other.resumed answer real.interpreter.shared))
    plain.evaluations[number]? real.evaluations[number]?

theorem Alike.inLockstep (halike : s.Alike real) (hs : s.Sound) : s.InLockstep real := by
  intro number
  have hat := halike.evaluation number
  rw [halike.shared]
  generalize s.evaluations[number]? = found, real.evaluations[number]? = found' at hat
  cases hat with
  | none => exact .none
  | some hboth =>
      obtain ⟨hmem, hbare⟩ := hboth
      have hsound := hs.evaluations _ hmem
      refine .some ⟨?_, fun answer => ?_⟩
      · exact (Evaluation.started_alike hbare hsound hs.interpreter).inLockstep
      · exact (Evaluation.resumed_alike hbare hsound hs.interpreter answer).inLockstep

end Session

/-- **Leaving out the frames that a call in tail position would push is invisible.**  A
history has the same outcomes with the plain machine and with the other one, up to
collapsing, and it leads to sessions that are alike; it leads nowhere with the one if it
leads nowhere with the other.  And whatever is evaluated after it, the two machines run in
lockstep. -/
theorem elision_is_invisible (history : List Command) (lines : List String) :
    (∀ outcomes s, @Session.Leads .always history (.start lines) outcomes s →
      ∃ real, Session.Leads history (.start lines) (outcomes.map Outcome.collapse) real ∧
        s.Alike real ∧ s.InLockstep real) ∧
    (∀ outcomes real, Session.Leads history (.start lines) outcomes real →
      ∃ plainOutcomes s, @Session.Leads .always history (.start lines) plainOutcomes s ∧
        outcomes = plainOutcomes.map Outcome.collapse ∧ s.Alike real ∧ s.InLockstep real) := by
  have hstart := Session.start_sound lines
  have halike := Session.start_alike lines
  constructor
  · intro outcomes s hplain
    obtain ⟨hs, real, hreal, hmatch⟩ := Session.leads_forth hstart halike hplain
    exact ⟨real, hreal, hmatch, hmatch.inLockstep hs⟩
  · intro outcomes real hreal
    obtain ⟨plainOutcomes, s, hplain⟩ := Session.leads_back hstart halike hreal
    obtain ⟨hs, other, hother, hmatch⟩ := Session.leads_forth hstart halike hplain
    obtain ⟨rfl, rfl⟩ := hother.unique hreal
    exact ⟨plainOutcomes, s, hplain, rfl, hmatch, hmatch.inLockstep hs⟩

/-- In `((lambda () (call/cc (lambda (k) k))))` the call of `call/cc` is in tail position.
The plain machine captures two frames there and the other one does with the lower. -/
theorem elision_is_invisible_at_capture :
    ∃ (expression : Datum) (s real : Session),
      @Session.Leads .always [.evaluate expression] (.start []) [.value (.continuation 14
        [(.restore, .environment 25), (.restore, .environment Store.global)])] s ∧
      Session.Leads [.evaluate expression] (.start []) [.value (.continuation 14
        [(.restore, .environment Store.global)])] real ∧
      s.Alike real := by
  have hplain : @Session.Leads .always [.evaluate (.ofList [.ofList [.symbol "lambda", .nil,
      .ofList [.symbol "call/cc", .ofList [.symbol "lambda", .ofList [.symbol "k"] .nil,
        .symbol "k"] .nil] .nil] .nil] .nil)] (.start []) [.value (.continuation 14
      [(.restore, .environment 25), (.restore, .environment Store.global)])] _ := ⟨18, rfl⟩
  obtain ⟨real, hreal, halike, _⟩ := (elision_is_invisible _ []).1 _ _ hplain
  exact ⟨_, _, real, hplain, hreal, halike⟩

end SchemeMachine
