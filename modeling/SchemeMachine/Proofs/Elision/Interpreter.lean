import SchemeMachine.Proofs.Elision.Evaluation

/-!
# Interpreters side by side

What holds of evaluations goes on to hold of everything the interpreter does with
them.  A computation with the plain machine and the same computation with the other
one `Agree`: if either comes to an end so does the other, and collapsing what the
plain one gives, and the state it leaves, is what the other gives and leaves.

The computations are put together from smaller ones, and so is their agreement.
-/

namespace SchemeMachine.Interpreter

/-- An interpreter with all its values collapsed. -/
def collapse (i : Interpreter) : Interpreter :=
  { i with shared := i.shared.collapse }

/-- Everything that an interpreter holds is sound. -/
def Sound (i : Interpreter) : Prop :=
  i.shared.store.Meets .sound

variable {α β : Type}

/-- Of a computation with either machine, one ends if the other does.  What the plain
machine gives is sound, and collapsing it with `shrink` gives what the other one
gives. -/
structure Agree (shrink : α → α) (sound : α → Prop)
    (plain real : Nat → Except Stop α × Interpreter) : Prop where
  forth : ∀ {given i}, Gives plain given i → (∀ v, given = .ok v → sound v) ∧ i.Sound ∧
    Gives real (given.map shrink) i.collapse
  back : ∀ {given i}, Gives real given i → ∃ given i, Gives plain given i

variable {shrink : α → α} {sound : α → Prop} {shrinkNext : β → β} {soundNext : β → Prop}

theorem Agree.andThen {f g : Nat → Except Stop α × Interpreter}
    {k l : Except Failure α → Interpreter → Nat → Except Stop β × Interpreter}
    (h : Agree shrink sound f g) (hf : Stable f) (hg : Stable g)
    (hk : ∀ given i, Stable (k given i)) (hl : ∀ given i, Stable (l given i))
    (hnext : ∀ given i, (∀ v, given = .ok v → sound v) → i.Sound →
      Agree shrinkNext soundNext (k given i) (l (given.map shrink) i.collapse)) :
    Agree shrinkNext soundNext (andThen f k) (andThen g l) := by
  constructor
  · intro result j hresult
    obtain ⟨given, i, hgiven, hresult⟩ := (gives_andThen hf hk).mp hresult
    obtain ⟨hsound, hi, hreal⟩ := h.forth hgiven
    obtain ⟨hsoundNext, hj, hrealNext⟩ := (hnext given i hsound hi).forth hresult
    exact ⟨hsoundNext, hj, (gives_andThen hg hl).mpr ⟨_, _, hreal, hrealNext⟩⟩
  · intro result j hresult
    obtain ⟨other, other', hother, hresult⟩ := (gives_andThen hg hl).mp hresult
    obtain ⟨given, i, hgiven⟩ := h.back hother
    obtain ⟨hsound, hi, hreal⟩ := h.forth hgiven
    -- the other machine has but one end to come to
    obtain ⟨rfl, rfl⟩ := hother.unique hg hreal
    obtain ⟨result, j, hplain⟩ := (hnext given i hsound hi).back hresult
    exact ⟨result, j, (gives_andThen hf hk).mpr ⟨_, _, hgiven, hplain⟩⟩

theorem Agree.const {result : Except Stop α × Interpreter}
    (hsound : ∀ v, result.1 = .ok v → sound v) (hi : result.2.Sound) :
    Agree shrink sound (fun _ => result) (fun _ => (result.1.map shrink, result.2.collapse)) := by
  constructor
  · rintro given i ⟨_, rfl⟩
    refine ⟨?_, hi, 0, ?_⟩
    · rintro v rfl
      exact hsound v rfl
    · cases given <;> rfl
  · rintro given i ⟨_, hreal⟩
    obtain ⟨(failure | _) | v, j⟩ := result
    · exact ⟨.error failure, j, 0, rfl⟩
    · cases given <;> cases hreal
    · exact ⟨.ok v, j, 0, rfl⟩

theorem Agree.value {v : α} {i : Interpreter} (hv : sound v) (hi : i.Sound) :
    Agree shrink sound (fun _ => (.ok v, i)) (fun _ => (.ok (shrink v), i.collapse)) := by
  refine @Agree.const _ _ _ (.ok v, i) ?_ hi
  rintro _ ⟨⟩
  exact hv

theorem Agree.stop (stop : Stop) {i : Interpreter} (hi : i.Sound) :
    Agree shrink sound (fun _ => (.error stop, i)) (fun _ => (.error stop, i.collapse)) :=
  @Agree.const _ _ _ (.error stop, i) nofun hi

theorem Agree.map {f g : Nat → Except Stop α × Interpreter} (h : Agree shrink sound f g)
    (value : α → β) (change : Interpreter → Interpreter)
    (hvalue : ∀ v, sound v → soundNext (value v))
    (hshrink : ∀ v, shrinkNext (value v) = value (shrink v))
    (hcollapse : ∀ i, (change i).collapse = change i.collapse)
    (hchange : ∀ i, i.Sound → (change i).Sound) :
    Agree shrinkNext soundNext (fun n => ((f n).1.map value, change (f n).2))
      (fun n => ((g n).1.map value, change (g n).2)) := by
  constructor
  · intro result j hresult
    obtain ⟨given, i, hgiven, rfl, rfl⟩ := gives_map.mp hresult
    obtain ⟨hsound, hi, hreal⟩ := h.forth hgiven
    refine ⟨?_, hchange i hi, gives_map.mpr ⟨_, _, hreal, ?_, hcollapse i⟩⟩
    · intro w hw
      cases given with
      | error failure => cases hw
      | ok v =>
          cases hw
          exact hvalue v (hsound v rfl)
    · cases given with
      | error failure => rfl
      | ok v => exact congrArg Except.ok (hshrink v)
  · intro result j hresult
    obtain ⟨other, i, hother, _⟩ := gives_map.mp hresult
    obtain ⟨given, i, hgiven⟩ := h.back hother
    exact ⟨_, _, gives_map.mpr ⟨given, i, hgiven, rfl, rfl⟩⟩

/-- What a computation gives, some number of rounds gives already. -/
theorem Agree.of_rounds {f g : Nat → Except Stop α × Interpreter}
    {inRounds inRounds' : Nat → Nat → Except Stop α × Interpreter}
    (hf : ∀ {given i}, Gives f given i ↔ ∃ rounds, Gives (inRounds rounds) given i)
    (hg : ∀ {given i}, Gives g given i ↔ ∃ rounds, Gives (inRounds' rounds) given i)
    (h : ∀ rounds, Agree shrink sound (inRounds rounds) (inRounds' rounds)) :
    Agree shrink sound f g := by
  constructor
  · intro given i hgiven
    obtain ⟨rounds, hgiven⟩ := hf.mp hgiven
    obtain ⟨hsound, hi, hreal⟩ := (h rounds).forth hgiven
    exact ⟨hsound, hi, hg.mpr ⟨rounds, hreal⟩⟩
  · intro given i hgiven
    obtain ⟨rounds, hgiven⟩ := hg.mp hgiven
    obtain ⟨given, i, hplain⟩ := (h rounds).back hgiven
    exact ⟨given, i, hf.mpr ⟨rounds, hplain⟩⟩

/-! ## Evaluating -/

/-- A computation that gives a value agrees. -/
abbrev ValueAgree (plain real : Nat → Except Stop Value × Interpreter) : Prop :=
  Agree Value.collapse (Value.Meets .sound) plain real

theorem service_collapse (suspension : Suspension) (i : Interpreter) :
    i.collapse.service suspension.collapse =
      ((i.service suspension).1, (i.service suspension).2.collapse) := by
  obtain ⟨sh, lines⟩ := i
  cases suspension with
  | awaiting request =>
      cases lines with
      | nil => rfl
      | cons line lines => rfl
  | yielding v => rfl

theorem Sound.service {i : Interpreter} (h : i.Sound) (suspension : Suspension) :
    (i.service suspension).2.Sound := by
  obtain ⟨sh, lines⟩ := i
  cases suspension with
  | awaiting request =>
      cases lines with
      | nil => exact h
      | cons line lines => exact h
  | yielding v => exact h

/-- If what evaluations come to agrees, and whatever matches is served alike, then
serving what they come to agrees. -/
theorem serve_agree_of {f g : Nat → Stretch} (h : Stretch.Agree f g)
    (hf : Stretch.Stable f) (hg : Stretch.Stable g) (rounds : Nat)
    (lines : List String)
    (hserve : ∀ {stretch other : Stretch}, stretch.Sound → stretch.Matches other →
      ValueAgree
        (fun n => @serve .always n rounds stretch.1.1 stretch.1.2 ⟨stretch.2, lines⟩)
        (fun n => serve n rounds other.1.1 other.1.2 ⟨other.2, lines⟩)) :
    ValueAgree (fun n => @serve .always n rounds (f n).1.1 (f n).1.2 ⟨(f n).2, lines⟩)
      (fun n => serve n rounds (g n).1.1 (g n).1.2 ⟨(g n).2, lines⟩) := by
  constructor
  · intro given i hgiven
    obtain ⟨stretch, hstretch, hgiven⟩ := (@gives_serve .always _ hf _ _ _ _).mp hgiven
    obtain ⟨hsound, other, hother, hmatches⟩ := h.forth hstretch
    obtain ⟨hvalue, hi, hreal⟩ := (hserve hsound hmatches).forth hgiven
    exact ⟨hvalue, hi, (gives_serve hg).mpr ⟨other, hother, hreal⟩⟩
  · intro given i hgiven
    obtain ⟨found, hfound, hgiven⟩ := (gives_serve hg).mp hgiven
    obtain ⟨stretch, hstretch⟩ := h.back hfound
    obtain ⟨hsound, other, hother, hmatches⟩ := h.forth hstretch
    obtain rfl := hfound.unique hg hother
    obtain ⟨given, i, hplain⟩ := (hserve hsound hmatches).back hgiven
    exact ⟨given, i, (@gives_serve .always _ hf _ _ _ _).mpr ⟨stretch, hstretch, hplain⟩⟩

theorem serve_agree (rounds : Nat) {outcome : Outcome} {ev real : Evaluation} {i : Interpreter}
    (hreal : real.bare = ev.collapse) (houtcome : outcome.Sound) (hev : ev.Sound)
    (hi : i.Sound) :
    ValueAgree (fun n => @serve .always n rounds outcome ev i)
      (fun n => serve n rounds outcome.collapse real i.collapse) := by
  induction rounds generalizing outcome ev real i with
  | zero =>
      cases outcome with
      | value v => exact .value houtcome hi
      | failed failure => exact .stop (.failure failure) hi
      | exhausted => exact .stop .exhausted hi
      | suspended suspension => exact .stop .exhausted hi
  | succ rounds ih =>
      cases outcome with
      | value v => exact .value houtcome hi
      | failed failure => exact .stop (.failure failure) hi
      | exhausted => exact .stop .exhausted hi
      | suspended suspension =>
          have hreply := service_collapse suspension i
          have hsound := hi.service suspension
          generalize hservice : i.service suspension = served at hreply hsound
          obtain ⟨answer, served⟩ := served
          simp only [@serve_suspended .always _ _ _ _ _ _ _ hservice, Outcome.collapse,
            serve_suspended _ _ _ _ _ hreply]
          refine serve_agree_of (Evaluation.resume_agree hreal hev hsound answer)
            (@Evaluation.resume_stable .always _ _ _) (Evaluation.resume_stable _ _ _) rounds
            served.lines
            fun {stretch other} hstretch hmatches => ?_
          rw [hmatches.outcome, hmatches.shared]
          exact ih hmatches.evaluation hstretch.outcome hstretch.evaluation hstretch.store

theorem evaluateValue_agree {e : Value} {i : Interpreter} (he : e.Meets .sound) (hi : i.Sound) :
    ValueAgree (fun n => @evaluateValue .always n e i)
      (fun n => i.collapse.evaluateValue n e.collapse) := by
  have hstart : Stretch.Agree
      (fun n => @Evaluation.start .always n (.ofExpression e Store.global) i.shared)
      (fun n => (Evaluation.ofExpression e.collapse Store.global).start n i.shared.collapse) :=
    Evaluation.start_agree rfl ⟨he, trivial, .nil⟩ hi
  have hserve := fun rounds => serve_agree_of hstart
    (@Evaluation.start_stable .always _ _) (Evaluation.start_stable _ _) rounds i.lines
    fun {stretch other} hstretch hmatches => by
      rw [hmatches.outcome, hmatches.shared]
      exact serve_agree rounds hmatches.evaluation hstretch.outcome hstretch.evaluation
        hstretch.store
  exact .of_rounds (@gives_evaluateValue .always _ _) gives_evaluateValue hserve

theorem place_collapse (d : Datum) (i : Interpreter) :
    i.collapse.place d = ((i.place d).1.collapse, (i.place d).2.collapse) := by
  simp only [place, onShared, collapse, Shared.onStore, Shared.collapse, Store.collapse_place]

theorem Sound.place {i : Interpreter} (h : i.Sound) (d : Datum) : (i.place d).2.Sound :=
  Store.Meets.of_nodes h (Store.nodes_place d i.shared.store)

theorem evaluate_agree (d : Datum) {i : Interpreter} (hi : i.Sound) :
    ValueAgree (fun n => @evaluate .always n d i) (fun n => i.collapse.evaluate n d) := by
  have hplaced := place_collapse d i
  have hagree := evaluateValue_agree (e := (i.place d).1) (Store.place_meets d i.shared.store)
    (hi.place d)
  simp only [evaluate, hplaced]
  exact hagree

theorem evaluateAll_agree (last : Value) (expressions : List Datum) {i : Interpreter}
    (hlast : last.Meets .sound) (hi : i.Sound) :
    ValueAgree (fun n => @evaluateAll .always n last expressions i)
      (fun n => i.collapse.evaluateAll n last.collapse expressions) := by
  induction expressions generalizing last i with
  | nil => exact .value hlast hi
  | cons d rest ih =>
      simp only [@evaluateAll_cons .always, evaluateAll_cons]
      refine (evaluate_agree d hi).andThen (@evaluate_stable .always d i)
        (evaluate_stable d i.collapse) (@evaluateRest_stable .always rest)
        (evaluateRest_stable rest) fun given i hgiven hi => ?_
      cases given with
      | error failure => exact .stop (.failure failure) hi
      | ok v => exact ih v (hgiven v rfl) hi

theorem eval_agree (text : String) {i : Interpreter} (hi : i.Sound) :
    ValueAgree (fun n => @eval .always n text i) (fun n => i.collapse.eval n text) := by
  simp only [@eval_eq .always, eval_eq]
  refine (evaluateAll_agree .void _ trivial hi).andThen (@evaluateAll_stable .always _ _ _)
    (evaluateAll_stable _ _ _) (fun _ _ => .const _) (fun _ _ => .const _)
    fun given i hgiven hi => ?_
  cases given with
  | error failure => exact .stop (.failure failure) hi
  | ok v =>
      cases (Datum.allOfText text).2 with
      | none => exact .value (hgiven v rfl) hi
      | some f => exact .stop (fault f) hi

theorem load_agree (name : String) (source : Except Fault String) {i : Interpreter}
    (hi : i.Sound) :
    ValueAgree (fun n => @load .always n name source i)
      (fun n => i.collapse.load n name source) := by
  cases source with
  | error f => exact @Agree.stop _ _ _ (fault f) (i.note (.loading name)) hi
  | ok text => exact @eval_agree text (i.note (.loading name)) hi

theorem evaluateAlone_agree (d : Datum) {i : Interpreter} (hi : i.Sound) :
    ValueAgree (fun n => @evaluateAlone .always n d i)
      (fun n => i.collapse.evaluateAlone n d) := by
  have hagree : ValueAgree _ _ := (@evaluate_agree d { i with lines := [] } hi).map id
    (fun alone => { alone with lines := i.lines }) (fun _ hv => hv) (fun _ => rfl) (fun _ => rfl)
    (fun _ halone => halone)
  simp only [Except.map_id, id_eq] at hagree
  simp only [@evaluateAlone_eq .always, evaluateAlone_eq]
  exact hagree

/-! ## Reading -/

theorem serveReading_collapse (rounds : Nat) (reply : Except Fault Reply) (i : Interpreter) :
    serveReading rounds (reply.map Reply.collapse) i.collapse =
      ((serveReading rounds reply i).1.map Value.collapse,
        (serveReading rounds reply i).2.collapse) := by
  induction rounds generalizing reply i with
  | zero =>
      rcases reply with fault | v | suspension
      · rfl
      · rfl
      · rfl
  | succ rounds ih =>
      rcases reply with fault | v | suspension
      · rfl
      · rfl
      · have hreply := service_collapse suspension i
        generalize hservice : i.service suspension = served at hreply
        obtain ⟨answer, served⟩ := served
        have hresume := served.shared.resume_collapse suspension answer
        simp only [Except.map, Reply.collapse, serveReading, hreply, hservice, onShared,
          show served.collapse.shared = served.shared.collapse from rfl, hresume]
        obtain ⟨reply, sh⟩ := served.shared.resume suspension answer
        exact ih reply ⟨sh, served.lines⟩

theorem readExpression_collapse (freshPrompt openPrompt : String) (i : Interpreter) :
    i.collapse.readExpression freshPrompt openPrompt =
      ((i.readExpression freshPrompt openPrompt).1.map Value.collapse,
        (i.readExpression freshPrompt openPrompt).2.collapse) := by
  have hread := i.shared.read_collapse freshPrompt openPrompt
  simp only [readExpression, onShared, show i.collapse.shared = i.shared.collapse from rfl, hread]
  obtain ⟨reply, sh⟩ := i.shared.read freshPrompt openPrompt
  exact serveReading_collapse (i.lines.length + 1) reply ⟨sh, i.lines⟩

theorem serveReading_sound (rounds : Nat) {reply : Except Fault Reply} {i : Interpreter}
    (hreply : Reply.ResultMeets .sound (reply, i.shared)) :
    (∀ v, (serveReading rounds reply i).1 = .ok v → v.Meets .sound) ∧
      (serveReading rounds reply i).2.Sound := by
  induction rounds generalizing reply i with
  | zero =>
      rcases reply with fault | v | suspension
      · exact ⟨nofun, hreply⟩
      · exact ⟨by rintro _ ⟨⟩; exact hreply.1, hreply.2⟩
      · exact ⟨nofun, hreply.2⟩
  | succ rounds ih =>
      rcases reply with fault | v | suspension
      · exact ⟨nofun, hreply⟩
      · exact ⟨by rintro _ ⟨⟩; exact hreply.1, hreply.2⟩
      · exact ih (Shared.resume_meets hreply.1 (Sound.service hreply.2 suspension) _)

theorem readExpression_sound (freshPrompt openPrompt : String) {i : Interpreter} (hi : i.Sound) :
    (∀ v, (i.readExpression freshPrompt openPrompt).1 = .ok v → v.Meets .sound) ∧
      (i.readExpression freshPrompt openPrompt).2.Sound :=
  serveReading_sound _ (Shared.takeAnswer_meets hi _)

theorem readExpression_agree (freshPrompt openPrompt : String) {i : Interpreter} (hi : i.Sound) :
    ValueAgree (fun _ => i.readExpression freshPrompt openPrompt)
      (fun _ => i.collapse.readExpression freshPrompt openPrompt) := by
  obtain ⟨hvalue, hleft⟩ := readExpression_sound freshPrompt openPrompt hi
  rw [readExpression_collapse]
  exact .const hvalue hleft

/-! ## The interactive loop -/

theorem echo_collapse (v : Value) (i : Interpreter) :
    (@echo .always v i).collapse = i.collapse.echo v.collapse := by
  have hwritten := congrArg (fun text => i.collapse.write (text ++ "\n"))
    (v.written_collapse i.shared.store).symm
  cases v with
  | void => rfl
  | _ => exact hwritten

theorem Sound.echo [Saving] {i : Interpreter} (h : i.Sound) (v : Value) : (i.echo v).Sound := by
  cases v <;> exact h

/-- The interactive loop gives no value, so that only its ending is compared. -/
abbrev LoopAgree (plain real : Nat → Except Stop Unit × Interpreter) : Prop :=
  Agree id (fun _ => True) plain real

theorem replFrom_agree (freshPrompt openPrompt : String) (rounds : Nat) {i : Interpreter}
    (hi : i.Sound) :
    LoopAgree (fun n => @replFrom .always n freshPrompt openPrompt rounds i)
      (fun n => replFrom n freshPrompt openPrompt rounds i.collapse) := by
  induction rounds generalizing i with
  | zero => exact .stop .exhausted hi
  | succ rounds ih =>
      simp only [@replFrom_succ .always, replFrom_succ]
      refine (readExpression_agree freshPrompt openPrompt hi).andThen (.const _) (.const _)
        (@replRound_stable .always _ _ _) (replRound_stable _ _ _) fun given i hgiven hi => ?_
      cases given with
      | error failure => exact @ih (i.report failure) hi
      | ok e =>
          have hevaluated : LoopAgree
              (andThen (fun n => @evaluateValue .always n e i)
                (@replRest .always freshPrompt openPrompt rounds))
              (andThen (fun n => i.collapse.evaluateValue n e.collapse)
                (replRest freshPrompt openPrompt rounds)) := by
            refine (evaluateValue_agree (hgiven e rfl) hi).andThen
              (@evaluateValue_stable .always e i) (evaluateValue_stable _ _)
              (@replRest_stable .always _ _ _) (replRest_stable _ _ _) fun given i hgiven hi => ?_
            cases given with
            | error failure => exact @ih (i.report failure) hi
            | ok v =>
                have hagree := ih (@Sound.echo .always i hi v)
                rw [echo_collapse] at hagree
                exact hagree
          cases e with
          | eof => exact @Agree.value _ _ _ () (i.write "Goodbye\n") trivial hi
          | _ => exact hevaluated

theorem repl_agree (freshPrompt openPrompt : String) {i : Interpreter} (hi : i.Sound) :
    LoopAgree (fun n => @repl .always n freshPrompt openPrompt i)
      (fun n => i.collapse.repl n freshPrompt openPrompt) := by
  exact .of_rounds (@gives_repl .always _ _ _) gives_repl
    fun rounds => replFrom_agree freshPrompt openPrompt rounds hi

end SchemeMachine.Interpreter
