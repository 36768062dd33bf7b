import SchemeMachine.Proofs.History
import SchemeMachine.Proofs.Transitions
import SchemeMachine.Proofs.World.Basic

/-!
# Sessions stay among the reachable worlds

Whatever the user of an interpreter does, its shared state and its evaluations are those
of a world that can be reached (`Session.Leads.reached`).  The evaluations that the
interpreter makes on its own way, for the expressions of a text or in the interactive
loop, stand in that world among those of the user.

So do failures.  A command that fails does so because a step of an evaluation fails in
such a world, or because of what it was given: a text that cannot be read, a file that
could not be, or an evaluation that is not waiting.
-/

namespace SchemeMachine

/-! ## Where faults come from -/

/-- An evaluation of the world fails with the fault, in its next step or when it is given
an answer. -/
inductive World.Raises (w : World) (fault : Fault) : Prop
  | stepped {th : Thread} {focus : Focus} {after : Config} (hth : th ∈ w.threads)
      (hphase : th.phase = .running focus)
      (hstep : Config.step ⟨focus, th.env, th.stack, w.shared⟩ = .failed fault after)
  | resumed {th : Thread} {suspension : Suspension} {answer : Option String} {after : Config}
      (hth : th ∈ w.threads) (hphase : th.phase = .suspended suspension)
      (hresume : Config.resume suspension answer ⟨.drain .void, th.env, th.stack, w.shared⟩ =
        .failed fault after)

/-- The fault is one of a reachable world, one that the language provides for, or that of a
text which cannot be cut into tokens. -/
def Fault.IsKnown (fault : Fault) : Prop :=
  fault.isOrdinary = true ∨ fault = .literalMissing ∨ ∃ w : World, w.Reachable ∧ w.Raises fault

namespace World

/-- What an evaluation, with these others around it, has come to. -/
structure CameTo (before after : List Thread) (result : (Outcome × Evaluation) × Shared) :
    Prop where
  reachable : ∃ records captures,
    Reachable ⟨result.2, before ++ .ofEvaluation result.1.2 records :: after, captures⟩
  fault : ∀ failure, result.1.1 = .failed failure → failure.fault.IsKnown

/-- An interpreter with these evaluations has made others, and come to this result. -/
structure Leaves {α : Type} (threads : List Thread) (result : Except Stop α × Interpreter) :
    Prop where
  reachable : ∃ made captures, Reachable ⟨result.2.shared, made ++ threads, captures⟩
  fault : ∀ failure, result.1 = .error (.failure failure) → failure.fault.IsKnown

variable {sh : Shared} {before after threads : List Thread} {captures : List Capture}

/-! ## Evaluations -/

theorem Reachable.halt {t : Transition} {records : Records}
    (h : Reachable ⟨t.config.shared, before ++ .ofTransition records t :: after, captures⟩)
    (hfault : ∀ fault c, t = .failed fault c → fault.IsKnown) (hhalted : ∀ c, t ≠ .running c)
    (steps : Nat) : CameTo before after (Evaluation.ofHalt (t.run steps)) := by
  cases t with
  | running c => exact absurd rfl (hhalted c)
  | finished v c =>
      rw [Transition.run]
      refine ⟨⟨_, _, h⟩, ?_⟩
      rintro _ ⟨⟩
  | failed fault c =>
      rw [Transition.run]
      refine ⟨⟨_, _, h⟩, ?_⟩
      rintro _ ⟨⟩
      rw [Config.fault_failure]
      exact hfault fault c rfl
  | suspended s c =>
      rw [Transition.run]
      have hnoted : (c.shared.noteSuspension s).store = c.shared.store := by cases s <;> rfl
      refine ⟨⟨_, _, h.step (.hosted _ hnoted)⟩, ?_⟩
      rintro _ ⟨⟩

/-- A run to its next halt. -/
theorem Reachable.run (steps : Nat) (t : Transition) {records : Records}
    (h : Reachable ⟨t.config.shared, before ++ .ofTransition records t :: after, captures⟩)
    (hfault : ∀ fault c, t = .failed fault c → fault.IsKnown) :
    CameTo before after (Evaluation.ofHalt (t.run steps)) := by
  induction steps generalizing t records captures with
  | zero =>
      cases t with
      | running c =>
          refine ⟨⟨_, _, h.step .abandoned⟩, ?_⟩
          rintro _ ⟨⟩
      | _ => exact h.halt hfault (by rintro _ ⟨⟩) 0
  | succ steps ih =>
      cases t with
      | running c =>
          refine ih _ (h.step (.stepped rfl)) ?_
          intro fault failed hstep
          exact .inr (.inr ⟨_, h, .stepped (List.mem_append_right _ List.mem_cons_self) rfl hstep⟩)
      | _ => exact h.halt hfault (by rintro _ ⟨⟩) (steps + 1)

theorem Reachable.start {ev : Evaluation} {records : Records}
    (h : Reachable ⟨sh, before ++ .ofEvaluation ev records :: after, captures⟩) (steps : Nat) :
    CameTo before after (ev.start steps sh) := by
  obtain ⟨status, env, k⟩ := ev
  cases status with
  | ready e =>
      refine run steps (.running ⟨.reduce e, env, k, sh⟩) (h.step .started) ?_
      rintro _ _ ⟨⟩
  | _ =>
      refine ⟨⟨_, _, h⟩, ?_⟩
      rintro _ ⟨⟩
      exact .inl rfl

theorem Reachable.resume {ev : Evaluation} {records : Records}
    (h : Reachable ⟨sh, before ++ .ofEvaluation ev records :: after, captures⟩) (steps : Nat)
    (answer : Option String) : CameTo before after (ev.resume steps answer sh) := by
  obtain ⟨status, env, k⟩ := ev
  cases status with
  | suspended suspension =>
      refine run steps _ (h.step (.resumed answer rfl)) ?_
      intro fault failed hresume
      exact .inr (.inr ⟨_, h, .resumed (List.mem_append_right _ List.mem_cons_self) rfl hresume⟩)
  | _ =>
      refine ⟨⟨_, _, h⟩, ?_⟩
      rintro _ ⟨⟩
      exact .inl rfl

/-! ## Evaluating -/

section Results

variable {α : Type} {i : Interpreter} (h : Reachable ⟨i.shared, threads, captures⟩)

include h

theorem Reachable.gives (v : α) : Leaves threads (.ok v, i) := by
  refine ⟨⟨[], captures, h⟩, ?_⟩
  rintro _ ⟨⟩

theorem Reachable.tires : Leaves threads ((.error .exhausted : Except Stop α), i) := by
  refine ⟨⟨[], captures, h⟩, ?_⟩
  rintro _ ⟨⟩

theorem Reachable.fails {failure : Failure} (hknown : failure.fault.IsKnown) :
    Leaves threads ((.error (.failure failure) : Except Stop α), i) := by
  refine ⟨⟨[], captures, h⟩, ?_⟩
  rintro _ ⟨⟩
  exact hknown

end Results

theorem Leaves.of_made {α : Type} {made : List Thread} {result : Except Stop α × Interpreter}
    (h : Leaves (made ++ threads) result) : Leaves threads result := by
  obtain ⟨⟨more, captures, hreachable⟩, hfault⟩ := h
  rw [← List.append_assoc] at hreachable
  exact ⟨⟨more ++ made, captures, hreachable⟩, hfault⟩

theorem Leaves.andThen {α β : Type} {f : Nat → Except Stop α × Interpreter}
    {k : Except Failure α → Interpreter → Nat → Except Stop β × Interpreter} {n : Nat}
    (hf : Leaves threads (f n))
    (hk : ∀ given i made captures, Reachable ⟨i.shared, made ++ threads, captures⟩ →
      (∀ failure, given = .error failure → failure.fault.IsKnown) →
      Leaves (made ++ threads) (k given i n)) :
    Leaves threads (Interpreter.andThen f k n) := by
  obtain ⟨⟨made, captures, hreachable⟩, hfault⟩ := hf
  rw [Interpreter.andThen]
  generalize f n = result at hreachable hfault
  obtain ⟨(failure | _) | v, i⟩ := result
  · refine (hk _ i made captures hreachable ?_).of_made
    rintro _ ⟨⟩
    exact hfault failure rfl
  · exact hreachable.tires.of_made
  · refine (hk (.ok v) i made captures hreachable ?_).of_made
    rintro _ ⟨⟩

theorem store_service (suspension : Suspension) (i : Interpreter) :
    (i.service suspension).2.shared.store = i.shared.store := by
  cases suspension with
  | awaiting request =>
      simp only [Interpreter.service, Interpreter.readLine]
      split <;> rfl
  | yielding v => rfl

theorem CameTo.serve (steps rounds : Nat) {outcome : Outcome} {ev : Evaluation} {i : Interpreter}
    (h : CameTo [] threads ((outcome, ev), i.shared)) :
    Leaves threads (Interpreter.serve steps rounds outcome ev i) := by
  obtain ⟨records, captures, hreachable⟩ := h.reachable
  have hmade : Reachable ⟨i.shared, [.ofEvaluation ev records] ++ threads, captures⟩ := hreachable
  induction rounds generalizing outcome ev i records captures with
  | zero =>
      cases outcome with
      | value v => exact (hmade.gives v).of_made
      | failed failure => exact (hmade.fails (h.fault failure rfl)).of_made
      | suspended | exhausted => exact hmade.tires.of_made
  | succ rounds ih =>
      cases outcome with
      | value v => exact (hmade.gives v).of_made
      | failed failure => exact (hmade.fails (h.fault failure rfl)).of_made
      | exhausted => exact hmade.tires.of_made
      | suspended suspension =>
          have hserved := hreachable.step (.hosted _ (store_service suspension i))
          have hresumed := hserved.resume steps (i.service suspension).1
          obtain ⟨records, captures, hnext⟩ := hresumed.reachable
          exact ih hresumed records captures hnext hnext

/-- A new evaluation of an expression, in the global environment. -/
def fresh (e : Value) : Thread :=
  ⟨.ready e, Store.global, .empty, []⟩

theorem Reachable.evaluateValue {i : Interpreter} {e : Value}
    (h : Reachable ⟨i.shared, fresh e :: threads, captures⟩) (steps : Nat) :
    Leaves threads (i.evaluateValue steps e) := by
  rw [Interpreter.evaluateValue_eq]
  have hready : Reachable ⟨i.shared,
      [] ++ .ofEvaluation (.ofExpression e Store.global) [] :: threads, captures⟩ := h
  exact CameTo.serve steps steps (hready.start steps)

theorem Reachable.evaluate {i : Interpreter} (h : Reachable ⟨i.shared, threads, captures⟩)
    (steps : Nat) (d : Datum) : Leaves threads (i.evaluate steps d) :=
  evaluateValue (i := (i.place d).2) (h.step (.submitted d Store.global)) steps

theorem Reachable.evaluateAll {i : Interpreter} (h : Reachable ⟨i.shared, threads, captures⟩)
    (steps : Nat) (last : Value) (expressions : List Datum) :
    Leaves threads (i.evaluateAll steps last expressions) := by
  induction expressions generalizing i threads captures last with
  | nil => exact h.gives last
  | cons d rest ih =>
      rw [Interpreter.evaluateAll_cons]
      refine (h.evaluate steps d).andThen fun given i made captures hreachable hfault => ?_
      cases given with
      | error failure => exact hreachable.fails (hfault failure rfl)
      | ok v => exact ih hreachable v

theorem isKnown_of_allOfText {text : String} {fault : Fault}
    (h : (Datum.allOfText text).2 = some fault) : fault.IsKnown := by
  unfold Datum.allOfText at h
  split at h
  · next found hcut =>
      cases h
      exact .inr (.inl (Token.ofLines_fault hcut))
  · rcases Datum.readAllFrom_fault h with rfl | hmalformed
    · exact .inl rfl
    · exact .inl (Fault.isOrdinary_of_isOfProgram (Fault.isOfProgram_of_isSyntaxError hmalformed))

theorem Reachable.eval {i : Interpreter} (h : Reachable ⟨i.shared, threads, captures⟩)
    (steps : Nat) (text : String) : Leaves threads (i.eval steps text) := by
  rw [Interpreter.eval_eq]
  refine (h.evaluateAll steps .void _).andThen fun given i made captures hreachable hfault => ?_
  cases given with
  | error failure => exact hreachable.fails (hfault failure rfl)
  | ok v =>
      cases hending : (Datum.allOfText text).2 with
      | none => exact hreachable.gives v
      | some fault => exact hreachable.fails (isKnown_of_allOfText hending)

/-! ## Reading -/

/-- What a reading has come to.  What was read may be evaluated. -/
def ReadTo (threads : List Thread) (captures : List Capture) :
    Except Fault Reply × Shared → Prop
  | (.error fault, sh) => fault.IsKnown ∧ Reachable ⟨sh, threads, captures⟩
  | (.ok (.value v), sh) =>
    v = .eof ∧ Reachable ⟨sh, threads, captures⟩ ∨ Reachable ⟨sh, fresh v :: threads, captures⟩
  | (.ok (.suspend s), sh) =>
    (∃ request, s = .awaiting request) ∧ Reachable ⟨sh, threads, captures⟩

theorem Reachable.takeAnswer (h : Reachable ⟨sh, threads, captures⟩)
    {answer : Except Fault InputBuffer.Answer × InputBuffer}
    (hfault : ∀ fault, answer.1 = .error fault → fault.IsKnown) :
    ReadTo threads captures (sh.takeAnswer answer) := by
  obtain ⟨fault | d | request | _, buffer⟩ := answer
  · exact ⟨hfault fault rfl, h.step (.hosted _ rfl)⟩
  · have hread : Reachable ⟨{ sh with input := buffer }, threads, captures⟩ :=
      h.step (.hosted _ rfl)
    exact .inr (hread.step (.submitted d Store.global))
  · exact ⟨⟨request, rfl⟩, h.step (.hosted _ rfl)⟩
  · exact .inl ⟨rfl, h.step (.hosted _ rfl)⟩

theorem Reachable.read (h : Reachable ⟨sh, threads, captures⟩) (freshPrompt openPrompt : String) :
    ReadTo threads captures (sh.read freshPrompt openPrompt) :=
  h.takeAnswer fun _ hread =>
    .inl (Fault.isOrdinary_of_isOfProgram (InputBuffer.isOfProgram_of_read hread))

theorem Reachable.resumeReading (h : Reachable ⟨sh, threads, captures⟩) (request : LineRequest)
    (answer : Option String) :
    ReadTo threads captures (sh.resume (.awaiting request) answer) := by
  refine h.takeAnswer fun fault hsupply => ?_
  rcases InputBuffer.supply_fault hsupply with hprogram | ⟨hliteral, _⟩
  · exact .inl (Fault.isOrdinary_of_isOfProgram hprogram)
  · exact .inr (.inl hliteral)

/-- What reading an expression has come to. -/
structure ReadsOut (threads : List Thread) (result : Except Stop Value × Interpreter) : Prop where
  leaves : Leaves threads result
  fresh : ∀ v, result.1 = .ok v → v ≠ .eof →
    ∃ captures, Reachable ⟨result.2.shared, fresh v :: threads, captures⟩

theorem ReadTo.value {v : Value} {i : Interpreter}
    (h : ReadTo threads captures (.ok (.value v), i.shared)) : ReadsOut threads (.ok v, i) := by
  rcases h with ⟨rfl, hreachable⟩ | hreachable
  · refine ⟨hreachable.gives _, ?_⟩
    rintro _ ⟨⟩ heof
    exact absurd rfl heof
  · have hmade : Reachable ⟨i.shared, [World.fresh v] ++ threads, captures⟩ := hreachable
    refine ⟨(hmade.gives v).of_made, ?_⟩
    rintro _ ⟨⟩ _
    exact ⟨captures, hreachable⟩

theorem ReadTo.failure {fault : Fault} {i : Interpreter}
    (h : ReadTo threads captures (.error fault, i.shared)) :
    ReadsOut threads (.error (Interpreter.fault fault), i) := by
  obtain ⟨hknown, hreachable⟩ := h
  refine ⟨hreachable.fails hknown, ?_⟩
  rintro _ ⟨⟩

theorem ReadTo.serveReading (rounds : Nat) {reply : Except Fault Reply} {i : Interpreter}
    (h : ReadTo threads captures (reply, i.shared)) :
    ReadsOut threads (Interpreter.serveReading rounds reply i) := by
  induction rounds generalizing reply i with
  | zero =>
      obtain fault | v | suspension := reply
      · exact h.failure
      · exact h.value
      · refine ⟨h.2.tires, ?_⟩
        rintro _ ⟨⟩
  | succ rounds ih =>
      obtain fault | v | suspension := reply
      · exact h.failure
      · exact h.value
      · obtain ⟨⟨request, rfl⟩, hreachable⟩ := h
        have hserved := hreachable.step (.hosted _ (store_service (.awaiting request) i))
        exact ih (hserved.resumeReading request _)

theorem Reachable.readExpression {i : Interpreter} (h : Reachable ⟨i.shared, threads, captures⟩)
    (freshPrompt openPrompt : String) :
    ReadsOut threads (i.readExpression freshPrompt openPrompt) :=
  ReadTo.serveReading _ (i := (i.onShared (Shared.read freshPrompt openPrompt)).2)
    (h.read freshPrompt openPrompt)

theorem Reachable.replFrom {i : Interpreter} (h : Reachable ⟨i.shared, threads, captures⟩)
    (steps : Nat) (freshPrompt openPrompt : String) (rounds : Nat) :
    Leaves threads (i.replFrom steps freshPrompt openPrompt rounds) := by
  induction rounds generalizing i threads captures with
  | zero => exact h.tires
  | succ rounds ih =>
      rw [Interpreter.replFrom_succ, Interpreter.andThen]
      have hread := h.readExpression freshPrompt openPrompt
      generalize i.readExpression freshPrompt openPrompt = result at hread
      obtain ⟨made, captures, hreachable⟩ := hread.leaves.reachable
      obtain ⟨(failure | _) | v, i⟩ := result
      · exact (ih (i := i.report failure) (hreachable.step (.hosted _ rfl))).of_made
      · exact hreachable.tires.of_made
      · by_cases heof : v = .eof
        · subst heof
          have hwritten := hreachable.step (.hosted (i.write "Goodbye\n").shared rfl)
          exact (hwritten.gives ()).of_made
        · have hround : Interpreter.replRound freshPrompt openPrompt rounds (.ok v) i steps =
              Interpreter.andThen (fun n => i.evaluateValue n v)
                (Interpreter.replRest freshPrompt openPrompt rounds) steps := by
            cases v with
            | eof => exact absurd rfl heof
            | _ => rfl
          obtain ⟨captures, hfresh⟩ := hread.fresh v rfl heof
          show Leaves threads (Interpreter.replRound freshPrompt openPrompt rounds (.ok v) i steps)
          rw [hround]
          refine (hfresh.evaluateValue steps).andThen fun given i made captures hreachable _ => ?_
          cases given with
          | error failure => exact ih (i := i.report failure) (hreachable.step (.hosted _ rfl))
          | ok v =>
              refine ih (i := i.echo v) (hreachable.step (.hosted _ ?_))
              cases v <;> rfl

end World

/-! ## Sessions -/

/-- The evaluations, the latest first, stand in this order among those of a world. -/
inductive Thread.Show : List Evaluation → List Thread → Prop
  | nil : Show [] []
  | shown {evaluations : List Evaluation} {threads : List Thread} (ev : Evaluation)
      (records : Records) (h : Show evaluations threads) :
      Show (ev :: evaluations) (.ofEvaluation ev records :: threads)
  | hidden {evaluations : List Evaluation} {threads : List Thread} (th : Thread)
      (h : Show evaluations threads) : Show evaluations (th :: threads)

namespace Thread.Show

variable {evaluations : List Evaluation} {threads : List Thread}

theorem made (h : Show evaluations threads) (made : List Thread) :
    Show evaluations (made ++ threads) := by
  induction made with
  | nil => exact h
  | cons th made ih => exact .hidden th ih

/-- An evaluation among others can be replaced where it stands. -/
theorem replace {later earlier : List Evaluation} {ev : Evaluation}
    (h : Show (later ++ ev :: earlier) threads) :
    ∃ before records after, threads = before ++ .ofEvaluation ev records :: after ∧
      ∀ next records, Show (later ++ next :: earlier)
        (before ++ .ofEvaluation next records :: after) := by
  generalize hall : later ++ ev :: earlier = all at h
  induction h generalizing later with
  | nil => cases later <;> cases hall
  | @shown evaluations threads first records h ih =>
      cases later with
      | nil =>
          cases hall
          exact ⟨[], records, threads, rfl, fun next records => .shown next records h⟩
      | cons latest later =>
          cases hall
          obtain ⟨before, found, after, rfl, hnext⟩ := ih rfl
          exact ⟨.ofEvaluation first records :: before, found, after, rfl,
            fun next records' => .shown first records (hnext next records')⟩
  | @hidden evaluations threads th h ih =>
      obtain ⟨before, found, after, rfl, hnext⟩ := ih hall
      exact ⟨th :: before, found, after, rfl, fun next records => .hidden th (hnext next records)⟩

theorem exists_thread (h : Show evaluations threads) {ev : Evaluation} (hev : ev ∈ evaluations) :
    ∃ records, .ofEvaluation ev records ∈ threads := by
  obtain ⟨later, earlier, rfl⟩ := List.append_of_mem hev
  obtain ⟨before, records, after, rfl, _⟩ := h.replace
  exact ⟨records, List.mem_append_right _ List.mem_cons_self⟩

end Thread.Show

namespace Session

/-- The state of the session is that of a world that can be reached. -/
def Reached (s : Session) : Prop :=
  ∃ threads captures, World.Reachable ⟨s.interpreter.shared, threads, captures⟩ ∧
    Thread.Show s.evaluations.reverse threads

theorem start_reached (lines : List String) : (Session.start lines).Reached :=
  ⟨[], [], .initial .initial rfl, .nil⟩

/-- The command leads to such a session again, and fails only with a known fault. -/
structure Performs (command : Command) (result : Outcome × Session) : Prop where
  reached : result.2.Reached
  fault : ∀ failure, result.1 = .failed failure →
    failure.fault.IsKnown ∨ ∃ name, command = .load name (.error failure.fault)

variable {s : Session} {command : Command}

theorem performs_compute (hs : s.Reached)
    {act : Interpreter → Except Stop Value × Interpreter}
    (hact : ∀ threads captures, World.Reachable ⟨s.interpreter.shared, threads, captures⟩ →
      World.Leaves threads (act s.interpreter)) : Performs command (s.compute act) := by
  obtain ⟨threads, captures, hreachable, hshown⟩ := hs
  obtain ⟨⟨made, captures, hafter⟩, hfault⟩ := hact threads captures hreachable
  refine ⟨⟨made ++ threads, captures, hafter, hshown.made made⟩, ?_⟩
  intro failure hfailed
  refine .inl (hfault failure ?_)
  unfold compute at hfailed
  generalize act s.interpreter = result at hfailed
  obtain ⟨(found | _) | v, i⟩ := result
  · cases hfailed
    rfl
  · cases hfailed
  · cases hfailed

theorem performs_advance (hs : s.Reached) (number : Nat)
    {act : Evaluation → Shared → (Outcome × Evaluation) × Shared}
    (hact : ∀ ev sh before after records captures,
      World.Reachable ⟨sh, before ++ .ofEvaluation ev records :: after, captures⟩ →
      World.CameTo before after (act ev sh)) : Performs command (s.advance number act) := by
  unfold advance
  split
  · refine ⟨hs, ?_⟩
    rintro _ ⟨⟩
  · next ev hev =>
      obtain ⟨threads, captures, hreachable, hshown⟩ := hs
      obtain ⟨hlt, hget⟩ := List.getElem?_eq_some_iff.mp hev
      have hset (next : Evaluation) : (s.evaluations.set number next).reverse =
          (s.evaluations.drop (number + 1)).reverse ++
            next :: (s.evaluations.take number).reverse := by
        rw [List.set_eq_take_append_cons_drop, if_pos hlt, List.reverse_append, List.reverse_cons,
          List.append_assoc, List.singleton_append]
      have hsame : s.evaluations.set number ev = s.evaluations := by
        rw [← hget, List.set_getElem_self]
      rw [← hsame, hset] at hshown
      obtain ⟨before, records, after, rfl, hnext⟩ := hshown.replace
      obtain ⟨⟨records, captures, hafter⟩, hfault⟩ := hact ev _ _ _ _ _ hreachable
      refine ⟨⟨_, captures, hafter, ?_⟩, fun failure hfailed => .inl (hfault failure hfailed)⟩
      exact (hset _).symm ▸ hnext _ records

theorem performs_submit (hs : s.Reached) (expression : Datum) (env : Addr) :
    Performs command (.value .void, s.submit expression env) := by
  obtain ⟨threads, captures, hreachable, hshown⟩ := hs
  have hsubmitted := hreachable.step (.submitted expression env)
  refine ⟨⟨_, captures, hsubmitted, ?_⟩, by rintro _ ⟨⟩⟩
  have hreverse : (s.submit expression env).evaluations.reverse =
      .ofExpression (s.interpreter.place expression).1 env :: s.evaluations.reverse :=
    List.reverse_concat
  rw [hreverse]
  exact .shown _ [] hshown

theorem performs_load (hs : s.Reached) (steps : Nat) (name : String)
    (source : Except Fault String) :
    Performs (.load name source) (s.compute (·.load steps name source)) := by
  cases source with
  | ok text =>
      refine performs_compute hs fun threads captures h => ?_
      exact World.Reachable.eval (i := s.interpreter.note (.loading name))
        (h.step (.hosted _ rfl)) steps text
  | error fault =>
      obtain ⟨threads, captures, hreachable, hshown⟩ := hs
      refine ⟨⟨threads, captures, hreachable.step (.hosted _ rfl), hshown⟩, ?_⟩
      rintro _ ⟨⟩
      exact .inr ⟨name, rfl⟩

theorem performs_feed (hs : s.Reached) (text : String) :
    Performs command (s.compute (feed text)) := by
  refine performs_compute hs fun threads captures h => ?_
  unfold feed
  split
  · next fault hfeed =>
      exact h.fails (.inr (.inl (Token.ofLines_fault (Token.eq_error_of_map hfeed))))
  · apply World.Reachable.gives
    exact h.step (.hosted _ rfl)

theorem leaves_repl {threads : List Thread} {captures : List Capture} {i : Interpreter}
    (h : World.Reachable ⟨i.shared, threads, captures⟩) (steps : Nat)
    (freshPrompt openPrompt : String) :
    World.Leaves threads (repl steps freshPrompt openPrompt i) := by
  obtain ⟨hreachable, hfault⟩ := h.replFrom steps freshPrompt openPrompt steps
  refine ⟨hreachable, fun failure hfailed => hfault failure ?_⟩
  unfold repl Interpreter.repl at hfailed
  generalize i.replFrom steps freshPrompt openPrompt steps = result at hfailed ⊢
  obtain ⟨stop | _, i⟩ := result
  · exact congrArg Except.error (Except.error.inj hfailed)
  · cases hfailed

theorem performs_perform (hs : s.Reached) (steps : Nat) (command : Command) :
    Performs command (s.perform steps command) := by
  cases command with
  | eval text => exact performs_compute hs fun _ _ h => h.eval steps text
  | load name source => exact performs_load hs steps name source
  | evaluate expression => exact performs_compute hs fun _ _ h => h.evaluate steps expression
  | evaluateAlone expression =>
      show Performs _ (s.compute (·.evaluateAlone steps expression))
      refine performs_compute hs fun threads captures h => ?_
      obtain ⟨hreachable, hfault⟩ :=
        World.Reachable.evaluate (i := { s.interpreter with lines := [] }) h steps expression
      rw [Interpreter.evaluateAlone_eq]
      exact ⟨hreachable, hfault⟩
  | repl freshPrompt openPrompt =>
      exact performs_compute hs fun _ _ h => leaves_repl h steps freshPrompt openPrompt
  | read freshPrompt openPrompt =>
      exact performs_compute hs fun _ _ h => (h.readExpression freshPrompt openPrompt).leaves
  | line text =>
      show Performs _ (s.compute fun i => (.ok .void, { i with lines := i.lines ++ [text] }))
      apply performs_compute hs
      intro threads captures h
      apply World.Reachable.gives
      exact h
  | feed text => exact performs_feed hs text
  | submit expression env => exact performs_submit hs expression env
  | start number => exact performs_advance hs number fun _ _ _ _ _ _ h => h.start steps
  | resume number answer =>
      exact performs_advance hs number fun _ _ _ _ _ _ h => h.resume steps answer

/-- A history leads to a session whose state can be reached, and its commands fail only
with known faults. -/
theorem Leads.reached {history : List Command} {outcomes : List Outcome} {last : Session}
    (h : s.Leads history outcomes last) (hs : s.Reached) :
    last.Reached ∧ ∀ failure, .failed failure ∈ outcomes →
      failure.fault.IsKnown ∨ ∃ name, .load name (.error failure.fault) ∈ history := by
  induction history generalizing s outcomes with
  | nil =>
      obtain ⟨rfl, rfl⟩ := leads_nil.mp h
      exact ⟨hs, fun _ hmem => absurd hmem List.not_mem_nil⟩
  | cons command history ih =>
      obtain ⟨outcome, next, rest, ⟨_, steps, hperform⟩, hrest, rfl⟩ := leads_cons.mp h
      obtain ⟨hreached, hfault⟩ := performs_perform hs steps command
      dsimp only at hperform
      rw [hperform] at hreached hfault
      obtain ⟨hlast, hlater⟩ := ih hrest hreached
      refine ⟨hlast, ?_⟩
      intro failure hmem
      rcases List.mem_cons.mp hmem with hfirst | hmem
      · rcases hfault failure hfirst.symm with hknown | ⟨name, rfl⟩
        · exact .inl hknown
        · exact .inr ⟨name, List.mem_cons_self⟩
      · rcases hlater failure hmem with hknown | ⟨name, hload⟩
        · exact .inl hknown
        · exact .inr ⟨name, List.mem_cons_of_mem _ hload⟩

end Session

end SchemeMachine
