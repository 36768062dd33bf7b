import SchemeMachine.Proofs.Direct.Journal
import SchemeMachine.Proofs.EnoughSteps

/-!
# Suspension is transparent

An evaluation may suspend anywhere, and each time its host acts and resumes it.  Nothing of
this shows in what the evaluation comes to: the direct machine, which never suspends, gives
the same value or the same failure and leaves the same store, input, output and lines.

A step of the direct machine is one step of the other machine and the acts of the host that
follow it: one for what was written, and one for each line that `read` takes
(`Served.catches_up`).  The two differ in their journals only.
-/

namespace SchemeMachine

/-- The shared state once the tokens of a reading have run out. -/
def Shared.exhausted (buffer : InputBuffer) (sh : Shared) : Shared :=
  ({ sh with input := buffer } : Shared).note (.inputExhausted buffer.tokens.length)

namespace Served

/-! ## One step of the direct machine -/

theorem input_exhausted (c : Config) (sh : Shared) (buffer : InputBuffer) :
    ({ c with shared := sh.exhausted buffer } : Config).shared.input = buffer := rfl

theorem answered_congr (c : Config) {sh sh' : Shared} (h : sh.quiet = sh'.quiet)
    (lines : List String) :
    (c.answered (sh.readInPlace lines)).quiet = (c.answered (sh'.readInPlace lines)).quiet := by
  rw [← Config.quiet_answered, ← Config.quiet_answered, ← Shared.quiet_readInPlace, h,
    Shared.quiet_readInPlace]

/-- What a primitive gives in place makes up for the shared state before. -/
theorem answered_with_shared (c : Config) (sh : Shared)
    (given : (Except Fault Value × Shared) × List String) :
    ({ c with shared := sh } : Config).answered given = c.answered given := by
  obtain ⟨⟨fault | v, after⟩, rest⟩ := given <;> rfl

/-- How a run goes on from the reply to a reading, with these lines to come. -/
def replied (c : Config) (reply : Except Fault Reply × Shared) (lines : List String) : Served :=
  resumed c (reply.1, ⟨reply.2, lines⟩)

/-- The host answers a request for a line, having written nothing. -/
theorem next_awaiting (c : Config) (lines : List String) :
    next ⟨.suspended (.awaiting ⟨"", "", ""⟩) c, lines⟩ =
      replied c ((c.shared.note .awaitingInput).takeAnswer
        (c.shared.input.supply lines.head? "" "")) lines.tail := by
  have hwrite : (c.shared.note .awaitingInput).write "" = c.shared.note .awaitingInput := by
    rw [Shared.write, String.append_empty]
  simp only [next, Interpreter.reply, Interpreter.service, Interpreter.write,
    Shared.noteSuspension, hwrite]
  cases lines <;> rfl

/-- A reading that needs no line is done at once. -/
theorem replied_of_decided (c : Config) (sh : Shared) {buffer : InputBuffer} (lines : List String)
    (h : (Datum.readOne buffer.tokens).1 ≠ .error .endOfInput) :
    replied c (sh.takeAnswer (buffer.read "" "")) lines =
      c.answered ({ sh with input := buffer }.readInPlace lines) := by
  rcases hread : Datum.readOne buffer.tokens with ⟨fault | d, rest⟩
  · have hfault : fault ≠ .endOfInput := by
      rintro rfl
      exact h (by rw [hread])
    have hbuffer : buffer.read "" "" = (.error fault, .empty) := by
      rw [InputBuffer.read, hread]
      cases fault with
      | endOfInput => exact absurd rfl hfault
      | _ => rfl
    rw [hbuffer, Shared.readInPlace, InputBuffer.readInPlace_of_fault hread hfault]
    rfl
  · have hbuffer : buffer.read "" "" = (.ok (.datum d), ⟨rest⟩) := by
      rw [InputBuffer.read, hread]
    rw [hbuffer, Shared.readInPlace, InputBuffer.readInPlace_of_ok hread]
    rfl

/-- A reading whose tokens ran out asks for a line. -/
theorem replied_of_end (c : Config) (sh : Shared) {buffer : InputBuffer} (lines : List String)
    (h : (Datum.readOne buffer.tokens).1 = .error .endOfInput) :
    replied c (sh.takeAnswer (buffer.read "" "")) lines =
      ⟨.suspended (.awaiting ⟨"", "", ""⟩)
        { c with shared := sh.exhausted buffer }, lines⟩ := by
  rcases hread : Datum.readOne buffer.tokens with ⟨result, rest⟩
  obtain rfl : result = .error .endOfInput := by rwa [hread] at h
  have hbuffer : buffer.read "" "" = (.ok (.awaiting ⟨"", "", ""⟩), buffer) := by
    simp only [InputBuffer.read, hread, ite_self]
  rw [hbuffer]
  rfl

/-- The host hands over one line after another until the reading is done. -/
theorem reads_in_place (c : Config) (sh : Shared) (buffer : InputBuffer) (lines : List String) :
    ∃ k, ((replied c (sh.takeAnswer (buffer.read "" "")) lines).after k).quiet =
      (c.answered ({ sh with input := buffer }.readInPlace lines)).quiet := by
  induction lines generalizing c sh buffer with
  | nil =>
      by_cases hend : (Datum.readOne buffer.tokens).1 = .error .endOfInput
      · refine ⟨1, ?_⟩
        rw [replied_of_end c sh [] hend, after_succ, after_zero, next_awaiting, Shared.readInPlace,
          InputBuffer.readInPlace_of_end hend]
        rfl
      · exact ⟨0, by rw [after_zero, replied_of_decided c sh [] hend]⟩
  | cons line lines ih =>
      by_cases hend : (Datum.readOne buffer.tokens).1 = .error .endOfInput
      · rw [replied_of_end c sh _ hend]
        cases hfeed : buffer.feed line with
        | error fault =>
            have hsupply : buffer.supply (some line) "" "" = (.error fault, buffer) := by
              rw [InputBuffer.supply, hfeed]
            refine ⟨1, ?_⟩
            rw [after_succ, after_zero, next_awaiting, List.head?_cons, List.tail_cons,
              input_exhausted, hsupply, Shared.readInPlace, InputBuffer.readInPlace_of_line hend,
              hfeed]
            rfl
        | ok fed =>
            have hsupply : buffer.supply (some line) "" "" = fed.read "" "" := by
              rw [InputBuffer.supply, hfeed]
            obtain ⟨k, hk⟩ := ih { c with shared := sh.exhausted buffer }
              ((sh.exhausted buffer).note .awaitingInput) fed
            refine ⟨k + 1, ?_⟩
            rw [after_succ, next_awaiting, List.head?_cons, List.tail_cons, input_exhausted,
              hsupply, hk, answered_with_shared, Shared.readInPlace_of_feed hend hfeed]
            apply answered_congr
            rfl
      · exact ⟨0, by rw [after_zero, replied_of_decided c sh _ hend]⟩

/-- What was written needs one act of the host. -/
theorem next_emit (c : Config) (sh : Shared) (text : String) (lines : List String) :
    (next (replied c (Primitive.emit sh text) lines)).quiet =
      (c.answered ((.ok .void, sh.write text), lines)).quiet := rfl

theorem next_primitive {c : Config} {p : Primitive} {arguments : Value} {args : List Value}
    (hfocus : c.focus = .call (.primitive p) arguments) (helements : arguments.elements = .ok args)
    (lines : List String) :
    next ⟨.running c, lines⟩ = replied c (p.perform arguments args c.shared) lines := by
  simp only [next, Config.step, hfocus, Config.call, Config.callPrimitive, helements]
  obtain ⟨fault | v | suspension, sh⟩ := p.perform arguments args c.shared
  · simp only [replied, resumed, hfocus]
  · rfl
  · simp only [replied, resumed, hfocus]

/-- A step of the machine and the acts of the host that follow it make up a step of the
direct machine. -/
theorem catches_up (c : Config) (lines : List String) :
    ∃ k, (after (k + 1) ⟨.running c, lines⟩).quiet = (c.stepInPlace lines).quiet := by
  obtain ⟨p, arguments, args, given, hfocus, helements, hgiven⟩ | ⟨heq, _⟩ :=
    c.stepInPlace_cases lines
  · simp only [after_succ, next_primitive hfocus helements,
      Config.stepInPlace_of_some hfocus helements hgiven]
    unfold Primitive.performInPlace? at hgiven
    split at hgiven
    · next x =>
        cases hgiven
        exact ⟨1, next_emit c c.shared (x.displayed c.shared.store) lines⟩
    · cases hgiven
      exact ⟨1, next_emit c c.shared "\n" lines⟩
    · cases hgiven
      exact reads_in_place c c.shared c.shared.input lines
    · cases hgiven
  · exact ⟨0, by rw [heq]; rfl⟩

/-! ## Whole runs -/

/-- Wherever the direct machine comes to, the other machine and its host come to as well. -/
theorem exists_after (s : Served) (n : Nat) :
    ∃ m, (s.after m).quiet = (s.afterInPlace n).quiet := by
  induction n generalizing s with
  | zero => exact ⟨0, rfl⟩
  | succ n ih =>
      obtain ⟨transition, lines⟩ := s
      cases transition with
      | running c =>
          obtain ⟨k, hk⟩ := catches_up c lines
          obtain ⟨m, hm⟩ := ih (after (k + 1) ⟨.running c, lines⟩)
          refine ⟨k + 1 + m, ?_⟩
          rw [after_add, hm]
          exact quiet_afterInPlace hk n
      | _ => exact ih _

theorem suspension?_quiet (s : Served) :
    s.quiet.transition.suspension? = s.transition.suspension? := by
  obtain ⟨transition, lines⟩ := s
  cases transition <;> rfl

/-- Whatever the machine and its host come to, the direct machine comes to as well. -/
theorem exists_afterInPlace {s : Served} {result : Except Stop Value × Interpreter} {m : Nat}
    (hrunning : s.transition.suspension? = none) (h : (s.after m).result? = some result) :
    ∃ n, (s.afterInPlace n).quiet.result? = some (result.1, result.2.quiet) := by
  -- each step of the direct machine takes the other one at least a step
  induction m using Nat.strongRecOn generalizing s with
  | ind m ih =>
    obtain ⟨transition, lines⟩ := s
    cases transition with
    | running c =>
        obtain ⟨k, hk⟩ := catches_up c lines
        by_cases hle : m ≤ k + 1
        · have hended : (after (k + 1) ⟨.running c, lines⟩).result? = some result := by
            rw [show k + 1 = m + (k + 1 - m) by omega, after_add, after_of_result? h, h]
          refine ⟨1, ?_⟩
          have hresult := quiet_result? (after (k + 1) ⟨.running c, lines⟩)
          rw [hended, hk] at hresult
          exact hresult
        · have hnone : (after (k + 1) ⟨.running c, lines⟩).transition.suspension? = none := by
            rw [← suspension?_quiet, hk, suspension?_quiet, Config.suspension?_stepInPlace]
          rw [show m = k + 1 + (m - (k + 1)) by omega, after_add] at h
          obtain ⟨n, hn⟩ := ih (m - (k + 1)) (by omega) hnone h
          refine ⟨n + 1, ?_⟩
          rwa [quiet_afterInPlace hk n] at hn
    | suspended suspension c => cases hrunning
    | _ =>
        rw [after_of_result? rfl] at h
        refine ⟨0, ?_⟩
        rw [quiet_result?]
        exact congrArg (Option.map fun given => (given.1, given.2.quiet)) h

end Served

/-! ## What the interpreter gives -/

namespace Interpreter

/-- The same store, tokens typed and not read, output and lines to come.  The journals may
differ. -/
def SameState (i j : Interpreter) : Prop :=
  i.shared.store = j.shared.store ∧ i.shared.input = j.shared.input ∧
    i.shared.output = j.shared.output ∧ i.lines = j.lines

theorem sameState_of_quiet {i j : Interpreter} (h : i.quiet = j.quiet) : SameState i j := by
  injection h with hshared hlines
  injection hshared with hstore hinput houtput
  exact ⟨hstore, hinput, houtput, hlines⟩

/-- However many steps are allowed, they are not enough. -/
def Diverges {α : Type} (f : Nat → Except Stop α × Interpreter) : Prop :=
  ∀ n, (f n).1 = .error .exhausted

theorem diverges_iff {α : Type} {f : Nat → Except Stop α × Interpreter} :
    Diverges f ↔ ¬ ∃ given j, Gives f given j := by
  constructor
  · rintro hf ⟨given, j, n, hn⟩
    exact ne_exhausted_of_given hn (hf n)
  · intro hf n
    apply Classical.byContradiction
    intro hn
    obtain ⟨given, j, hgiven⟩ := exists_given hn
    exact hf ⟨given, j, n, hgiven⟩

theorem gives_evaluateInPlace_iff {e : Value} {i : Interpreter} {given : Except Failure Value}
    {j : Interpreter} :
    Gives (fun n => i.evaluateInPlace n e) given j ↔
      ∃ n, ((Served.start e Store.global .empty i).afterInPlace n).result? =
        some (given.mapError .failure, j) := by
  constructor
  · rintro ⟨n, hn⟩
    refine ⟨n, ?_⟩
    simp only [evaluateInPlace] at hn
    split at hn
    · next result hresult => rw [hresult, hn]
    · exact absurd rfl (ne_exhausted_of_given hn)
  · rintro ⟨n, hn⟩
    exact ⟨n, by simp only [evaluateInPlace, hn]⟩

theorem gives_evaluateValue_iff {e : Value} {i : Interpreter} {given : Except Failure Value}
    {j : Interpreter} :
    Gives (fun n => i.evaluateValue n e) given j ↔
      ∃ n, ((Served.start e Store.global .empty i).after n).result? =
        some (given.mapError .failure, j) :=
  evaluateValue_eq_iff e i (ne_exhausted_of_given rfl)

theorem exists_gives_inPlace {e : Value} {i j : Interpreter} {given : Except Failure Value}
    (h : Gives (fun n => i.evaluateValue n e) given j) :
    ∃ l, Gives (fun n => i.evaluateInPlace n e) given l ∧ SameState j l := by
  obtain ⟨m, hm⟩ := gives_evaluateValue_iff.mp h
  obtain ⟨n, hn⟩ := Served.exists_afterInPlace rfl hm
  rw [Served.quiet_result?] at hn
  obtain ⟨⟨result, l⟩, hresult, hquiet⟩ := Option.map_eq_some_iff.mp hn
  obtain ⟨rfl, hl⟩ := Prod.mk.inj hquiet
  exact ⟨l, gives_evaluateInPlace_iff.mpr ⟨n, hresult⟩, sameState_of_quiet hl.symm⟩

theorem exists_gives_evaluateValue {e : Value} {i l : Interpreter} {given : Except Failure Value}
    (h : Gives (fun n => i.evaluateInPlace n e) given l) :
    ∃ j, Gives (fun n => i.evaluateValue n e) given j ∧ SameState j l := by
  obtain ⟨n, hn⟩ := gives_evaluateInPlace_iff.mp h
  obtain ⟨m, hm⟩ := Served.exists_after (Served.start e Store.global .empty i) n
  have hresult := congrArg Served.result? hm
  rw [Served.quiet_result?, Served.quiet_result?, hn] at hresult
  obtain ⟨⟨result, j⟩, hafter, hquiet⟩ := Option.map_eq_some_iff.mp hresult
  obtain ⟨rfl, hj⟩ := Prod.mk.inj hquiet
  exact ⟨j, gives_evaluateValue_iff.mpr ⟨m, hafter⟩, sameState_of_quiet hj⟩

/-- **Suspension is transparent.**  An evaluation served by its host and the same evaluation
on the direct machine give the same value or the same failure and leave the same state, and
one goes on for ever when the other does.  Whatever is answered to an evaluation that only
let its output pass makes no difference.  And evaluating without a host gives and leaves what
evaluating with a host does that has no lines left. -/
theorem suspension_is_transparent (e : Value) (i : Interpreter) :
    (∀ given j, Gives (fun n => i.evaluateValue n e) given j →
      ∃ l, Gives (fun n => i.evaluateInPlace n e) given l ∧ SameState j l) ∧
    (∀ given l, Gives (fun n => i.evaluateInPlace n e) given l →
      ∃ j, Gives (fun n => i.evaluateValue n e) given j ∧ SameState j l) ∧
    (Diverges (fun n => i.evaluateValue n e) ↔ Diverges fun n => i.evaluateInPlace n e) ∧
    (∀ steps v env k sh answer other,
      Evaluation.resume steps answer ⟨.suspended (.yielding v), env, k⟩ sh =
        Evaluation.resume steps other ⟨.suspended (.yielding v), env, k⟩ sh) ∧
    ∀ steps expression,
      (i.evaluateAlone steps expression).1 =
        ({ i with lines := [] }.evaluate steps expression).1 ∧
      (i.evaluateAlone steps expression).2.shared =
        ({ i with lines := [] }.evaluate steps expression).2.shared := by
  refine ⟨fun _ _ => exists_gives_inPlace, fun _ _ => exists_gives_evaluateValue, ?_,
    fun _ _ _ _ _ _ _ => rfl, fun steps expression => ?_⟩
  · rw [diverges_iff, diverges_iff]
    apply not_congr
    constructor
    · rintro ⟨given, j, h⟩
      obtain ⟨l, hl, _⟩ := exists_gives_inPlace h
      exact ⟨given, l, hl⟩
    · rintro ⟨given, l, h⟩
      obtain ⟨j, hj, _⟩ := exists_gives_evaluateValue h
      exact ⟨given, j, hj⟩
  · rw [evaluateAlone_eq]
    exact ⟨rfl, rfl⟩

end Interpreter

end SchemeMachine
