import SchemeMachine.Proofs.Changes
import SchemeMachine.Proofs.Silence

/-!
# What stands beside the store

Beside the store, evaluations share the input, the output and a journal.  Hardly any step
looks at them.  `read` is the only procedure that reads from the input, and `display` and
`newline` put a text behind what was written, whatever it was; only a suspension is noted in
the journal.

So a configuration can be set into other surroundings, and but for a call of `read` it takes
the same step there: `step_amid`.  It also follows that such a step changes nothing of its
surroundings except for the text that it writes.
-/

namespace SchemeMachine

/-- What evaluations share beside the store. -/
structure Surroundings where
  input : InputBuffer
  output : String
  journal : List Event

/-- The surroundings after a text was written. -/
def Surroundings.plus (around : Surroundings) (text : String) : Surroundings :=
  { around with output := around.output ++ text }

@[simp] theorem Surroundings.plus_empty (around : Surroundings) : around.plus "" = around := by
  rw [plus, String.append_empty]

namespace Shared

/-- What a shared state has beside its store. -/
def surroundings (sh : Shared) : Surroundings :=
  ⟨sh.input, sh.output, sh.journal⟩

/-- The store of a shared state in other surroundings. -/
def amid (around : Surroundings) (sh : Shared) : Shared :=
  ⟨sh.store, around.input, around.output, around.journal⟩

@[simp] theorem store_amid (around : Surroundings) (sh : Shared) :
    (sh.amid around).store = sh.store := rfl

@[simp] theorem surroundings_amid (around : Surroundings) (sh : Shared) :
    (sh.amid around).surroundings = around := rfl

theorem amid_surroundings (sh : Shared) : sh.amid sh.surroundings = sh := rfl

/-- A shared state is its store and its surroundings. -/
theorem eq_of_surroundings {sh sh' : Shared} (hstore : sh.store = sh'.store)
    (haround : sh.surroundings = sh'.surroundings) : sh = sh' := by
  rw [← sh.amid_surroundings, ← sh'.amid_surroundings, haround, amid, amid, hstore]

end Shared

/-- A configuration in other surroundings. -/
def Config.amid (around : Surroundings) (c : Config) : Config :=
  { c with shared := c.shared.amid around }

/-- A transition to a configuration in other surroundings. -/
def Transition.amid (around : Surroundings) : Transition → Transition
  | .running c => .running (c.amid around)
  | .finished v c => .finished v (c.amid around)
  | .suspended suspension c => .suspended suspension (c.amid around)
  | .failed fault c => .failed fault (c.amid around)

theorem Transition.shared_amid (around : Surroundings) (t : Transition) :
    (t.amid around).config.shared = t.config.shared.amid around := by
  cases t <;> rfl

namespace Config

variable (around : Surroundings)

/-! ## Steps that call no primitive -/

theorem toSequence_amid (c : Config) (expressions : Value) :
    (c.amid around).toSequence expressions = (c.toSequence expressions).amid around := by
  unfold toSequence
  split <;> rfl

theorem reduceAs_amid (c : Config) (e : Value) (form : Form) :
    (c.amid around).reduceAs e form = (c.reduceAs e form).amid around := by
  cases form with
  | symbol name =>
      simp only [reduceAs, store, amid, Shared.store_amid]
      split <;> rfl
  | sequence expressions =>
      by_cases hsome : expressions = .nil
      · subst hsome
        rfl
      · rw [reduceAs_sequence _ e hsome, reduceAs_sequence _ e hsome]
        exact toSequence_amid around c expressions
  | lambda parameters body =>
      simp only [reduceAs, reduceLambda, store, amid, Shared.store_amid]
      split <;> rfl
  | procedure name parameters body =>
      simp only [reduceAs, reduceDefineProcedure, store, amid, Shared.store_amid]
      split
      · rfl
      · split <;> rfl
  | definition name x =>
      simp only [reduceAs, reduceDefine]
      split <;> rfl
  | assignment name x =>
      simp only [reduceAs, reduceAssign, store, amid, Shared.store_amid]
      split
      · split <;> rfl
      · rfl
  | _ => rfl

theorem resumeChoose_amid (c : Config) (v arms : Value) :
    (c.amid around).resumeChoose v arms = (c.resumeChoose v arms).amid around := by
  unfold resumeChoose
  split
  · split <;> rfl
  · split <;> rfl

theorem pushOperands_amid (c : Config) (operands : List Value) :
    (c.amid around).pushOperands operands = (c.pushOperands operands).amid around := by
  induction operands with
  | nil => rfl
  | cons operand operands ih =>
      simp only [pushOperands, List.foldr_cons] at ih ⊢
      rw [ih]
      rfl

theorem resumeOperands_amid (c : Config) (callee operands : Value) :
    (c.amid around).resumeOperands callee operands =
      (c.resumeOperands callee operands).amid around := by
  unfold resumeOperands
  split
  · rfl
  · split
    · rfl
    · next others _ =>
        have hpushed := pushOperands_amid around (c.push .operator callee) others
        exact congrArg (fun c : Config => (c.push .collect .nil).toReduce _) hpushed
  · rfl

theorem callCollected_amid (c : Config) (callee collected : Value) :
    (c.amid around).callCollected callee collected =
      (c.callCollected callee collected).amid around := by
  unfold callCollected
  split <;> rfl

theorem resumeCollect_amid (c : Config) (v earlier : Value) :
    (c.amid around).resumeCollect v earlier = (c.resumeCollect v earlier).amid around := by
  simp only [resumeCollect, onStore, amid]
  split
  · rfl
  · split
    · rfl
    · exact callCollected_amid around { c with
        stack := _, shared := (c.shared.onStore (Store.newPair v earlier)).2 } _ _
    · rfl

theorem resumeFrame_amid (c : Config) (kind : FrameKind) (payload v : Value) :
    (c.amid around).resumeFrame kind payload v = (c.resumeFrame kind payload v).amid around := by
  unfold resumeFrame
  split
  · exact resumeChoose_amid around c v _
  · exact toSequence_amid around c _
  · rfl
  · rfl
  · rfl
  · exact resumeOperands_amid around c v _
  · exact resumeCollect_amid around c v _
  · rfl
  · rfl

theorem drain_amid (c : Config) (v : Value) :
    (c.amid around).drain v = (c.drain v).amid around := by
  simp only [drain, amid]
  split
  · rfl
  · next kind payload below _ =>
      exact resumeFrame_amid around { c with stack := below } kind payload v

theorem call_amid (c : Config) {callee : Value} (arguments : Value)
    (hcallee : ∀ p, callee ≠ .primitive p) :
    (c.amid around).call callee arguments = (c.call callee arguments).amid around := by
  cases callee with
  | callWithContinuation =>
      simp only [call, callWithContinuation]
      split <;> rfl
  | applyToList =>
      simp only [call, applyToList]
      split
      · rfl
      · split <;> rfl
      · rfl
  | primitive p => exact absurd rfl (hcallee p)
  | closure stamp parameters body home =>
      simp only [call, callClosure, amid, store, Shared.store_amid]
      split <;> rfl
  | _ => rfl

/-- The next step is a call of a primitive. -/
def CallsPrimitive (c : Config) : Prop :=
  ∃ p arguments, c.focus = .call (.primitive p) arguments

/-- A step that calls no primitive is the same in all surroundings. -/
theorem step_amid_of_not_callsPrimitive (c : Config) (hcalls : ¬ c.CallsPrimitive) :
    (c.amid around).step = c.step.amid around := by
  obtain ⟨focus, env, k, sh⟩ := c
  cases focus with
  | reduce e =>
      have hforms := reduceAs_amid around ⟨.reduce e, env, k, sh⟩ e (Form.of e)
      rwa [← reduce_eq, ← reduce_eq] at hforms
  | drain v => exact drain_amid around ⟨.drain v, env, k, sh⟩ v
  | call callee arguments =>
      apply call_amid around ⟨.call callee arguments, env, k, sh⟩ arguments
      rintro p rfl
      exact hcalls ⟨p, arguments, rfl⟩

end Config

/-! ## Primitives -/

/-- A suspension for output. -/
def Suspension.IsYield : Suspension → Prop
  | .awaiting _ => False
  | .yielding _ => True

/-- What a primitive gives and writes is the same in all surroundings. -/
structure Primitive.Alike (around : Surroundings) (sh : Shared) (said : String)
    (here there : Except Fault Reply × Shared) : Prop where
  reply : there.1 = here.1
  shared : there.2 = here.2.amid (around.plus said)
  said : here.2.surroundings = sh.surroundings.plus said
  yields : ∀ suspension, here.1 = .ok (.suspend suspension) → suspension.IsYield

/-- What writes nothing is alike in all surroundings if it is so but for them. -/
theorem Primitive.alike_of_silent {around : Surroundings} {sh : Shared}
    {here there : Except Fault Reply × Shared} (hreply : there.1 = here.1)
    (hshared : there.2 = here.2.amid around) (hsaid : here.2.surroundings = sh.surroundings)
    (hyields : ∀ suspension, here.1 ≠ .ok (.suspend suspension)) :
    ∃ said, Alike around sh said here there :=
  ⟨"", hreply, by rwa [Surroundings.plus_empty], by rwa [Surroundings.plus_empty],
    fun suspension h => absurd h (hyields suspension)⟩

theorem Primitive.perform_amid (p : Primitive) (arguments : Value) (args : List Value) (sh : Shared)
    (around : Surroundings) (hread : ¬(p = .read ∧ args = [])) :
    ∃ said, Alike around sh said (p.perform arguments args sh)
      (p.perform arguments args (sh.amid around)) := by
  have hanswer (result : Except Fault Value) :
      ∃ said, Alike around sh said (answer sh result) (answer (sh.amid around) result) := by
    cases result with
    | error fault => exact alike_of_silent rfl rfl rfl (by rintro _ ⟨⟩)
    | ok v => exact alike_of_silent rfl rfl rfl (by rintro _ ⟨⟩)
  have hnew (make : Store → Value × Store) :
      ∃ said, Alike around sh said (answerNew sh make) (answerNew (sh.amid around) make) :=
    alike_of_silent rfl rfl rfl (by rintro _ ⟨⟩)
  have hemit (text : String) :
      ∃ said, Alike around sh said (emit sh text) (emit (sh.amid around) text) := by
    refine ⟨text, rfl, rfl, rfl, fun suspension h => ?_⟩
    cases h
    trivial
  have hfault (fault : Fault) :
      ∃ said, Alike around sh said (.error fault, sh) (.error fault, sh.amid around) :=
    alike_of_silent rfl rfl rfl (by rintro _ ⟨⟩)
  unfold perform
  split
  case h_12 => exact absurd ⟨rfl, rfl⟩ hread
  all_goals first
    | exact hanswer _
    | exact hanswer (.ok _)
    | exact hnew _
    | exact hemit _
    | exact hfault _

namespace Config

/-- The next step is a call of `read`. -/
def Reads (c : Config) : Prop :=
  c.focus = .call (.primitive .read) .nil

theorem eq_nil_of_elements {arguments : Value} (h : arguments.elements = .ok []) :
    arguments = .nil := by
  cases arguments with
  | nil => rfl
  | pair stamp head tail =>
      rw [Value.elements] at h
      cases htail : tail.elements <;> rw [htail] at h <;> cases h
  | _ => cases h

/-- How the machine goes on with what a primitive gave. -/
def replied (c : Config) : Except Fault Reply × Shared → Transition
  | (.error fault, sh) => .failed fault { c with shared := sh }
  | (.ok (.value v), sh) => { c with shared := sh }.toDrain v
  | (.ok (.suspend suspension), sh) => .suspended suspension { c with shared := sh }

theorem step_primitive {c : Config} {p : Primitive} {arguments : Value} {args : List Value}
    (hfocus : c.focus = .call (.primitive p) arguments)
    (helements : arguments.elements = .ok args) :
    c.step = c.replied (p.perform arguments args c.shared) := by
  simp only [step, hfocus, call, callPrimitive, helements]
  obtain ⟨fault | v | suspension, sh⟩ := p.perform arguments args c.shared
  · simp only [replied, hfocus]
  · rfl
  · simp only [replied, hfocus]

theorem shared_replied (c : Config) (given : Except Fault Reply × Shared) :
    (c.replied given).config.shared = given.2 := by
  obtain ⟨fault | v | suspension, sh⟩ := given <;> rfl

theorem reply_of_suspended {c d : Config} {given : Except Fault Reply × Shared}
    {suspension : Suspension} (h : c.replied given = .suspended suspension d) :
    given.1 = .ok (.suspend suspension) := by
  obtain ⟨fault | v | other, sh⟩ := given
  · cases h
  · cases h
  · cases h
    rfl

theorem replied_amid (c : Config) (around later : Surroundings)
    (given : Except Fault Reply × Shared) :
    (c.amid around).replied (given.1, given.2.amid later) = (c.replied given).amid later := by
  obtain ⟨fault | v | suspension, sh⟩ := given <;> rfl

/-- A step in other surroundings is the same step, after which the same text has been
written. -/
structure StepsAlike (c : Config) (around : Surroundings) (said : String) : Prop where
  there : (c.amid around).step = c.step.amid (around.plus said)
  said : c.step.config.shared.surroundings = c.shared.surroundings.plus said
  yields : ∀ suspension d, c.step = .suspended suspension d → suspension.IsYield

/-- A step that reads nothing is the same in all surroundings. -/
theorem step_amid (c : Config) (around : Surroundings) (hread : ¬ c.Reads) :
    ∃ said, c.StepsAlike around said := by
  by_cases hcalls : c.CallsPrimitive
  · obtain ⟨p, arguments, hfocus⟩ := hcalls
    cases helements : arguments.elements with
    | error tail =>
        refine ⟨"", ?_, ?_, ?_⟩
        · rw [Surroundings.plus_empty]
          simp only [step, hfocus, call, callPrimitive, helements, amid]
          rw [← hfocus]
          rfl
        · rw [Surroundings.plus_empty]
          simp only [step, hfocus, call, callPrimitive, helements]
          rfl
        · intro suspension d hstep
          simp only [step, hfocus, call, callPrimitive, helements] at hstep
          cases hstep
    | ok args =>
        have hnot : ¬(p = .read ∧ args = []) := by
          rintro ⟨rfl, rfl⟩
          exact hread (by rw [Reads, hfocus, eq_nil_of_elements helements])
        obtain ⟨said, halike⟩ := p.perform_amid arguments args c.shared around hnot
        have hhere := step_primitive hfocus helements
        have hthere := step_primitive (c := c.amid around) hfocus helements
        refine ⟨said, ?_, ?_, ?_⟩
        · rw [hhere, hthere, ← replied_amid c around, ← halike.shared, ← halike.reply]
          rfl
        · rw [hhere, shared_replied, halike.said]
        · intro suspension d hstep
          exact halike.yields suspension (reply_of_suspended (hhere.symm.trans hstep))
  · have hsame := step_amid_of_not_callsPrimitive c.shared.surroundings c hcalls
    refine ⟨"", ?_, ?_, ?_⟩
    · rw [Surroundings.plus_empty]
      exact step_amid_of_not_callsPrimitive around c hcalls
    · -- set into its own surroundings the step is itself
      have hown : c.amid c.shared.surroundings = c := rfl
      rw [hown] at hsame
      rw [Surroundings.plus_empty, hsame, Transition.shared_amid, Shared.surroundings_amid]
    · intro suspension d hstep
      obtain ⟨p, arguments, _, _, hfocus, _⟩ := step_suspended hstep
      exact absurd ⟨p, arguments, hfocus⟩ hcalls

end Config

end SchemeMachine
