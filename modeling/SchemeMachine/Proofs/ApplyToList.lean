import SchemeMachine.Interpreter
import SchemeMachine.Proofs.Transitions
import SchemeMachine.Proofs.Width

/-!
# Applying to what is no list

`apply` looks at the first pair of its second argument and not at the last one.  Whether an
improper list is refused is up to the procedure that gets it.  Primitives, `call/cc` and
`apply` itself count their arguments and refuse it; so does a closure that names all of its
parameters, because something is left over at the end.

Two kinds of procedures take it.  A continuation looks only at its first argument.  And a
closure whose parameters end in a symbol binds that symbol to whatever is left, once the
parameters before it have had their arguments.  `Value.takesImproper` tells these cases, and
`apply_of_improper_list` says what happens in them and in all the others.
-/

namespace SchemeMachine

/-! ## Which procedures take an improper list -/

/-- Whether the parameters end in a symbol that is reached before the arguments run out. -/
def Parameters.takesRest : Value → Value → Bool
  | .pair _ _ parameters, .pair _ _ arguments => takesRest parameters arguments
  | .symbol _, _ => true
  | _, _ => false

/-- Whether a procedure takes a chain of pairs that is no proper list. -/
def Value.takesImproper (f l : Value) : Bool :=
  match f, l with
  | .continuation .., .pair .. => true
  | .closure _ parameters _ _, .pair .. => Parameters.takesRest parameters l
  | _, _ => false

theorem Value.elements_of_improper {l : Value} (h : l.isProper = false) :
    ∃ tail, l.elements = .error tail := by
  cases helements : l.elements with
  | error tail => exact ⟨tail, rfl⟩
  | ok items =>
      rw [isProper_of_elements helements] at h
      cases h

namespace Parameters

variable {s : Store}

/-- Parameters that are all named leave something of an improper list over. -/
theorem bindings_of_improper {parameters arguments : Value} (himproper : arguments.isProper = false)
    (h : takesRest parameters arguments = false) :
    ∃ fault, bindings s parameters arguments = .error fault ∧ fault.ofLanguage = true := by
  have hfails : ∃ fault, bindings s parameters arguments = .error fault := by
    fun_induction bindings s parameters arguments with
    | case1 _ name parameters _ argument arguments ih =>
        rw [Value.isProper_pair] at himproper
        obtain ⟨fault, hfault⟩ := ih himproper h
        exact ⟨fault, by rw [hfault]; rfl⟩
    | case2 _ _ parameters _ _ arguments _ ih =>
        rw [Value.isProper_pair] at himproper
        exact ih himproper h
    | case3 => exact ⟨_, rfl⟩
    | case4 => cases h
    | case5 => cases himproper
    | case6 => exact ⟨_, rfl⟩
  obtain ⟨fault, hfault⟩ := hfails
  have hordinary := Fault.isOrdinary_of_isOfProgram (isOfProgram_of_bindings hfault)
  simp only [Fault.isOrdinary, Bool.and_eq_true] at hordinary
  exact ⟨fault, hfault, hordinary.1⟩

theorem bindings_of_takesRest {parameters arguments : Value}
    (h : takesRest parameters arguments = true) :
    ∃ made, bindings s parameters arguments = .ok made := by
  fun_induction bindings s parameters arguments with
  | case1 _ name parameters _ argument arguments ih =>
      obtain ⟨made, hmade⟩ := ih h
      exact ⟨(name, argument) :: made, by rw [hmade]; rfl⟩
  | case2 _ _ parameters _ _ arguments _ ih => exact ih h
  | case3 stamp head tail arguments _ hpair =>
      cases arguments with
      | pair stamp' argument rest => exact absurd rfl (hpair stamp' argument rest)
      | _ => cases h
  | case4 name arguments => exact ⟨_, rfl⟩
  | case5 => exact ⟨_, rfl⟩
  | case6 parameters arguments _ _ _ hpair hsymbol =>
      cases parameters with
      | symbol name => exact absurd rfl (hsymbol name)
      | pair stamp head tail => exact absurd rfl (hpair stamp head tail)
      | _ => cases h

end Parameters

/-! ## Performing a call of `apply` -/

/-- To call `apply` with these arguments is to apply `f` to `l`, at once or by way of `apply`
itself. -/
inductive Applies : Value → Value → Value → Prop
  | here {arguments f l : Value} (h : arguments.elements = .ok [f, l]) : Applies arguments f l
  | nested {arguments inner f l : Value} (h : arguments.elements = .ok [.applyToList, inner])
      (hinner : Applies inner f l) : Applies arguments f l

namespace Config

/-- The machine goes from one call to another and does nothing else: the environment, the
stack and the shared state stay as they are. -/
inductive Forwards : Config → Config → Prop
  | refl (c : Config) : Forwards c c
  | step {c d : Config} {callee arguments : Value}
      (h : c.step = .running { c with focus := .call callee arguments })
      (hlater : Forwards { c with focus := .call callee arguments } d) : Forwards c d

/-- The call that the machine is about to make is refused, perhaps after it was forwarded.
No continuation is installed, as the stack that was there still is; no parameter is bound and
nothing is evaluated, as there is no step but the refusal. -/
def Refused (c : Config) (fault : Fault) : Prop :=
  ∃ d after, c.Forwards d ∧ d.step = .failed fault after ∧ after.shared = c.shared ∧
    after.env = c.env ∧ c.stack.frames <:+ after.stack.frames

/-- A procedure that does not take an improper list refuses it. -/
theorem call_of_improper {c : Config} {f l : Value} (hfocus : c.focus = .call f l)
    (hpair : ∃ stamp head tail, l = .pair stamp head tail) (himproper : l.isProper = false)
    (h : f.takesImproper l = false) :
    ∃ fault after, c.step = .failed fault after ∧ fault.ofLanguage = true ∧
      after.shared = c.shared ∧ after.env = c.env ∧ c.stack.frames <:+ after.stack.frames := by
  obtain ⟨tail, helements⟩ := Value.elements_of_improper himproper
  have hunchanged : c.stack.frames <:+ c.stack.frames := List.suffix_refl _
  have hcounted (hstep : c.step = c.improperArguments tail) :
      ∃ fault after, c.step = .failed fault after ∧ fault.ofLanguage = true ∧
        after.shared = c.shared ∧ after.env = c.env ∧ c.stack.frames <:+ after.stack.frames :=
    ⟨_, c, hstep, rfl, rfl, rfl, hunchanged⟩
  cases f with
  | callWithContinuation =>
      apply hcounted
      simp only [step, hfocus, call, callWithContinuation, helements]
  | applyToList =>
      apply hcounted
      simp only [step, hfocus, call, applyToList, helements]
  | primitive p =>
      apply hcounted
      simp only [step, hfocus, call, callPrimitive, helements]
  | closure stamp parameters body home =>
      obtain ⟨stamp', head, rest, rfl⟩ := hpair
      obtain ⟨fault, hbindings, hlanguage⟩ := Parameters.bindings_of_improper (s := c.store)
        himproper h
      refine ⟨fault, { c with stack := (c.stack.pushRestore c.env).push .sequence body }, ?_,
        hlanguage, rfl, rfl, ?_⟩
      · simp only [store] at hbindings
        simp only [step, hfocus, call, callClosure, store, Saving.save_eliding, hbindings]
      · rw [Stack.frames_push, Stack.frames_pushRestore]
        split
        · exact List.suffix_cons _ _
        · exact (List.suffix_cons _ _).trans (List.suffix_cons _ _)
  | continuation stamp frames =>
      obtain ⟨stamp', head, rest, rfl⟩ := hpair
      cases h
  | _ =>
      rw [step, hfocus]
      exact ⟨_, c, rfl, rfl, rfl, rfl, hunchanged⟩

/-- A call of `apply` with a callee and a chain of pairs is forwarded. -/
theorem step_applyToList {c : Config} {arguments f : Value} {stamp : Nat} {head tail : Value}
    (hfocus : c.focus = .call .applyToList arguments)
    (helements : arguments.elements = .ok [f, .pair stamp head tail]) :
    c.step = .running { c with focus := .call f (.pair stamp head tail) } := by
  simp only [step, hfocus, call, applyToList, helements, toCall]

theorem pair_of_applies {arguments f l : Value} (h : Applies arguments f l) :
    ∃ stamp head tail, arguments = .pair stamp head tail := by
  have hsome : ∃ first others, arguments.elements = .ok (first :: others) := by
    cases h with
    | here h => exact ⟨_, _, h⟩
    | nested h => exact ⟨_, _, h⟩
  obtain ⟨first, others, hsome⟩ := hsome
  cases arguments with
  | pair stamp head tail => exact ⟨stamp, head, tail, rfl⟩
  | _ => cases hsome

/-- However deep `apply` is nested, the call comes to the point where `f` is applied to `l`. -/
theorem forwards_of_applies {c : Config} {arguments f l : Value}
    (hfocus : c.focus = .call .applyToList arguments) (h : Applies arguments f l) :
    ∃ last, last.elements = .ok [f, l] ∧
      c.Forwards { c with focus := .call .applyToList last } := by
  induction h generalizing c with
  | @here arguments f l h =>
      have hself : { c with focus := .call .applyToList arguments } = c := by rw [← hfocus]
      exact ⟨arguments, h, hself ▸ .refl _⟩
  | @nested arguments inner f l h hinner ih =>
      obtain ⟨stamp, head, tail, rfl⟩ := pair_of_applies hinner
      obtain ⟨last, hlast, hforwards⟩ :=
        ih (c := { c with focus := .call .applyToList (.pair stamp head tail) }) rfl
      exact ⟨last, hlast, .step (step_applyToList hfocus h) hforwards⟩

theorem Forwards.trans {c d e : Config} (h : c.Forwards d) (h' : d.Forwards e) : c.Forwards e := by
  induction h with
  | refl c => exact h'
  | step hstep _ ih => exact .step hstep (ih h')

/-- A closure whose parameters can be bound leaves its body on the stack. -/
theorem step_closure {c : Config} {stamp : Nat} {parameters body arguments : Value} {home : Addr}
    {made : List (String × Value)}
    (hfocus : c.focus = .call (.closure stamp parameters body home) arguments)
    (hmade : Parameters.bindings c.store parameters arguments = .ok made) :
    c.step = .running ⟨.drain .void, (Store.openFrame home made c.store).1,
      (c.stack.pushRestore c.env).push .sequence body,
      { c.shared with store := (Store.openFrame home made c.store).2 }⟩ := by
  simp only [store] at hmade
  simp only [step, hfocus, call, callClosure, store, hmade]
  rfl

/-- `apply` refuses what is neither empty nor a pair. -/
theorem step_applyToList_of_atom {c : Config} {arguments f l : Value}
    (hfocus : c.focus = .call .applyToList arguments) (helements : arguments.elements = .ok [f, l])
    (himproper : l.isProper = false) (hatom : ∀ stamp head tail, l ≠ .pair stamp head tail) :
    c.step = .failed (.listExpected (l.written c.store)) c := by
  simp only [step, hfocus, call, applyToList, helements]
  cases l with
  | nil => cases himproper
  | pair stamp head tail => exact absurd rfl (hatom stamp head tail)
  | _ => rfl

end Config

/-- **What `apply` does with an improper list.**  If the procedure does not take it, the call
is refused with an error of the language, and nothing else has happened: no continuation is
installed, no parameter bound, nothing evaluated, and the store, the output and the input are
as they were.  If it does, the call is made: a continuation gets the first element, and the
last parameter of a closure what the parameters before it have left. -/
theorem apply_of_improper_list {c : Config} {arguments f l : Value}
    (hfocus : c.focus = .call .applyToList arguments) (happlies : Applies arguments f l)
    (himproper : l.isProper = false) :
    (f.takesImproper l = false → ∃ fault, fault.ofLanguage = true ∧ c.Refused fault) ∧
    (f.takesImproper l = true →
      c.Forwards { c with focus := .call f l } ∧
      ((∃ stamp frames, f = .continuation stamp frames ∧
        Config.step { c with focus := .call f l } =
          .running { c with
            focus := .drain (Config.passedValue l), stack := c.stack.reinstate frames }) ∨
      ∃ stamp parameters body home made next,
        f = .closure stamp parameters body home ∧
        Parameters.bindings c.store parameters l = .ok made ∧
        Config.step { c with focus := .call f l } = .running next ∧
        next.focus = .drain .void ∧
        next.stack.frames.head? = some (.sequence, body) ∧
        (next.env, next.store) = Store.openFrame home made c.store)) := by
  obtain ⟨last, helements, hforwards⟩ := Config.forwards_of_applies hfocus happlies
  by_cases hpair : ∃ stamp head tail, l = .pair stamp head tail
  · have hcall : c.Forwards { c with focus := .call f l } := by
      obtain ⟨stamp, head, tail, rfl⟩ := hpair
      exact hforwards.trans (.step (Config.step_applyToList rfl helements) (.refl _))
    constructor
    · intro hrefuses
      obtain ⟨fault, after, hstep, hlanguage, hafter⟩ :=
        Config.call_of_improper (c := { c with focus := .call f l }) rfl hpair himproper hrefuses
      exact ⟨fault, hlanguage, _, after, hcall, hstep, hafter⟩
    · intro htakes
      refine ⟨hcall, ?_⟩
      obtain ⟨stamp, head, tail, rfl⟩ := hpair
      cases f with
      | continuation stamp' frames => exact .inl ⟨stamp', frames, rfl, rfl⟩
      | closure stamp' parameters body home =>
          obtain ⟨made, hmade⟩ := Parameters.bindings_of_takesRest (s := c.store) htakes
          let f := Value.closure stamp' parameters body home
          have hstep := Config.step_closure (c := { c with focus := .call f _ }) rfl hmade
          exact .inr ⟨stamp', parameters, body, home, made, _, rfl, hmade, hstep, rfl, rfl, rfl⟩
      | _ => cases htakes
  · have hatom : ∀ stamp head tail, l ≠ .pair stamp head tail :=
      fun stamp head tail heq => hpair ⟨stamp, head, tail, heq⟩
    constructor
    · intro _
      have hstep := Config.step_applyToList_of_atom
        (c := { c with focus := .call .applyToList last }) rfl helements himproper hatom
      exact ⟨_, rfl, _, _, hforwards, hstep, rfl, rfl, List.suffix_refl _⟩
    · intro htakes
      unfold Value.takesImproper at htakes
      split at htakes
      · exact absurd rfl (hatom _ _ _)
      · exact absurd rfl (hatom _ _ _)
      · cases htakes

/-- `(apply apply (list car '(1 . 2)))` is refused. -/
theorem apply_of_improper_list_nested :
    let l := Value.pair 3 (.number (.exact 1)) (.number (.exact 2))
    let inner := Value.pair 2 (.primitive .car) (.pair 1 l .nil)
    let c : Config := ⟨.call .applyToList (.pair 0 .applyToList (.pair 4 inner .nil)),
      Store.global, .empty, .initial⟩
    ∃ fault, fault.ofLanguage = true ∧ c.Refused fault := by
  intro l inner c
  exact (apply_of_improper_list (c := c) (f := .primitive .car) (l := l) rfl
    (.nested rfl (.here rfl)) rfl).1 rfl

/-- `(apply (lambda x x) (cons 1 2))` has a value. -/
theorem apply_takes_dotted_pair :
    let one := Datum.number (.exact 1)
    let two := Datum.number (.exact 2)
    let expression := Datum.ofList [.symbol "apply",
      .ofList [.symbol "lambda", .symbol "x", .symbol "x"] .nil,
      .ofList [.symbol "cons", one, two] .nil] .nil
    ∃ v, ((Interpreter.start []).evaluate 40 expression).1 = .ok v ∧
      v.written Store.initial = "(1 . 2)" := by
  exact ⟨_, rfl, rfl⟩

end SchemeMachine
