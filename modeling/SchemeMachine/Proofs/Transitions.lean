import SchemeMachine.Proofs.Reading.Data
import SchemeMachine.Proofs.Reading.Tokens
import SchemeMachine.Proofs.Requirement.Step

/-!
# All that a step can do

`Config.Goes` lists the ways in which a step goes on, each with what the machine does
next, the environment it does it in and the stack it does it on.  `Config.Fails` lists
the ways in which a step fails, each with the fault and the stack that is left.
`step_follows` says that there are no others.

What stays true from step to step follows from the two lists, without looking at the
machine again.
-/

namespace SchemeMachine

/-! ## Faults -/

namespace Fault

/-- Whether a fault would mean that the machine has lost its way, and not the program. -/
def isInternal : Fault → Bool
  | emptyStack | invalidOperation _ => true
  | _ => false

/-- Whether a fault is one that the language provides for. -/
def isOrdinary (fault : Fault) : Bool :=
  fault.ofLanguage && !fault.isInternal

/-- Whether a fault is that of a call which an evaluation does not accept. -/
def isRefusal : Fault → Bool
  | alreadyStarted | notSuspended => true
  | _ => false

/-- Whether a fault is one that the language provides for in programs. -/
def isOfProgram (fault : Fault) : Bool :=
  fault.isOrdinary && !fault.isRefusal

theorem isOrdinary_of_isOfProgram {fault : Fault} (h : fault.isOfProgram = true) :
    fault.isOrdinary = true := by
  rw [isOfProgram, Bool.and_eq_true] at h
  exact h.1

theorem not_isRefusal_of_isOfProgram {fault : Fault} (h : fault.isOfProgram = true) :
    fault.isRefusal = false := by
  rw [isOfProgram, Bool.and_eq_true] at h
  simpa using h.2

theorem isOfProgram_of_isSyntaxError {fault : Fault} (h : fault.IsSyntaxError) :
    fault.isOfProgram = true := by
  cases fault with
  | literalMissing | noPart | tooLargeForDouble | emptyStack | invalidOperation | sourceNotFound
  | fileMissing | isDirectory | nameTooLong | nullInPath | undecodable | alreadyStarted
  | notSuspended =>
      simp [IsSyntaxError, label] at h
  | _ => rfl

end Fault

namespace Parameters

variable [Saving] {s : Store}

theorem isOfProgram_of_firstFault {whole parameters : Value} {fault : Fault}
    (h : firstFault s whole parameters = some fault) : fault.isOfProgram = true := by
  fun_induction firstFault s whole parameters with
  | case1 _ _ _ ih => exact ih h
  | case2 | case5 =>
      cases h
      rfl
  | case3 | case4 => cases h

theorem isOfProgram_of_bindings {parameters arguments : Value} {fault : Fault}
    (h : bindings s parameters arguments = .error fault) : fault.isOfProgram = true := by
  fun_induction bindings s parameters arguments with
  | case1 _ name parameters _ argument arguments ih =>
      cases hrest : bindings s parameters arguments with
      | ok made => simp [hrest, Except.map] at h
      | error found =>
          simp only [hrest, Except.map, Except.error.injEq] at h
          exact ih (h ▸ hrest)
  | case2 _ _ _ _ _ _ _ ih => exact ih h
  | case3 | case6 =>
      cases h
      rfl
  | case4 | case5 => cases h

end Parameters

/-! ## The stack -/

namespace Stack

/-- The stack on which the first expression of a sequence is reduced: the last one needs
no frame to come back to. -/
def forRest (rest : Value) (k : Stack) : Stack :=
  match rest with
  | .nil => k
  | rest => k.push .sequence rest

/-- Push a frame for each operand, the first of them on top. -/
def pushOperands (operands : List Value) (k : Stack) : Stack :=
  operands.foldr (fun operand k => k.push .operand operand) k

theorem frames_pushOperands (operands : List Value) (k : Stack) :
    (k.pushOperands operands).frames = operands.map (FrameKind.operand, ·) ++ k.frames := by
  induction operands with
  | nil => rfl
  | cons operand operands ih =>
      rw [List.map_cons, List.cons_append, ← ih]
      rfl

theorem frames_forRest (rest : Value) (k : Stack) :
    (rest = .nil ∧ (k.forRest rest).frames = k.frames) ∨
      (rest ≠ .nil ∧ (k.forRest rest).frames = (.sequence, rest) :: k.frames) := by
  cases rest with
  | nil => exact .inl ⟨rfl, rfl⟩
  | _ => exact .inr ⟨nofun, rfl⟩

end Stack

theorem Config.stack_pushOperands (c : Config) (operands : List Value) :
    (c.pushOperands operands).stack = c.stack.pushOperands operands := by
  induction operands with
  | nil => rfl
  | cons operand operands ih => exact congrArg (Stack.push .operand operand) ih

/-! ## The two lists -/

/-- The operation that an arithmetic primitive performs. -/
def Primitive.operation? : Primitive → Option Number.Operation
  | .add => some .add
  | .subtract => some .subtract
  | .multiply => some .multiply
  | _ => none

namespace Config

/-- How a step may go on: what is done next, in which environment and on which stack. -/
inductive Goes [Saving] (c : Config) : Focus → Addr → Stack → Prop
  -- Reducing an expression
  | valued {e v : Value} (hfocus : c.focus = .reduce e) : Goes c (.drain v) c.env c.stack
  | tested {e test yes : Value} {no : Option Value} (hfocus : c.focus = .reduce e)
      (hform : Form.of e = .branch test yes no) :
      Goes c (.reduce test) c.env (c.stack.push .choose e.afterSecond)
  | begun {e x rest : Value} {stamp : Nat} (hfocus : c.focus = .reduce e)
      (hform : Form.of e = .sequence (.pair stamp x rest)) :
      Goes c (.reduce x) c.env (c.stack.forRest rest)
  | named {e parameters body v : Value} {name : String} (hfocus : c.focus = .reduce e)
      (hform : Form.of e = .procedure (.symbol name) parameters body) :
      Goes c (.drain v) c.env (c.stack.push .define (.symbol name))
  | defining {e x : Value} {name : String} (hfocus : c.focus = .reduce e)
      (hform : Form.of e = .definition (.symbol name) x) :
      Goes c (.reduce x) c.env (c.stack.push .define (.symbol name))
  | assigning {e x v : Value} {name : String} {node : Addr} (hfocus : c.focus = .reduce e)
      (hform : Form.of e = .assignment (.symbol name) x)
      (hfind : c.store.find? name c.env = some (node, v)) :
      Goes c (.reduce x) c.env (c.stack.push .assign (.environment node))
  | applying {e operator operands : Value} (hfocus : c.focus = .reduce e)
      (hform : Form.of e = .application operator operands) :
      Goes c (.reduce operator) c.env (c.stack.push .operands operands)
  -- Handing a value to a frame
  | chosen {v arms x : Value} {below : Stack} (hfocus : c.focus = .drain v)
      (hpop : c.stack.pop? = some ((.choose, arms), below)) (harm : x ∈ arms.items) :
      Goes c (.reduce x) c.env below
  | noted {v payload : Value} {kind : FrameKind} {below : Stack} (hfocus : c.focus = .drain v)
      (hpop : c.stack.pop? = some ((kind, payload), below))
      (hkind : kind = .choose ∨ kind = .define ∨ kind = .assign) :
      Goes c (.drain .void) c.env below
  | advanced {v x rest : Value} {stamp : Nat} {below : Stack} (hfocus : c.focus = .drain v)
      (hpop : c.stack.pop? = some ((.sequence, .pair stamp x rest), below)) :
      Goes c (.reduce x) c.env (below.forRest rest)
  | calling {v : Value} {below : Stack} (hfocus : c.focus = .drain v)
      (hpop : c.stack.pop? = some ((.operands, .nil), below)) : Goes c (.call v .nil) c.env below
  | operandsBegun {v first rest : Value} {stamp : Nat} {others : List Value} {below : Stack}
      (hfocus : c.focus = .drain v)
      (hpop : c.stack.pop? = some ((.operands, .pair stamp first rest), below))
      (hothers : rest.elements = .ok others) :
      Goes c (.reduce first) c.env
        (((below.push .operator v).pushOperands others).push .collect .nil)
  | operandCollected {v earlier e : Value} {stamp : Nat} {below rest : Stack}
      (hfocus : c.focus = .drain v) (hpop : c.stack.pop? = some ((.collect, earlier), below))
      (hnext : below.pop? = some ((.operand, e), rest)) :
      Goes c (.reduce e) c.env (rest.push .collect (.pair stamp v earlier))
  | operandsCollected {v earlier callee arguments : Value} {below rest : Stack}
      (hfocus : c.focus = .drain v) (hpop : c.stack.pop? = some ((.collect, earlier), below))
      (hnext : below.pop? = some ((.operator, callee), rest)) :
      Goes c (.call callee arguments) c.env rest
  | restored {v : Value} {node : Addr} {below : Stack} (hfocus : c.focus = .drain v)
      (hpop : c.stack.pop? = some ((.restore, .environment node), below)) :
      Goes c (.drain v) node below
  -- Calling a procedure
  | answered {p : Primitive} {arguments v : Value}
      (hfocus : c.focus = .call (.primitive p) arguments) : Goes c (.drain v) c.env c.stack
  | passed {arguments callee list : Value} (hfocus : c.focus = .call .applyToList arguments) :
      Goes c (.call callee list) c.env c.stack
  | captured {arguments callee list : Value}
      (hfocus : c.focus = .call .callWithContinuation arguments)
      (hone : arguments.elements = .ok [callee]) :
      Goes c (.call callee list) c.env (Saving.save c.env c.stack)
  | entered {stamp : Nat} {parameters body arguments : Value} {home frame : Addr}
      (hfocus : c.focus = .call (.closure stamp parameters body home) arguments) :
      Goes c (.drain .void) frame ((Saving.save c.env c.stack).push .sequence body)
  | reinstated {stamp : Nat} {frames : List Frame} {arguments v : Value}
      (hfocus : c.focus = .call (.continuation stamp frames) arguments) :
      Goes c (.drain v) c.env (c.stack.reinstate frames)

/-- How a step may fail, and the stack that it leaves. -/
inductive Fails [Saving] (c : Config) : Fault → Stack → Prop
  -- Reducing an expression
  | refused {e : Value} {fault : Fault} (hfocus : c.focus = .reduce e)
      (hfault : fault.isOfProgram = true) : Fails c fault c.stack
  | stuckForm {e rest : Value} (hfocus : c.focus = .reduce e)
      (hform : Form.of e = .sequence rest) (hsome : rest ≠ .nil)
      (hpair : ∀ stamp x more, rest ≠ .pair stamp x more) :
      Fails c (.noPart rest.typeName "cdr") c.stack
  -- Handing a value to a frame
  | stuckFrame {v rest : Value} {below : Stack} (hfocus : c.focus = .drain v)
      (hpop : c.stack.pop? = some ((.sequence, rest), below))
      (hpair : ∀ stamp x more, rest ≠ .pair stamp x more) :
      Fails c (.noPart rest.typeName "cdr") below
  | armless {v arms : Value} {type part : String} {below : Stack} (hfocus : c.focus = .drain v)
      (hpop : c.stack.pop? = some ((.choose, arms), below))
      (hone : ∀ stamp x, arms ≠ .pair stamp x .nil)
      (htwo : ∀ stamp x inner y, arms ≠ .pair stamp x (.pair inner y .nil)) :
      Fails c (.noPart type part) below
  | operandsRefused {v operands : Value} {tail : String} {below : Stack}
      (hfocus : c.focus = .drain v)
      (hpop : c.stack.pop? = some ((.operands, operands), below)) :
      Fails c (.improperList tail) below
  | collectorLost {v earlier : Value} {below : Stack} (hfocus : c.focus = .drain v)
      (hpop : c.stack.pop? = some ((.collect, earlier), below)) (hnext : below.frames = []) :
      Fails c .emptyStack below
  | collectorMisled {v earlier payload : Value} {kind : FrameKind} {below rest : Stack}
      (hfocus : c.focus = .drain v) (hpop : c.stack.pop? = some ((.collect, earlier), below))
      (hnext : below.pop? = some ((kind, payload), rest)) (hoperand : kind ≠ .operand)
      (hoperator : kind ≠ .operator) : Fails c (.invalidOperation kind.name) rest
  | collectedRefused {v earlier callee : Value} {tail : String} {below rest : Stack}
      (hfocus : c.focus = .drain v) (hpop : c.stack.pop? = some ((.collect, earlier), below))
      (hnext : below.pop? = some ((.operator, callee), rest))
      (hproper : ∀ items, earlier.elements ≠ .ok items) : Fails c (.improperList tail) rest
  | misplaced {v payload : Value} {kind : FrameKind} {below : Stack} (hfocus : c.focus = .drain v)
      (hpop : c.stack.pop? = some ((kind, payload), below))
      (hkind : kind = .operator ∨ kind = .operand ∨
        ((kind = .assign ∨ kind = .restore) ∧ ∀ node, payload ≠ .environment node)) :
      Fails c (.invalidOperation kind.name) below
  -- Calling a procedure
  | uncalled {callee arguments : Value} {fault : Fault}
      (hfocus : c.focus = .call callee arguments) (hfault : fault.isOfProgram = true) :
      Fails c fault c.stack
  | overflowed {p : Primitive} {op : Number.Operation} {arguments : Value} {m n : Number}
      (hfocus : c.focus = .call (.primitive p) arguments) (hp : p.operation? = some op)
      (hargs : arguments.elements = .ok [.number m, .number n]) (hnone : op.apply? m n = none) :
      Fails c .tooLargeForDouble c.stack
  | unbound {stamp : Nat} {parameters body arguments : Value} {home : Addr} {fault : Fault}
      (hfocus : c.focus = .call (.closure stamp parameters body home) arguments)
      (hfault : fault.isOfProgram = true) :
      Fails c fault ((Saving.save c.env c.stack).push .sequence body)

/-- A failure leaves the stack as it was or with the top frames taken off, unless it is
that of a call whose body already waits. -/
theorem Fails.leaves [Saving] {c : Config} {fault : Fault} {k : Stack} {p : List Frame → Prop}
    (hfails : c.Fails fault k) (h : p c.stack.frames)
    (hbelow : ∀ frame frames, p (frame :: frames) → p frames)
    (hcall : ∀ stamp parameters body home arguments,
      c.focus = .call (.closure stamp parameters body home) arguments →
      p ((Saving.save c.env c.stack).push .sequence body).frames) : p k.frames := by
  have hpopped {k below : Stack} {frame : Frame} (h : p k.frames)
      (hpop : k.pop? = some (frame, below)) : p below.frames := by
    rw [Stack.frames_of_pop? hpop] at h
    exact hbelow frame _ h
  cases hfails with
  | refused | stuckForm | uncalled | overflowed => exact h
  | stuckFrame hfocus hpop | armless hfocus hpop | operandsRefused hfocus hpop
  | collectorLost hfocus hpop | misplaced hfocus hpop => exact hpopped h hpop
  | collectorMisled hfocus hpop hnext | collectedRefused hfocus hpop hnext =>
      exact hpopped (hpopped h hpop) hnext
  | unbound hfocus hfault => exact hcall _ _ _ _ _ hfocus

/-- The machine never fails with a refusal. -/
theorem Fails.not_isRefusal [Saving] {c : Config} {fault : Fault} {k : Stack}
    (h : c.Fails fault k) : fault.isRefusal = false := by
  cases h with
  | refused _ hfault | uncalled _ hfault | unbound _ hfault =>
      exact Fault.not_isRefusal_of_isOfProgram hfault
  | _ => rfl

end Config

/-- A transition is one of those listed. -/
def Transition.Follows [Saving] (c : Config) : Transition → Prop
  | .running after => c.Goes after.focus after.env after.stack
  | .suspended _ after =>
    (∃ p arguments, c.focus = .call (.primitive p) arguments) ∧ after.env = c.env ∧
      after.stack = c.stack
  | .finished v after => c.focus = .drain v ∧ c.stack.frames = [] ∧ after = c
  | .failed fault after => c.Fails fault after.stack

/-! ## What primitives refuse -/

theorem InputBuffer.isOfProgram_of_read {fresh again : String} {buffer : InputBuffer}
    {fault : Fault} (h : (buffer.read fresh again).1 = .error fault) :
    fault.isOfProgram = true := by
  unfold InputBuffer.read at h
  split at h
  · cases h
  · cases h
  · next found rest hfound hone =>
      cases h
      rcases Datum.readFrom_fault hone with rfl | hmalformed
      · exact (hfound rfl).elim
      · exact Fault.isOfProgram_of_isSyntaxError hmalformed

/-- A line from the host is refused if reading from it fails, or if it cannot be cut into
tokens. -/
theorem InputBuffer.supply_fault {line : Option String} {fresh again : String}
    {buffer : InputBuffer} {fault : Fault}
    (h : (buffer.supply line fresh again).1 = .error fault) :
    fault.isOfProgram = true ∨
      fault = .literalMissing ∧ ∃ text, line = some text ∧ Token.isCut text = false := by
  cases line with
  | none => cases h
  | some text =>
      cases hcut : Token.isCut text with
      | true =>
          rw [InputBuffer.supply, InputBuffer.feed, Token.ofText_of_isCut hcut] at h
          exact .inl (InputBuffer.isOfProgram_of_read h)
      | false =>
          rw [InputBuffer.supply, InputBuffer.feed, Token.ofText_of_not_isCut hcut] at h
          cases h
          exact .inr ⟨rfl, text, rfl, hcut⟩

theorem Shared.takeAnswer_fault {sh after : Shared} {fault : Fault}
    {answer : Except Fault InputBuffer.Answer × InputBuffer}
    (h : sh.takeAnswer answer = (.error fault, after)) : answer.1 = .error fault := by
  obtain ⟨found | d | _ | request, buffer⟩ := answer
  · cases h
    rfl
  · cases h
  · cases h
  · cases h

/-- An answer of the host fails if reading from it does, or if it is a line that cannot be cut
into tokens. -/
theorem Config.resume_fault {c after : Config} {suspension : Suspension} {answer : Option String}
    {fault : Fault} (h : Config.resume suspension answer c = .failed fault after) :
    fault.isOfProgram = true ∨
      fault = .literalMissing ∧ ∃ text, answer = some text ∧ Token.isCut text = false := by
  have hresume : (c.shared.resume suspension answer).1 = .error fault := by
    unfold Config.resume at h
    split at h
    · next found shared heq =>
        cases h
        rw [heq]
    · cases h
    · cases h
  cases suspension with
  | yielding v => cases hresume
  | awaiting request =>
      exact InputBuffer.supply_fault (Shared.takeAnswer_fault (Prod.ext hresume rfl))

namespace Primitive

variable {sh after : Shared} {args : List Value} {fault : Fault}

/-- A primitive fails for a reason that the language provides for, or because an exact
number is too large. -/
inductive Refuses : Primitive → List Value → Fault → Prop
  | ordinary {p : Primitive} {args : List Value} {fault : Fault}
      (h : fault.isOfProgram = true) : Refuses p args fault
  | tooLarge {p : Primitive} {op : Number.Operation} {m n : Number} (hp : p.operation? = some op)
      (hnone : op.apply? m n = none) :
      Refuses p [.number m, .number n] .tooLargeForDouble

theorem answer_fault {result : Except Fault Value} (h : answer sh result = (.error fault, after)) :
    result = .error fault := by
  cases result with
  | ok v => cases h
  | error found =>
      cases h
      rfl

theorem refuses_part [Saving] {p : Primitive} {s : Store} {select : Value → Value → Value}
    {x : Value}
    (h : part p s select x = .error fault) : fault.isOfProgram = true := by
  cases x with
  | pair => cases h
  | _ =>
      cases h
      rfl

theorem isOfProgram_of_bothNumbers [Saving] {s : Store} {operator : String} {x y : Value}
    (h : x.bothNumbers s operator y = .error fault) : fault.isOfProgram = true := by
  unfold Value.bothNumbers at h
  split at h
  · cases h
  · cases h
    rfl

theorem isOfProgram_of_map {α β : Type} {result : Except Fault α} {f : α → β}
    (hresult : ∀ fault, result = .error fault → fault.isOfProgram = true)
    (h : result.map f = .error fault) : fault.isOfProgram = true := by
  cases result with
  | ok a => cases h
  | error found =>
      cases h
      exact hresult _ rfl

theorem refuses_arithmetic [Saving] {p : Primitive} {op : Number.Operation}
    (hp : p.operation? = some op) {s : Store} {x y : Value}
    (h : x.arithmetic s op y = .error fault) : Refuses p [x, y] fault := by
  unfold Value.arithmetic at h
  split at h
  · next found hboth =>
      cases h
      exact .ordinary (isOfProgram_of_bothNumbers hboth)
  · next m n hboth =>
      unfold Value.bothNumbers at hboth
      split at hboth
      · cases hboth
        split at h
        · cases h
        · next hnone =>
            cases h
            exact .tooLarge hp hnone
      · cases hboth

theorem refuses_of_perform [Saving] {p : Primitive} {arguments : Value}
    (h : p.perform arguments args sh = (.error fault, after)) : Refuses p args fault := by
  unfold perform at h
  split at h
  case h_1 | h_2 => exact .ordinary (refuses_part (answer_fault h))
  case h_12 => exact .ordinary (InputBuffer.isOfProgram_of_read (Shared.takeAnswer_fault h))
  case h_15 | h_16 | h_17 => exact refuses_arithmetic rfl (answer_fault h)
  case h_18 =>
      exact .ordinary (isOfProgram_of_map (fun fault hfault => isOfProgram_of_map
        (fun fault => isOfProgram_of_bothNumbers) hfault) (answer_fault h))
  case h_19 =>
      exact .ordinary (isOfProgram_of_map (fun fault hfault => isOfProgram_of_map
        (fun fault => isOfProgram_of_bothNumbers) hfault) (answer_fault h))
  all_goals cases h
  all_goals exact .ordinary rfl

end Primitive

/-! ## There are no other transitions -/

namespace Config

variable [Saving] {c : Config}

theorem reduceAs_follows {e : Value} (hfocus : c.focus = .reduce e) {form : Form}
    (hform : Form.of e = form) : (c.reduceAs e form).Follows c := by
  have hrefused {fault : Fault} (hfault : fault.isOfProgram = true) : c.Fails fault c.stack :=
    .refused hfocus hfault
  cases form with
  | constant value => exact .valued hfocus
  | symbol name =>
      rw [reduceAs]
      split
      · exact .valued hfocus
      · exact hrefused rfl
  | quotation datum => exact .valued hfocus
  | branch test yes no => exact .tested hfocus hform
  | sequence expressions =>
      cases expressions with
      | nil => exact .valued hfocus
      | pair stamp x rest =>
          have hbegun : c.Goes (.reduce x) c.env (c.stack.forRest rest) := .begun hfocus hform
          cases rest with
          | nil => exact hbegun
          | _ => exact hbegun
      | _ => exact .stuckForm hfocus hform (by rintro ⟨⟩) (by rintro _ _ _ ⟨⟩)
  | lambda parameters body =>
      simp only [reduceAs, reduceLambda]
      split
      · next fault hcheck => exact hrefused (Parameters.isOfProgram_of_firstFault hcheck)
      · exact .valued hfocus
  | procedure name parameters body =>
      simp only [reduceAs, reduceDefineProcedure]
      split
      · next fault hcheck => exact hrefused (Parameters.isOfProgram_of_firstFault hcheck)
      · split
        · exact .named hfocus hform
        · exact hrefused rfl
  | definition name x =>
      simp only [reduceAs, reduceDefine]
      split
      · exact .defining hfocus hform
      · exact hrefused rfl
  | assignment name x =>
      simp only [reduceAs, reduceAssign]
      split
      · split
        · next hfind => exact .assigning hfocus hform hfind
        · exact hrefused rfl
      · exact hrefused rfl
  | malformed => exact hrefused rfl
  | application operator operands => exact .applying hfocus hform

section Frames

variable {v payload : Value} {below : Stack}

theorem resumeChoose_follows (hfocus : c.focus = .drain v)
    (hpop : c.stack.pop? = some ((.choose, payload), below)) :
    (resumeChoose { c with stack := below } v payload).Follows c := by
  unfold resumeChoose
  split
  · split
    · next yes more => exact .chosen hfocus hpop List.mem_cons_self
    · next hpair => exact .armless hfocus hpop (fun _ _ => hpair _ _ _) fun _ _ _ _ => hpair _ _ _
  · split
    · exact .noted hfocus hpop (.inl rfl)
    · exact .chosen hfocus hpop (List.mem_cons_of_mem _ List.mem_cons_self)
    · next hnil hpair =>
        refine .armless hfocus hpop ?_ ?_
        · rintro _ _ ⟨⟩
          exact hnil rfl
        · rintro _ _ _ _ ⟨⟩
          exact hpair _ _ _ rfl
    · next hpair =>
        refine .armless hfocus hpop ?_ ?_
        · rintro _ _ rfl
          exact hpair _ _ _ rfl
        · rintro _ _ _ _ rfl
          exact hpair _ _ _ rfl

theorem toSequence_follows (hfocus : c.focus = .drain v)
    (hpop : c.stack.pop? = some ((.sequence, payload), below)) :
    (toSequence { c with stack := below } payload).Follows c := by
  cases payload with
  | pair stamp x rest =>
      have hadvanced : c.Goes (.reduce x) c.env (below.forRest rest) := .advanced hfocus hpop
      cases rest with
      | nil => exact hadvanced
      | _ => exact hadvanced
  | _ => exact .stuckFrame hfocus hpop nofun

theorem resumeOperands_follows (hfocus : c.focus = .drain v)
    (hpop : c.stack.pop? = some ((.operands, payload), below)) :
    (resumeOperands { c with stack := below } v payload).Follows c := by
  unfold resumeOperands
  split
  · exact .calling hfocus hpop
  · split
    · exact .operandsRefused hfocus hpop
    · next hothers =>
        simp only [toReduce, Transition.Follows, push, stack_pushOperands, env_pushOperands]
        exact .operandsBegun hfocus hpop hothers
  · exact .operandsRefused hfocus hpop

theorem resumeCollect_follows (hfocus : c.focus = .drain v)
    (hpop : c.stack.pop? = some ((.collect, payload), below)) :
    (resumeCollect { c with stack := below } v payload).Follows c := by
  simp only [resumeCollect, onStore]
  split
  · next hnext => exact .collectorLost hfocus hpop ((Stack.pop?_eq_none_iff _).mp hnext)
  · next kind waiting rest hnext =>
      split
      · exact .operandCollected hfocus hpop hnext
      · unfold callCollected
        split
        · next tail hcollected =>
            refine .collectedRefused hfocus hpop hnext fun items hitems => ?_
            simp [Shared.onStore, Store.newPair, Value.elements, hitems, Except.map] at hcollected
        · exact .operandsCollected hfocus hpop hnext
      · next hoperand hoperator => exact .collectorMisled hfocus hpop hnext hoperand hoperator

theorem resumeFrame_follows {kind : FrameKind} (hfocus : c.focus = .drain v)
    (hpop : c.stack.pop? = some ((kind, payload), below)) :
    (resumeFrame { c with stack := below } kind payload v).Follows c := by
  cases kind with
  | choose => exact resumeChoose_follows hfocus hpop
  | sequence => exact toSequence_follows hfocus hpop
  | define => cases payload <;> exact .noted hfocus hpop (.inr (.inl rfl))
  | assign =>
      cases payload with
      | environment node => exact .noted hfocus hpop (.inr (.inr rfl))
      | _ => exact .misplaced hfocus hpop (.inr (.inr ⟨.inl rfl, nofun⟩))
  | operands => exact resumeOperands_follows hfocus hpop
  | operator => exact .misplaced hfocus hpop (.inl rfl)
  | operand => exact .misplaced hfocus hpop (.inr (.inl rfl))
  | collect => exact resumeCollect_follows hfocus hpop
  | restore =>
      cases payload with
      | environment node => exact .restored hfocus hpop
      | _ => exact .misplaced hfocus hpop (.inr (.inr ⟨.inr rfl, nofun⟩))

end Frames

theorem call_follows {callee arguments : Value} (hfocus : c.focus = .call callee arguments) :
    (c.call callee arguments).Follows c := by
  have huncalled {fault : Fault} (hfault : fault.isOfProgram = true) : c.Fails fault c.stack :=
    .uncalled hfocus hfault
  cases callee with
  | callWithContinuation =>
      simp only [call, callWithContinuation]
      split
      · exact huncalled rfl
      · next hone => exact .captured hfocus hone
      · exact huncalled rfl
  | applyToList =>
      simp only [call, applyToList]
      split
      · exact huncalled rfl
      · split
        · exact .passed hfocus
        · exact .passed hfocus
        · exact huncalled rfl
      · exact huncalled rfl
  | primitive p =>
      simp only [call, callPrimitive]
      split
      · exact huncalled rfl
      · next args hargs =>
          split
          · next fault shared hperform =>
              cases Primitive.refuses_of_perform hperform with
              | ordinary hfault => exact huncalled hfault
              | tooLarge hp hnone => exact .overflowed hfocus hp hargs hnone
          · exact .answered hfocus
          · exact ⟨⟨p, arguments, hfocus⟩, rfl, rfl⟩
  | closure stamp parameters body home =>
      simp only [call, callClosure]
      split
      · next fault hbindings =>
          exact .unbound hfocus (Parameters.isOfProgram_of_bindings hbindings)
      · exact .entered hfocus
  | continuation stamp frames => exact .reinstated hfocus
  | _ => exact huncalled rfl

/-- There are no other ways to go on and no other ways to fail. -/
theorem step_follows (c : Config) : c.step.Follows c := by
  unfold step
  split
  · next e hfocus =>
      rw [reduce_eq]
      exact reduceAs_follows hfocus rfl
  · next v hfocus =>
      unfold drain
      split
      · next hpop => exact ⟨hfocus, (Stack.pop?_eq_none_iff _).mp hpop, rfl⟩
      · next kind payload below hpop => exact resumeFrame_follows hfocus hpop
  · next callee arguments hfocus => exact call_follows hfocus

end Config

end SchemeMachine
