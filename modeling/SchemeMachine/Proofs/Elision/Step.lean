import SchemeMachine.Proofs.Behaviour
import SchemeMachine.Proofs.Elision.Commutation

/-!
# Collapsed configurations

A step that takes no superfluous frame off is the same step on the collapsed
configuration, with environments saved only where it is of use.  That is
`Config.step_collapse`.

It is about stacks in which a frame that waits for an argument lies above an operand
or an operator.  Such a frame looks at the one below it, and if that were superfluous
the collapsed machine would look at another one.
-/

namespace SchemeMachine

/-! ## Forms -/

/-- A form with its parts collapsed. -/
def Form.collapse : Form → Form
  | .constant value => .constant value.collapse
  | .symbol name => .symbol name
  | .quotation datum => .quotation datum.collapse
  | .branch test yes no => .branch test.collapse yes.collapse (no.map Value.collapse)
  | .sequence expressions => .sequence expressions.collapse
  | .lambda parameters body => .lambda parameters.collapse body.collapse
  | .procedure name parameters body =>
    .procedure name.collapse parameters.collapse body.collapse
  | .definition name expression => .definition name.collapse expression.collapse
  | .assignment name expression => .assignment name.collapse expression.collapse
  | .malformed => .malformed
  | .application operator operands => .application operator.collapse operands.collapse

theorem Form.special_collapse (keyword : Keyword) (operands : Value) :
    Form.special keyword operands.collapse = (Form.special keyword operands).collapse := by
  cases operands with
  | pair stamp first rest =>
      cases keyword with
      | quote => cases rest <;> rfl
      | branch =>
          cases rest with
          | pair stamp second rest =>
              cases rest with
              | pair stamp third rest => cases rest <;> rfl
              | _ => rfl
          | _ => rfl
      | sequence => rfl
      | lambda =>
          simp only [Value.collapse, Form.special, Value.isBody_collapse]
          split <;> rfl
      | define =>
          cases first with
          | pair stamp name parameters =>
              simp only [Value.collapse, Form.special, Value.isBody_collapse]
              split <;> rfl
          | _ =>
              cases rest with
              | pair stamp expression rest => cases rest <;> rfl
              | _ => rfl
      | assign =>
          cases rest with
          | pair stamp expression rest => cases rest <;> rfl
          | _ => rfl
  | _ => cases keyword <;> rfl

theorem Keyword.of?_collapse (head : Value) : Keyword.of? head.collapse = Keyword.of? head := by
  cases head <;> rfl

theorem Form.of_collapse (e : Value) : Form.of e.collapse = (Form.of e).collapse := by
  cases e with
  | pair stamp head operands =>
      rw [Value.collapse, Form.of, Form.of, Keyword.of?_collapse]
      cases Keyword.of? head with
      | none => rfl
      | some keyword => exact Form.special_collapse keyword operands
  | _ => rfl

/-! ## Configurations -/

/-- What the machine is doing, collapsed. -/
def Focus.collapse : Focus → Focus
  | .reduce expression => .reduce expression.collapse
  | .drain value => .drain value.collapse
  | .call callee arguments => .call callee.collapse arguments.collapse

/-- A configuration with all its values and its stack collapsed. -/
def Config.collapse (c : Config) : Config :=
  ⟨c.focus.collapse, c.env, .ofFrames (Frame.collapse c.stack.frames), c.shared.collapse⟩

/-- What a step leads to, collapsed. -/
def Transition.collapse : Transition → Transition
  | .running c => .running c.collapse
  | .finished v c => .finished v.collapse c.collapse
  | .suspended suspension c => .suspended suspension.collapse c.collapse
  | .failed fault c => .failed fault c.collapse

namespace Config

variable (c : Config)

/-! ## Reducing an expression -/

theorem toSequence_collapse (expressions : Value) :
    (c.collapse.toSequence expressions.collapse).bare = (c.toSequence expressions).collapse := by
  cases expressions with
  | pair stamp expression rest =>
      cases rest with
      | nil => rfl
      | _ => rfl
  | _ => rfl

theorem malformed_collapse (head form : Value) :
    (c.collapse.malformed head.collapse form.collapse).bare =
      (@malformed .always c head form).collapse := by
  have hhead := Value.written_collapse c.store head
  have hform := Value.written_collapse c.store form
  simp only [malformed, store, collapse, Shared.collapse] at hhead hform ⊢
  rw [hhead, hform]
  rfl

theorem notASymbol_collapse (form found : Value) :
    (c.collapse.notASymbol form.collapse found.collapse).bare =
      (@notASymbol .always c form found).collapse := by
  have hform := Value.written_collapse c.store form
  have hfound := Value.written_collapse c.store found
  simp only [notASymbol, store, collapse, Shared.collapse] at hform hfound ⊢
  rw [hform, hfound]
  rfl

theorem reduceLambda_collapse (parameters body : Value) :
    (c.collapse.reduceLambda parameters.collapse body.collapse).bare =
      (@reduceLambda .always c parameters body).collapse := by
  have hcheck := Parameters.check_collapse c.store parameters
  simp only [reduceLambda, store, collapse, Shared.collapse] at hcheck ⊢
  rw [hcheck]
  cases @Parameters.check .always c.shared.store parameters with
  | none => rfl
  | some fault => rfl

theorem reduceDefineProcedure_collapse (form name parameters body : Value) :
    (c.collapse.reduceDefineProcedure form.collapse name.collapse parameters.collapse
      body.collapse).bare =
      (@reduceDefineProcedure .always c form name parameters body).collapse := by
  have hcheck := Parameters.check_collapse c.store parameters
  have hname := c.notASymbol_collapse form name
  unfold reduceDefineProcedure
  rw [show Parameters.check c.collapse.store parameters.collapse = _ from hcheck]
  cases @Parameters.check .always c.store parameters with
  | some fault => rfl
  | none =>
      cases name with
      | symbol n => rfl
      | _ => exact hname

theorem reduceDefine_collapse (form name expression : Value) :
    (c.collapse.reduceDefine form.collapse name.collapse expression.collapse).bare =
      (@reduceDefine .always c form name expression).collapse := by
  have hname := c.notASymbol_collapse form name
  cases name with
  | symbol n => rfl
  | _ => exact hname

theorem find?_collapse (name : String) :
    c.collapse.store.find? name c.collapse.env =
      (c.store.find? name c.env).map fun (node, v) => (node, v.collapse) :=
  c.store.collapse_find? name c.env

theorem reduceAssign_collapse (form name expression : Value) :
    (c.collapse.reduceAssign form.collapse name.collapse expression.collapse).bare =
      (@reduceAssign .always c form name expression).collapse := by
  have hname := c.notASymbol_collapse form name
  cases name with
  | symbol n =>
      simp only [Value.collapse, reduceAssign, find?_collapse]
      cases c.store.find? n c.env with
      | none => rfl
      | some binding => rfl
  | _ => exact hname

theorem reduceAs_collapse (e : Value) (form : Form) :
    (c.collapse.reduceAs e.collapse form.collapse).bare =
      (@reduceAs .always c e form).collapse := by
  cases form with
  | constant v => rfl
  | symbol name =>
      simp only [Form.collapse, reduceAs, find?_collapse]
      cases c.store.find? name c.env with
      | none => rfl
      | some binding => rfl
  | quotation datum => rfl
  | branch test yes no =>
      simp only [Form.collapse, reduceAs, Value.afterSecond_collapse]
      rfl
  | sequence expressions =>
      have hsome := c.toSequence_collapse expressions
      cases expressions with
      | nil => rfl
      | _ => exact hsome
  | lambda parameters body => exact c.reduceLambda_collapse parameters body
  | procedure name parameters body =>
      exact c.reduceDefineProcedure_collapse e name parameters body
  | definition name expression => exact c.reduceDefine_collapse e name expression
  | assignment name expression => exact c.reduceAssign_collapse e name expression
  | malformed =>
      simp only [Form.collapse, reduceAs, Value.head_collapse]
      exact c.malformed_collapse e.head e
  | application operator operands => rfl

theorem reduce_collapse (e : Value) :
    (c.collapse.reduce e.collapse).bare = (@reduce .always c e).collapse := by
  rw [reduce_eq, @reduce_eq .always, Form.of_collapse, reduceAs_collapse]

/-! ## Handing a value to a frame -/

theorem resumeChoose_collapse (v arms : Value) :
    (c.collapse.resumeChoose v.collapse arms.collapse).bare =
      (c.resumeChoose v arms).collapse := by
  unfold resumeChoose
  rw [Value.isTrue_collapse]
  cases arms with
  | pair stamp yes rest =>
      split
      · rfl
      · cases rest <;> rfl
  | _ => split <;> rfl

theorem improperList_collapse (tail : Value) :
    (Transition.failed (.improperList (tail.collapse.written c.collapse.store)) c.collapse).bare =
      (Transition.failed (.improperList (@Value.written .always c.store tail)) c).collapse :=
  congrArg (fun text => Transition.failed (.improperList text) c.collapse)
    (Value.written_collapse c.store tail)

theorem resumeOperands_collapse (callee operands : Value) :
    (c.collapse.resumeOperands callee.collapse operands.collapse).bare =
      (@resumeOperands .always c callee operands).collapse := by
  have hrefused := c.improperList_collapse operands
  cases operands with
  | nil => rfl
  | pair stamp first rest =>
      cases hrest : rest.elements with
      | error tail =>
          have hcollapsed := Value.elements_collapse_of_error hrest
          simp only [Value.collapse, resumeOperands, hrest, hcollapsed]
          exact c.improperList_collapse tail
      | ok others =>
          have hcollapsed := Value.elements_collapse_of_ok hrest
          simp only [Value.collapse, resumeOperands, hrest, hcollapsed]
          simp only [toReduce, push, Transition.bare, bare, Transition.collapse, collapse,
            Stack.frames_push, frames_pushOperands, env_pushOperands, shared_pushOperands,
            Frame.collapse_cons (show FrameKind.collect ≠ .restore by decide),
            Frame.collapse_operands]
          rfl
  | _ => exact hrefused

theorem callCollected_collapse (callee collected : Value) :
    (c.collapse.callCollected callee.collapse collected.collapse).bare =
      (@callCollected .always c callee collected).collapse := by
  cases hcollected : collected.elements with
  | error tail =>
      have hcollapsed := Value.elements_collapse_of_error hcollected
      simp only [callCollected, hcollected, hcollapsed]
      exact c.improperList_collapse tail
  | ok arguments =>
      have hcollapsed := Value.elements_collapse_of_ok hcollected
      have hlist := c.store.collapse_newList arguments.reverse
      rw [List.map_reverse] at hlist
      simp only [callCollected, hcollected, hcollapsed, onStore, Shared.onStore, collapse,
        Shared.collapse]
      simp only [store] at hlist
      rw [hlist]
      rfl

theorem resumeCollect_collapse (htop : c.stack.top? ≠ some .restore) (v earlier : Value) :
    (c.collapse.resumeCollect v.collapse earlier.collapse).bare =
      (@resumeCollect .always c v earlier).collapse := by
  obtain ⟨focus, env, ⟨frames, depth, peak, hdepth⟩, sh⟩ := c
  cases frames with
  | nil => rfl
  | cons frame rest =>
      obtain ⟨kind, payload⟩ := frame
      cases kind with
      | restore => exact absurd rfl htop
      | operator =>
          refine (bare_callCollected _ _ _).symm.trans ?_
          exact callCollected_collapse ⟨focus, env, ⟨rest, depth - 1, peak, by simp [hdepth]⟩,
            (sh.onStore (Store.newPair v earlier)).2⟩ payload (.pair sh.store.nextStamp v earlier)
      | _ => rfl

theorem insertAfter_collapse (entry : Entry) {collapsed : Entry}
    (hentry : collapsed = Store.collapseEntry entry) :
    ((c.collapse.changeStore (Store.insertAfter c.env collapsed)).toDrain .void).bare =
      ((c.changeStore (Store.insertAfter c.env entry)).toDrain .void).collapse := by
  subst hentry
  simp only [changeStore, onStore, Shared.onStore, collapse, Shared.collapse,
    Store.collapse_insertAfter]
  rfl

theorem resumeFrame_collapse (kind : FrameKind)
    (hcollect : kind = .collect → c.stack.top? ≠ some .restore) (payload v : Value) :
    (c.collapse.resumeFrame kind payload.collapse v.collapse).bare =
      (@resumeFrame .always c kind payload v).collapse := by
  cases kind with
  | choose => exact c.resumeChoose_collapse v payload
  | sequence => exact c.toSequence_collapse payload
  | define =>
      have hkeyed := c.insertAfter_collapse
        (.keyed (@Value.label .always c.store payload) payload v)
        (congrArg (Entry.keyed · _ _) (Value.label_collapse c.store payload))
      cases payload with
      | symbol name => exact c.insertAfter_collapse (.binding name v) rfl
      | _ => exact hkeyed
  | assign =>
      cases payload with
      | environment node =>
          simp only [Value.collapse, resumeFrame, changeStore, onStore, Shared.onStore, collapse,
            Shared.collapse, Store.collapse_assign]
          rfl
      | _ => rfl
  | operands => exact c.resumeOperands_collapse v payload
  | operator => rfl
  | operand => rfl
  | collect => exact c.resumeCollect_collapse (hcollect rfl) v payload
  | restore => cases payload <;> rfl

theorem drain_collapse {v : Value} (hnext : ∀ kind payload rest,
      c.stack.frames = (kind, payload) :: rest → kind = .collect ∨ kind = .restore →
      rest.head?.map (·.1) ≠ some .restore) :
    (c.collapse.drain v.collapse).bare = (@drain .always c v).collapse := by
  obtain ⟨focus, env, ⟨frames, depth, peak, hdepth⟩, sh⟩ := c
  cases frames with
  | nil => rfl
  | cons frame rest =>
      obtain ⟨kind, payload⟩ := frame
      have hnext := hnext kind payload rest rfl
      have hframes : Frame.collapse ((kind, payload) :: rest) =
          (kind, payload.collapse) :: Frame.collapse rest := by
        by_cases hkind : kind = .restore
        · subst hkind
          exact Frame.collapse_restore_cons (hnext (.inr rfl)) payload
        · exact Frame.collapse_cons hkind payload rest
      simp only [drain, collapse, hframes]
      refine (bare_resumeFrame _ kind payload.collapse v.collapse).symm.trans ?_
      exact resumeFrame_collapse ⟨focus, env, ⟨rest, depth - 1, peak, by simp [hdepth]⟩, sh⟩ kind
        (fun hcollect => hnext (.inl hcollect)) payload v

/-! ## Calling a procedure -/

theorem wrongCount_collapse (callee : String) (expected count : Nat) (arguments : Value) :
    (c.collapse.wrongCount callee expected count arguments.collapse).bare =
      (@wrongCount .always c callee expected count arguments).collapse :=
  congrArg (fun text => Transition.failed (.argumentCount (count < expected) callee expected text)
    c.collapse) (Value.written_collapse c.store arguments)

theorem callWithContinuation_collapse (arguments : Value) :
    (c.collapse.callWithContinuation arguments.collapse).bare =
      (@callWithContinuation .always c arguments).collapse := by
  have hcount := fun count => c.wrongCount_collapse "call/cc" 1 count arguments
  unfold callWithContinuation
  cases harguments : arguments.elements with
  | error tail =>
      rw [Value.elements_collapse_of_error harguments]
      exact c.improperList_collapse tail
  | ok args =>
      rw [Value.elements_collapse_of_ok harguments]
      rcases args with _ | ⟨callee, _ | ⟨y, rest⟩⟩
      · exact hcount 0
      · have hsaved := Frame.collapse_save c.env c.stack
        simp only [List.map_cons, List.map_nil, collapse, onStore, toCall, Transition.bare, bare,
          Saving.save_eliding]
        rw [← hsaved]
        rfl
      · simp only [List.map_cons, List.length_cons, List.length_map]
        exact hcount _

theorem applyToList_collapse (arguments : Value) :
    (c.collapse.applyToList arguments.collapse).bare =
      (@applyToList .always c arguments).collapse := by
  have hcount := fun count => c.wrongCount_collapse "apply" 2 count arguments
  unfold applyToList
  cases harguments : arguments.elements with
  | error tail =>
      rw [Value.elements_collapse_of_error harguments]
      exact c.improperList_collapse tail
  | ok args =>
      rw [Value.elements_collapse_of_ok harguments]
      rcases args with _ | ⟨callee, _ | ⟨list, _ | ⟨z, rest⟩⟩⟩
      · exact hcount 0
      · exact hcount 1
      · have hrefused := congrArg (fun text => Transition.failed (.listExpected text) c.collapse)
          (Value.written_collapse c.store list)
        cases list with
        | nil => rfl
        | pair stamp head tail => rfl
        | _ => exact hrefused
      · simp only [List.map_cons, List.length_cons, List.length_map]
        exact hcount _

theorem callPrimitive_collapse (p : Primitive) (arguments : Value) :
    (c.collapse.callPrimitive p arguments.collapse).bare =
      (@callPrimitive .always c p arguments).collapse := by
  unfold callPrimitive
  cases harguments : arguments.elements with
  | error tail =>
      rw [Value.elements_collapse_of_error harguments]
      exact c.improperList_collapse tail
  | ok args =>
      rw [Value.elements_collapse_of_ok harguments]
      have hperform := p.perform_collapse arguments args c.shared
      simp only [collapse] at hperform ⊢
      rw [hperform]
      generalize @Primitive.perform .always p arguments args c.shared = given
      obtain ⟨fault | reply, sh⟩ := given
      · rfl
      · cases reply with
        | value v => rfl
        | suspend suspension => rfl

theorem callClosure_collapse (parameters body : Value) (env : Addr) (arguments : Value) :
    (c.collapse.callClosure parameters.collapse body.collapse env arguments.collapse).bare =
      (@callClosure .always c parameters body env arguments).collapse := by
  have hsaved := Frame.collapse_save c.env c.stack
  have hbindings := Parameters.bindings_collapse c.store parameters arguments
  simp only [callClosure, store, collapse, Shared.collapse, Saving.save_eliding] at hbindings ⊢
  rw [hbindings]
  cases @Parameters.bindings .always c.shared.store parameters arguments with
  | error fault =>
      simp only [Except.map, Transition.bare, bare, Stack.frames_push]
      rw [← hsaved]
      rfl
  | ok made =>
      simp only [Except.map, onStore, Shared.onStore, Store.collapse_openFrame, toDrain,
        Transition.bare, bare, Stack.frames_push]
      rw [← hsaved]
      rfl

theorem call_collapse (callee arguments : Value) :
    (c.collapse.call callee.collapse arguments.collapse).bare =
      (@call .always c callee arguments).collapse := by
  have hrefused : (Transition.failed (.notCallable (callee.collapse.written c.collapse.store)
      (arguments.collapse.written c.collapse.store)) c.collapse).bare =
      (Transition.failed (.notCallable (@Value.written .always c.store callee)
        (@Value.written .always c.store arguments)) c).collapse := by
    rw [show c.collapse.store = c.store.collapse from rfl, Value.written_collapse,
      Value.written_collapse]
    rfl
  cases callee with
  | callWithContinuation => exact c.callWithContinuation_collapse arguments
  | applyToList => exact c.applyToList_collapse arguments
  | primitive p => exact c.callPrimitive_collapse p arguments
  | closure stamp parameters body env => exact c.callClosure_collapse parameters body env arguments
  | continuation stamp frames => cases arguments <;> rfl
  | _ => exact hrefused

/-! ## A step -/

/-- Collapsing does not change a step, unless it takes off a frame right above a
superfluous one or a superfluous frame itself. -/
theorem step_collapse (hnext : ∀ v kind payload rest, c.focus = .drain v →
      c.stack.frames = (kind, payload) :: rest → kind = .collect ∨ kind = .restore →
      rest.head?.map (·.1) ≠ some .restore) :
    c.collapse.step.bare = (@step .always c).collapse := by
  obtain ⟨focus, env, k, sh⟩ := c
  cases focus with
  | reduce e => exact reduce_collapse _ e
  | drain v => exact drain_collapse _ (hnext v · · · rfl)
  | call callee arguments => exact call_collapse _ callee arguments

theorem resume_collapse (suspension : Suspension) (answer : Option String) :
    (Config.resume suspension.collapse answer c.collapse).bare =
      (Config.resume suspension answer c).collapse := by
  have hresume := c.shared.resume_collapse suspension answer
  simp only [Config.resume, collapse] at hresume ⊢
  rw [hresume]
  generalize c.shared.resume suspension answer = given
  obtain ⟨fault | reply, sh⟩ := given
  · rfl
  · cases reply with
    | value v => rfl
    | suspend suspension => rfl

theorem failure_collapse (fault : Fault) :
    c.collapse.failure fault = @failure .always c fault := by
  have htext : Frame.stackText c.collapse.store c.collapse.stack.frames =
      @Frame.stackText .always c.store c.stack.frames :=
    Frame.stackText_collapse c.store c.stack.frames
  have hempty : c.collapse.stack.frames.isEmpty = c.stack.frames.isEmpty := by
    rw [Bool.eq_iff_iff, List.isEmpty_iff, List.isEmpty_iff]
    exact Frame.collapse_eq_nil_iff _
  unfold failure
  rw [hempty, htext]

end Config

end SchemeMachine
