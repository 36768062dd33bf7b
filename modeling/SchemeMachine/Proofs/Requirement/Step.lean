import SchemeMachine.Proofs.Form
import SchemeMachine.Proofs.Requirement.Basic

/-!
# Requirements over a step of the machine

A step makes at most one procedure: a closure, from a `lambda` or a `define` with a
body, or a continuation, from a call of `call/cc`.  If what it makes meets the
requirement then everything does after the step that did before it: `step_meets`.
-/

namespace SchemeMachine

variable {r : Requirement}

/-! ## Forms -/

/-- Every procedure that a form holds meets the requirement, and bodies are lists of
at least one expression. -/
def Form.Meets (r : Requirement) : Form → Prop
  | .constant value => value.Meets r
  | .symbol _ => True
  | .quotation datum => datum.Meets r
  | .branch test yes no => test.Meets r ∧ yes.Meets r ∧ ∀ x, no = some x → x.Meets r
  | .sequence expressions => expressions.Meets r
  | .lambda parameters body => body.isBody = true ∧ parameters.Meets r ∧ body.Meets r
  | .procedure name parameters body =>
    body.isBody = true ∧ name.Meets r ∧ parameters.Meets r ∧ body.Meets r
  | .definition name expression => name.Meets r ∧ expression.Meets r
  | .assignment name expression => name.Meets r ∧ expression.Meets r
  | .malformed => True
  | .application operator operands => operator.Meets r ∧ operands.Meets r

theorem Form.special_meets (keyword : Keyword) {operands : Value} (h : operands.Meets r) :
    (Form.special keyword operands).Meets r := by
  unfold Form.special
  split
  case h_1 => exact h.1
  case h_2 => exact ⟨h.1, h.2.1, nofun⟩
  case h_3 =>
      refine ⟨h.1, h.2.1, ?_⟩
      rintro x ⟨⟩
      exact h.2.2.1
  case h_4 => exact h
  case h_5 parameters body =>
      split
      next hbody => exact ⟨hbody, h⟩
      next => trivial
  case h_6 name parameters body =>
      split
      next hbody => exact ⟨hbody, h.1.1, h.1.2, h.2⟩
      next => trivial
  case h_7 => exact ⟨h.1, h.2.1⟩
  case h_8 => exact ⟨h.1, h.2.1⟩
  case h_9 => trivial

theorem Form.of_meets {e : Value} (h : e.Meets r) : (Form.of e).Meets r := by
  cases e with
  | pair stamp head operands =>
      rw [Form.of]
      split
      · exact Form.special_meets _ h.2
      · exact h
  | symbol name => trivial
  | _ => exact h

theorem Value.Meets.afterSecond {e : Value} (h : e.Meets r) : e.afterSecond.Meets r := by
  unfold Value.afterSecond
  split
  · exact h.2.2
  · exact h

/-! ## Configurations -/

/-- Every procedure that the machine is working on meets the requirement. -/
def Focus.Meets (r : Requirement) : Focus → Prop
  | .reduce expression => expression.Meets r
  | .drain value => value.Meets r
  | .call callee arguments => callee.Meets r ∧ arguments.Meets r

/-- Every procedure in sight of the machine meets the requirement. -/
structure Config.Meets (r : Requirement) (c : Config) : Prop where
  focus : c.focus.Meets r
  frames : Frame.AllMeet r c.stack.frames
  store : c.store.Meets r

/-- Every procedure that is left by a step meets the requirement.  What was on the
stack of an evaluation that is over is lost. -/
def Transition.Meets (r : Requirement) : Transition → Prop
  | .running c => c.Meets r
  | .finished value c => value.Meets r ∧ c.store.Meets r
  | .suspended suspension c =>
    suspension.Meets r ∧ Frame.AllMeet r c.stack.frames ∧ c.store.Meets r
  | .failed _ c => c.store.Meets r

namespace Config

variable {c : Config}

theorem toSequence_meets {expressions : Value} (hframes : Frame.AllMeet r c.stack.frames)
    (hstore : c.store.Meets r) (h : expressions.Meets r) : (c.toSequence expressions).Meets r := by
  unfold toSequence
  split
  · exact ⟨h.1, hframes, hstore⟩
  · exact ⟨h.1, ⟨h.2, hframes⟩, hstore⟩
  · exact hstore

theorem reduceAs_meets [Saving] {e : Value} {form : Form} (he : e.Meets r) (h : form.Meets r)
    (hframes : Frame.AllMeet r c.stack.frames) (hstore : c.store.Meets r)
    (hclosure : ∀ parameters body, form.Makes parameters body → body.isBody = true →
      r.closure parameters body c.env) :
    (c.reduceAs e form).Meets r := by
  cases form with
  | constant value => exact ⟨h, hframes, hstore⟩
  | symbol name =>
      rw [reduceAs]
      cases hfind : c.store.find? name c.env with
      | none => exact hstore
      | some binding => exact ⟨hstore.find? hfind, hframes, hstore⟩
  | quotation datum => exact ⟨h, hframes, hstore⟩
  | branch test yes no => exact ⟨h.1, ⟨he.afterSecond, hframes⟩, hstore⟩
  | sequence expressions =>
      by_cases hsome : expressions = .nil
      · subst hsome
        exact ⟨trivial, hframes, hstore⟩
      · rw [reduceAs_sequence c e hsome]
        exact toSequence_meets hframes hstore h
  | lambda parameters body =>
      simp only [reduceAs, reduceLambda]
      split
      · exact hstore
      · exact ⟨⟨hclosure _ _ (.lambda _ _) h.1, h.2⟩, hframes, hstore⟩
  | procedure name parameters body =>
      simp only [reduceAs, reduceDefineProcedure]
      split
      · exact hstore
      · split
        · exact ⟨⟨hclosure _ _ (.procedure _ _ _) h.1, h.2.2⟩, ⟨trivial, hframes⟩, hstore⟩
        · exact hstore
  | definition name x =>
      simp only [reduceAs, reduceDefine]
      split
      · exact ⟨h.2, ⟨trivial, hframes⟩, hstore⟩
      · exact hstore
  | assignment name x =>
      simp only [reduceAs, reduceAssign]
      split
      · split
        · exact ⟨h.2, ⟨trivial, hframes⟩, hstore⟩
        · exact hstore
      · exact hstore
  | malformed => exact hstore
  | application operator operands => exact ⟨h.1, ⟨h.2, hframes⟩, hstore⟩

/-! ## Frames -/

theorem resumeChoose_meets {v arms : Value} (harms : arms.Meets r)
    (hframes : Frame.AllMeet r c.stack.frames) (hstore : c.store.Meets r) :
    (c.resumeChoose v arms).Meets r := by
  unfold resumeChoose
  split
  · split
    · exact ⟨harms.1, hframes, hstore⟩
    · exact hstore
  · split
    · exact ⟨trivial, hframes, hstore⟩
    · exact ⟨harms.2.1, hframes, hstore⟩
    · exact hstore
    · exact hstore

theorem resumeOperands_meets [Saving] {callee operands : Value} (hcallee : callee.Meets r)
    (hoperands : operands.Meets r) (hframes : Frame.AllMeet r c.stack.frames)
    (hstore : c.store.Meets r) : (c.resumeOperands callee operands).Meets r := by
  unfold resumeOperands
  split
  · exact ⟨⟨hcallee, trivial⟩, hframes, hstore⟩
  · rename_i stamp first rest
    cases hrest : rest.elements with
    | error tail => exact hstore
    | ok others =>
        have hothers : Frame.AllMeet r (others.map (FrameKind.operand, ·)) := by
          have hmeets := hoperands.2.elements hrest
          clear hrest
          induction others with
          | nil => trivial
          | cons other others ih =>
              obtain ⟨hfirst, hmore⟩ := List.forall_mem_cons.mp hmeets
              exact ⟨hfirst, ih hmore⟩
        refine ⟨hoperands.1, ⟨trivial, ?_⟩, ?_⟩
        · rw [frames_pushOperands]
          exact hothers.append ⟨hcallee, hframes⟩
        · rw [pushOperands_eq]
          exact hstore
  · exact hstore

theorem callCollected_meets [Saving] {callee collected : Value} (hcallee : callee.Meets r)
    (hcollected : collected.Meets r) (hframes : Frame.AllMeet r c.stack.frames)
    (hstore : c.store.Meets r) : (c.callCollected callee collected).Meets r := by
  unfold callCollected
  cases hitems : collected.elements with
  | error tail => exact hstore
  | ok arguments =>
      have harguments : ∀ v ∈ arguments.reverse, v.Meets r := by
        simpa using hcollected.elements hitems
      exact ⟨⟨hcallee, Store.newList_meets harguments _⟩, hframes,
        hstore.of_nodes (Store.nodes_newList _ _)⟩

theorem resumeCollect_meets [Saving] {v earlier : Value} (hv : v.Meets r)
    (hearlier : earlier.Meets r) (hframes : Frame.AllMeet r c.stack.frames)
    (hstore : c.store.Meets r) : (c.resumeCollect v earlier).Meets r := by
  simp only [resumeCollect, onStore]
  split
  · exact hstore
  · rename_i kind payload below hpop
    rw [Stack.frames_of_pop? hpop] at hframes
    split
    · exact ⟨hframes.1, ⟨⟨hv, hearlier⟩, hframes.2⟩, hstore⟩
    · exact callCollected_meets hframes.1 ⟨hv, hearlier⟩ hframes.2 hstore
    · exact hstore

theorem resumeFrame_meets [Saving] {kind : FrameKind} {payload v : Value} (hv : v.Meets r)
    (hpayload : payload.Meets r) (hframes : Frame.AllMeet r c.stack.frames)
    (hstore : c.store.Meets r) : (c.resumeFrame kind payload v).Meets r := by
  unfold resumeFrame
  split
  · exact resumeChoose_meets hpayload hframes hstore
  · exact toSequence_meets hframes hstore hpayload
  · exact ⟨trivial, hframes, hstore.insertAfter _ (.binding _ v) hv⟩
  · exact ⟨trivial, hframes, hstore.insertAfter _ (.keyed _ _ v) ⟨hpayload, hv⟩⟩
  · exact ⟨trivial, hframes, hstore.assign hv _⟩
  · exact resumeOperands_meets hv hpayload hframes hstore
  · exact resumeCollect_meets hv hpayload hframes hstore
  · exact ⟨hv, hframes, hstore⟩
  · exact hstore

theorem drain_meets [Saving] {v : Value} (hv : v.Meets r)
    (hframes : Frame.AllMeet r c.stack.frames) (hstore : c.store.Meets r) :
    (c.drain v).Meets r := by
  unfold drain
  split
  · exact ⟨hv, hstore⟩
  · rename_i kind payload below hpop
    rw [Stack.frames_of_pop? hpop] at hframes
    exact resumeFrame_meets hv hframes.1 hframes.2 hstore

/-! ## Calls -/

theorem save_meets [Saving] [LawfulSaving] (env : Addr) {k : Stack}
    (hframes : Frame.AllMeet r k.frames) : Frame.AllMeet r (Saving.save env k).frames := by
  rcases LawfulSaving.frames_save env k with hsave | ⟨_, hsave⟩
  · rw [hsave]
    exact ⟨trivial, hframes⟩
  · rwa [hsave]

theorem callWithContinuation_meets [Saving] [LawfulSaving] {arguments : Value}
    (harguments : arguments.Meets r) (hframes : Frame.AllMeet r c.stack.frames)
    (hstore : c.store.Meets r)
    (hcontinuation : ∀ callee, arguments.elements = .ok [callee] →
      r.continuation c.store.nextStamp (Saving.save c.env c.stack).frames) :
    (c.callWithContinuation arguments).Meets r := by
  unfold callWithContinuation
  split
  · exact hstore
  · rename_i callee hone
    have hsaved := save_meets c.env hframes
    exact ⟨⟨harguments.elements hone callee List.mem_cons_self,
      ⟨hcontinuation callee hone, hsaved⟩, trivial⟩, hsaved, hstore⟩
  · exact hstore

theorem applyToList_meets [Saving] {arguments : Value} (harguments : arguments.Meets r)
    (hframes : Frame.AllMeet r c.stack.frames) (hstore : c.store.Meets r) :
    (c.applyToList arguments).Meets r := by
  unfold applyToList
  split
  · exact hstore
  · rename_i callee list htwo
    have hmeets := harguments.elements htwo
    have hlist : list.Meets r := hmeets list (by simp)
    have hcallee : callee.Meets r := hmeets callee List.mem_cons_self
    split
    · exact ⟨⟨hcallee, hlist⟩, hframes, hstore⟩
    · exact ⟨⟨hcallee, hlist⟩, hframes, hstore⟩
    · exact hstore
  · exact hstore

theorem callPrimitive_meets [Saving] (p : Primitive) {arguments : Value}
    (harguments : arguments.Meets r) (hframes : Frame.AllMeet r c.stack.frames)
    (hstore : c.store.Meets r) : (c.callPrimitive p arguments).Meets r := by
  unfold callPrimitive
  cases hargs : arguments.elements with
  | error tail => exact hstore
  | ok args =>
      have hdone := p.perform_meets arguments (harguments.elements hargs) hstore
      simp only
      generalize p.perform arguments args c.shared = result at hdone
      obtain ⟨fault | v | s, shared⟩ := result
      · exact hdone
      · exact ⟨hdone.1, hframes, hdone.2⟩
      · exact ⟨hdone.1, hframes, hdone.2⟩

theorem callClosure_meets [Saving] [LawfulSaving] (parameters : Value) {body arguments : Value}
    (home : Addr) (hbody : body.Meets r) (harguments : arguments.Meets r)
    (hframes : Frame.AllMeet r c.stack.frames) (hstore : c.store.Meets r) :
    (c.callClosure parameters body home arguments).Meets r := by
  have hsaved := save_meets c.env hframes
  simp only [callClosure]
  split
  · exact hstore
  · rename_i made hmade
    exact ⟨trivial, ⟨hbody, hsaved⟩,
      hstore.openFrame home (Parameters.bindings_meet _ harguments hmade)⟩

theorem call_meets [Saving] [LawfulSaving] {callee arguments : Value} (hcallee : callee.Meets r)
    (harguments : arguments.Meets r) (hframes : Frame.AllMeet r c.stack.frames)
    (hstore : c.store.Meets r)
    (hcontinuation : ∀ argument, callee = .callWithContinuation →
      arguments.elements = .ok [argument] →
      r.continuation c.store.nextStamp (Saving.save c.env c.stack).frames) :
    (c.call callee arguments).Meets r := by
  cases callee with
  | callWithContinuation =>
      exact callWithContinuation_meets harguments hframes hstore fun argument =>
        hcontinuation argument rfl
  | applyToList => exact applyToList_meets harguments hframes hstore
  | primitive p => exact callPrimitive_meets p harguments hframes hstore
  | closure stamp parameters body home =>
      exact callClosure_meets parameters home hcallee.2.2 harguments hframes hstore
  | continuation stamp frames =>
      refine ⟨?_, hcallee.2, hstore⟩
      cases arguments with
      | pair stamp first rest => exact harguments.1
      | _ => trivial
  | _ => exact hstore

/-- Over a step, everything goes on to meet a requirement that is met by the closure
or the continuation which the step may make. -/
theorem step_meets [Saving] [LawfulSaving] (h : c.Meets r)
    (hclosure : ∀ e parameters body, c.focus = .reduce e → (Form.of e).Makes parameters body →
      body.isBody = true → r.closure parameters body c.env)
    (hcontinuation : ∀ arguments argument, c.focus = .call .callWithContinuation arguments →
      arguments.elements = .ok [argument] →
      r.continuation c.store.nextStamp (Saving.save c.env c.stack).frames) :
    c.step.Meets r := by
  obtain ⟨hfocus, hframes, hstore⟩ := h
  unfold step
  split
  · rename_i e hreduce
    rw [hreduce] at hfocus
    rw [reduce_eq]
    exact reduceAs_meets hfocus (Form.of_meets hfocus) hframes hstore fun parameters body =>
      hclosure e parameters body hreduce
  · rename_i v hdrain
    rw [hdrain] at hfocus
    exact drain_meets hfocus hframes hstore
  · rename_i callee arguments hcall
    rw [hcall] at hfocus
    refine call_meets hfocus.1 hfocus.2 hframes hstore ?_
    rintro argument rfl
    exact hcontinuation arguments argument hcall

/-- What the host answers brings in no procedure. -/
theorem resume_meets {suspension : Suspension} (hsuspension : suspension.Meets r)
    (hframes : Frame.AllMeet r c.stack.frames) (hstore : c.store.Meets r)
    (answer : Option String) : (Config.resume suspension answer c).Meets r := by
  have hdone : Reply.ResultMeets r (c.shared.resume suspension answer) :=
    Shared.resume_meets hsuspension hstore answer
  unfold Config.resume
  generalize c.shared.resume suspension answer = result at hdone
  obtain ⟨fault | v | s, shared⟩ := result
  · exact hdone
  · exact ⟨hdone.1, hframes, hdone.2⟩
  · exact ⟨hdone.1, hframes, hdone.2⟩

end Config

end SchemeMachine
