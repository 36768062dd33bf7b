import SchemeMachine.Proofs.Natural.Rules
import SchemeMachine.Proofs.Natural.Run

/-!
# What is derived is what the machine does

Every rule of the natural semantics is a stretch of a run: `Evaluates.realised`.
The induction is on the derivation and for every stack beneath, since each part of
an expression is evaluated on top of the frame that waits for it.
-/

namespace SchemeMachine

open Served

variable {frames : List Frame} {env : Addr} {r : Except Fault Value} {i j : Interpreter}

/-! ## What the machine does with the parts of a form -/

/-- The frame of an `if` holds what is left of the form. -/
theorem Config.resumeChoose_of_form {e test yes : Value} {no : Option Value}
    (form : Form.of e = .branch test yes no) (c : Config) (v : Value) :
    c.resumeChoose v e.afterSecond =
      if v.isTrue then c.toReduce yes
      else match no with
        | none => c.toDrain .void
        | some x => c.toReduce x := by
  rcases Form.afterSecond_of_branch form with ⟨rfl, stamp, harms⟩ | ⟨x, stamp, inner, rfl, harms⟩
  · rw [harms]
    rfl
  · rw [harms]
    rfl

/-- The last expression of a sequence needs no frame; the others leave one. -/
theorem Config.toSequence_more (c : Config) (stamp : Nat) (e : Value) {rest : Value}
    (more : rest ≠ .nil) :
    c.toSequence (.pair stamp e rest) = (c.push .sequence rest).toReduce e := by
  cases rest with
  | nil => exact absurd rfl more
  | _ => rfl

theorem Config.toSequence_improper (c : Config) {other : Value}
    (improper : ∀ stamp e rest, other ≠ .pair stamp e rest) :
    c.toSequence other = .failed (.noPart other.typeName "cdr") c := by
  cases other with
  | pair stamp e rest => exact absurd rfl (improper stamp e rest)
  | _ => rfl

/-- The point in a call at which `earlier` holds the arguments so far: the next
operand is about to be evaluated, or the call about to be made. -/
def Operates (frames : List Frame) (callee : Value) (env : Addr) (sh : Shared)
    (earlier : Value) : List Value → Transition → Prop
  | [], t => ∃ focus k, k.frames = frames ∧
      t = Config.callCollected ⟨focus, env, k, sh⟩ callee earlier
  | e :: rest, t => ∃ k : Stack,
      k.frames = (.collect, earlier) :: (rest.map (FrameKind.operand, ·) ++
        (.operator, callee) :: frames) ∧
      t = .running ⟨.reduce e, env, k, sh⟩

/-- A call with a proper list of operands begins with the first of them. -/
theorem Config.resumeOperands_proper {chain : Value} {expressions : List Value}
    (proper : chain.elements = .ok expressions) (focus : Focus) (k : Stack) (sh : Shared)
    (callee : Value) :
    Operates k.frames callee env sh .nil expressions
      (Config.resumeOperands ⟨focus, env, k, sh⟩ callee chain) := by
  cases chain with
  | nil =>
      cases proper
      exact ⟨focus, k, rfl, rfl⟩
  | pair stamp first rest =>
      rw [Value.elements] at proper
      cases hrest : rest.elements with
      | error tail => simp [hrest, Except.map] at proper
      | ok others =>
          simp only [hrest, Except.map, Except.ok.injEq] at proper
          subst proper
          have hpushed := frames_pushOperands (push .operator callee ⟨focus, env, k, sh⟩) others
          refine ⟨(pushOperands others (push .operator callee ⟨focus, env, k, sh⟩)).stack.push
            .collect .nil, ?_, ?_⟩
          · rw [Stack.frames_push, hpushed]
            rfl
          · simp only [resumeOperands, hrest]
            rw [pushOperands_eq]
            rfl
  | _ => cases proper

theorem Config.resumeOperands_improper {chain tail : Value}
    (improper : chain.elements = .error tail) (c : Config) (callee : Value) :
    c.resumeOperands callee chain = .failed (.improperList (tail.written c.store)) c := by
  cases chain with
  | nil => cases improper
  | pair stamp first rest =>
      rw [Value.elements] at improper
      cases hrest : rest.elements with
      | error found =>
          simp only [hrest, Except.map, Except.error.injEq] at improper
          rw [resumeOperands, hrest, improper]
      | ok others => simp [hrest, Except.map] at improper
  | _ => cases improper; rfl

/-- An evaluated operand is collected, and the next one is begun. -/
theorem Config.resumeCollect_operates {callee : Value} {expressions : List Value} {below : Stack}
    (hbelow : below.frames =
      expressions.map (FrameKind.operand, ·) ++ (.operator, callee) :: frames)
    (focus : Focus) (sh : Shared) (v earlier : Value) :
    Operates frames callee env (sh.onStore (Store.newPair v earlier)).2
      (sh.onStore (Store.newPair v earlier)).1 expressions
      (Config.resumeCollect ⟨focus, env, below, sh⟩ v earlier) := by
  cases expressions with
  | nil =>
      obtain ⟨k, hpop, hk⟩ := Stack.pop?_of_frames hbelow
      refine ⟨focus, k, hk, ?_⟩
      simp only [resumeCollect, onStore, hpop]
  | cons e rest =>
      obtain ⟨k, hpop, hk⟩ := Stack.pop?_of_frames hbelow
      refine ⟨k.push .collect (sh.onStore (Store.newPair v earlier)).1, ?_, ?_⟩
      · rw [Stack.frames_push, hk]
        rfl
      · simp only [resumeCollect, onStore, hpop]
        rfl

/-! ## States of a run that begin a phrase -/

namespace Served

/-- The machine at the start of an expression does what its form says. -/
theorem Settles.reduce {e : Value} {form : Form} {k : Stack} (hform : Form.of e = form)
    (h : Settles k.frames env
      ⟨Config.reduceAs ⟨.reduce e, env, k, i.shared⟩ e form, i.lines⟩ r j) :
    Settles k.frames env (start e env k i) r j := by
  refine Settles.step ⟨List.suffix_refl _, nofun, rfl⟩ ?_
  subst hform
  rwa [← Config.reduce_eq] at h

/-- The machine at a call that does not escape makes it. -/
theorem Settles.call {callee arguments : Value} {k : Stack}
    (hcallee : (Focus.call callee arguments).escapes = false)
    (h : Settles k.frames env
      ⟨Config.call ⟨.call callee arguments, env, k, i.shared⟩ callee arguments, i.lines⟩ r j) :
    Settles k.frames env ⟨.running ⟨.call callee arguments, env, k, i.shared⟩, i.lines⟩ r j :=
  Settles.step ⟨List.suffix_refl _, nofun, hcallee⟩ h

/-- A value handed to the frame that was pushed last. -/
theorem Runs.handed (k : Stack) (kind : FrameKind) (payload : Value) {v : Value} {sh : Shared}
    {lines : List String} (hkind : kind ≠ .restore) :
    ∃ n below, below.frames = k.frames ∧ Runs k.frames n
      ⟨.running ⟨.drain v, env, k.push kind payload, sh⟩, lines⟩
      ⟨Config.resumeFrame ⟨.drain v, env, below, sh⟩ kind payload v, lines⟩ := by
  have hpushed : Settles (k.push kind payload).frames env
      ⟨.running ⟨.drain v, env, k.push kind payload, sh⟩, lines⟩ (.ok v) ⟨sh, lines⟩ :=
    Settles.value rfl
  exact hpushed.resumes hkind (List.suffix_refl k.frames)

/-- The host acts, and the suspended call is finished. -/
theorem Settles.awaited {suspension : Suspension} {c : Config} (hshared : c.shared = i.shared)
    (h : Settles c.stack.frames env (resumed c (i.reply suspension)) r j) :
    Settles c.stack.frames env ⟨.suspended suspension c, i.lines⟩ r j := by
  refine Settles.step (List.suffix_refl c.stack.frames) ?_
  rwa [next, hshared]

/-- What runs above a saved environment comes back to it, unless the frame below
will restore one anyway. -/
theorem Settles.of_pushRestore {s : Served} {k : Stack} (home : Addr)
    (h : s.Settles (k.pushRestore env).frames home r j) : s.Settles k.frames env r j := by
  by_cases htop : k.top? = some .restore
  · rw [Stack.pushRestore, if_pos htop] at h
    cases r with
    | error fault => exact h
    | ok v =>
        obtain ⟨n, found, below, hrun, hbelow, _⟩ := h
        refine ⟨n, found, below, hrun, hbelow, .inr ?_⟩
        rwa [Stack.top?, hbelow]
  · rw [Stack.pushRestore, if_neg htop, Stack.frames_push] at h
    cases r with
    | error fault => exact h.fault_of_cons (List.suffix_refl _)
    | ok v =>
        obtain ⟨n, found, above, hrun, habove, _⟩ := h
        obtain ⟨below, hpop, hbelow⟩ := Stack.pop?_of_frames habove
        refine ⟨n + 1, env, below, (hrun.of_cons (List.suffix_refl _)).trans ⟨?_, ?_⟩, hbelow,
          .inl rfl⟩
        · refine ⟨?_, fun _ heq => ?_, rfl⟩
          · rw [habove]
            exact List.suffix_cons _ _
          · have hlong := congrArg List.length (habove.symm.trans heq)
            simp at hlong
        · simp only [Runs, next, Config.step, Config.drain, hpop]
          rfl

end Served

/-! ## The simulation -/

/-- The machine does what `Evaluates` says of a phrase, on top of any stack. -/
def Realised : Phrase → Addr → Interpreter → Except Fault Value → Interpreter → Prop
  | .expression e, env, i, r, j => ∀ k, Settles k.frames env (Served.start e env k i) r j
  | .sequence expressions, env, i, r, j => ∀ focus k, Settles k.frames env
      ⟨Config.toSequence ⟨focus, env, k, i.shared⟩ expressions, i.lines⟩ r j
  | .operands collected expressions, env, i, r, j => ∀ frames callee earlier t,
      earlier.elements = .ok collected →
      Operates frames callee env i.shared earlier expressions t →
      match r with
      | .ok arguments => ∃ n k, k.frames = frames ∧ Runs frames n ⟨t, i.lines⟩
          ⟨.running ⟨.call callee arguments, env, k, j.shared⟩, j.lines⟩
      | .error fault => Settles frames env ⟨t, i.lines⟩ (.error fault) j
  | .call callee arguments, env, i, r, j => ∀ k, Settles k.frames env
      ⟨.running ⟨.call callee arguments, env, k, i.shared⟩, i.lines⟩ r j
  | .await suspension, env, i, r, j => ∀ c, c.env = env → c.shared = i.shared →
      Settles c.stack.frames env ⟨.suspended suspension c, i.lines⟩ r j

/-- The run of a form whose first part has a value: up to that value, and on from
the frame that was pushed for it. -/
theorem Realised.runs {e v : Value} {kind : FrameKind}
    (h : Realised (.expression e) env i (.ok v) j) (hkind : kind ≠ .restore) (payload : Value)
    (focus : Focus) (k : Stack) :
    ∃ n below, below.frames = k.frames ∧ Runs k.frames n
      ⟨(Config.push kind payload ⟨focus, env, k, i.shared⟩).toReduce e, i.lines⟩
      ⟨Config.resumeFrame ⟨.drain v, env, below, j.shared⟩ kind payload v, j.lines⟩ :=
  (h (k.push kind payload)).resumes hkind (List.suffix_refl k.frames)

theorem Realised.settles {e payload v : Value} {kind : FrameKind} {l : Interpreter}
    {focus : Focus} {k : Stack} (h : Realised (.expression e) env i (.ok v) j)
    (hkind : kind ≠ .restore)
    (hrest : ∀ below : Stack, Settles below.frames env
      ⟨Config.resumeFrame ⟨.drain v, env, below, j.shared⟩ kind payload v, j.lines⟩ r l) :
    Settles k.frames env
      ⟨(Config.push kind payload ⟨focus, env, k, i.shared⟩).toReduce e, i.lines⟩ r l := by
  obtain ⟨n, below, hbelow, hrun⟩ := h.runs hkind payload focus k
  exact Settles.of_runs hrun (hbelow ▸ hrest below)

theorem Realised.fault {e payload : Value} {kind : FrameKind} {fault : Fault} {focus : Focus}
    {k : Stack} (h : Realised (.expression e) env i (.error fault) j) :
    Settles k.frames env
      ⟨(Config.push kind payload ⟨focus, env, k, i.shared⟩).toReduce e, i.lines⟩ (.error fault) j :=
  (h (k.push kind payload)).fault_of_cons (List.suffix_refl k.frames)

theorem Evaluates.realised {phrase : Phrase} (h : Evaluates phrase env i r j) :
    Realised phrase env i r j := by
  induction h with
  | constant form => exact fun k => Settles.reduce form (Settles.value rfl)
  | symbol form found =>
      intro k
      refine Settles.reduce form ?_
      simp only [Config.reduceAs, Config.store, found]
      exact Settles.value rfl
  | symbolUnbound form missing =>
      intro k
      refine Settles.reduce form ?_
      simp only [Config.reduceAs, Config.store, missing]
      exact Settles.fault _ _ _ (List.suffix_refl _)
  | quotation form => exact fun k => Settles.reduce form (Settles.value rfl)
  | @lambda e parameters body env i closure j form valid made =>
      intro k
      refine Settles.reduce form ?_
      simp only [Config.reduceAs, Config.reduceLambda, Config.store, valid]
      cases made
      exact Settles.value rfl
  | lambdaInvalid form invalid =>
      intro k
      refine Settles.reduce form ?_
      simp only [Config.reduceAs, Config.reduceLambda, Config.store, invalid]
      exact Settles.fault _ _ _ (List.suffix_refl _)
  | malformed form =>
      exact fun k => Settles.reduce form (Settles.fault _ _ _ (List.suffix_refl _))
  | branchYes form _ holds _ ihTest ihChosen =>
      refine fun k => Settles.reduce form (ihTest.settles (by decide) fun below => ?_)
      simp only [Config.resumeFrame, Config.resumeChoose_of_form form, holds, if_true]
      exact ihChosen below
  | branchNo form _ fails _ ihTest ihChosen =>
      refine fun k => Settles.reduce form (ihTest.settles (by decide) fun below => ?_)
      simp only [Config.resumeFrame, Config.resumeChoose_of_form form, fails]
      exact ihChosen below
  | branchNeither form _ fails ihTest =>
      refine fun k => Settles.reduce form (ihTest.settles (by decide) fun below => ?_)
      simp only [Config.resumeFrame, Config.resumeChoose_of_form form, fails]
      exact Settles.value rfl
  | branchFault form _ ihTest => exact fun k => Settles.reduce form ihTest.fault
  | beginNothing form => exact fun k => Settles.reduce form (Settles.value rfl)
  | begin form some _ ih =>
      refine fun k => Settles.reduce form ?_
      rw [Config.reduceAs_sequence _ _ some]
      exact ih _ k
  | sequenceLast _ ih => exact fun _ k => ih k
  | sequenceMore more _ _ ihFirst ihRest =>
      intro focus k
      rw [Config.toSequence_more _ _ _ more]
      exact ihFirst.settles (by decide) fun below => ihRest _ below
  | sequenceFault more _ ihFirst =>
      intro focus k
      rw [Config.toSequence_more _ _ _ more]
      exact ihFirst.fault
  | sequenceImproper improper =>
      intro focus k
      rw [Config.toSequence_improper _ improper]
      exact Settles.fault _ _ _ (List.suffix_refl _)
  | @procedure e name parameters body env i closure j form valid made =>
      intro k
      refine Settles.reduce form ?_
      simp only [Config.reduceAs, Config.reduceDefineProcedure, Config.store, valid]
      cases made
      -- the new closure is handed to the frame that defines the name
      obtain ⟨n, below, hbelow, hrun⟩ := Runs.handed k .define (.symbol name) (by decide)
      exact Settles.of_runs hrun (hbelow ▸ Settles.value rfl)
  | procedureInvalid form invalid =>
      intro k
      refine Settles.reduce form ?_
      simp only [Config.reduceAs, Config.reduceDefineProcedure, Config.store, invalid]
      exact Settles.fault _ _ _ (List.suffix_refl _)
  | @procedureUnnamed e name parameters body env i form valid unnamed =>
      intro k
      refine Settles.reduce form ?_
      simp only [Config.reduceAs, Config.reduceDefineProcedure, Config.store, valid]
      cases name with
      | symbol n => exact absurd rfl (unnamed n)
      | _ => exact Settles.fault _ _ _ (List.suffix_refl _)
  | definition form _ ih =>
      refine fun k => Settles.reduce form (ih.settles (by decide) fun below => ?_)
      exact Settles.value rfl
  | definitionFault form _ ih => exact fun k => Settles.reduce form ih.fault
  | @definitionUnnamed e name x env i form unnamed =>
      intro k
      refine Settles.reduce form ?_
      cases name with
      | symbol n => exact absurd rfl (unnamed n)
      | _ => exact Settles.fault _ _ _ (List.suffix_refl _)
  | assignment form found _ ih =>
      intro k
      refine Settles.reduce form ?_
      simp only [Config.reduceAs, Config.reduceAssign, Config.store, found]
      exact ih.settles (by decide) fun below => Settles.value rfl
  | assignmentFault form found _ ih =>
      intro k
      refine Settles.reduce form ?_
      simp only [Config.reduceAs, Config.reduceAssign, Config.store, found]
      exact ih.fault
  | assignmentUnbound form missing =>
      intro k
      refine Settles.reduce form ?_
      simp only [Config.reduceAs, Config.reduceAssign, Config.store, missing]
      exact Settles.fault _ _ _ (List.suffix_refl _)
  | @assignmentUnnamed e name x env i form unnamed =>
      intro k
      refine Settles.reduce form ?_
      cases name with
      | symbol n => exact absurd rfl (unnamed n)
      | _ => exact Settles.fault _ _ _ (List.suffix_refl _)
  | @application e operator chain expressions callee arguments env i j k r l form _ proper _ _
      ihOperator ihOperands ihCall =>
      intro stack
      refine Settles.reduce form ?_
      obtain ⟨n, below, hbelow, hrun⟩ := ihOperator.runs
        (show FrameKind.operands ≠ .restore by decide) chain (.reduce e) stack
      refine Settles.of_runs hrun ?_
      obtain ⟨m, k', hk', hpassed⟩ := ihOperands _ callee .nil _ rfl
        (Config.resumeOperands_proper proper (.drain callee) below j.shared callee)
      rw [← hbelow]
      refine Settles.of_runs hpassed (hk' ▸ ihCall k')
  | operatorFault form _ ihOperator => exact fun k => Settles.reduce form ihOperator.fault
  | operandsImproper form _ improper ihOperator =>
      refine fun k => Settles.reduce form (ihOperator.settles (by decide) fun below => ?_)
      simp only [Config.resumeFrame, Config.resumeOperands_improper improper]
      exact Settles.fault _ _ _ (List.suffix_refl _)
  | @operandsFault e operator chain expressions callee fault env i j k form _ proper _
      ihOperator ihOperands =>
      refine fun stack => Settles.reduce form (ihOperator.settles (by decide) fun below => ?_)
      exact ihOperands _ callee .nil _ rfl
        (Config.resumeOperands_proper proper (.drain callee) below j.shared callee)
  | operandsNone made =>
      rintro frames callee earlier t hearlier ⟨focus, k, hk, rfl⟩
      refine ⟨0, k, hk, ?_⟩
      simp only [Runs, Config.callCollected, hearlier]
      cases made
      rfl
  | @operandsMore collected e expressions v env i j r l _ _ ihFirst ihRest =>
      rintro frames callee earlier t hearlier ⟨k, hk, rfl⟩
      have hframes : frames <:+ expressions.map (FrameKind.operand, ·) ++
          (.operator, callee) :: frames := (List.suffix_cons _ _).trans (List.suffix_append _ _)
      obtain ⟨n, below, hbelow, hrun⟩ := (hk ▸ ihFirst k).resumes (by decide) hframes
      -- the cell that holds the argument uses up a stamp, whatever it is linked to
      have hrest := ihRest frames callee (.pair j.store.nextStamp v earlier)
        (Config.resumeCollect ⟨.drain v, env, below, j.shared⟩ v earlier)
        (by rw [Value.elements, hearlier]; rfl)
        (Config.resumeCollect_operates hbelow _ _ _ _)
      cases r with
      | ok arguments =>
          obtain ⟨m, k', hk', hrun'⟩ := hrest
          exact ⟨n + m, k', hk', hrun.trans hrun'⟩
      | error fault => exact Settles.of_runs hrun hrest
  | @operandFault collected e expressions fault env i j _ ihFirst =>
      rintro frames callee earlier t hearlier ⟨k, hk, rfl⟩
      have hframes : frames <:+ expressions.map (FrameKind.operand, ·) ++
          (.operator, callee) :: frames := (List.suffix_cons _ _).trans (List.suffix_append _ _)
      exact (hk ▸ ihFirst k).fault_of_cons hframes
  | @closure stamp parameters body home arguments bindings frame env i j r k bound opened _ ih =>
      refine fun stack => Settles.call rfl ?_
      simp only [Config.call, Config.callClosure, Config.store, bound]
      cases opened
      obtain ⟨n, below, hbelow, hrun⟩ :=
        Runs.handed (stack.pushRestore env) .sequence body (by decide)
      exact Settles.of_pushRestore _ (Settles.of_runs hrun (hbelow ▸ ih _ below))
  | @closureFault stamp parameters body home arguments fault env i unbound =>
      refine fun stack => Settles.call rfl ?_
      simp only [Config.call, Config.callClosure, Config.store, unbound]
      exact Settles.of_pushRestore home (Settles.fault _ _ _ (List.suffix_cons _ _))
  | primitive proper done =>
      refine fun stack => Settles.call rfl ?_
      simp only [Config.call, Config.callPrimitive, proper, done]
      exact Settles.value rfl
  | primitiveFault proper done =>
      refine fun stack => Settles.call rfl ?_
      simp only [Config.call, Config.callPrimitive, proper, done]
      exact Settles.fault _ _ _ (List.suffix_refl _)
  | primitiveAwait proper done _ ih =>
      refine fun stack => Settles.call rfl ?_
      simp only [Config.call, Config.callPrimitive, proper, done]
      exact ih ⟨.call _ _, _, stack, _⟩ rfl rfl
  | primitiveImproper improper =>
      refine fun stack => Settles.call rfl ?_
      simp only [Config.call, Config.callPrimitive, improper]
      exact Settles.fault _ _ _ (List.suffix_refl _)
  | apply two chain _ ih =>
      refine fun stack => Settles.call rfl ?_
      simp only [Config.call, Config.applyToList, two]
      rcases chain with rfl | ⟨stamp, head, tail, rfl⟩
      · exact ih stack
      · exact ih stack
  | @applyNoList arguments callee list env i two none improper =>
      refine fun stack => Settles.call rfl ?_
      simp only [Config.call, Config.applyToList, two]
      cases list with
      | nil => exact absurd rfl none
      | pair stamp head tail => exact absurd rfl (improper stamp head tail)
      | _ => exact Settles.fault _ _ _ (List.suffix_refl _)
  | @applyCount arguments args env i proper count =>
      refine fun stack => Settles.call rfl ?_
      have hcount : Config.applyToList ⟨.call .applyToList arguments, env, stack, i.shared⟩
          arguments = Config.wrongCount ⟨.call .applyToList arguments, env, stack, i.shared⟩
            "apply" 2 args.length arguments := by
        rcases args with _ | ⟨first, _ | ⟨second, _ | ⟨third, rest⟩⟩⟩
        · simp only [Config.applyToList, proper]
        · simp only [Config.applyToList, proper]
        · exact absurd rfl count
        · simp only [Config.applyToList, proper]
      rw [Config.call, hcount]
      exact Settles.fault _ _ _ (List.suffix_refl _)
  | applyImproper improper =>
      refine fun stack => Settles.call rfl ?_
      simp only [Config.call, Config.applyToList, improper]
      exact Settles.fault _ _ _ (List.suffix_refl _)
  | @notCallable callee arguments env i other =>
      intro stack
      cases callee with
      | closure | primitive | continuation | callWithContinuation | applyToList => cases other
      | _ => exact Settles.call rfl (Settles.fault _ _ _ (List.suffix_refl _))
  | answered done =>
      rintro c rfl hshared
      refine Settles.awaited hshared ?_
      rw [done]
      exact Settles.value rfl
  | answeredFault done =>
      rintro c rfl hshared
      refine Settles.awaited hshared ?_
      rw [done]
      exact Settles.fault _ _ _ (List.suffix_refl _)
  | @answeredAwait s t env i j r k again _ ih =>
      rintro c rfl hshared
      refine Settles.awaited hshared ?_
      rw [again]
      exact ih { c with shared := j.shared } rfl rfl

end SchemeMachine
