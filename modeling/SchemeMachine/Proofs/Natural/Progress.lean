import Mathlib.Data.List.Basic
import SchemeMachine.Proofs.Natural.Realised

/-!
# What is not derived goes on

A phrase has a derivation, or the machine is still busy with it after any number
of steps: `progresses`.  A run that calls `call/cc` or a continuation counts as
busy, since no rule speaks of what comes after such a call.

The number of steps carries the induction.  A phrase whose parts have derivations
has one itself, or is as busy as the first part that has none; and each part of an
expression begins at least one step after the expression.  Sequences and operands
begin with their first expression and take no step of their own, so for those the
induction is on the phrase, with the steps held fixed.
-/

namespace SchemeMachine

open Served

variable {frames above : List Frame} {env : Addr} {i j : Interpreter} {n : Nat}

namespace Served

variable {s t : Served}

/-- Whether the next step calls `call/cc` or a continuation. -/
def Escapes : Served → Prop
  | ⟨.running c, _⟩ => c.focus.escapes = true
  | _ => False

/-- The run is above `frames` for so many steps, unless it escapes before that. -/
def GoesOn (frames : List Frame) (n : Nat) (s : Served) : Prop :=
  (∃ m t, Runs frames m s t ∧ t.Escapes) ∨ ∃ t, Runs frames n s t

theorem GoesOn.step (habove : s.Above frames) (h : s.next.GoesOn frames n) :
    s.GoesOn frames (n + 1) := by
  rcases h with ⟨m, t, hrun, hescapes⟩ | ⟨t, hrun⟩
  · exact .inl ⟨m + 1, t, ⟨habove, hrun⟩, hescapes⟩
  · exact .inr ⟨t, habove, hrun⟩

theorem GoesOn.of_runs {m : Nat} (hrun : Runs frames m s t) (h : t.GoesOn frames n) :
    s.GoesOn frames n := by
  rcases h with ⟨l, u, hrest, hescapes⟩ | ⟨u, hrest⟩
  · exact .inl ⟨m + l, u, hrun.trans hrest, hescapes⟩
  · have hlonger := hrun.trans hrest
    rw [Nat.add_comm] at hlonger
    obtain ⟨v, hfirst, _⟩ := hlonger.split
    exact .inr ⟨v, hfirst⟩

theorem GoesOn.of_cons {frame : Frame} (h : s.GoesOn (frame :: above) n)
    (hframes : frames <:+ above) : s.GoesOn frames n := by
  rcases h with ⟨m, t, hrun, hescapes⟩ | ⟨t, hrun⟩
  · exact .inl ⟨m, t, hrun.of_cons hframes, hescapes⟩
  · exact .inr ⟨t, hrun.of_cons hframes⟩

theorem GoesOn.of_pushRestore {k : Stack} (h : s.GoesOn (k.pushRestore env).frames n) :
    s.GoesOn k.frames n := by
  by_cases htop : k.top? = some .restore
  · rwa [Stack.pushRestore, if_pos htop] at h
  · rw [Stack.pushRestore, if_neg htop, Stack.frames_push] at h
    exact h.of_cons (List.suffix_refl _)

end Served

/-! ## Phrases that are not done -/

/-- The machine is busy with a phrase for so many steps, on top of any stack. -/
def Pending (n : Nat) : Phrase → Addr → Interpreter → Prop
  | .expression e, env, i => ∀ k, GoesOn k.frames n (Served.start e env k i)
  | .sequence expressions, env, i => ∀ focus k, GoesOn k.frames n
      ⟨Config.toSequence ⟨focus, env, k, i.shared⟩ expressions, i.lines⟩
  | .operands collected expressions, env, i => ∀ frames callee earlier t,
      earlier.elements = .ok collected →
      Operates frames callee env i.shared earlier expressions t → GoesOn frames n ⟨t, i.lines⟩
  | .call callee arguments, env, i => ∀ k, GoesOn k.frames n
      ⟨.running ⟨.call callee arguments, env, k, i.shared⟩, i.lines⟩
  | .await suspension, env, i => ∀ c, c.env = env → c.shared = i.shared →
      GoesOn c.stack.frames n ⟨.suspended suspension c, i.lines⟩

/-- A phrase has a derivation, or the machine is busy with it for so many steps. -/
def Progresses (n : Nat) (phrase : Phrase) : Prop :=
  ∀ env i, (∃ r j, Evaluates phrase env i r j) ∨ Pending n phrase env i

theorem Pending.reduce {e : Value} {form : Form} (hform : Form.of e = form)
    (h : ∀ k, GoesOn k.frames n
      ⟨Config.reduceAs ⟨.reduce e, env, k, i.shared⟩ e form, i.lines⟩) :
    Pending (n + 1) (.expression e) env i := by
  refine fun k => GoesOn.step ⟨List.suffix_refl _, nofun, rfl⟩ ?_
  subst hform
  have hk := h k
  rwa [← Config.reduce_eq] at hk

theorem Pending.call {callee arguments : Value}
    (hcallee : (Focus.call callee arguments).escapes = false)
    (h : ∀ k, GoesOn k.frames n
      ⟨Config.call ⟨.call callee arguments, env, k, i.shared⟩ callee arguments, i.lines⟩) :
    Pending (n + 1) (.call callee arguments) env i :=
  fun k => GoesOn.step ⟨List.suffix_refl _, nofun, hcallee⟩ (h k)

/-- A form is as busy as its first part. -/
theorem Pending.part {e : Value} (h : Pending n (.expression e) env i) (kind : FrameKind)
    (payload : Value) (focus : Focus) (k : Stack) :
    GoesOn k.frames n
      ⟨(Config.push kind payload ⟨focus, env, k, i.shared⟩).toReduce e, i.lines⟩ :=
  (h (k.push kind payload)).of_cons (List.suffix_refl k.frames)

/-- A form whose first part has a value is as busy as what the frame goes on with. -/
theorem Evaluates.goesOn {e v : Value} (h : Evaluates (.expression e) env i (.ok v) j)
    (kind : FrameKind) (payload : Value) (hkind : kind ≠ .restore)
    (hrest : ∀ below : Stack, GoesOn below.frames n
      ⟨Config.resumeFrame ⟨.drain v, env, below, j.shared⟩ kind payload v, j.lines⟩)
    (focus : Focus) (k : Stack) :
    GoesOn k.frames n
      ⟨(Config.push kind payload ⟨focus, env, k, i.shared⟩).toReduce e, i.lines⟩ := by
  obtain ⟨m, below, hbelow, hrun⟩ := h.realised.runs hkind payload focus k
  exact GoesOn.of_runs hrun (hbelow ▸ hrest below)

/-! ## Phrases made of expressions -/

theorem Progresses.sequence (ih : ∀ e, Progresses n (.expression e)) (expressions : Value) :
    Progresses n (.sequence expressions) := by
  cases expressions with
  | pair stamp e rest =>
      have ihRest := Progresses.sequence ih rest
      intro env i
      by_cases hmore : rest = .nil
      · subst hmore
        rcases ih e env i with ⟨r, j, hdone⟩ | hopen
        · exact .inl ⟨r, j, .sequenceLast hdone⟩
        · exact .inr fun _ k => hopen k
      have hstart := fun focus k =>
        Config.toSequence_more ⟨focus, env, k, i.shared⟩ stamp e hmore
      rcases ih e env i with ⟨_ | v, j, hfirst⟩ | hopen
      · exact .inl ⟨_, j, .sequenceFault hmore hfirst⟩
      · rcases ihRest env j with ⟨r, l, hdone⟩ | hrest
        · exact .inl ⟨r, l, .sequenceMore hmore hfirst hdone⟩
        · refine .inr fun focus k => ?_
          rw [hstart]
          exact hfirst.goesOn .sequence rest (by decide) (fun below => hrest _ below) focus k
      · refine .inr fun focus k => ?_
        rw [hstart]
        exact hopen.part .sequence rest focus k
  | _ => exact fun env i => .inl ⟨_, i, .sequenceImproper nofun⟩

theorem Progresses.operands (ih : ∀ e, Progresses n (.expression e)) (collected : List Value)
    (expressions : List Value) : Progresses n (.operands collected expressions) := by
  induction expressions generalizing collected with
  | nil => exact fun env i => .inl ⟨_, _, .operandsNone rfl⟩
  | cons e rest ihRest =>
      intro env i
      have hframes : ∀ (callee : Value) (frames : List Frame),
          frames <:+ rest.map (FrameKind.operand, ·) ++ (.operator, callee) :: frames :=
        fun callee frames => (List.suffix_cons _ _).trans (List.suffix_append _ _)
      rcases ih e env i with ⟨_ | v, j, hfirst⟩ | hopen
      · exact .inl ⟨_, j, .operandFault hfirst⟩
      · rcases ihRest (v :: collected) env (j.changeStore fun s => (s.newPair v .nil).2) with
          ⟨r, l, hdone⟩ | hrest
        · exact .inl ⟨r, l, .operandsMore hfirst hdone⟩
        · right
          rintro frames callee earlier t hearlier ⟨k, hk, rfl⟩
          obtain ⟨m, below, hbelow, hrun⟩ :=
            (hk ▸ hfirst.realised k).resumes (by decide) (hframes callee frames)
          exact GoesOn.of_runs hrun (hrest frames callee (.pair j.store.nextStamp v earlier) _
            (by rw [Value.elements, hearlier]; rfl)
            (Config.resumeCollect_operates hbelow _ _ _ _))
      · right
        rintro frames callee earlier t hearlier ⟨k, hk, rfl⟩
        exact (hk ▸ hopen k).of_cons (hframes callee frames)

/-! ## Expressions -/

theorem Progresses.branch {e test yes : Value} {no : Option Value}
    (ih : ∀ phrase, Progresses n phrase) (form : Form.of e = .branch test yes no) :
    Progresses (n + 1) (.expression e) := by
  intro env i
  rcases ih (.expression test) env i with ⟨_ | v, j, htest⟩ | hopen
  · exact .inl ⟨_, j, .branchFault form htest⟩
  · -- the arm that the test chooses, if there is one
    have harm : ∀ x, Pending n (.expression x) env j →
        (∀ c : Config, c.resumeChoose v e.afterSecond = c.toReduce x) →
        Pending (n + 1) (.expression e) env i := by
      intro x hopen hchoose
      refine Pending.reduce form
        (htest.goesOn .choose e.afterSecond (by decide) (fun below => ?_) (.reduce e))
      rw [Config.resumeFrame, hchoose]
      exact hopen below
    cases htrue : v.isTrue with
    | true =>
        rcases ih (.expression yes) env j with ⟨r, l, hchosen⟩ | hopen
        · exact .inl ⟨r, l, .branchYes form htest htrue hchosen⟩
        · exact .inr (harm yes hopen fun c => by simp [Config.resumeChoose_of_form form, htrue])
    | false =>
        cases no with
        | none => exact .inl ⟨_, j, .branchNeither form htest htrue⟩
        | some x =>
            rcases ih (.expression x) env j with ⟨r, l, hchosen⟩ | hopen
            · exact .inl ⟨r, l, .branchNo form htest htrue hchosen⟩
            · exact .inr (harm x hopen fun c => by simp [Config.resumeChoose_of_form form, htrue])
  · exact .inr (Pending.reduce form (hopen.part .choose e.afterSecond (.reduce e)))

theorem Progresses.application {e operator chain : Value} (ih : ∀ phrase, Progresses n phrase)
    (form : Form.of e = .application operator chain) : Progresses (n + 1) (.expression e) := by
  intro env i
  rcases ih (.expression operator) env i with ⟨_ | callee, j, hfirst⟩ | hopen
  · exact .inl ⟨_, j, .operatorFault form hfirst⟩
  · cases hchain : chain.elements with
    | error tail => exact .inl ⟨_, j, .operandsImproper form hfirst hchain⟩
    | ok expressions =>
        have hbegins : ∀ below : Stack, Operates below.frames callee env j.shared .nil expressions
            (Config.resumeOperands ⟨.drain callee, env, below, j.shared⟩ callee chain) :=
          fun below => Config.resumeOperands_proper hchain (.drain callee) below j.shared callee
        rcases ih (.operands [] expressions) env j with ⟨_ | arguments, l, hpassed⟩ | hopen
        · exact .inl ⟨_, l, .operandsFault form hfirst hchain hpassed⟩
        · rcases ih (.call callee arguments) env l with ⟨r, m, hcalled⟩ | hopen
          · exact .inl ⟨r, m, .application form hfirst hchain hpassed hcalled⟩
          · refine .inr (Pending.reduce form
              (hfirst.goesOn .operands chain (by decide) (fun below => ?_) (.reduce e)))
            obtain ⟨m, k, hk, hrun⟩ := hpassed.realised _ callee .nil _ rfl (hbegins below)
            exact GoesOn.of_runs hrun (hk ▸ hopen k)
        · exact .inr (Pending.reduce form (hfirst.goesOn .operands chain (by decide)
            (fun below => hopen _ callee .nil _ rfl (hbegins below)) (.reduce e)))
  · exact .inr (Pending.reduce form (hopen.part .operands chain (.reduce e)))

/-- `define` and `set!` are as busy as the expression they evaluate, and do their
own work in the step that takes their frame off. -/
theorem Progresses.definition {e name x : Value} (ih : ∀ phrase, Progresses n phrase)
    (form : Form.of e = .definition name x) : Progresses (n + 1) (.expression e) := by
  intro env i
  cases name with
  | symbol name =>
      rcases ih (.expression x) env i with ⟨_ | v, j, hdone⟩ | hopen
      · exact .inl ⟨_, j, .definitionFault form hdone⟩
      · exact .inl ⟨_, _, .definition form hdone⟩
      · exact .inr (Pending.reduce form (hopen.part .define (.symbol name) (.reduce e)))
  | _ => exact .inl ⟨_, i, .definitionUnnamed form nofun⟩

theorem Progresses.assignment {e name x : Value} (ih : ∀ phrase, Progresses n phrase)
    (form : Form.of e = .assignment name x) : Progresses (n + 1) (.expression e) := by
  intro env i
  cases name with
  | symbol name =>
      cases hfind : i.store.find? name env with
      | none => exact .inl ⟨_, i, .assignmentUnbound form hfind⟩
      | some binding =>
          rcases ih (.expression x) env i with ⟨_ | v, j, hdone⟩ | hopen
          · exact .inl ⟨_, j, .assignmentFault form hfind hdone⟩
          · exact .inl ⟨_, _, .assignment form hfind hdone⟩
          · refine .inr (Pending.reduce form fun k => ?_)
            simp only [Config.reduceAs, Config.reduceAssign, Config.store, hfind]
            exact hopen.part .assign (.environment binding.1) (.reduce e) k
  | _ => exact .inl ⟨_, i, .assignmentUnnamed form (by rintro _ ⟨⟩)⟩

theorem Progresses.expression (ih : ∀ phrase, Progresses n phrase) (e : Value) :
    Progresses (n + 1) (.expression e) := by
  cases form : Form.of e with
  | constant v => exact fun env i => .inl ⟨_, i, .constant form⟩
  | symbol name =>
      intro env i
      cases hfind : i.store.find? name env with
      | none => exact .inl ⟨_, i, .symbolUnbound form hfind⟩
      | some binding => exact .inl ⟨_, i, .symbol form hfind⟩
  | quotation datum => exact fun env i => .inl ⟨_, i, .quotation form⟩
  | branch test yes no => exact Progresses.branch ih form
  | sequence expressions =>
      intro env i
      by_cases hsome : expressions = .nil
      · subst hsome
        exact .inl ⟨_, i, .beginNothing form⟩
      · rcases ih (.sequence expressions) env i with ⟨r, j, hdone⟩ | hopen
        · exact .inl ⟨r, j, .begin form hsome hdone⟩
        · refine .inr (Pending.reduce form fun k => ?_)
          rw [Config.reduceAs_sequence _ _ hsome]
          exact hopen _ k
  | lambda parameters body =>
      intro env i
      cases hcheck : Parameters.check i.store parameters with
      | some fault => exact .inl ⟨_, i, .lambdaInvalid form hcheck⟩
      | none => exact .inl ⟨_, _, .lambda form hcheck rfl⟩
  | procedure name parameters body =>
      intro env i
      cases hcheck : Parameters.check i.store parameters with
      | some fault => exact .inl ⟨_, i, .procedureInvalid form hcheck⟩
      | none =>
          cases name with
          | symbol name => exact .inl ⟨_, _, .procedure form hcheck rfl⟩
          | _ => exact .inl ⟨_, i, .procedureUnnamed form hcheck nofun⟩
  | definition name x => exact Progresses.definition ih form
  | assignment name x => exact Progresses.assignment ih form
  | malformed => exact fun env i => .inl ⟨_, i, .malformed form⟩
  | application operator chain => exact Progresses.application ih form

/-! ## Calls -/

theorem Progresses.callPrimitive (ih : ∀ phrase, Progresses n phrase) (p : Primitive)
    (arguments : Value) : Progresses (n + 1) (.call (.primitive p) arguments) := by
  intro env i
  cases hargs : arguments.elements with
  | error tail => exact .inl ⟨_, i, .primitiveImproper hargs⟩
  | ok args =>
      rcases hdone : p.perform arguments args i.shared with ⟨fault | v | s, sh⟩
      · exact .inl ⟨_, _, .primitiveFault hargs hdone⟩
      · exact .inl ⟨_, _, .primitive hargs hdone⟩
      · rcases ih (.await s) env { i with shared := sh } with ⟨r, j, hawaited⟩ | hopen
        · exact .inl ⟨r, j, .primitiveAwait hargs hdone hawaited⟩
        · refine .inr (Pending.call rfl fun k => ?_)
          simp only [Config.call, Config.callPrimitive, hargs, hdone]
          exact hopen ⟨.call _ _, env, k, sh⟩ rfl rfl

theorem Progresses.callClosure (ih : ∀ phrase, Progresses n phrase) (stamp : Nat)
    (parameters body : Value) (home : Addr) (arguments : Value) :
    Progresses (n + 1) (.call (.closure stamp parameters body home) arguments) := by
  intro env i
  cases hbound : Parameters.bindings i.store parameters arguments with
  | error fault => exact .inl ⟨_, i, .closureFault hbound⟩
  | ok bindings =>
      rcases ih (.sequence body) (i.onStore (Store.openFrame home bindings)).1
        (i.onStore (Store.openFrame home bindings)).2 with ⟨r, j, hdone⟩ | hopen
      · exact .inl ⟨r, j, .closure hbound rfl hdone⟩
      · refine .inr (Pending.call rfl fun k => ?_)
        simp only [Config.call, Config.callClosure, Config.store, hbound]
        obtain ⟨m, below, hbelow, hrun⟩ :=
          Runs.handed (k.pushRestore env) .sequence body (by decide)
        exact GoesOn.of_pushRestore (GoesOn.of_runs hrun (hbelow ▸ hopen _ below))

theorem Progresses.callApply (ih : ∀ phrase, Progresses n phrase) (arguments : Value) :
    Progresses (n + 1) (.call .applyToList arguments) := by
  intro env i
  cases hargs : arguments.elements with
  | error tail => exact .inl ⟨_, i, .applyImproper hargs⟩
  | ok args =>
      by_cases hcount : args.length = 2
      · obtain ⟨callee, list, rfl⟩ := List.length_eq_two.mp hcount
        -- only `()` and pairs pass for lists here
        have hlist : list = .nil ∨ (∃ stamp head tail, list = .pair stamp head tail) ∨
            (list ≠ .nil ∧ ∀ stamp head tail, list ≠ .pair stamp head tail) := by
          cases list with
          | nil => exact .inl rfl
          | pair stamp head tail => exact .inr (.inl ⟨stamp, head, tail, rfl⟩)
          | _ => exact .inr (.inr ⟨nofun, nofun⟩)
        rcases or_assoc.mpr hlist with hchain | ⟨hnil, himproper⟩
        · rcases ih (.call callee list) env i with ⟨r, j, hdone⟩ | hopen
          · exact .inl ⟨r, j, .apply hargs hchain hdone⟩
          · refine .inr (Pending.call rfl fun k => ?_)
            simp only [Config.call, Config.applyToList, hargs]
            rcases hchain with rfl | ⟨stamp, head, tail, rfl⟩
            · exact hopen k
            · exact hopen k
        · exact .inl ⟨_, i, .applyNoList hargs hnil himproper⟩
      · exact .inl ⟨_, i, .applyCount hargs hcount⟩

theorem Progresses.call (ih : ∀ phrase, Progresses n phrase) (callee arguments : Value) :
    Progresses (n + 1) (.call callee arguments) := by
  cases callee with
  | primitive p => exact Progresses.callPrimitive ih p arguments
  | closure stamp parameters body home =>
      exact Progresses.callClosure ih stamp parameters body home arguments
  | applyToList => exact Progresses.callApply ih arguments
  | callWithContinuation => exact fun env i => .inr fun k => .inl ⟨0, _, rfl, rfl⟩
  | continuation stamp frames => exact fun env i => .inr fun k => .inl ⟨0, _, rfl, rfl⟩
  | _ => exact fun env i => .inl ⟨_, i, .notCallable rfl⟩

theorem Progresses.await (ih : ∀ phrase, Progresses n phrase) (s : Suspension) :
    Progresses (n + 1) (.await s) := by
  intro env i
  rcases hdone : i.reply s with ⟨fault | v | t, j⟩
  · exact .inl ⟨_, j, .answeredFault hdone⟩
  · exact .inl ⟨_, j, .answered hdone⟩
  · rcases ih (.await t) env j with ⟨r, l, hawaited⟩ | hopen
    · exact .inl ⟨r, l, .answeredAwait hdone hawaited⟩
    · right
      rintro c rfl hshared
      refine GoesOn.step (List.suffix_refl c.stack.frames) ?_
      rw [next, hshared, hdone]
      exact hopen { c with shared := j.shared } rfl rfl

/-- Every phrase has a derivation, or keeps the machine busy for as long as one
likes. -/
theorem progresses (n : Nat) (phrase : Phrase) : Progresses n phrase := by
  induction n generalizing phrase with
  | zero =>
      intro env i
      right
      cases phrase with
      | expression e => exact fun k => .inr ⟨_, rfl⟩
      | sequence expressions => exact fun focus k => .inr ⟨_, rfl⟩
      | operands collected expressions => exact fun frames callee earlier t _ _ => .inr ⟨_, rfl⟩
      | call callee arguments => exact fun k => .inr ⟨_, rfl⟩
      | await suspension => exact fun c _ _ => .inr ⟨_, rfl⟩
  | succ n ih =>
      have hexpression := Progresses.expression ih
      cases phrase with
      | expression e => exact hexpression e
      | sequence expressions => exact Progresses.sequence hexpression expressions
      | operands collected expressions =>
          exact Progresses.operands hexpression collected expressions
      | call callee arguments => exact Progresses.call ih callee arguments
      | await suspension => exact Progresses.await ih suspension

end SchemeMachine
