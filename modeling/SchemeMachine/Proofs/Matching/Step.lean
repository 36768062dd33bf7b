import SchemeMachine.Proofs.Form
import SchemeMachine.Proofs.Matching.Primitives

/-!
# Steps up to a matching

Configurations that are alike take steps that are alike, for a match that has grown by the
nodes and objects that the step makes: `Config.Alike.step`.  This goes through the machine
function by function.
-/

namespace SchemeMachine

variable {μ μ' : Match}

/-! ## Configurations -/

/-- The stacks have frames that are alike, and have been as high. -/
structure Stack.Alike (μ : Match) (k k' : Stack) : Prop where
  frames : Frame.Alike μ k.frames k'.frames
  peak : k'.peak = k.peak

/-- The machine is doing the same. -/
inductive Focus.Alike (μ : Match) : Focus → Focus → Prop
  | reduce {e e' : Value} (h : e.Alike μ e') : Focus.Alike μ (.reduce e) (.reduce e')
  | drain {v w : Value} (h : v.Alike μ w) : Focus.Alike μ (.drain v) (.drain w)
  | call {callee callee' arguments arguments' : Value} (hcallee : callee.Alike μ callee')
      (harguments : arguments.Alike μ arguments') :
      Focus.Alike μ (.call callee arguments) (.call callee' arguments')

theorem Focus.Alike.mono (hle : μ ≤ μ') {focus focus' : Focus} (h : focus.Alike μ focus') :
    focus.Alike μ' focus' := by
  cases h with
  | reduce h => exact .reduce (h.mono hle)
  | drain h => exact .drain (h.mono hle)
  | call hcallee harguments => exact .call (hcallee.mono hle) (harguments.mono hle)

/-- The configurations differ in the addresses and stamps that are paired off. -/
structure Config.Alike (μ : Match) (c d : Config) : Prop where
  focus : c.focus.Alike μ d.focus
  env : μ.nodes.rel c.env d.env
  stack : c.stack.Alike μ d.stack
  shared : c.shared.Alike μ d.shared

/-- The machine has come to the same. -/
inductive Transition.Alike (μ : Match) : Transition → Transition → Prop
  | running {c d : Config} (h : c.Alike μ d) : Transition.Alike μ (.running c) (.running d)
  | finished {v w : Value} {c d : Config} (hv : v.Alike μ w) (h : c.Alike μ d) :
      Transition.Alike μ (.finished v c) (.finished w d)
  | suspended {suspension suspension' : Suspension} {c d : Config}
      (hsuspension : suspension.Alike μ suspension') (h : c.Alike μ d) :
      Transition.Alike μ (.suspended suspension c) (.suspended suspension' d)
  | failed (fault : Fault) {c d : Config} (h : c.Alike μ d) :
      Transition.Alike μ (.failed fault c) (.failed fault d)

/-- Both sides have come to the same, for a match that has grown. -/
def Match.Leads (μ : Match) (x y : Transition) : Prop :=
  ∃ μ', μ.Grows μ' ∧ x.Alike μ' y

theorem Match.Leads.of_grows {x y : Transition} (hgrows : μ.Grows μ') (h : μ'.Leads x y) :
    μ.Leads x y := by
  obtain ⟨μ'', hgrows', h⟩ := h
  exact ⟨μ'', hgrows.trans hgrows', h⟩

namespace Stack.Alike

variable {k k' : Stack}

theorem mono (hle : μ ≤ μ') (h : k.Alike μ k') : k.Alike μ' k' :=
  ⟨h.frames.mono hle, h.peak⟩

theorem depth_eq (h : k.Alike μ k') : k'.depth = k.depth := by
  rw [k'.depth_eq, k.depth_eq, h.frames.length_eq]

theorem push (h : k.Alike μ k') (kind : FrameKind) {v w : Value} (hv : v.Alike μ w) :
    (k.push kind v).Alike μ (k'.push kind w) := by
  refine ⟨.cons hv h.frames, ?_⟩
  show max k'.peak (k'.depth + 1) = max k.peak (k.depth + 1)
  rw [h.peak, h.depth_eq]

theorem top?_eq (h : k.Alike μ k') : k'.top? = k.top? := by
  have hframes := h.frames
  rw [Stack.top?, Stack.top?]
  generalize k.frames = frames, k'.frames = frames' at hframes
  cases hframes with
  | nil => rfl
  | cons _ _ => rfl

theorem pushRestore (h : k.Alike μ k') {env env' : Addr} (henv : μ.nodes.rel env env') :
    (k.pushRestore env).Alike μ (k'.pushRestore env') := by
  rw [Stack.pushRestore, Stack.pushRestore, h.top?_eq]
  split
  · exact h
  · exact h.push .restore (.environment henv)

theorem reinstate (h : k.Alike μ k') {frames frames' : List Frame}
    (hframes : Frame.Alike μ frames frames') :
    (k.reinstate frames).Alike μ (k'.reinstate frames') := by
  refine ⟨hframes, ?_⟩
  show max k'.peak frames'.length = max k.peak frames.length
  rw [h.peak, hframes.length_eq]

/-- Both stacks are empty, or both have a top frame. -/
theorem pop? (h : k.Alike μ k') :
    (k.pop? = none ∧ k'.pop? = none) ∨
      ∃ kind v w below below', k.pop? = some ((kind, v), below) ∧
        k'.pop? = some ((kind, w), below') ∧ v.Alike μ w ∧ below.Alike μ below' := by
  obtain ⟨frames, depth, peak, hdepth⟩ := k
  obtain ⟨frames', depth', peak', hdepth'⟩ := k'
  obtain ⟨hframes, hpeak⟩ := h
  cases hframes with
  | nil => exact .inl ⟨rfl, rfl⟩
  | cons hv hframes => exact .inr ⟨_, _, _, _, _, rfl, rfl, hv, hframes, hpeak⟩

end Stack.Alike

namespace Config.Alike

variable {c d : Config}

theorem store (h : c.Alike μ d) : c.store.Alike μ d.store :=
  h.shared.store

theorem withFocus (h : c.Alike μ d) {focus focus' : Focus} (hfocus : focus.Alike μ focus') :
    Config.Alike μ { c with focus := focus } { d with focus := focus' } :=
  ⟨hfocus, h.env, h.stack, h.shared⟩

theorem withStack (h : c.Alike μ d) {k k' : Stack} (hstack : k.Alike μ k') :
    Config.Alike μ { c with stack := k } { d with stack := k' } :=
  ⟨h.focus, h.env, hstack, h.shared⟩

theorem withEnv (h : c.Alike μ d) {env env' : Addr} (henv : μ.nodes.rel env env') :
    Config.Alike μ { c with env := env } { d with env := env' } :=
  ⟨h.focus, henv, h.stack, h.shared⟩

theorem push (h : c.Alike μ d) (kind : FrameKind) {v w : Value} (hv : v.Alike μ w) :
    (c.push kind v).Alike μ (d.push kind w) :=
  h.withStack (h.stack.push kind hv)

theorem toReduce (h : c.Alike μ d) {e e' : Value} (he : e.Alike μ e') :
    μ.Leads (c.toReduce e) (d.toReduce e') :=
  ⟨μ, .refl μ, .running (h.withFocus (.reduce he))⟩

theorem toDrain (h : c.Alike μ d) {v w : Value} (hv : v.Alike μ w) :
    μ.Leads (c.toDrain v) (d.toDrain w) :=
  ⟨μ, .refl μ, .running (h.withFocus (.drain hv))⟩

theorem toCall (h : c.Alike μ d) {callee callee' arguments arguments' : Value}
    (hcallee : callee.Alike μ callee') (harguments : arguments.Alike μ arguments') :
    μ.Leads (c.toCall callee arguments) (d.toCall callee' arguments') :=
  ⟨μ, .refl μ, .running (h.withFocus (.call hcallee harguments))⟩

theorem failed (h : c.Alike μ d) {fault fault' : Fault} (hfault : fault' = fault) :
    μ.Leads (.failed fault c) (.failed fault' d) := by
  subst hfault
  exact ⟨μ, .refl μ, .failed fault' h⟩

/-- The configurations once what they share has been changed. -/
theorem withShared (h : c.Alike μ d) (hgrows : μ.Grows μ') {sh sh' : Shared}
    (hshared : sh.Alike μ' sh') :
    Config.Alike μ' { c with shared := sh } { d with shared := sh' } :=
  ⟨h.focus.mono hgrows.le, hgrows.le.nodes h.env, h.stack.mono hgrows.le, hshared⟩

theorem onStore (h : c.Alike μ d) {α : Type} {R : Match → α → α → Prop}
    {act act' : Store → α × Store} (hact : μ.Acts R (act c.store) (act' d.store)) :
    ∃ μ', μ.Grows μ' ∧ R μ' (c.onStore act).1 (d.onStore act').1 ∧
      (c.onStore act).2.Alike μ' (d.onStore act').2 := by
  obtain ⟨μ', hgrows, hresult, hshared⟩ := h.shared.onStore hact
  exact ⟨μ', hgrows, hresult, h.withShared hgrows hshared⟩

theorem toNew (h : c.Alike μ d) {make make' : Store → Value × Store}
    (hmade : μ.Acts Value.Alike (make c.store) (make' d.store)) :
    μ.Leads (c.toNew make) (d.toNew make') := by
  obtain ⟨μ', hgrows, hvalue, hconfig⟩ := h.onStore hmade
  exact .of_grows hgrows (hconfig.toDrain hvalue)

theorem changeStore (h : c.Alike μ d) {change change' : Store → Store} (hgrows : μ.Grows μ')
    (hchanged : (change c.store).Alike μ' (change' d.store)) :
    (c.changeStore change).Alike μ' (d.changeStore change') :=
  h.withShared hgrows ⟨hchanged, h.shared.around⟩

theorem replied (h : c.Alike μ d) {given given' : Except Fault Reply × Shared}
    (hgiven : μ.Replies given given') : μ.Leads (c.replied given) (d.replied given') := by
  obtain ⟨given, sh⟩ := given
  obtain ⟨given', sh'⟩ := given'
  obtain ⟨μ', hgrows, hreply, hshared⟩ := hgiven
  have hconfig := h.withShared hgrows hshared
  apply Match.Leads.of_grows hgrows
  cases hreply with
  | failed fault => exact hconfig.failed rfl
  | given hreply =>
      cases hreply with
      | value hv => exact hconfig.toDrain hv
      | suspend hsuspension => exact ⟨μ', .refl μ', .suspended hsuspension hconfig⟩

theorem toSequence (h : c.Alike μ d) {v w : Value} (hv : v.Alike μ w) :
    μ.Leads (c.toSequence v) (d.toSequence w) := by
  cases hv with
  | pair _ he hrest =>
      have hpushed := (h.push .sequence hrest).toReduce he
      cases hrest with
      | nil => exact h.toReduce he
      | _ => exact hpushed
  | _ => exact h.failed rfl

end Config.Alike

/-! ## Forms -/

/-- The forms are the same, with parts that are alike. -/
inductive Form.Alike (μ : Match) : Form → Form → Prop
  | constant {v w : Value} (h : v.Alike μ w) : Form.Alike μ (.constant v) (.constant w)
  | symbol (name : String) : Form.Alike μ (.symbol name) (.symbol name)
  | quotation {v w : Value} (h : v.Alike μ w) : Form.Alike μ (.quotation v) (.quotation w)
  | branch {test test' yes yes' : Value} (htest : test.Alike μ test') (no no' : Option Value) :
      Form.Alike μ (.branch test yes no) (.branch test' yes' no')
  | sequence {v w : Value} (h : v.Alike μ w) : Form.Alike μ (.sequence v) (.sequence w)
  | lambda {parameters parameters' body body' : Value}
      (hparameters : parameters.Alike μ parameters') (hbody : body.Alike μ body') :
      Form.Alike μ (.lambda parameters body) (.lambda parameters' body')
  | procedure {name name' parameters parameters' body body' : Value} (hname : name.Alike μ name')
      (hparameters : parameters.Alike μ parameters') (hbody : body.Alike μ body') :
      Form.Alike μ (.procedure name parameters body) (.procedure name' parameters' body')
  | definition {name name' e e' : Value} (hname : name.Alike μ name') (he : e.Alike μ e') :
      Form.Alike μ (.definition name e) (.definition name' e')
  | assignment {name name' e e' : Value} (hname : name.Alike μ name') (he : e.Alike μ e') :
      Form.Alike μ (.assignment name e) (.assignment name' e')
  | malformed : Form.Alike μ .malformed .malformed
  | application {operator operator' operands operands' : Value}
      (hoperator : operator.Alike μ operator') (hoperands : operands.Alike μ operands') :
      Form.Alike μ (.application operator operands) (.application operator' operands')

theorem Value.Alike.special {v w : Value} (h : v.Alike μ w) (keyword : Keyword) :
    Form.Alike μ (.special keyword v) (.special keyword w) := by
  have hwhole := h
  cases h with
  | pair _ hfirst hrest =>
      cases keyword with
      | quote =>
          cases hrest with
          | nil => exact .quotation hfirst
          | _ => exact .malformed
      | branch =>
          cases hrest with
          | pair _ hyes hno =>
              cases hno with
              | nil => exact .branch hfirst _ _
              | pair _ _ hnone =>
                  cases hnone with
                  | nil => exact .branch hfirst _ _
                  | _ => exact .malformed
              | _ => exact .malformed
          | _ => exact .malformed
      | sequence => exact .sequence hwhole
      | lambda =>
          simp only [Form.special, hrest.isBody]
          split
          · exact .lambda hfirst hrest
          · exact .malformed
      | define =>
          have hkept := hfirst
          cases hfirst with
          | pair _ hname hparameters =>
              simp only [Form.special, hrest.isBody]
              split
              · exact .procedure hname hparameters hrest
              · exact .malformed
          | _ =>
              cases hrest with
              | pair _ he hnone =>
                  cases hnone with
                  | nil => exact .definition hkept he
                  | _ => exact .malformed
              | _ => exact .malformed
      | assign =>
          cases hrest with
          | pair _ he hnone =>
              cases hnone with
              | nil => exact .assignment hfirst he
              | _ => exact .malformed
          | _ => exact .malformed
  | _ =>
      cases keyword with
      | sequence => exact .sequence hwhole
      | _ => exact .malformed

theorem Value.Alike.form {v w : Value} (h : v.Alike μ w) : Form.Alike μ (.of v) (.of w) := by
  cases h with
  | symbol name => exact .symbol name
  | pair _ hhead htail =>
      rw [Form.of, Form.of, hhead.keyword]
      split
      · exact htail.special _
      · exact .application hhead htail
  | nil => exact .constant .nil
  | bool b => exact .constant (.bool b)
  | number n => exact .constant (.number n)
  | string text => exact .constant (.string text)
  | closure hstamp hparameters hbody henv =>
      exact .constant (.closure hstamp hparameters hbody henv)
  | primitive p => exact .constant (.primitive p)
  | continuation hstamp hframes => exact .constant (.continuation hstamp hframes)
  | environment hnode => exact .constant (.environment hnode)
  | void => exact .constant .void
  | eof => exact .constant .eof
  | callWithContinuation => exact .constant .callWithContinuation
  | applyToList => exact .constant .applyToList

theorem Value.Alike.head {v w : Value} (h : v.Alike μ w) : v.head.Alike μ w.head := by
  have hwhole := h
  cases h with
  | pair _ hhead _ => exact hhead
  | _ => exact hwhole

theorem Value.Alike.afterSecond {v w : Value} (h : v.Alike μ w) :
    v.afterSecond.Alike μ w.afterSecond := by
  have hwhole := h
  cases h with
  | pair _ _ htail =>
      cases htail with
      | pair _ _ hrest => exact hrest
      | _ => exact hwhole
  | _ => exact hwhole

namespace Config.Alike

variable {c d : Config}

/-! ## Reducing an expression -/

theorem notASymbol (h : c.Alike μ d) {form form' found found' : Value}
    (hform : form.Alike μ form') (hfound : found.Alike μ found') :
    μ.Leads (c.notASymbol form found) (d.notASymbol form' found') := by
  apply h.failed
  rw [hform.written h.store, hfound.written h.store]

theorem reduceLambda (h : c.Alike μ d) {parameters parameters' body body' : Value}
    (hparameters : parameters.Alike μ parameters') (hbody : body.Alike μ body') :
    μ.Leads (c.reduceLambda parameters body) (d.reduceLambda parameters' body') := by
  rw [Config.reduceLambda, Config.reduceLambda, Parameters.check_alike h.store hparameters]
  split
  · exact h.failed rfl
  · exact h.toNew (h.store.newClosure hparameters hbody h.env)

theorem reduceDefineProcedure (h : c.Alike μ d)
    {form form' name name' parameters parameters' body body' : Value} (hform : form.Alike μ form')
    (hname : name.Alike μ name') (hparameters : parameters.Alike μ parameters')
    (hbody : body.Alike μ body') :
    μ.Leads (c.reduceDefineProcedure form name parameters body)
      (d.reduceDefineProcedure form' name' parameters' body') := by
  have hrefused := h.notASymbol hform hname
  unfold Config.reduceDefineProcedure
  rw [Parameters.check_alike h.store hparameters]
  split
  · exact h.failed rfl
  · cases hname with
    | symbol n =>
        exact (h.push .define (.symbol n)).toNew (h.store.newClosure hparameters hbody h.env)
    | _ => exact hrefused

theorem reduceDefine (h : c.Alike μ d) {form form' name name' e e' : Value}
    (hform : form.Alike μ form') (hname : name.Alike μ name') (he : e.Alike μ e') :
    μ.Leads (c.reduceDefine form name e) (d.reduceDefine form' name' e') := by
  have hrefused := h.notASymbol hform hname
  cases hname with
  | symbol n => exact (h.push .define (.symbol n)).toReduce he
  | _ => exact hrefused

theorem reduceAssign (h : c.Alike μ d) {form form' name name' e e' : Value}
    (hform : form.Alike μ form') (hname : name.Alike μ name') (he : e.Alike μ e') :
    μ.Leads (c.reduceAssign form name e) (d.reduceAssign form' name' e') := by
  have hrefused := h.notASymbol hform hname
  cases hname with
  | symbol n =>
      have hfound := h.store.find? h.env n
      rw [Config.reduceAssign, Config.reduceAssign]
      generalize c.store.find? n c.env = found, d.store.find? n d.env = found' at hfound
      cases hfound with
      | none => exact h.failed rfl
      | some hfound => exact (h.push .assign (.environment hfound.1)).toReduce he
  | _ => exact hrefused

theorem reduceAs (h : c.Alike μ d) {e e' : Value} (he : e.Alike μ e') {form form' : Form}
    (hform : form.Alike μ form') : μ.Leads (c.reduceAs e form) (d.reduceAs e' form') := by
  cases hform with
  | constant hv => exact h.toDrain hv
  | symbol name =>
      have hfound := h.store.find? h.env name
      rw [Config.reduceAs, Config.reduceAs]
      generalize c.store.find? name c.env = found, d.store.find? name d.env = found' at hfound
      cases hfound with
      | none => exact h.failed rfl
      | some hfound => exact h.toDrain hfound.2
  | quotation hv => exact h.toDrain hv
  | branch htest no no' => exact (h.push .choose he.afterSecond).toReduce htest
  | sequence hv =>
      have hsome := h.toSequence hv
      cases hv with
      | nil => exact h.toDrain .void
      | _ => exact hsome
  | lambda hparameters hbody => exact h.reduceLambda hparameters hbody
  | procedure hname hparameters hbody => exact h.reduceDefineProcedure he hname hparameters hbody
  | definition hname hvalue => exact h.reduceDefine he hname hvalue
  | assignment hname hvalue => exact h.reduceAssign he hname hvalue
  | malformed =>
      apply h.failed
      rw [he.head.written h.store, he.written h.store]
  | application hoperator hoperands => exact (h.push .operands hoperands).toReduce hoperator

theorem reduce (h : c.Alike μ d) {e e' : Value} (he : e.Alike μ e') :
    μ.Leads (c.reduce e) (d.reduce e') := by
  rw [reduce_eq, reduce_eq]
  exact h.reduceAs he he.form

/-! ## Handing a value to a frame -/

theorem resumeChoose (h : c.Alike μ d) {v w arms arms' : Value} (hv : v.Alike μ w)
    (harms : arms.Alike μ arms') : μ.Leads (c.resumeChoose v arms) (d.resumeChoose w arms') := by
  unfold Config.resumeChoose
  rw [hv.isTrue]
  cases harms with
  | pair _ hyes hrest =>
      split
      · exact h.toReduce hyes
      · cases hrest with
        | nil => exact h.toDrain .void
        | pair _ hno _ => exact h.toReduce hno
        | _ => exact h.failed rfl
  | _ => split <;> exact h.failed rfl

theorem improperList (h : c.Alike μ d) {v w : Value} (hv : v.Alike μ w) :
    μ.Leads (.failed (.improperList (v.written c.store)) c)
      (.failed (.improperList (w.written d.store)) d) :=
  h.failed (congrArg Fault.improperList (hv.written h.store))

theorem pushOperands (h : c.Alike μ d) {operands operands' : List Value}
    (hoperands : Value.ListAlike μ operands operands') :
    (c.pushOperands operands).Alike μ (d.pushOperands operands') := by
  induction hoperands with
  | nil => exact h
  | cons hv _ ih => exact ih.push .operand hv

theorem resumeOperands (h : c.Alike μ d) {callee callee' operands operands' : Value}
    (hcallee : callee.Alike μ callee') (hoperands : operands.Alike μ operands') :
    μ.Leads (c.resumeOperands callee operands) (d.resumeOperands callee' operands') := by
  have hrefused := h.improperList hoperands
  cases hoperands with
  | nil => exact h.toCall hcallee .nil
  | @pair _ _ first rest _ _ _ hfirst hrest =>
      cases hothers : rest.elements with
      | error tail =>
          obtain ⟨tail', htail', htail⟩ := hrest.elements_error hothers
          simp only [Config.resumeOperands, hothers, htail']
          exact h.improperList htail
      | ok others =>
          obtain ⟨others', hothers', hall⟩ := hrest.elements_ok hothers
          simp only [Config.resumeOperands, hothers, hothers']
          exact (((h.push .operator hcallee).pushOperands hall).push .collect .nil).toReduce hfirst
  | _ => exact hrefused

theorem callCollected (h : c.Alike μ d) {callee callee' collected collected' : Value}
    (hcallee : callee.Alike μ callee') (hcollected : collected.Alike μ collected') :
    μ.Leads (c.callCollected callee collected) (d.callCollected callee' collected') := by
  cases harguments : collected.elements with
  | error tail =>
      obtain ⟨tail', htail', htail⟩ := hcollected.elements_error harguments
      simp only [Config.callCollected, harguments, htail']
      exact h.improperList htail
  | ok arguments =>
      obtain ⟨arguments', harguments', hall⟩ := hcollected.elements_ok harguments
      simp only [Config.callCollected, harguments, harguments']
      obtain ⟨μ', hgrows, hlist, hconfig⟩ := h.onStore (h.store.newList (List.rel_reverse hall))
      exact .of_grows hgrows (hconfig.toCall (hcallee.mono hgrows.le) hlist)

theorem resumeCollect (h : c.Alike μ d) {v w earlier earlier' : Value} (hv : v.Alike μ w)
    (hearlier : earlier.Alike μ earlier') :
    μ.Leads (c.resumeCollect v earlier) (d.resumeCollect w earlier') := by
  obtain ⟨μ', hgrows, hcollected, hconfig⟩ := h.onStore (h.store.newPair hv hearlier)
  apply Match.Leads.of_grows hgrows
  simp only [Config.resumeCollect]
  rcases hconfig.stack.pop? with ⟨hnone, hnone'⟩ |
    ⟨kind, payload, payload', below, below', hsome, hsome', hpayload, hbelow⟩
  · rw [hnone, hnone']
    exact hconfig.failed rfl
  · rw [hsome, hsome']
    have hpopped := hconfig.withStack hbelow
    cases kind with
    | operand => exact (hpopped.push .collect hcollected).toReduce hpayload
    | operator => exact hpopped.callCollected hpayload hcollected
    | _ => exact hpopped.failed rfl

theorem resumeFrame (h : c.Alike μ d) (kind : FrameKind) {payload payload' v w : Value}
    (hpayload : payload.Alike μ payload') (hv : v.Alike μ w) :
    μ.Leads (c.resumeFrame kind payload v) (d.resumeFrame kind payload' w) := by
  cases kind with
  | choose => exact h.resumeChoose hv hpayload
  | sequence => exact h.toSequence hpayload
  | define =>
      have hinserted {entry entry' : Entry} (hentry : entry.Alike μ entry') :
          μ.Leads ((c.changeStore (Store.insertAfter c.env entry)).toDrain .void)
            ((d.changeStore (Store.insertAfter d.env entry')).toDrain .void) :=
        .of_grows μ.grows_withNode
          ((h.changeStore μ.grows_withNode (h.store.insertAfter h.env hentry)).toDrain .void)
      have hentry : Entry.Alike μ (.keyed (payload.label c.store) payload v)
          (.keyed (payload'.label d.store) payload' w) := by
        rw [hpayload.label h.store]
        exact .keyed _ hpayload hv
      have hkeyed := hinserted hentry
      cases hpayload with
      | symbol name => exact hinserted (.binding name hv)
      | _ => exact hkeyed
  | assign =>
      cases hpayload with
      | environment hnode =>
          exact (h.changeStore (.refl μ) (h.store.assign hnode hv)).toDrain .void
      | _ => exact h.failed rfl
  | operands => exact h.resumeOperands hv hpayload
  | operator => exact h.failed rfl
  | operand => exact h.failed rfl
  | collect => exact h.resumeCollect hv hpayload
  | restore =>
      cases hpayload with
      | environment hnode => exact (h.withEnv hnode).toDrain hv
      | _ => exact h.failed rfl

theorem drain (h : c.Alike μ d) {v w : Value} (hv : v.Alike μ w) :
    μ.Leads (c.drain v) (d.drain w) := by
  rw [Config.drain, Config.drain]
  rcases h.stack.pop? with ⟨hnone, hnone'⟩ |
    ⟨kind, payload, payload', below, below', hsome, hsome', hpayload, hbelow⟩
  · rw [hnone, hnone']
    exact ⟨μ, .refl μ, .finished hv h⟩
  · rw [hsome, hsome']
    exact (h.withStack hbelow).resumeFrame kind hpayload hv

/-! ## Calling a procedure -/

theorem wrongCount (h : c.Alike μ d) (callee : String) (expected : Nat) {count count' : Nat}
    (hcount : count = count') {arguments arguments' : Value}
    (harguments : arguments.Alike μ arguments') :
    μ.Leads (c.wrongCount callee expected count arguments)
      (d.wrongCount callee expected count' arguments') := by
  apply h.failed
  rw [harguments.written h.store, hcount]

theorem callWithContinuation (h : c.Alike μ d) {arguments arguments' : Value}
    (harguments : arguments.Alike μ arguments') :
    μ.Leads (c.callWithContinuation arguments) (d.callWithContinuation arguments') := by
  unfold Config.callWithContinuation
  cases hargs : arguments.elements with
  | error tail =>
      obtain ⟨tail', htail', htail⟩ := harguments.elements_error hargs
      rw [htail']
      exact h.improperList htail
  | ok args =>
      obtain ⟨args', hargs', hall⟩ := harguments.elements_ok hargs
      rw [hargs']
      cases hall with
      | nil => exact h.wrongCount _ _ rfl harguments
      | cons hcallee hrest =>
          cases hrest with
          | nil =>
              have hsaved := h.withStack (h.stack.pushRestore h.env)
              obtain ⟨μ₁, hgrows₁, hk, hmade⟩ :=
                hsaved.onStore (hsaved.store.newContinuation hsaved.stack.frames)
              obtain ⟨μ₂, hgrows₂, hlist, hdone⟩ := hmade.onStore (hmade.store.newPair hk .nil)
              have hgrows := hgrows₁.trans hgrows₂
              exact .of_grows hgrows (hdone.toCall (hcallee.mono hgrows.le) hlist)
          | cons _ hrest =>
              exact h.wrongCount _ _ (congrArg (· + 2) hrest.length_eq) harguments

theorem applyToList (h : c.Alike μ d) {arguments arguments' : Value}
    (harguments : arguments.Alike μ arguments') :
    μ.Leads (c.applyToList arguments) (d.applyToList arguments') := by
  unfold Config.applyToList
  cases hargs : arguments.elements with
  | error tail =>
      obtain ⟨tail', htail', htail⟩ := harguments.elements_error hargs
      rw [htail']
      exact h.improperList htail
  | ok args =>
      obtain ⟨args', hargs', hall⟩ := harguments.elements_ok hargs
      rw [hargs']
      cases hall with
      | nil => exact h.wrongCount _ _ rfl harguments
      | cons hcallee hrest =>
          cases hrest with
          | nil => exact h.wrongCount _ _ rfl harguments
          | cons hlist hrest =>
              cases hrest with
              | nil =>
                  have hcalled := h.toCall hcallee hlist
                  have hrefused := h.failed (congrArg Fault.listExpected (hlist.written h.store))
                  cases hlist with
                  | nil => exact hcalled
                  | pair _ _ _ => exact hcalled
                  | _ => exact hrefused
              | cons _ hrest =>
                  exact h.wrongCount _ _ (congrArg (· + 3) hrest.length_eq) harguments

theorem callPrimitive (h : c.Alike μ d) (p : Primitive) {arguments arguments' : Value}
    (harguments : arguments.Alike μ arguments') :
    μ.Leads (c.callPrimitive p arguments) (d.callPrimitive p arguments') := by
  unfold Config.callPrimitive
  cases hargs : arguments.elements with
  | error tail =>
      obtain ⟨tail', htail', htail⟩ := harguments.elements_error hargs
      rw [htail']
      exact h.improperList htail
  | ok args =>
      obtain ⟨args', hargs', hall⟩ := harguments.elements_ok hargs
      rw [hargs']
      exact h.replied (h.shared.perform p harguments hall)

theorem callClosure (h : c.Alike μ d) {parameters parameters' body body' : Value}
    (hparameters : parameters.Alike μ parameters') (hbody : body.Alike μ body') {env env' : Addr}
    (henv : μ.nodes.rel env env') {arguments arguments' : Value}
    (harguments : arguments.Alike μ arguments') :
    μ.Leads (c.callClosure parameters body env arguments)
      (d.callClosure parameters' body' env' arguments') := by
  have hpushed := h.withStack ((h.stack.pushRestore h.env).push .sequence hbody)
  have hbindings := Parameters.bindings_alike hpushed.store hparameters harguments
  simp only [Config.callClosure, Saving.save_eliding]
  generalize Parameters.bindings _ parameters arguments = made,
    Parameters.bindings _ parameters' arguments' = made' at hbindings
  cases hbindings with
  | failed fault => exact hpushed.failed rfl
  | given hmade =>
      obtain ⟨μ', hgrows, hframe, hopened⟩ :=
        hpushed.onStore (hpushed.store.openFrame henv hmade)
      exact .of_grows hgrows ((hopened.withEnv hframe).toDrain .void)

theorem call (h : c.Alike μ d) {callee callee' arguments arguments' : Value}
    (hcallee : callee.Alike μ callee') (harguments : arguments.Alike μ arguments') :
    μ.Leads (c.call callee arguments) (d.call callee' arguments') := by
  have hrefused : μ.Leads
      (.failed (.notCallable (callee.written c.store) (arguments.written c.store)) c)
      (.failed (.notCallable (callee'.written d.store) (arguments'.written d.store)) d) := by
    apply h.failed
    rw [hcallee.written h.store, harguments.written h.store]
  cases hcallee with
  | callWithContinuation => exact h.callWithContinuation harguments
  | applyToList => exact h.applyToList harguments
  | primitive p => exact h.callPrimitive p harguments
  | closure _ hparameters hbody henv => exact h.callClosure hparameters hbody henv harguments
  | continuation _ hframes =>
      exact (h.withStack (h.stack.reinstate hframes)).toDrain harguments.passedValue
  | _ => exact hrefused

/-! ## A step -/

/-- Configurations that are alike take steps that are alike. -/
theorem step (h : c.Alike μ d) : μ.Leads c.step d.step := by
  have hfocus := h.focus
  rw [Config.step, Config.step]
  generalize c.focus = focus, d.focus = focus' at hfocus
  cases hfocus with
  | reduce he => exact h.reduce he
  | drain hv => exact h.drain hv
  | call hcallee harguments => exact h.call hcallee harguments

theorem resume (h : c.Alike μ d) {suspension suspension' : Suspension}
    (hsuspension : suspension.Alike μ suspension') (answer : Option String) :
    μ.Leads (Config.resume suspension answer c) (Config.resume suspension' answer d) :=
  h.replied (h.shared.resume hsuspension answer)

theorem failure (h : c.Alike μ d) (fault : Fault) : d.failure fault = c.failure fault := by
  have htext := h.stack.frames.stackText h.store
  have hempty : d.stack.frames.isEmpty = c.stack.frames.isEmpty := by
    have hframes := h.stack.frames
    generalize c.stack.frames = frames, d.stack.frames = frames' at hframes
    cases hframes with
    | nil => rfl
    | cons _ _ => rfl
  rw [Config.failure, Config.failure, htext, hempty]

end Config.Alike

end SchemeMachine
