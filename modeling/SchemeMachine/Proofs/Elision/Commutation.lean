import SchemeMachine.Proofs.Elision.Collapse

/-!
# Collapsed values

Nothing that is asked of a value depends on superfluous frames, and neither does its
text, once it is made from what is shown.  So the functions on values commute with
`collapse`: on collapsed values and a collapsed store they give, collapsed, what they
give on the values themselves when environments are always saved.

`Primitive.perform_collapse` sums this up for the primitives.
-/

namespace SchemeMachine

/-! ## What is asked of values -/

namespace Value

theorem elements_collapse (v : Value) :
    v.collapse.elements = (v.elements.map (·.map collapse)).mapError collapse := by
  cases v with
  | pair stamp head tail =>
      rw [collapse, elements, elements_collapse tail, elements]
      cases tail.elements with
      | error other => rfl
      | ok rest => rfl
  | _ => rfl

theorem elements_collapse_of_ok {v : Value} {items : List Value} (h : v.elements = .ok items) :
    v.collapse.elements = .ok (items.map collapse) := by
  rw [elements_collapse, h]
  rfl

theorem elements_collapse_of_error {v tail : Value} (h : v.elements = .error tail) :
    v.collapse.elements = .error tail.collapse := by
  rw [elements_collapse, h]
  rfl

theorem isBody_collapse (v : Value) : v.collapse.isBody = v.isBody := by
  cases v with
  | pair stamp head tail =>
      rw [collapse, isBody, isBody, length?, length?, elements_collapse]
      cases tail.elements with
      | error other => rfl
      | ok items => rfl
  | _ => rfl

theorem same_collapse (x y : Value) : x.collapse.same y.collapse = x.same y := by
  cases x <;> cases y <;> rfl

theorem equivalent_collapse (x y : Value) : x.collapse.equivalent y.collapse = x.equivalent y := by
  unfold equivalent
  rw [same_collapse]
  cases x with
  | number m => cases y <;> rfl
  | _ => rfl

theorem isTrue_collapse (v : Value) : v.collapse.isTrue = v.isTrue := by
  cases v with
  | bool b => rfl
  | _ => rfl

theorem head_collapse (v : Value) : v.collapse.head = v.head.collapse := by
  cases v <;> rfl

theorem afterSecond_collapse (v : Value) : v.collapse.afterSecond = v.afterSecond.collapse := by
  cases v with
  | pair stamp head tail => cases tail <;> rfl
  | _ => rfl

end Value

/-! ## Texts -/

mutual

/-- Of the store, the text of a value shows the names in its environments. -/
theorem Value.outline_congr {s t : Store} (h : ∀ a, s.environmentText a = t.environmentText a)
    (style : Text.Style) (v : Value) : v.outline s style = v.outline t style := by
  cases v with
  | pair stamp head tail =>
      rw [Value.outline, Value.outline, Value.outline_congr h style head,
        Value.outline_congr h style tail]
  | closure stamp parameters body env =>
      rw [Value.outline, Value.outline, Value.outline_congr h .write parameters,
        Value.outline_congr h .write body, h]
  | continuation stamp frames => rw [Value.outline, Value.outline, Frame.texts_congr h frames]
  | environment a => rw [Value.outline, Value.outline, h]
  | _ => rfl

theorem Frame.texts_congr {s t : Store} (h : ∀ a, s.environmentText a = t.environmentText a)
    (frames : List (FrameKind × Value)) : Frame.texts s frames = Frame.texts t frames := by
  cases frames with
  | nil => rfl
  | cons frame frames =>
      rw [Frame.texts, Frame.texts, Value.outline_congr h .write frame.2,
        Frame.texts_congr h frames]

end

theorem Value.text_collapse (s : Store) (style : Text.Style) (v : Value) :
    v.collapse.text s.collapse style = @Value.text .always s style v :=
  congrArg Text.Outline.text (outline_congr s.environmentText_collapse style v.collapse)

theorem Value.written_collapse (s : Store) (v : Value) :
    v.collapse.written s.collapse = @Value.written .always s v :=
  v.text_collapse s .write

theorem Value.displayed_collapse (s : Store) (v : Value) :
    v.collapse.displayed s.collapse = @Value.displayed .always s v :=
  v.text_collapse s .display

theorem Value.label_collapse (s : Store) (v : Value) :
    v.collapse.label s.collapse = @Value.label .always s v := by
  cases v with
  | number n =>
      cases n with
      | exact k => exact written_collapse s (.number (.exact k))
      | inexact x =>
          cases x with
          | nan => rfl
          | infinite negative => rfl
          | _ => exact written_collapse s (.number (.inexact _))
  | bool b => rfl
  | string text => rfl
  | _ => exact written_collapse s _

theorem Frame.stackText_collapse (s : Store) (frames : List Frame) :
    stackText s.collapse (collapse frames) = @stackText .always s frames :=
  Value.written_collapse s (.continuation 0 frames)

/-! ## Parameters and primitives -/

namespace Parameters

theorem firstFault_collapse (s : Store) (whole v : Value) :
    firstFault s.collapse whole.collapse v.collapse = @firstFault .always s whole v := by
  have hwhole := congrArg (fun text => some (Fault.badParameterList text))
    (Value.written_collapse s whole)
  cases v with
  | pair stamp head tail =>
      have hhead := congrArg (fun text => some (Fault.badParameter text))
        (Value.written_collapse s head)
      cases head with
      | symbol name => exact firstFault_collapse s whole tail
      | _ => exact hhead
  | nil => rfl
  | symbol name => rfl
  | _ => exact hwhole

theorem check_collapse (s : Store) (parameters : Value) :
    check s.collapse parameters.collapse = @check .always s parameters :=
  firstFault_collapse s parameters parameters

theorem bindings_collapse (s : Store) (parameters arguments : Value) :
    bindings s.collapse parameters.collapse arguments.collapse =
      (@bindings .always s parameters arguments).map Store.collapseBindings := by
  have hsurplusParameters := congrArg
    (fun text => (.error (.surplusParameters text) : Except Fault (List (String × Value))))
    (Value.written_collapse s parameters)
  have hsurplusArguments := congrArg
    (fun text => (.error (.surplusArguments text) : Except Fault (List (String × Value))))
    (Value.written_collapse s arguments)
  cases parameters with
  | pair stamp head tail =>
      cases arguments with
      | pair cell argument rest =>
          have hrest := bindings_collapse s tail rest
          cases head with
          | symbol name =>
              simp only [Value.collapse, bindings, hrest]
              cases @bindings .always s tail rest with
              | error fault => rfl
              | ok made => rfl
          | _ => exact hrest
      | _ => cases head <;> exact hsurplusParameters
  | symbol name => rfl
  | _ =>
      cases arguments with
      | nil => rfl
      | _ => exact hsurplusArguments

end Parameters

namespace Value

theorem bothNumbers_collapse (s : Store) (operator : String) (x y : Value) :
    bothNumbers s.collapse operator x.collapse y.collapse =
      @bothNumbers .always s operator x y := by
  have hrefused : (.error (.numberExpected operator (x.collapse.written s.collapse)
      (y.collapse.written s.collapse)) : Except Fault (Number × Number)) =
      .error (.numberExpected operator (@written .always s x) (@written .always s y)) := by
    rw [written_collapse, written_collapse]
  cases x with
  | number m =>
      cases y with
      | number n => rfl
      | _ => exact hrefused
  | _ => exact hrefused

theorem compare_collapse (s : Store) (x y : Value) :
    x.collapse.compare s.collapse y.collapse = @compare .always x s y :=
  congrArg (Except.map _) (bothNumbers_collapse s "compare" x y)

theorem numbersEqual_collapse (s : Store) (x y : Value) :
    x.collapse.numbersEqual s.collapse y.collapse = @numbersEqual .always x s y :=
  congrArg (Except.map _) (bothNumbers_collapse s "=" x y)

theorem arithmetic_collapse (s : Store) (op : Number.Operation) (x y : Value) :
    x.collapse.arithmetic s.collapse op y.collapse =
      (@arithmetic .always x s op y).map collapse := by
  simp only [arithmetic, bothNumbers_collapse]
  cases @bothNumbers .always s (operationSign op) x y with
  | error fault => rfl
  | ok numbers =>
      dsimp only
      cases op.apply? numbers.1 numbers.2 with
      | none => rfl
      | some result => rfl

end Value

/-- What is asked of the host, collapsed. -/
def Suspension.collapse : Suspension → Suspension
  | .awaiting request => .awaiting request
  | .yielding v => .yielding v.collapse

/-- What a primitive gives, collapsed. -/
def Reply.collapse : Reply → Reply
  | .value v => .value v.collapse
  | .suspend suspension => .suspend suspension.collapse

namespace Shared

/-- A reply with the state it leaves, both collapsed. -/
def collapseReply (given : Except Fault Reply × Shared) : Except Fault Reply × Shared :=
  (given.1.map Reply.collapse, given.2.collapse)

theorem takeAnswer_collapse (sh : Shared) (given : Except Fault InputBuffer.Answer × InputBuffer) :
    sh.collapse.takeAnswer given = collapseReply (sh.takeAnswer given) := by
  obtain ⟨fault | answer, buffer⟩ := given
  · rfl
  · cases answer with
    | datum d =>
        simp only [takeAnswer, collapse, onStore, Store.collapse_place]
        rfl
    | awaiting request => rfl
    | endOfFile => rfl

theorem read_collapse (freshPrompt openPrompt : String) (sh : Shared) :
    sh.collapse.read freshPrompt openPrompt = collapseReply (sh.read freshPrompt openPrompt) :=
  takeAnswer_collapse sh _

theorem resume_collapse (suspension : Suspension) (answer : Option String) (sh : Shared) :
    sh.collapse.resume suspension.collapse answer =
      collapseReply (sh.resume suspension answer) := by
  cases suspension with
  | awaiting request => exact takeAnswer_collapse sh _
  | yielding v => rfl

end Shared

namespace Primitive

theorem answer_collapse (sh : Shared) {given collapsed : Except Fault Value}
    (h : collapsed = given.map Value.collapse) :
    answer sh.collapse collapsed = Shared.collapseReply (answer sh given) := by
  subst h
  cases given with
  | error fault => rfl
  | ok v => rfl

theorem answerBool_collapse (sh : Shared) {b collapsed : Bool} (h : collapsed = b) :
    answerBool sh.collapse collapsed = Shared.collapseReply (answerBool sh b) := by
  subst h
  rfl

theorem emit_collapse (sh : Shared) {text collapsed : String} (h : collapsed = text) :
    emit sh.collapse collapsed = Shared.collapseReply (emit sh text) := by
  subst h
  rfl

theorem answerNew_collapse (sh : Shared) {make collapsed : Store → Value × Store}
    (h : ∀ s : Store, collapsed s.collapse = ((make s).1.collapse, (make s).2.collapse)) :
    answerNew sh.collapse collapsed = Shared.collapseReply (answerNew sh make) := by
  simp only [answerNew, Shared.onStore, Shared.collapse, h]
  rfl

theorem part_collapse (p : Primitive) (s : Store) {select : Value → Value → Value}
    (hselect : ∀ head tail, select head.collapse tail.collapse = (select head tail).collapse)
    (v : Value) :
    part p s.collapse select v.collapse = (@part .always p s select v).map Value.collapse := by
  have hrefused := congrArg
    (fun text => (.error (.pairExpected p.name text) : Except Fault Value))
    (Value.written_collapse s v)
  cases v with
  | pair stamp head tail => exact congrArg Except.ok (hselect head tail)
  | _ => exact hrefused

theorem arityFault_collapse (p : Primitive) (s : Store) (count : Nat) (arguments : Value) :
    p.arityFault s.collapse count arguments.collapse = @arityFault .always p s count arguments := by
  simp only [arityFault, Value.written_collapse]

theorem perform_collapse (p : Primitive) (arguments : Value) (args : List Value) (sh : Shared) :
    p.perform arguments.collapse (args.map Value.collapse) sh.collapse =
      Shared.collapseReply (@perform .always p arguments args sh) := by
  have hrefused : (.error (p.arityFault sh.collapse.store (args.map Value.collapse).length
      arguments.collapse), sh.collapse) = Shared.collapseReply
        (.error (@arityFault .always p sh.store args.length arguments), sh) := by
    rw [List.length_map]
    exact congrArg (fun fault => (Except.error fault, sh.collapse)) (arityFault_collapse p _ _ _)
  have hlist : answerNew sh.collapse (Store.newList (args.map Value.collapse)) =
      Shared.collapseReply (answerNew sh (Store.newList args)) :=
    answerNew_collapse sh fun s => s.collapse_newList args
  rcases args with _ | ⟨x, _ | ⟨y, _ | ⟨z, rest⟩⟩⟩
  · cases p with
    | newline => exact emit_collapse sh rfl
    | read => exact Shared.read_collapse "" "" sh
    | globals =>
        have hbound := sh.store.collapse_bound Store.global
        exact answerNew_collapse sh fun s => by rw [Shared.collapse, hbound, Store.collapse_newList]
    | list => exact hlist
    | _ => exact hrefused
  · cases p with
    | car => exact answer_collapse sh (part_collapse car sh.store (by exact fun _ _ => rfl) x)
    | cdr => exact answer_collapse sh (part_collapse cdr sh.store (by exact fun _ _ => rfl) x)
    | isPair => cases x <;> rfl
    | isNull => cases x <;> rfl
    | not => exact answerBool_collapse sh (congrArg (!·) x.isTrue_collapse)
    | list => exact hlist
    | display => exact emit_collapse sh (x.displayed_collapse sh.store)
    | isEofObject => cases x <;> rfl
    | isSymbol => cases x <;> rfl
    | isNumber => cases x <;> rfl
    | _ => exact hrefused
  · cases p with
    | cons => exact answerNew_collapse sh fun s => s.collapse_newPair x y
    | eq => exact answerBool_collapse sh (x.same_collapse y)
    | eqv => exact answerBool_collapse sh (x.equivalent_collapse y)
    | list => exact hlist
    | add => exact answer_collapse sh (Value.arithmetic_collapse sh.store .add x y)
    | subtract => exact answer_collapse sh (Value.arithmetic_collapse sh.store .subtract x y)
    | multiply => exact answer_collapse sh (Value.arithmetic_collapse sh.store .multiply x y)
    | less =>
        refine answer_collapse sh ?_
        rw [Shared.collapse, Value.compare_collapse]
        cases @Value.compare .always x sh.store y <;> rfl
    | equal =>
        refine answer_collapse sh ?_
        rw [Shared.collapse, Value.numbersEqual_collapse]
        cases @Value.numbersEqual .always x sh.store y <;> rfl
    | error =>
        have hx := x.written_collapse sh.store
        have hshown := x.displayed_collapse sh.store
        have hy := y.written_collapse sh.store
        simp only [perform, List.map_cons, List.map_nil, Shared.collapse, hx, hshown, hy]
        rfl
    | _ => exact hrefused
  · cases p with
    | list => exact hlist
    | _ => exact hrefused

end Primitive

end SchemeMachine
