import SchemeMachine.Proofs.Matching.Stores
import SchemeMachine.Proofs.Surroundings

/-!
# Primitives up to a matching

Applied to arguments that are alike, a primitive fails with the same fault on both sides or
gives replies that are alike: `Shared.Alike.perform`.  No primitive looks at an address or a
stamp except to compare it with another one.

Beside the stores nothing may differ here: both sides have the same input, output and journal.
-/

namespace SchemeMachine

variable {μ μ' : Match}

/-! ## Results that may be faults -/

/-- Both sides fail with the same fault, or give what `R` relates. -/
inductive Fault.Agree {α : Type} (R : α → α → Prop) : Except Fault α → Except Fault α → Prop
  | failed (fault : Fault) : Agree R (.error fault) (.error fault)
  | given {x y : α} (h : R x y) : Agree R (.ok x) (.ok y)

section

variable {s t : Store}

theorem Parameters.firstFault_alike (hs : s.Alike μ t) {whole whole' v w : Value}
    (hwhole : whole.Alike μ whole') (h : v.Alike μ w) :
    firstFault t whole' w = firstFault s whole v := by
  have hrefused := congrArg (fun text => some (Fault.badParameterList text)) (hwhole.written hs)
  cases v with
  | pair i head tail =>
      cases h with
      | pair _ hhead htail =>
          have hbad := congrArg (fun text => some (Fault.badParameter text)) (hhead.written hs)
          have hrest := Parameters.firstFault_alike hs hwhole htail
          cases hhead with
          | symbol name => exact hrest
          | _ => exact hbad
  | nil =>
      cases h
      rfl
  | symbol name =>
      cases h
      rfl
  | _ =>
      cases h
      exact hrefused

theorem Parameters.check_alike (hs : s.Alike μ t) {v w : Value} (h : v.Alike μ w) :
    check t w = check s v :=
  firstFault_alike hs h h

theorem Parameters.bindings_alike (hs : s.Alike μ t) {v w arguments arguments' : Value}
    (h : v.Alike μ w) (harguments : arguments.Alike μ arguments') :
    Fault.Agree μ.Bindings (bindings s v arguments) (bindings t w arguments') := by
  have hparameters := h.written hs
  have hsurplus := harguments.written hs
  cases v with
  | pair i head tail =>
      cases h with
      | pair hstamp hhead htail =>
          cases harguments with
          | pair _ hargument hrest =>
              have hrec := Parameters.bindings_alike hs htail hrest
              cases hhead with
              | symbol name =>
                  rw [bindings, bindings]
                  generalize bindings s tail _ = made, bindings t _ _ = made' at hrec
                  cases hrec with
                  | failed fault => exact .failed fault
                  | given hmade => exact .given (.cons ⟨rfl, hargument⟩ hmade)
              | _ => exact hrec
          | _ =>
              simp only [bindings, hparameters]
              exact .failed _
  | symbol name =>
      cases h
      exact .given (.cons ⟨rfl, harguments⟩ .nil)
  | _ =>
      cases h
      cases harguments with
      | nil => exact .given .nil
      | _ =>
          simp only [bindings, hsurplus]
          exact .failed _

theorem Value.bothNumbers_alike (hs : s.Alike μ t) (operator : String) {x x' y y' : Value}
    (hx : x.Alike μ x') (hy : y.Alike μ y') :
    bothNumbers t operator x' y' = bothNumbers s operator x y := by
  have hrefused : (.error (.numberExpected operator (x'.written t) (y'.written t)) :
      Except Fault (Number × Number)) =
      .error (.numberExpected operator (x.written s) (y.written s)) := by
    rw [hx.written hs, hy.written hs]
  cases hx with
  | number m =>
      cases hy with
      | number n => rfl
      | _ => exact hrefused
  | _ => exact hrefused

theorem Value.arithmetic_alike (hs : s.Alike μ t) (op : Number.Operation) {x x' y y' : Value}
    (hx : x.Alike μ x') (hy : y.Alike μ y') : x'.arithmetic t op y' = x.arithmetic s op y := by
  rw [arithmetic, arithmetic, bothNumbers_alike hs _ hx hy]

theorem Value.compare_alike (hs : s.Alike μ t) {x x' y y' : Value} (hx : x.Alike μ x')
    (hy : y.Alike μ y') : x'.compare t y' = x.compare s y :=
  congrArg (Except.map _) (bothNumbers_alike hs "compare" hx hy)

theorem Value.numbersEqual_alike (hs : s.Alike μ t) {x x' y y' : Value} (hx : x.Alike μ x')
    (hy : y.Alike μ y') : x'.numbersEqual t y' = x.numbersEqual s y :=
  congrArg (Except.map _) (bothNumbers_alike hs "=" hx hy)

end

/-! ## Replies -/

/-- The same is asked of the host. -/
inductive Suspension.Alike (μ : Match) : Suspension → Suspension → Prop
  | awaiting (request : LineRequest) : Suspension.Alike μ (.awaiting request) (.awaiting request)
  | yielding {v w : Value} (h : v.Alike μ w) : Suspension.Alike μ (.yielding v) (.yielding w)

/-- A primitive gives the same. -/
inductive Reply.Alike (μ : Match) : Reply → Reply → Prop
  | value {v w : Value} (h : v.Alike μ w) : Reply.Alike μ (.value v) (.value w)
  | suspend {suspension suspension' : Suspension} (h : suspension.Alike μ suspension') :
      Reply.Alike μ (.suspend suspension) (.suspend suspension')

/-- The stores are alike, and what stands beside them is the same. -/
structure Shared.Alike (μ : Match) (sh sh' : Shared) : Prop where
  store : sh.store.Alike μ sh'.store
  around : sh'.surroundings = sh.surroundings

/-- Both sides fail with the same fault or give the same reply, and what they share is alike. -/
def Match.Replies (μ : Match) (given given' : Except Fault Reply × Shared) : Prop :=
  ∃ μ', μ.Grows μ' ∧ Fault.Agree (Reply.Alike μ') given.1 given'.1 ∧ given.2.Alike μ' given'.2

namespace Shared.Alike

variable {sh sh' : Shared}

theorem onStore (h : sh.Alike μ sh') {α : Type} {R : Match → α → α → Prop}
    {act act' : Store → α × Store} (hact : μ.Acts R (act sh.store) (act' sh'.store)) :
    ∃ μ', μ.Grows μ' ∧ R μ' (sh.onStore act).1 (sh'.onStore act').1 ∧
      (sh.onStore act).2.Alike μ' (sh'.onStore act').2 := by
  obtain ⟨μ', hgrows, hresult, hstore⟩ := hact
  exact ⟨μ', hgrows, hresult, hstore, h.around⟩

theorem takeAnswer (h : sh.Alike μ sh') (given : Except Fault InputBuffer.Answer × InputBuffer) :
    μ.Replies (sh.takeAnswer given) (sh'.takeAnswer given) := by
  have haround (input : InputBuffer) : Shared.Alike μ { sh with input } { sh' with input } := by
    refine ⟨h.store, ?_⟩
    exact congrArg (fun around : Surroundings => { around with input }) h.around
  obtain ⟨fault | answer, buffer⟩ := given
  · exact ⟨μ, .refl μ, .failed fault, haround buffer⟩
  · cases answer with
    | datum d =>
        obtain ⟨μ', hgrows, hvalue, hshared⟩ := (haround buffer).onStore (h.store.place d)
        exact ⟨μ', hgrows, .given (.value hvalue), hshared⟩
    | awaiting request =>
        refine ⟨μ, .refl μ, .given (.suspend (.awaiting request)), h.store, ?_⟩
        exact congrArg (fun around : Surroundings => (⟨buffer, around.output,
          .inputExhausted buffer.tokens.length :: around.journal⟩ : Surroundings)) h.around
    | endOfFile => exact ⟨μ, .refl μ, .given (.value .eof), haround buffer⟩

theorem input_eq (h : sh.Alike μ sh') : sh'.input = sh.input :=
  congrArg Surroundings.input h.around

theorem read (h : sh.Alike μ sh') (freshPrompt openPrompt : String) :
    μ.Replies (sh.read freshPrompt openPrompt) (sh'.read freshPrompt openPrompt) := by
  rw [Shared.read, Shared.read, h.input_eq]
  exact h.takeAnswer _

theorem resume (h : sh.Alike μ sh') {suspension suspension' : Suspension}
    (hsuspension : suspension.Alike μ suspension') (answer : Option String) :
    μ.Replies (sh.resume suspension answer) (sh'.resume suspension' answer) := by
  cases hsuspension with
  | awaiting request =>
      rw [Shared.resume, Shared.resume, h.input_eq]
      exact h.takeAnswer _
  | yielding hv => exact ⟨μ, .refl μ, .given (.value hv), h⟩

theorem answer (h : sh.Alike μ sh') {given given' : Except Fault Value}
    (hgiven : Fault.Agree (Value.Alike μ) given given') :
    μ.Replies (Primitive.answer sh given) (Primitive.answer sh' given') := by
  cases hgiven with
  | failed fault => exact ⟨μ, .refl μ, .failed fault, h⟩
  | given hv => exact ⟨μ, .refl μ, .given (.value hv), h⟩

theorem answerBool (h : sh.Alike μ sh') {b b' : Bool} (hb : b' = b) :
    μ.Replies (Primitive.answerBool sh b) (Primitive.answerBool sh' b') := by
  subst hb
  exact ⟨μ, .refl μ, .given (.value (.bool b')), h⟩

theorem emit (h : sh.Alike μ sh') {text text' : String} (htext : text' = text) :
    μ.Replies (Primitive.emit sh text) (Primitive.emit sh' text') := by
  subst htext
  refine ⟨μ, .refl μ, .given (.suspend (.yielding .void)), h.store, ?_⟩
  exact congrArg (Surroundings.plus · text') h.around

theorem answerNew (h : sh.Alike μ sh') {make make' : Store → Value × Store}
    (hmade : μ.Acts Value.Alike (make sh.store) (make' sh'.store)) :
    μ.Replies (Primitive.answerNew sh make) (Primitive.answerNew sh' make') := by
  obtain ⟨μ', hgrows, hvalue, hshared⟩ := h.onStore hmade
  exact ⟨μ', hgrows, .given (.value hvalue), hshared⟩

theorem refused (h : sh.Alike μ sh') {fault fault' : Fault} (hfault : fault' = fault) :
    μ.Replies (.error fault, sh) (.error fault', sh') := by
  subst hfault
  exact ⟨μ, .refl μ, .failed fault', h⟩

theorem part (h : sh.Alike μ sh') (p : Primitive) {select : Value → Value → Value}
    (hselect : ∀ {x x' y y' : Value}, x.Alike μ x' → y.Alike μ y' →
      (select x y).Alike μ (select x' y')) {v w : Value} (hv : v.Alike μ w) :
    Fault.Agree (Value.Alike μ) (p.part sh.store select v) (p.part sh'.store select w) := by
  have hrefused := hv.written h.store
  cases hv with
  | pair _ hhead htail => exact .given (hselect hhead htail)
  | _ =>
      simp only [Primitive.part, hrefused]
      exact .failed _

theorem arithmetic (h : sh.Alike μ sh') (op : Number.Operation) {x x' y y' : Value}
    (hx : x.Alike μ x') (hy : y.Alike μ y') :
    μ.Replies (Primitive.answer sh (x.arithmetic sh.store op y))
      (Primitive.answer sh' (x'.arithmetic sh'.store op y')) := by
  apply h.answer
  rw [Value.arithmetic_alike h.store op hx hy]
  unfold Value.arithmetic
  split
  · exact .failed _
  · split
    · exact .given (.number _)
    · exact .failed _

theorem decided (h : sh.Alike μ sh') {α : Type} {given given' : Except Fault α}
    (hgiven : given' = given) (test : α → Bool) :
    μ.Replies (Primitive.answer sh (given.map fun x => .bool (test x)))
      (Primitive.answer sh' (given'.map fun x => .bool (test x))) := by
  apply h.answer
  subst hgiven
  cases given' with
  | error fault => exact .failed fault
  | ok x => exact .given (.bool _)

theorem perform (h : sh.Alike μ sh') (p : Primitive) {arguments arguments' : Value}
    (harguments : arguments.Alike μ arguments') {args args' : List Value}
    (hargs : Value.ListAlike μ args args') :
    μ.Replies (p.perform arguments args sh) (p.perform arguments' args' sh') := by
  have hrefused : μ.Replies (.error (p.arityFault sh.store args.length arguments), sh)
      (.error (p.arityFault sh'.store args'.length arguments'), sh') := by
    apply h.refused
    rw [Primitive.arityFault, Primitive.arityFault, harguments.written h.store, hargs.length_eq]
  have hlist := h.answerNew (h.store.newList hargs)
  cases hargs with
  | nil =>
      cases p with
      | newline => exact h.emit rfl
      | read => exact h.read "" ""
      | globals => exact h.answerNew (h.store.newList (h.store.bound h.store.global))
      | list => exact hlist
      | _ => exact hrefused
  | @cons x x' _ _ hx hrest =>
      cases hrest with
      | nil =>
          cases p with
          | car => exact h.answer (h.part .car (fun hx _ => hx) hx)
          | cdr => exact h.answer (h.part .cdr (fun _ hy => hy) hx)
          | isPair => cases hx <;> exact h.answerBool rfl
          | isNull => cases hx <;> exact h.answerBool rfl
          | not => exact h.answerBool (congrArg (!·) hx.isTrue)
          | list => exact hlist
          | display => exact h.emit (hx.displayed h.store)
          | isEofObject => cases hx <;> exact h.answerBool rfl
          | isSymbol => cases hx <;> exact h.answerBool rfl
          | isNumber => cases hx <;> exact h.answerBool rfl
          | _ => exact hrefused
      | @cons y y' _ _ hy hrest =>
          cases hrest with
          | nil =>
              cases p with
              | cons => exact h.answerNew (h.store.newPair hx hy)
              | eq => exact h.answerBool (hx.same hy)
              | eqv => exact h.answerBool (hx.equivalent hy)
              | list => exact hlist
              | add => exact h.arithmetic .add hx hy
              | subtract => exact h.arithmetic .subtract hx hy
              | multiply => exact h.arithmetic .multiply hx hy
              | less => exact h.decided (Value.compare_alike h.store hx hy) (· < 0)
              | equal => exact h.decided (Value.numbersEqual_alike h.store hx hy) id
              | error =>
                  apply h.refused
                  rw [hx.displayed h.store, hx.written h.store, hy.written h.store]
              | _ => exact hrefused
          | cons _ _ =>
              cases p with
              | list => exact hlist
              | _ => exact hrefused

end Shared.Alike

end SchemeMachine
