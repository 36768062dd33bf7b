import SchemeMachine.Proofs.ApplyToList
import SchemeMachine.Proofs.Environment.AppendOnly

/-!
# Parameters and the arguments that they get

The parameters of a procedure and the arguments of a call are two chains of pairs that have
nothing to do with each other.  `Value.items` are the elements of such a chain, `Value.ending` is
what it ends in and `Value.after` what is left of it after some pairs.

A call binds the two element by element.  If the arguments run out first, it is refused
(`Parameters.bindings_of_few`).  If the parameters do, what is left goes to the symbol that they end
in; if there is none, something that is left makes the call be refused
(`Parameters.bindings_of_many`).

The frame that a call opens has the bindings in the order of the parameters, and a search stops at
the first of them.  So a symbol that is a parameter twice has the argument of the first place
(`Parameters.lookup_of_first`).
-/

namespace SchemeMachine

/-! ## Chains of pairs -/

namespace Value

/-- What a chain of pairs ends in. -/
def ending : Value → Value
  | pair _ _ tail => ending tail
  | other => other

/-- What is left of a chain of pairs after so many of them. -/
def after : Nat → Value → Value
  | 0, v => v
  | n + 1, pair _ _ tail => after n tail
  | _ + 1, other => other

variable {v : Value}

theorem items_of_not_pair (h : ∀ stamp head tail, v ≠ .pair stamp head tail) : v.items = [] := by
  cases v with
  | pair stamp head tail => exact absurd rfl (h stamp head tail)
  | _ => rfl

theorem ending_of_not_pair (h : ∀ stamp head tail, v ≠ .pair stamp head tail) : v.ending = v := by
  cases v with
  | pair stamp head tail => exact absurd rfl (h stamp head tail)
  | _ => rfl

/-- Nothing is left of a chain after so many pairs if it has just these and is a proper list. -/
theorem after_eq_nil_iff {n : Nat} (h : n ≤ v.items.length) :
    v.after n = .nil ↔ ¬(n < v.items.length ∨ v.ending ≠ .nil) := by
  fun_induction after n v with
  | case1 v =>
      by_cases hpair : ∃ stamp head tail, v = .pair stamp head tail
      · obtain ⟨stamp, head, tail, rfl⟩ := hpair
        simp [items]
      · have hatom : ∀ stamp head tail, v ≠ .pair stamp head tail :=
          fun stamp head tail heq => hpair ⟨stamp, head, tail, heq⟩
        simp [items_of_not_pair hatom, ending_of_not_pair hatom]
  | case2 n _ _ tail ih =>
      rw [ih (Nat.le_of_succ_le_succ h)]
      simp [items, ending]
  | case3 n other hpair =>
      rw [items_of_not_pair hpair] at h
      cases h

end Value

/-! ## Lambda lists -/

namespace Parameters

variable {s : Store} {parameters arguments : Value} {made : List (String × Value)} {name : String}

theorem symbols_of_firstFault {whole : Value} (h : firstFault s whole parameters = none) :
    (∀ parameter ∈ parameters.items, ∃ name, parameter = .symbol name) ∧
      (parameters.ending = .nil ∨ ∃ rest, parameters.ending = .symbol rest) := by
  fun_induction firstFault s whole parameters with
  | case1 _ name rest ih =>
      obtain ⟨hitems, hending⟩ := ih h
      exact ⟨List.forall_mem_cons.mpr ⟨⟨name, rfl⟩, hitems⟩, hending⟩
  | case2 => cases h
  | case3 => exact ⟨fun _ hmem => absurd hmem List.not_mem_nil, .inl rfl⟩
  | case4 rest => exact ⟨fun _ hmem => absurd hmem List.not_mem_nil, .inr ⟨rest, rfl⟩⟩
  | case5 => cases h

/-- Parameters that are accepted are symbols, and end in nothing or in one more symbol. -/
theorem symbols_of_check (h : check s parameters = none) :
    (∀ parameter ∈ parameters.items, ∃ name, parameter = .symbol name) ∧
      (parameters.ending = .nil ∨ ∃ rest, parameters.ending = .symbol rest) :=
  symbols_of_firstFault h

/-! ## Too few and too many arguments -/

theorem bindings_of_few (h : arguments.items.length < parameters.items.length) :
    bindings s parameters arguments =
      .error (.surplusParameters ((parameters.after arguments.items.length).written s)) := by
  fun_induction bindings s parameters arguments with
  | case1 _ name parameters _ argument arguments ih =>
      rw [ih (Nat.lt_of_succ_lt_succ h)]
      rfl
  | case2 _ _ parameters _ _ arguments _ ih => exact ih (Nat.lt_of_succ_lt_succ h)
  | case3 stamp head tail arguments _ hpair =>
      rw [Value.items_of_not_pair hpair]
      rfl
  | case4 => cases h
  | case5 parameters hpair =>
      rw [Value.items_of_not_pair hpair] at h
      cases h
  | case6 parameters arguments _ _ _ hpair =>
      rw [Value.items_of_not_pair hpair] at h
      cases h

/-- What is left of the arguments is too much for parameters that are all bound. -/
theorem bindings_of_many (hle : parameters.items.length ≤ arguments.items.length)
    (hrest : ∀ rest, parameters.ending ≠ .symbol rest)
    (hleft : arguments.after parameters.items.length ≠ .nil) :
    bindings s parameters arguments =
      .error (.surplusArguments ((arguments.after parameters.items.length).written s)) := by
  fun_induction bindings s parameters arguments with
  | case1 _ name parameters _ argument arguments ih =>
      rw [ih (Nat.le_of_succ_le_succ hle) hrest hleft]
      rfl
  | case2 _ _ parameters _ _ arguments _ ih => exact ih (Nat.le_of_succ_le_succ hle) hrest hleft
  | case3 stamp head tail arguments _ hpair =>
      rw [Value.items_of_not_pair hpair] at hle
      cases hle
  | case4 name => exact absurd rfl (hrest name)
  | case5 parameters hpair =>
      rw [Value.items_of_not_pair hpair] at hleft
      exact absurd rfl hleft
  | case6 parameters arguments _ _ _ hpair =>
      rw [Value.items_of_not_pair hpair]
      rfl

/-- A call binds its arguments if they suffice, and what is left of them is nothing or goes to
the symbol that the parameters end in. -/
theorem bindings_of_fitting (hle : parameters.items.length ≤ arguments.items.length)
    (hleft : (∃ rest, parameters.ending = .symbol rest) ∨
      arguments.after parameters.items.length = .nil) :
    ∃ made, bindings s parameters arguments = .ok made := by
  fun_induction bindings s parameters arguments with
  | case1 _ name parameters _ argument arguments ih =>
      obtain ⟨made, hmade⟩ := ih (Nat.le_of_succ_le_succ hle) hleft
      exact ⟨(name, argument) :: made, by rw [hmade]; rfl⟩
  | case2 _ _ parameters _ _ arguments _ ih => exact ih (Nat.le_of_succ_le_succ hle) hleft
  | case3 stamp head tail arguments _ hpair =>
      rw [Value.items_of_not_pair hpair] at hle
      cases hle
  | case4 | case5 => exact ⟨_, rfl⟩
  | case6 parameters arguments hnil _ _ hpair hsymbol =>
      rw [Value.items_of_not_pair hpair, Value.ending_of_not_pair hpair] at hleft
      rcases hleft with ⟨rest, hending⟩ | hnothing
      · exact absurd hending (hsymbol rest)
      · exact absurd hnothing hnil

/-! ## Which argument a parameter gets -/

theorem eq_cons_of_map {rest : Except Fault (List (String × Value))} {binding : String × Value}
    (h : rest.map (binding :: ·) = .ok made) :
    ∃ others, rest = .ok others ∧ made = binding :: others := by
  cases rest with
  | error fault => cases h
  | ok others =>
      cases h
      exact ⟨others, rfl, rfl⟩

theorem lookup_cons_of_ne {head : String} (hne : name ≠ head) (argument : Value)
    (others : List (String × Value)) :
    ((head, argument) :: others).lookup name = others.lookup name := by
  rw [List.lookup_cons, beq_false_of_ne hne]

/-- Of the places where a symbol is a parameter, the first decides. -/
theorem lookup_of_first (h : bindings s parameters arguments = .ok made) {i : Nat}
    (hat : parameters.items[i]? = some (.symbol name))
    (hfirst : ∀ j < i, parameters.items[j]? ≠ some (.symbol name)) :
    ∃ argument, arguments.items[i]? = some argument ∧ made.lookup name = some argument := by
  fun_induction bindings s parameters arguments generalizing made i with
  | case1 _ head parameters _ argument arguments ih =>
      obtain ⟨others, hothers, rfl⟩ := eq_cons_of_map h
      -- the symbol stands here, or this parameter is another and the symbol stands further on
      cases i with
      | zero =>
          cases hat
          exact ⟨argument, rfl, List.lookup_cons_self⟩
      | succ i =>
          have hne : name ≠ head := by
            rintro rfl
            exact hfirst 0 (Nat.succ_pos i) rfl
          rw [lookup_cons_of_ne hne]
          exact ih hothers hat fun j hj => hfirst (j + 1) (Nat.succ_lt_succ hj)
  | case2 _ head parameters _ _ arguments hsymbol ih =>
      cases i with
      | zero => exact absurd (Option.some.inj hat) (hsymbol name)
      | succ i => exact ih h hat fun j hj => hfirst (j + 1) (Nat.succ_lt_succ hj)
  | case3 => cases h
  | case4 => cases hat
  | case5 parameters hpair =>
      rw [Value.items_of_not_pair hpair] at hat
      cases hat
  | case6 => cases h

/-- The symbol that the parameters end in has the arguments that are left, as they are. -/
theorem lookup_of_rest (h : bindings s parameters arguments = .ok made)
    (hending : parameters.ending = .symbol name) (hnew : .symbol name ∉ parameters.items) :
    made.lookup name = some (arguments.after parameters.items.length) := by
  fun_induction bindings s parameters arguments generalizing made with
  | case1 _ head parameters _ argument arguments ih =>
      obtain ⟨others, hothers, rfl⟩ := eq_cons_of_map h
      have hne : name ≠ head := fun heq => List.ne_of_not_mem_cons hnew (congrArg _ heq)
      rw [lookup_cons_of_ne hne]
      exact ih hothers hending (List.not_mem_of_not_mem_cons hnew)
  | case2 _ _ parameters _ _ arguments _ ih =>
      exact ih h hending (List.not_mem_of_not_mem_cons hnew)
  | case3 => cases h
  | case4 rest arguments =>
      cases h
      cases hending
      exact List.lookup_cons_self
  | case5 parameters hpair hsymbol =>
      rw [Value.ending_of_not_pair hpair] at hending
      exact absurd hending (hsymbol name)
  | case6 => cases h

theorem mem_names_iff :
    name ∈ names parameters ↔
      .symbol name ∈ parameters.items ∨ parameters.ending = .symbol name := by
  fun_induction names parameters with
  | case1 _ head rest ih =>
      rw [List.mem_cons, ih, Value.items, List.mem_cons, Value.symbol.injEq, or_assoc, Value.ending]
  | case2 _ head rest hsymbol ih =>
      have hne : .symbol name ≠ head := fun heq => hsymbol name heq.symm
      rw [ih, Value.items, List.mem_cons, or_iff_right hne, Value.ending]
  | case3 rest => simp [Value.items, Value.ending, eq_comm]
  | case4 parameters _ hpair hsymbol =>
      rw [Value.items_of_not_pair hpair, Value.ending_of_not_pair hpair]
      have hother : parameters ≠ .symbol name := hsymbol name
      simp [hother]

theorem lookup_of_other (h : bindings s parameters arguments = .ok made)
    (hending : parameters.ending ≠ .symbol name) (hnew : .symbol name ∉ parameters.items) :
    made.lookup name = none := by
  rw [List.lookup_eq_none_iff]
  intro binding hmem
  have hname : binding.1 ∈ names parameters := by
    rw [← names_of_bindings h]
    exact List.mem_map_of_mem hmem
  have hne : name ≠ binding.1 := by
    rintro rfl
    exact (mem_names_iff.mp hname).elim hnew hending
  exact bne_iff_ne.mpr hne

end Parameters

/-! ## Looking up in a new frame -/

namespace Store

variable {s : Store} {home : Addr} {name : String} {v : Value}

/-- The value of a symbol in the environment at `a`. -/
def lookup? (s : Store) (name : String) (a : Addr) : Option Value :=
  (s.find? name a).map Prod.snd

theorem findSome?_addressed (size : Nat) (made : List (String × Value)) (name : String) :
    ((addressed size (made.map Entry.ofBinding)).findSome? (bindingOf name)).map Prod.snd =
      made.lookup name := by
  induction made with
  | nil => rfl
  | cons binding others ih =>
      obtain ⟨bound, value⟩ := binding
      by_cases heq : name = bound
      · simp [addressed, Entry.ofBinding, bindingOf, heq]
      · rw [Parameters.lookup_cons_of_ne heq, ← ih]
        simp [addressed, Entry.ofBinding, bindingOf, Ne.symm heq]

/-- A search from a new frame goes through its bindings, and then on from the environment in
front of which the frame was opened. -/
theorem find?_openFrame (h : s.Ends home) (made : List (String × Value)) (name : String) :
    (s.openFrame home made).2.find? name (s.openFrame home made).1 =
      ((addressed s.nodes.size (made.map Entry.ofBinding)).findSome? (bindingOf name)).or
        (s.find? name home) := by
  rw [openFrame_fst, find?_eq_findSome?_chain, find?_eq_findSome?_chain,
    (Linked.openFrame h made).chain_eq, List.findSome?_cons, List.findSome?_append]
  rfl

theorem lookup?_openFrame (h : s.Ends home) {made : List (String × Value)}
    (hmade : made.lookup name = some v) :
    (s.openFrame home made).2.lookup? name (s.openFrame home made).1 = some v := by
  rw [← findSome?_addressed s.nodes.size] at hmade
  obtain ⟨found, hfound, rfl⟩ := Option.map_eq_some_iff.mp hmade
  rw [lookup?, find?_openFrame h, hfound]
  rfl

theorem find?_openFrame_of_other (h : s.Ends home) {made : List (String × Value)}
    (hmade : made.lookup name = none) :
    (s.openFrame home made).2.find? name (s.openFrame home made).1 = s.find? name home := by
  rw [← findSome?_addressed s.nodes.size] at hmade
  rw [find?_openFrame h, Option.map_eq_none_iff.mp hmade, Option.none_or]

end Store

/-! ## The frame of a call -/

/-- What there is after parameters have been bound to arguments in a new frame at `frame`, in front
of the environment at `home`: `s` is the store before and `t` the store after. -/
structure Store.Binds (s : Store) (home : Addr) (parameters arguments : Value) (frame : Addr)
    (t : Store) : Prop where
  /-- The frame is new. -/
  absent : s.entryAt frame = none
  marker : t.entryAt frame = some .marker
  /-- A parameter has the argument at the place where it first stands. -/
  first : ∀ (i : Nat) (name : String), parameters.items[i]? = some (.symbol name) →
    (∀ j < i, parameters.items[j]? ≠ some (.symbol name)) →
      ∃ argument, arguments.items[i]? = some argument ∧ t.lookup? name frame = some argument
  /-- The symbol that the parameters end in has what is left of the arguments, unless it is one
  of the parameters before. -/
  rest : ∀ name, parameters.ending = .symbol name → Value.symbol name ∉ parameters.items →
    t.lookup? name frame = some (arguments.after parameters.items.length)
  /-- Any other symbol is found where it is found from `home`. -/
  other : ∀ name, Value.symbol name ∉ parameters.items → parameters.ending ≠ .symbol name →
    t.find? name frame = s.find? name home
  /-- The nodes that there were are as they were. -/
  nodes : ∀ (b : Addr) (node : Node), s.nodes[b]? = some node → t.nodes[b]? = some node
  chains : ∀ a, s.Ends a → t.chain a = s.chain a
  /-- No object is made: the rest of the arguments is not copied. -/
  nextStamp : t.nextStamp = s.nextStamp

theorem Store.binds_openFrame {s : Store} {home : Addr} {parameters arguments : Value}
    {made : List (String × Value)} (hends : s.Ends home)
    (hmade : Parameters.bindings s parameters arguments = .ok made) :
    s.Binds home parameters arguments (s.openFrame home made).1 (s.openFrame home made).2 := by
  constructor
  case absent =>
    rw [openFrame_fst, entryAt, Array.getElem?_eq_none (Nat.le_add_right _ _)]
    rfl
  case marker =>
    rw [openFrame_fst]
    exact entryAt_openFrame_self home made s
  case first =>
    intro i name hat hfirst
    obtain ⟨argument, hargument, hlookup⟩ := Parameters.lookup_of_first hmade hat hfirst
    exact ⟨argument, hargument, lookup?_openFrame hends hlookup⟩
  case rest =>
    intro name hending hnew
    exact lookup?_openFrame hends (Parameters.lookup_of_rest hmade hending hnew)
  case other =>
    intro name hnew hending
    exact find?_openFrame_of_other hends (Parameters.lookup_of_other hmade hending hnew)
  case nodes =>
    intro b node hnode
    exact getElem?_openFrame hnode home made
  case chains =>
    intro a ha
    exact ha.openFrame home made
  case nextStamp => exact nextStamp_extend home made s

/-- The step fails with a fault of this class. -/
def Transition.FailsWith (t : Transition) (label : String) : Prop :=
  ∃ fault after, t = .failed fault after ∧ fault.label = label

theorem Transition.FailsWith.unique {t : Transition} {label other : String}
    (h : t.FailsWith label) (hother : t.FailsWith other) : label = other := by
  obtain ⟨fault, after, rfl, rfl⟩ := h
  obtain ⟨_, _, ⟨⟩, rfl⟩ := hother
  rfl

theorem Transition.not_failsWith_running (next : Config) (label : String) :
    ¬(Transition.running next).FailsWith label := by
  rintro ⟨_, _, ⟨⟩, _⟩

namespace Config

variable {c : Config} {stamp : Nat} {parameters body arguments : Value} {home : Addr}

/-- A closure whose parameters cannot be bound has left its body on the stack, and nothing
else. -/
theorem step_closure_of_error {fault : Fault}
    (hfocus : c.focus = .call (.closure stamp parameters body home) arguments)
    (hfault : Parameters.bindings c.store parameters arguments = .error fault) :
    c.step = .failed fault { c with stack := (c.stack.pushRestore c.env).push .sequence body } := by
  simp only [store] at hfault
  simp only [step, hfocus, call, callClosure, store, Saving.save_eliding, hfault]

theorem shared_of_failed_closure
    (hfocus : c.focus = .call (.closure stamp parameters body home) arguments) {fault : Fault}
    {after : Config} (hfailed : c.step = .failed fault after) : after.shared = c.shared := by
  cases hbindings : Parameters.bindings c.store parameters arguments with
  | error found =>
      cases (step_closure_of_error hfocus hbindings).symm.trans hfailed
      rfl
  | ok made => cases (step_closure hfocus hbindings).symm.trans hfailed

/-- The lengths of the two chains, and what is left of the arguments, decide how a call of a
closure goes on. -/
theorem step_closure_cases
    (hfocus : c.focus = .call (.closure stamp parameters body home) arguments) :
    (arguments.items.length < parameters.items.length ∧
      c.step.FailsWith "TooFewArgumentsError") ∨
    (parameters.items.length ≤ arguments.items.length ∧
      (∀ rest, parameters.ending ≠ .symbol rest) ∧
      arguments.after parameters.items.length ≠ .nil ∧
      c.step.FailsWith "TooManyArgumentsError") ∨
    (parameters.items.length ≤ arguments.items.length ∧
      ((∃ rest, parameters.ending = .symbol rest) ∨
        arguments.after parameters.items.length = .nil) ∧
      ∃ next, c.step = .running next ∧
        (c.store.Ends home → c.store.Binds home parameters arguments next.env next.store)) := by
  rcases Nat.lt_or_ge arguments.items.length parameters.items.length with hfew | henough
  · have hstep := step_closure_of_error hfocus (Parameters.bindings_of_few hfew)
    exact .inl ⟨hfew, _, _, hstep, rfl⟩
  -- the parameters run out first: is there a place for what is left of the arguments?
  by_cases hfits : (∃ rest, parameters.ending = .symbol rest) ∨
      arguments.after parameters.items.length = .nil
  · obtain ⟨made, hmade⟩ := Parameters.bindings_of_fitting (s := c.store) henough hfits
    exact .inr (.inr ⟨henough, hfits, _, step_closure hfocus hmade,
      fun hends => Store.binds_openFrame hends hmade⟩)
  · obtain ⟨hnone, hleft⟩ := not_or.mp hfits
    have hrest : ∀ rest, parameters.ending ≠ .symbol rest := not_exists.mp hnone
    have hstep :=
      step_closure_of_error hfocus (Parameters.bindings_of_many henough hrest hleft)
    exact .inr (.inl ⟨henough, hrest, hleft, _, _, hstep, rfl⟩)

end Config

/-- In every state of an interpreter, the chain of a closure that is called comes to an end. -/
theorem World.Logged.ends_of_call {log : Log} {w : World} (h : World.Logged log w) {th : Thread}
    (hth : th ∈ w.threads) {stamp : Nat} {parameters body arguments : Value} {home : Addr}
    (hphase : th.phase = .running (.call (.closure stamp parameters body home) arguments)) :
    w.shared.store.Ends home := by
  obtain ⟨hanchored, hkeeps⟩ := h.sound
  have hmeets := (hanchored.obeys.config hth hphase).focus.meets
  have hmarker : w.shared.store.IsMarker home := hmeets.1.1
  exact hkeeps.ends home hmarker

/-- In every state that an interpreter reaches, a call of a closure that is not refused binds the
parameters in a new frame in front of the environment of the closure. -/
theorem World.binds_of_call {sh : Shared} {w : World} (hstore : sh.store = .initial)
    (h : Relation.ReflTransGen World.Proceeds ⟨sh, [], []⟩ w) {th : Thread} (hth : th ∈ w.threads)
    {stamp : Nat} {parameters body arguments : Value} {home : Addr} {next : Config}
    (hphase : th.phase = .running (.call (.closure stamp parameters body home) arguments))
    (hstep : Config.step ⟨.call (.closure stamp parameters body home) arguments, th.env, th.stack,
      w.shared⟩ = .running next) :
    w.shared.store.Binds home parameters arguments next.env next.store := by
  obtain ⟨log, hlogged⟩ := (World.Logged.initial sh hstore).later h
  have hends := hlogged.ends_of_call hth hphase
  have hnot (label : String) : ¬(Transition.running next).FailsWith label :=
    Transition.not_failsWith_running next label
  rw [← hstep] at hnot
  have hcases := Config.step_closure_cases
    (c := ⟨.call (.closure stamp parameters body home) arguments, th.env, th.stack, w.shared⟩) rfl
  rcases hcases with ⟨_, hfails⟩ | ⟨_, _, _, hfails⟩ | ⟨_, _, found, hfound, hbinds⟩
  · exact absurd hfails (hnot _)
  · exact absurd hfails (hnot _)
  · cases hfound.symm.trans hstep
    exact hbinds hends

/-- **Parameters get exactly their arguments.**  Take parameters that are accepted: some symbols,
and perhaps one more at the end.  A call has too few arguments if and only if there are fewer of
them than of these symbols, and too many if and only if they suffice, nothing stands at the end of
the parameters, and there are more of them or they end in something.  Otherwise the call opens a
frame in front of the environment of the closure, and binds the parameters in it.  That environment
has to be one, which is to say that its chain comes to an end.  In the states that an interpreter
reaches this is so (`World.binds_of_call`).

The arguments hold their pairs themselves, so there is nothing in them that could change.  A call
that is refused leaves the store as it is. -/
theorem parameter_binding_is_exact {before : Store} {parameters : Value}
    (haccepted : Parameters.check before parameters = none) {c : Config} {stamp : Nat}
    {body arguments : Value} {home : Addr}
    (hfocus : c.focus = .call (.closure stamp parameters body home) arguments) :
    ((∀ parameter ∈ parameters.items, ∃ name, parameter = .symbol name) ∧
      (parameters.ending = .nil ∨ ∃ rest, parameters.ending = .symbol rest)) ∧
    (c.step.FailsWith "TooFewArgumentsError" ↔
      arguments.items.length < parameters.items.length) ∧
    (c.step.FailsWith "TooManyArgumentsError" ↔
      parameters.items.length ≤ arguments.items.length ∧ parameters.ending = .nil ∧
        (parameters.items.length < arguments.items.length ∨ arguments.ending ≠ .nil)) ∧
    (¬c.step.FailsWith "TooFewArgumentsError" → ¬c.step.FailsWith "TooManyArgumentsError" →
      ∃ next, c.step = .running next ∧
        (c.store.Ends home → c.store.Binds home parameters arguments next.env next.store)) ∧
    ∀ fault after, c.step = .failed fault after → after.shared = c.shared := by
  have hsymbols := Parameters.symbols_of_check haccepted
  have hshared : ∀ fault after, c.step = .failed fault after → after.shared = c.shared :=
    fun _ _ => Config.shared_of_failed_closure hfocus
  rcases Config.step_closure_cases hfocus with ⟨hfew, hfails⟩ |
    ⟨henough, hrest, hleft, hfails⟩ | ⟨henough, hfits, next, hstep, hbinds⟩
  · have hnotMany : ¬c.step.FailsWith "TooManyArgumentsError" :=
      fun hmany => absurd (hfails.unique hmany) (by decide)
    refine ⟨hsymbols, iff_of_true hfails hfew, iff_of_false hnotMany ?_, ?_, hshared⟩
    · exact fun hmany => absurd hmany.1 (Nat.not_le.mpr hfew)
    · exact fun hnotFew => absurd hfails hnotFew
  · have hnotFew : ¬c.step.FailsWith "TooFewArgumentsError" :=
      fun hfew => absurd (hfails.unique hfew) (by decide)
    -- accepted parameters that do not end in a symbol end in nothing
    have hnil := hsymbols.2.resolve_right (not_exists.mpr hrest)
    have hsurplus := not_not.mp (mt (Value.after_eq_nil_iff henough).mpr hleft)
    refine ⟨hsymbols, iff_of_false hnotFew (Nat.not_lt.mpr henough),
      iff_of_true hfails ⟨henough, hnil, hsurplus⟩, ?_, hshared⟩
    exact fun _ hnotMany => absurd hfails hnotMany
  · have hnot (label : String) : ¬c.step.FailsWith label := by
      rw [hstep]
      exact Transition.not_failsWith_running next label
    refine ⟨hsymbols, iff_of_false (hnot _) (Nat.not_lt.mpr henough), iff_of_false (hnot _) ?_,
      fun _ _ => ⟨next, hstep, hbinds⟩, hshared⟩
    rintro ⟨_, hnil, hsurplus⟩
    rcases hfits with ⟨rest, hrest⟩ | hnothing
    · cases hnil.symm.trans hrest
    · exact (Value.after_eq_nil_iff henough).mp hnothing hsurplus

/-- The parameters `(a b a . r)` get the arguments `(1 2 3 4 . 5)`: the first `a` decides, and `r`
is `(4 . 5)`. -/
theorem parameter_binding_is_exact_of_repeated :
    let one := Value.number (.exact 1)
    let two := Value.number (.exact 2)
    let left := Value.pair 6 (.number (.exact 4)) (.number (.exact 5))
    let parameters := Value.pair 0 (.symbol "a")
      (.pair 1 (.symbol "b") (.pair 2 (.symbol "a") (.symbol "r")))
    let arguments := Value.pair 3 one (.pair 4 two (.pair 5 (.number (.exact 3)) left))
    let c : Config := ⟨.call (.closure 7 parameters .nil Store.global) arguments, Store.global,
      .empty, .initial⟩
    Parameters.check .initial parameters = none ∧ Store.initial.Ends Store.global ∧
      ∃ next, c.step = .running next ∧ next.store.lookup? "a" next.env = some one ∧
        next.store.lookup? "b" next.env = some two ∧
        next.store.lookup? "r" next.env = some left ∧
        next.store.find? "car" next.env = Store.initial.find? "car" Store.global := by
  intro one two left parameters arguments c
  have haccepted : Parameters.check .initial parameters = none := rfl
  have hends : Store.initial.Ends Store.global := (Store.linked_ofBindings _).ends
  have hfocus : c.focus = .call (.closure 7 parameters .nil Store.global) arguments := rfl
  obtain ⟨_, hfew, hmany, hotherwise, _⟩ := parameter_binding_is_exact haccepted hfocus
  have hrest : ¬parameters.ending = .nil := by rintro ⟨⟩
  obtain ⟨next, hstep, hbinds⟩ :=
    hotherwise (mt hfew.mp (by decide)) fun h => hrest (hmany.mp h).2.1
  have hbinds := hbinds hends
  refine ⟨haccepted, hends, next, hstep, ?_, ?_, ?_, ?_⟩
  · obtain ⟨argument, hargument, hlookup⟩ := hbinds.first 0 "a" rfl (by simp)
    cases hargument
    exact hlookup
  · obtain ⟨argument, hargument, hlookup⟩ := hbinds.first 1 "b" rfl
      (by simp [parameters, Value.items])
    cases hargument
    exact hlookup
  · exact hbinds.rest "r" rfl (by simp [parameters, Value.items])
  · exact hbinds.other "car" (by simp [parameters, Value.items])
      (by simp [parameters, Value.ending])

end SchemeMachine
