import SchemeMachine.Proofs.Form
import SchemeMachine.Proofs.Requirement.Basic

/-!
# What a step does to the store

Of all that the machine does, three things touch the nodes of environments: a defining
frame that is resumed, an assigning frame that is resumed, and a call of a closure.  Each
is a `Deed`.  `Config.deed?` tells from a configuration which of them the next step does,
and `step_effect` says what it comes to.  Every other step leaves the environments alone and
at most makes new objects.

`Store.Changes` forgets where and by what the store is changed.  No step takes a stamp back,
so a stamp is never handed out twice.
-/

namespace SchemeMachine

namespace Store

variable {s t : Store}

/-- The environments are as before, and new objects may have been made. -/
structure Grows (s t : Store) : Prop where
  nodes : t.nodes = s.nodes
  nextStamp : s.nextStamp ≤ t.nextStamp

theorem Grows.refl (s : Store) : s.Grows s :=
  ⟨rfl, Nat.le_refl _⟩

theorem Grows.newPair (head tail : Value) (s : Store) : s.Grows (s.newPair head tail).2 :=
  ⟨rfl, Nat.le_succ _⟩

theorem nextStamp_newList (items : List Value) (s : Store) :
    s.nextStamp ≤ (s.newList items).2.nextStamp := by
  induction items with
  | nil => exact Nat.le_refl _
  | cons item rest ih => exact Nat.le_succ_of_le ih

theorem nextStamp_place (d : Datum) (s : Store) : s.nextStamp ≤ (s.place d).2.nextStamp := by
  induction d generalizing s with
  | pair head tail ihHead ihTail =>
      exact Nat.le_succ_of_le (Nat.le_trans (ihHead s) (ihTail _))
  | _ => exact Nat.le_refl _

theorem Grows.newList (items : List Value) (s : Store) : s.Grows (s.newList items).2 :=
  ⟨nodes_newList items s, nextStamp_newList items s⟩

theorem Grows.place (d : Datum) (s : Store) : s.Grows (s.place d).2 :=
  ⟨nodes_place d s, nextStamp_place d s⟩

/-- What a step may do to the store. -/
inductive Changes (s : Store) : Store → Prop
  /-- The environments are as before, and new objects may have been made. -/
  | objects {t : Store} (hnodes : t.nodes = s.nodes) (hstamp : s.nextStamp ≤ t.nextStamp) :
      Changes s t
  | inserted (a : Addr) (entry : Entry) : Changes s (s.insertAfter a entry)
  | assigned (a : Addr) (value : Value) : Changes s (s.assign a value)
  | opened (a : Addr) (bindings : List (String × Value)) : Changes s (s.openFrame a bindings).2

theorem nextStamp_extend (a : Addr) (bindings : List (String × Value)) (s : Store) :
    (s.extend a bindings).2.nextStamp = s.nextStamp := by
  induction bindings with
  | nil => rfl
  | cons binding rest ih => exact ih

/-- Stamps are handed out in order. -/
theorem Changes.nextStamp_le (h : s.Changes t) : s.nextStamp ≤ t.nextStamp := by
  cases h with
  | objects hnodes hstamp => exact hstamp
  | inserted a entry =>
      unfold Store.insertAfter
      split
      · exact Nat.le_refl _
      · exact Nat.le_refl _
  | assigned a value =>
      unfold Store.assign
      split
      · exact Nat.le_refl _
      · exact Nat.le_refl _
  | opened a bindings => exact Nat.le_of_eq (nextStamp_extend a bindings s).symm

/-- The addresses that some items get if the last of them is put into the store first. -/
def addressed {β : Type} (size : Nat) : List β → List (Addr × β)
  | [] => []
  | item :: items => (size + items.length, item) :: addressed size items

theorem size_extend (home : Addr) (bindings : List (String × Value)) (s : Store) :
    (s.extend home bindings).2.nodes.size = s.nodes.size + bindings.length := by
  induction bindings with
  | nil => rfl
  | cons binding rest ih =>
      simp only [extend, pushNode, Array.size_push, List.length_cons]
      omega

theorem openFrame_fst (home : Addr) (bindings : List (String × Value)) (s : Store) :
    (s.openFrame home bindings).1 = s.nodes.size + bindings.length :=
  size_extend home bindings s

end Store

/-! ## Primitives and the host -/

theorem Shared.takeAnswer_grows (sh : Shared)
    (answer : Except Fault InputBuffer.Answer × InputBuffer) :
    sh.store.Grows (sh.takeAnswer answer).2.store := by
  obtain ⟨fault | d | _ | request, buffer⟩ := answer
  · exact .refl _
  · exact .place d _
  · exact .refl _
  · exact .refl _

theorem Shared.resume_grows (sh : Shared) (suspension : Suspension) (answer : Option String) :
    sh.store.Grows (sh.resume suspension answer).2.store := by
  cases suspension with
  | awaiting request => exact sh.takeAnswer_grows _
  | yielding value => exact .refl _

theorem Primitive.answer_grows (sh : Shared) (result : Except Fault Value) :
    sh.store.Grows (Primitive.answer sh result).2.store := by
  cases result with
  | error fault => exact .refl _
  | ok v => exact .refl _

theorem Primitive.perform_grows [Saving] (p : Primitive) (arguments : Value) (args : List Value)
    (sh : Shared) : sh.store.Grows (p.perform arguments args sh).2.store := by
  unfold Primitive.perform
  split
  case h_3 x y => exact .newPair x y _
  case h_9 => exact .newList args _
  case h_12 => exact sh.takeAnswer_grows _
  case h_22 => exact .newList _ _
  -- the others make no object
  all_goals first | exact Primitive.answer_grows sh _ | exact .refl _

/-! ## Steps that leave the environments alone -/

/-- The configuration that a step leaves. -/
def Transition.config : Transition → Config
  | .running c | .finished _ c | .suspended _ c | .failed _ c => c

/-- The step leaves the environments and the current one as they are. -/
def Transition.Keeps (c : Config) (t : Transition) : Prop :=
  c.store.Grows t.config.store ∧ t.config.env = c.env

namespace Config

variable [Saving] {c : Config}

omit [Saving] in
theorem resume_keeps (c : Config) (suspension : Suspension) (answer : Option String) :
    (Config.resume suspension answer c).Keeps c := by
  have hgrows := c.shared.resume_grows suspension answer
  unfold Config.resume
  generalize c.shared.resume suspension answer = result at hgrows
  obtain ⟨fault | v | s, shared⟩ := result
  · exact ⟨hgrows, rfl⟩
  · exact ⟨hgrows, rfl⟩
  · exact ⟨hgrows, rfl⟩

omit [Saving] in
theorem toSequence_keeps (c : Config) (expressions : Value) :
    (c.toSequence expressions).Keeps c := by
  unfold toSequence
  split
  · exact ⟨.refl _, rfl⟩
  · exact ⟨.refl _, rfl⟩
  · exact ⟨.refl _, rfl⟩

theorem reduceAs_keeps (c : Config) (e : Value) (form : Form) : (c.reduceAs e form).Keeps c := by
  cases form with
  | lambda parameters body =>
      simp only [reduceAs, reduceLambda]
      split
      · exact ⟨.refl _, rfl⟩
      · exact ⟨⟨rfl, Nat.le_succ _⟩, rfl⟩
  | procedure name parameters body =>
      simp only [reduceAs, reduceDefineProcedure]
      split
      · exact ⟨.refl _, rfl⟩
      · split
        · exact ⟨⟨rfl, Nat.le_succ _⟩, rfl⟩
        · exact ⟨.refl _, rfl⟩
  | symbol name =>
      rw [reduceAs]
      split
      · exact ⟨.refl _, rfl⟩
      · exact ⟨.refl _, rfl⟩
  | definition name x =>
      simp only [reduceAs, reduceDefine]
      split
      · exact ⟨.refl _, rfl⟩
      · exact ⟨.refl _, rfl⟩
  | assignment name x =>
      simp only [reduceAs, reduceAssign]
      split
      · split
        · exact ⟨.refl _, rfl⟩
        · exact ⟨.refl _, rfl⟩
      · exact ⟨.refl _, rfl⟩
  | sequence expressions =>
      by_cases hsome : expressions = .nil
      · subst hsome
        exact ⟨.refl _, rfl⟩
      · rw [reduceAs_sequence c e hsome]
        exact c.toSequence_keeps expressions
  | _ => exact ⟨.refl _, rfl⟩

omit [Saving] in
theorem resumeChoose_keeps (c : Config) (v arms : Value) : (c.resumeChoose v arms).Keeps c := by
  unfold resumeChoose
  split
  · split
    · exact ⟨.refl _, rfl⟩
    · exact ⟨.refl _, rfl⟩
  · split
    · exact ⟨.refl _, rfl⟩
    · exact ⟨.refl _, rfl⟩
    · exact ⟨.refl _, rfl⟩
    · exact ⟨.refl _, rfl⟩

theorem resumeOperands_keeps (c : Config) (callee operands : Value) :
    (c.resumeOperands callee operands).Keeps c := by
  unfold resumeOperands
  split
  · exact ⟨.refl _, rfl⟩
  · split
    · exact ⟨.refl _, rfl⟩
    · rw [pushOperands_eq]
      exact ⟨.refl _, rfl⟩
  · exact ⟨.refl _, rfl⟩

theorem resumeCollect_keeps (c : Config) (v earlier : Value) :
    (c.resumeCollect v earlier).Keeps c := by
  have hpair : c.store.Grows (c.store.newPair v earlier).2 := .newPair v earlier c.store
  simp only [resumeCollect, onStore]
  split
  · exact ⟨hpair, rfl⟩
  · split
    · exact ⟨hpair, rfl⟩
    · simp only [callCollected, onStore]
      split
      · exact ⟨hpair, rfl⟩
      · -- the cell of the last argument, then the list in the right order
        exact ⟨⟨Store.nodes_newList _ _, Nat.le_trans (Nat.le_succ _)
          (Store.nextStamp_newList _ (c.store.newPair v earlier).2)⟩, rfl⟩
    · exact ⟨hpair, rfl⟩

theorem callWithContinuation_keeps (c : Config) (arguments : Value) :
    (c.callWithContinuation arguments).Keeps c := by
  unfold callWithContinuation
  split
  · exact ⟨.refl _, rfl⟩
  · exact ⟨⟨rfl, Nat.le_add_right c.store.nextStamp 2⟩, rfl⟩
  · exact ⟨.refl _, rfl⟩

theorem applyToList_keeps (c : Config) (arguments : Value) :
    (c.applyToList arguments).Keeps c := by
  unfold applyToList
  split
  · exact ⟨.refl _, rfl⟩
  · split
    · exact ⟨.refl _, rfl⟩
    · exact ⟨.refl _, rfl⟩
    · exact ⟨.refl _, rfl⟩
  · exact ⟨.refl _, rfl⟩

theorem callPrimitive_keeps (c : Config) (p : Primitive) (arguments : Value) :
    (c.callPrimitive p arguments).Keeps c := by
  unfold callPrimitive
  split
  · exact ⟨.refl _, rfl⟩
  · rename_i args _
    have hgrows := p.perform_grows arguments args c.shared
    generalize p.perform arguments args c.shared = result at hgrows
    obtain ⟨fault | v | s, shared⟩ := result
    · exact ⟨hgrows, rfl⟩
    · exact ⟨hgrows, rfl⟩
    · exact ⟨hgrows, rfl⟩

end Config

/-! ## Deeds -/

/-- What has been done to the environments. -/
inductive Deed where
  /-- A binding of `name` was put at `node`, right after the marker of the frame. -/
  | defined (frame node : Addr) (name : String)
  /-- The binding at `node` was given another value. -/
  | assigned (node : Addr)
  /-- A frame was opened for a call of a closure made in the frame `home`.  It has a node
  for each of the parameters. -/
  | opened (frame home : Addr) (parameters : List (Addr × String))

/-- The symbols among the parameters of a procedure, in their order. -/
def Parameters.names : Value → List String
  | .pair _ (.symbol name) rest => name :: names rest
  | .pair _ _ rest => names rest
  | .symbol name => [name]
  | _ => []

/-- A call binds the parameters in their order. -/
theorem Parameters.names_of_bindings [Saving] {s : Store} {parameters arguments : Value}
    {made : List (String × Value)} (h : bindings s parameters arguments = .ok made) :
    made.map Prod.fst = names parameters := by
  fun_induction bindings s parameters arguments generalizing made with
  | case1 stamp name rest _ argument arguments ih =>
      cases hrest : bindings s rest arguments with
      | error fault =>
          rw [hrest] at h
          cases h
      | ok others =>
          rw [hrest] at h
          cases h
          rw [List.map_cons, names, ih hrest]
  | case2 stamp head rest _ _ _ hhead ih =>
      rw [ih h]
      cases head with
      | symbol name => exact absurd rfl (hhead name)
      | _ => rfl
  | case3 => cases h
  | case4 name arguments =>
      cases h
      rfl
  | case5 parameters hpair hsymbol =>
      cases h
      cases parameters with
      | pair stamp head tail => exact (hpair stamp head tail rfl).elim
      | symbol name => exact (hsymbol name rfl).elim
      | _ => rfl
  | case6 => cases h

namespace Config

/-- What resuming a frame does to the environments, if it does anything to them. -/
def frameDeed? (c : Config) : FrameKind → Value → Option Deed
  | .define, .symbol name => some (.defined c.env c.store.nodes.size name)
  | .assign, .environment node => some (.assigned node)
  | _, _ => none

/-- What the next step does to the environments, if it does anything to them. -/
def deed? [Saving] (c : Config) : Option Deed :=
  match c.focus with
  | .drain _ =>
    match c.stack.frames with
    | (kind, payload) :: _ => c.frameDeed? kind payload
    | [] => none
  | .call (.closure _ parameters _ home) arguments =>
    match Parameters.bindings c.store parameters arguments with
    | .ok _ =>
      let names := Parameters.names parameters
      let size := c.store.nodes.size
      some (.opened (size + names.length) home (Store.addressed size names))
    | .error _ => none
  | _ => none

/-- What a step may do to the environments: the deed, the store that it leaves, and the
environment that is current then. -/
inductive Effect [Saving] (c : Config) : Option Deed → Store → Addr → Prop
  | kept {t : Store} (hgrows : c.store.Grows t) : Effect c none t c.env
  | restored {v : Value} {node : Addr} {rest : List Frame} (hfocus : c.focus = .drain v)
      (hframes : c.stack.frames = (.restore, .environment node) :: rest) :
      Effect c none c.store node
  | defined {v : Value} {name : String} {rest : List Frame} (hfocus : c.focus = .drain v)
      (hframes : c.stack.frames = (.define, .symbol name) :: rest) :
      Effect c (some (.defined c.env c.store.nodes.size name)) (c.store.define c.env name v) c.env
  /-- Only a frame made by hand defines something that is no symbol. -/
  | keyed {v key : Value} {label : String} {rest : List Frame} (hfocus : c.focus = .drain v)
      (hframes : c.stack.frames = (.define, key) :: rest) (hkey : ∀ name, key ≠ .symbol name) :
      Effect c none (c.store.insertAfter c.env (.keyed label key v)) c.env
  | assigned {v : Value} {node : Addr} {rest : List Frame} (hfocus : c.focus = .drain v)
      (hframes : c.stack.frames = (.assign, .environment node) :: rest) :
      Effect c (some (.assigned node)) (c.store.assign node v) c.env
  | opened {stamp : Nat} {parameters body arguments : Value} {home : Addr}
      {made : List (String × Value)}
      (hfocus : c.focus = .call (.closure stamp parameters body home) arguments)
      (hmade : made.map Prod.fst = Parameters.names parameters) :
      Effect c (some (.opened (c.store.nodes.size + made.length) home
        (Store.addressed c.store.nodes.size (made.map Prod.fst))))
        (c.store.openFrame home made).2 (c.store.nodes.size + made.length)

end Config

/-! ## All steps -/

namespace Config

variable [Saving] {c : Config}

theorem Effect.of_keeps {t : Transition} (h : t.Keeps c) :
    c.Effect none t.config.store t.config.env := by
  rw [h.2]
  exact .kept h.1

/-- What handing a value to the top frame does to the environments. -/
theorem resumeFrame_effect {kind : FrameKind} {payload v : Value} {below : Stack}
    (hfocus : c.focus = .drain v) (hpop : c.stack.pop? = some ((kind, payload), below)) :
    c.Effect (c.frameDeed? kind payload)
      ({ c with stack := below }.resumeFrame kind payload v).config.store
      ({ c with stack := below }.resumeFrame kind payload v).config.env := by
  have hframes := Stack.frames_of_pop? hpop
  -- the frames that do nothing to the environments leave them as the stack below finds them
  have hkeeps {t : Transition} (h : t.Keeps { c with stack := below }) :
      c.Effect none t.config.store t.config.env := .of_keeps h
  cases kind with
  | choose => exact hkeeps (resumeChoose_keeps _ v payload)
  | sequence => exact hkeeps (toSequence_keeps _ payload)
  | define =>
      cases payload with
      | symbol name => exact .defined hfocus hframes
      | _ => exact .keyed hfocus hframes (by simp)
  | assign =>
      cases payload with
      | environment node => exact .assigned hfocus hframes
      | _ => exact hkeeps ⟨.refl _, rfl⟩
  | operands => exact hkeeps (resumeOperands_keeps _ v payload)
  | collect => exact hkeeps (resumeCollect_keeps _ v payload)
  | restore =>
      cases payload with
      | environment node => exact .restored hfocus hframes
      | _ => exact hkeeps ⟨.refl _, rfl⟩
  | operator | operand => exact hkeeps ⟨.refl _, rfl⟩

theorem callClosure_effect {stamp : Nat} {parameters body arguments : Value} {home : Addr}
    (hfocus : c.focus = .call (.closure stamp parameters body home) arguments) :
    c.Effect c.deed? (c.callClosure parameters body home arguments).config.store
      (c.callClosure parameters body home arguments).config.env := by
  simp only [callClosure]
  split
  next fault hfault =>
    have hnone : c.deed? = none := by
      change Parameters.bindings c.store parameters arguments = .error fault at hfault
      simp only [deed?, hfocus, hfault]
    rw [hnone]
    exact .kept (.refl _)
  next made hmade =>
    have hnames := Parameters.names_of_bindings hmade
    have hsome : c.deed? = some (.opened (c.store.nodes.size + made.length) home
        (Store.addressed c.store.nodes.size (made.map Prod.fst))) := by
      change Parameters.bindings c.store parameters arguments = .ok made at hmade
      simp only [deed?, hfocus, hmade, ← hnames, List.length_map]
    have heffect := Effect.opened hfocus hnames
    rw [← Store.openFrame_fst home made c.store] at hsome heffect
    rw [hsome]
    exact heffect

/-- What a step does to the environments. -/
theorem step_effect (c : Config) : c.Effect c.deed? c.step.config.store c.step.config.env := by
  obtain ⟨focus, env, k, sh⟩ := c
  cases focus with
  | reduce e =>
      have hkeeps (c : Config) : (c.reduce e).Keeps c := by
        rw [reduce_eq]
        exact reduceAs_keeps c e _
      exact .of_keeps (hkeeps _)
  | drain v =>
      simp only [step, drain]
      cases hpop : k.pop? with
      | none =>
          have hframes : k.frames = [] := k.pop?_eq_none_iff.mp hpop
          simp only [deed?, hframes]
          exact .kept (.refl _)
      | some top =>
          obtain ⟨⟨kind, payload⟩, below⟩ := top
          simp only [deed?, Stack.frames_of_pop? hpop]
          exact resumeFrame_effect (c := ⟨.drain v, env, k, sh⟩) rfl hpop
  | call callee arguments =>
      cases callee with
      | callWithContinuation => exact .of_keeps (callWithContinuation_keeps _ arguments)
      | applyToList => exact .of_keeps (applyToList_keeps _ arguments)
      | primitive p => exact .of_keeps (callPrimitive_keeps _ p arguments)
      | closure stamp parameters body home => exact callClosure_effect rfl
      | _ => exact .kept (.refl _)

/-- An effect is one of the changes. -/
theorem Effect.changes {deed : Option Deed} {t : Store} {env : Addr}
    (heffect : c.Effect deed t env) : c.store.Changes t := by
  cases heffect with
  | kept hgrows => exact .objects hgrows.nodes hgrows.nextStamp
  | restored => exact .objects rfl (Nat.le_refl _)
  | defined => exact .inserted _ _
  | keyed => exact .inserted _ _
  | assigned => exact .assigned _ _
  | opened => exact .opened _ _

theorem step_changes (c : Config) : c.store.Changes c.step.config.store :=
  c.step_effect.changes

omit [Saving] in
theorem resume_changes (c : Config) (suspension : Suspension) (answer : Option String) :
    c.store.Changes (Config.resume suspension answer c).config.store := by
  obtain ⟨hgrows, _⟩ := c.resume_keeps suspension answer
  exact .objects hgrows.nodes hgrows.nextStamp

end Config

end SchemeMachine
