import SchemeMachine.Proofs.WellFormed
import SchemeMachine.Proofs.World.Laws
import SchemeMachine.Proofs.World.Sessions

/-!
# The machine never loses its way

Wherever an interpreter can get to, every stack is a pile of whole blocks, each frame of
which holds what frames of its kind are made for, and the code in it is data:
`Frame.Proper`.  This goes for the stacks of running and suspended evaluations, for those
that failed evaluations have left, and for those that continuations hold.

A frame is therefore always resumed with what it needs.  The faults that would tell of a
frame in the wrong place do not occur, and of the faults that the language does not
provide for only three do: at a `begin` whose expressions end in something that is no
list, at an arithmetic operation that mixes a double with an integer too large for one,
and at a line of input that cannot be cut into tokens.
-/

namespace SchemeMachine

/-! ## Proper stacks -/

/-- The code that the frames hold is data. -/
def Frame.Coded (frames : List Frame) : Prop :=
  ∀ frame ∈ frames, frame.1.isCode = true → frame.2.IsData

/-- The frames are a pile of blocks, and the code that they hold is data. -/
structure Frame.Proper (frames : List Frame) : Prop where
  wellFormed : Frame.WellFormed frames
  coded : Frame.Coded frames

namespace Frame

variable {kind : FrameKind} {payload : Value} {frames : List Frame}

theorem coded_cons : Coded ((kind, payload) :: frames) ↔
    (kind.isCode = true → payload.IsData) ∧ Coded frames :=
  List.forall_mem_cons

theorem Coded.push (h : Coded frames) (hpayload : payload.IsData) :
    Coded ((kind, payload) :: frames) :=
  coded_cons.mpr ⟨fun _ => hpayload, h⟩

theorem Coded.pushPlain (h : Coded frames) (hkind : kind.isCode = false) :
    Coded ((kind, payload) :: frames) := by
  refine coded_cons.mpr ⟨fun hcode => ?_, h⟩
  rw [hkind] at hcode
  cases hcode

theorem Coded.pushRestore {k : Stack} (h : Coded k.frames) (env : Addr) :
    Coded (k.pushRestore env).frames := by
  rw [Stack.frames_pushRestore]
  split
  · exact h
  · exact h.pushPlain rfl

theorem Coded.forRest {k : Stack} (h : Coded k.frames) {rest : Value} (hrest : rest.IsData) :
    Coded (k.forRest rest).frames := by
  rcases k.frames_forRest rest with ⟨_, hframes⟩ | ⟨_, hframes⟩
  · rwa [hframes]
  · rw [hframes]
    exact h.push hrest

theorem Coded.below {k below : Stack} (h : Coded k.frames)
    (hpop : k.pop? = some ((kind, payload), below)) :
    (kind.isCode = true → payload.IsData) ∧ Coded below.frames := by
  rw [Stack.frames_of_pop? hpop] at h
  exact coded_cons.mp h

end Frame

/-- Every stack is proper, code is data, and closures have bodies. -/
def Law.documented : Law where
  requirement :=
    { closure := fun parameters body _ =>
        body.isBody = true ∧ parameters.IsData ∧ body.IsData
      continuation := fun _ frames => Frame.Proper frames }
  frames := Frame.Proper
  expression e _ := e.IsData

/-! ## The machine keeps its stacks proper -/

namespace Config

variable {c : Config}

theorem Goes.coded {focus : Focus} {env : Addr} {k : Stack} (hgoes : c.Goes focus env k)
    (h : c.Obeys .documented) :
    Frame.Coded k.frames ∧ ∀ e, focus = .reduce e → e.IsData := by
  have hcoded : Frame.Coded c.stack.frames := h.frames.law.coded
  have hdata {e : Value} (hfocus : c.focus = .reduce e) : e.IsData := h.focus.expression e hfocus
  have hparts {e : Value} {form : Form} (hfocus : c.focus = .reduce e)
      (hform : Form.of e = form) : form.AllData := hform ▸ Form.allData_of (hdata hfocus)
  have hcallee := h.focus.meets
  cases hgoes with
  | valued hfocus => exact ⟨hcoded, nofun⟩
  | tested hfocus hform =>
      refine ⟨hcoded.push (hdata hfocus).afterSecond, ?_⟩
      rintro _ ⟨⟩
      exact (hparts hfocus hform).1
  | begun hfocus hform =>
      obtain ⟨hx, hrest⟩ := Value.isData_pair.mp (hparts hfocus hform)
      refine ⟨hcoded.forRest hrest, ?_⟩
      rintro _ ⟨⟩
      exact hx
  | named hfocus hform => exact ⟨hcoded.push ⟨_, rfl⟩, nofun⟩
  | defining hfocus hform =>
      refine ⟨hcoded.push ⟨_, rfl⟩, ?_⟩
      rintro _ ⟨⟩
      exact (hparts hfocus hform).2
  | assigning hfocus hform hfind =>
      refine ⟨hcoded.pushPlain rfl, ?_⟩
      rintro _ ⟨⟩
      exact (hparts hfocus hform).2
  | applying hfocus hform =>
      obtain ⟨hoperator, hoperands⟩ := hparts hfocus hform
      refine ⟨hcoded.push hoperands, ?_⟩
      rintro _ ⟨⟩
      exact hoperator
  | chosen hfocus hpop harm =>
      obtain ⟨harms, hbelow⟩ := hcoded.below hpop
      refine ⟨hbelow, ?_⟩
      rintro _ ⟨⟩
      exact (harms rfl).items harm
  | noted hfocus hpop hkind => exact ⟨(hcoded.below hpop).2, nofun⟩
  | advanced hfocus hpop =>
      obtain ⟨hpayload, hbelow⟩ := hcoded.below hpop
      obtain ⟨hx, hrest⟩ := Value.isData_pair.mp (hpayload rfl)
      refine ⟨hbelow.forRest hrest, ?_⟩
      rintro _ ⟨⟩
      exact hx
  | calling hfocus hpop => exact ⟨(hcoded.below hpop).2, nofun⟩
  | @operandsBegun v first rest stamp others below hfocus hpop hothers =>
      obtain ⟨hpayload, hbelow⟩ := hcoded.below hpop
      obtain ⟨hfirst, hrest⟩ := Value.isData_pair.mp (hpayload rfl)
      constructor
      · rw [Stack.frames_push, Stack.frames_pushOperands, Stack.frames_push]
        refine Frame.Coded.pushPlain ?_ rfl
        intro frame hmem hcode
        rcases List.mem_append.mp hmem with hoperand | hbelowMem
        · obtain ⟨operand, hmember, rfl⟩ := List.mem_map.mp hoperand
          exact hrest.items (Value.items_of_elements hothers ▸ hmember)
        · exact hbelow.pushPlain rfl frame hbelowMem hcode
      · rintro _ ⟨⟩
        exact hfirst
  | operandCollected hfocus hpop hnext =>
      obtain ⟨he, hrest⟩ := (hcoded.below hpop).2.below hnext
      refine ⟨hrest.pushPlain rfl, ?_⟩
      rintro _ ⟨⟩
      exact he rfl
  | operandsCollected hfocus hpop hnext =>
      exact ⟨((hcoded.below hpop).2.below hnext).2, nofun⟩
  | restored hfocus hpop => exact ⟨(hcoded.below hpop).2, nofun⟩
  | answered hfocus => exact ⟨hcoded, nofun⟩
  | passed hfocus => exact ⟨hcoded, nofun⟩
  | captured hfocus hone => exact ⟨hcoded.pushRestore c.env, nofun⟩
  | entered hfocus =>
      rw [hfocus] at hcallee
      exact ⟨(hcoded.pushRestore c.env).push hcallee.1.1.2.2, nofun⟩
  | reinstated hfocus =>
      rw [hfocus] at hcallee
      exact ⟨hcallee.1.1.coded, nofun⟩

theorem Goes.proper {focus : Focus} {env : Addr} {k : Stack} (hgoes : c.Goes focus env k)
    (h : c.Obeys .documented) : Frame.Proper k.frames := by
  have hcallee := h.focus.meets
  refine ⟨hgoes.moves.wellFormed h.frames.law.wellFormed ?_ ?_, (hgoes.coded h).1⟩
  · rintro stamp parameters body home arguments hfocus rfl
    rw [hfocus] at hcallee
    cases hcallee.1.1.1
  · intro stamp frames arguments hfocus
    rw [hfocus] at hcallee
    exact hcallee.1.1.wellFormed

/-- A collecting frame of a proper stack lies above an operand or an operator, and what
it has collected is a list. -/
theorem proper_collect {earlier : Value} {below : Stack} (h : Frame.Proper c.stack.frames)
    (hpop : c.stack.pop? = some ((.collect, earlier), below)) :
    (∃ items, earlier.elements = .ok items) ∧ ∃ frame rest, below.frames = frame :: rest ∧
      (frame.1 = .operand ∨ frame.1 = .operator) := by
  have hwellFormed := h.wellFormed
  rw [Stack.frames_of_pop? hpop] at hwellFormed
  obtain ⟨operands, callee, rest, hbelow, hearlier, hrest⟩ := hwellFormed.of_collect
  refine ⟨hearlier, ?_⟩
  cases operands with
  | nil => exact ⟨_, _, hbelow, .inr rfl⟩
  | cons operand operands => exact ⟨_, _, hbelow, .inl rfl⟩

/-- The single frames of a proper stack hold what they are made for. -/
theorem proper_single {kind : FrameKind} {payload : Value} {below : Stack}
    (h : Frame.Proper c.stack.frames) (hpop : c.stack.pop? = some ((kind, payload), below))
    (hkind : kind ≠ .collect) :
    (kind.isOfForm = true ∨ kind = .restore) ∧ Frame.Documented (kind, payload) ∧
      Frame.Proper below.frames := by
  have hcoded := (h.coded.below hpop).2
  have hwellFormed := h.wellFormed
  rw [Stack.frames_of_pop? hpop] at hwellFormed
  generalize hframes : (kind, payload) :: below.frames = frames at hwellFormed
  cases hwellFormed with
  | nil => cases hframes
  | single hsingle hpayload hrest =>
      cases hframes
      exact ⟨hsingle, hpayload, hrest, hcoded⟩
  | arguments operands hearlier hrest =>
      injection hframes with hframe
      cases hframe
      exact absurd rfl hkind

end Config

/-! ## What can go wrong -/

namespace Fault

/-- The fault is one that the language provides for, or one of the three others. -/
def IsDocumented (fault : Fault) : Prop :=
  fault.isOrdinary = true ∨ fault = .literalMissing ∨ fault = .tooLargeForDouble ∨
    ∃ type ∈ ["bool", "int", "float", "str", "Symbol"], fault = .noPart type "cdr"

theorem IsDocumented.not_internal {fault : Fault} (h : fault.IsDocumented) :
    fault.isInternal = false := by
  rcases h with hordinary | rfl | rfl | ⟨type, _, rfl⟩
  · rw [isOrdinary, Bool.and_eq_true] at hordinary
    simpa using hordinary.2
  · rfl
  · rfl
  · rfl

end Fault

namespace Number

/-- The one number is exact and too large for a double, and the other is inexact. -/
def Unmixable (m n : Number) : Prop :=
  ∃ k x, Double.ofInt? k = none ∧ (m = exact k ∧ n = inexact x ∨ m = inexact x ∧ n = exact k)

theorem unmixable_of_apply? {op : Operation} {m n : Number} (h : op.apply? m n = none) :
    Unmixable m n := by
  cases m with
  | exact i =>
      cases n with
      | exact j => cases h
      | inexact y =>
          simp only [toDouble?, Operation.apply?] at h
          cases hi : Double.ofInt? i with
          | none => exact ⟨i, y, hi, .inl ⟨rfl, rfl⟩⟩
          | some x => simp [hi] at h
  | inexact x =>
      cases n with
      | exact j =>
          simp only [toDouble?, Operation.apply?] at h
          cases hj : Double.ofInt? j with
          | none => exact ⟨j, x, hj, .inr ⟨rfl, rfl⟩⟩
          | some y => simp [hj] at h
      | inexact y => simp [toDouble?, Operation.apply?] at h

end Number

namespace Config

variable {c : Config}

/-- The faults that a step of the machine can fail with. -/
inductive Raises (c : Config) : Fault → Prop
  /-- One that the language provides for. -/
  | ordinary {fault : Fault} (h : fault.isOrdinary = true) : Raises c fault
  /-- A `begin` without a list of expressions. -/
  | sequenceForm {e rest : Value} (hfocus : c.focus = .reduce e)
      (hform : Form.of e = .sequence rest) (hpair : ∀ stamp x more, rest ≠ .pair stamp x more)
      (htype : rest.typeName ∈ ["bool", "int", "float", "str", "Symbol"]) :
      Raises c (.noPart rest.typeName "cdr")
  /-- A `begin` whose list of expressions has come to an end that is no list. -/
  | sequenceFrame {v rest : Value} {below : List Frame} (hfocus : c.focus = .drain v)
      (hframes : c.stack.frames = (.sequence, rest) :: below)
      (hpair : ∀ stamp x more, rest ≠ .pair stamp x more)
      (htype : rest.typeName ∈ ["bool", "int", "float", "str", "Symbol"]) :
      Raises c (.noPart rest.typeName "cdr")
  /-- An arithmetic operation on an inexact number and an exact one that is too large. -/
  | tooLarge {p : Primitive} {arguments : Value} {m n : Number}
      (hfocus : c.focus = .call (.primitive p) arguments)
      (hp : p = .add ∨ p = .subtract ∨ p = .multiply)
      (hargs : arguments.elements = .ok [.number m, .number n]) (hmixed : m.Unmixable n) :
      Raises c .tooLargeForDouble

theorem Raises.isDocumented {fault : Fault} (h : c.Raises fault) : fault.IsDocumented := by
  cases h with
  | ordinary h => exact .inl h
  | sequenceForm _ _ _ htype => exact .inr (.inr (.inr ⟨_, htype, rfl⟩))
  | sequenceFrame _ _ _ htype => exact .inr (.inr (.inr ⟨_, htype, rfl⟩))
  | tooLarge => exact .inr (.inr (.inl rfl))

theorem arithmetic_of_operation? {p : Primitive} {op : Number.Operation}
    (h : p.operation? = some op) : p = .add ∨ p = .subtract ∨ p = .multiply := by
  cases p with
  | add => exact .inl rfl
  | subtract => exact .inr (.inl rfl)
  | multiply => exact .inr (.inr rfl)
  | _ => cases h

/-- On a proper stack a step fails only in these ways, and leaves a proper stack. -/
theorem Fails.raises {fault : Fault} {k : Stack} (hfails : c.Fails fault k)
    (h : c.Obeys .documented) : c.Raises fault ∧ Frame.Proper k.frames := by
  have hproper : Frame.Proper c.stack.frames := h.frames.law
  cases hfails with
  | refused hfocus hfault | uncalled hfocus hfault =>
      exact ⟨.ordinary (Fault.isOrdinary_of_isOfProgram hfault), hproper⟩
  | stuckForm hfocus hform hsome hpair =>
      have hparts := Form.allData_of (h.focus.expression _ hfocus)
      rw [hform] at hparts
      exact ⟨.sequenceForm hfocus hform hpair (hparts.typeName_mem hsome hpair), hproper⟩
  | stuckFrame hfocus hpop hpair =>
      obtain ⟨_, hsome, hbelow⟩ := proper_single hproper hpop nofun
      have hdata := (hproper.coded.below hpop).1 rfl
      exact ⟨.sequenceFrame hfocus (Stack.frames_of_pop? hpop) hpair
        (hdata.typeName_mem hsome hpair), hbelow⟩
  | armless hfocus hpop hone htwo =>
      obtain ⟨_, harms, _⟩ := proper_single hproper hpop nofun
      rcases harms with ⟨stamp, x, rfl⟩ | ⟨stamp, x, inner, y, rfl⟩
      · exact absurd rfl (hone stamp x)
      · exact absurd rfl (htwo stamp x inner y)
  | operandsRefused hfocus hpop =>
      exact ⟨.ordinary rfl, (proper_single hproper hpop nofun).2.2⟩
  | collectorLost hfocus hpop hnext =>
      obtain ⟨_, frame, rest, hbelow, _⟩ := proper_collect hproper hpop
      rw [hnext] at hbelow
      cases hbelow
  | collectorMisled hfocus hpop hnext hoperand hoperator =>
      obtain ⟨_, frame, rest, hbelow, hframe⟩ := proper_collect hproper hpop
      rw [Stack.frames_of_pop? hnext] at hbelow
      cases hbelow
      rcases hframe with hkind | hkind
      · exact absurd hkind hoperand
      · exact absurd hkind hoperator
  | collectedRefused hfocus hpop hnext hearlier =>
      obtain ⟨⟨items, hitems⟩, _⟩ := proper_collect hproper hpop
      exact absurd hitems (hearlier items)
  | @misplaced v payload kind below hfocus hpop hkind =>
      have hcollect : kind ≠ .collect := by
        rintro rfl
        rcases hkind with hkind | hkind | ⟨hkind | hkind, _⟩
        all_goals cases hkind
      obtain ⟨hsingle, hpayload, _⟩ := proper_single hproper hpop hcollect
      rcases hkind with rfl | rfl | ⟨rfl | rfl, hnode⟩
      · rcases hsingle with hsingle | hsingle
        all_goals cases hsingle
      · rcases hsingle with hsingle | hsingle
        all_goals cases hsingle
      · obtain ⟨node, rfl⟩ := hpayload
        exact absurd rfl (hnode node)
      · obtain ⟨node, rfl⟩ := hpayload
        exact absurd rfl (hnode node)
  | overflowed hfocus hp hargs hnone =>
      exact ⟨.tooLarge hfocus (arithmetic_of_operation? hp) hargs
        (Number.unmixable_of_apply? hnone), hproper⟩
  | unbound hfocus hfault =>
      have hcallee := h.focus.meets
      rw [hfocus] at hcallee
      obtain ⟨hbody, _, hdata⟩ := hcallee.1.1
      refine ⟨.ordinary (Fault.isOrdinary_of_isOfProgram hfault),
        .single (.inl rfl) ?_ (hproper.wellFormed.save c.env),
        (hproper.coded.pushRestore c.env).push hdata⟩
      rintro rfl
      cases hbody

end Config

theorem Law.documented_kept : Law.documented.Kept := by
  refine Law.kept_of ?_ ?_ ?_ ?_
  · intro c e parameters body h hfocus hmakes hbody
    have hparts := Form.allData_of (h.focus.expression e hfocus)
    generalize Form.of e = form at hmakes hparts
    cases hmakes with
    | lambda => exact ⟨hbody, hparts⟩
    | procedure => exact ⟨hbody, hparts.2⟩
  · intro c h
    exact ⟨h.frames.law.wellFormed.save c.env, h.frames.law.coded.pushRestore c.env⟩
  · intro c focus env k h hgoes
    exact ⟨hgoes.proper h, (hgoes.coded h).2⟩
  · intro c fault k h hfails
    exact (hfails.raises h).2

/-- Everything is as documented in every world that can be reached. -/
theorem World.Reachable.documented {w : World} (h : w.Reachable) : w.Obeys .documented := by
  obtain ⟨es, hevaluated⟩ := h.evaluated
  have hempty : Frame.Proper [] := ⟨.nil, fun frame hmem => absurd hmem List.not_mem_nil⟩
  have hle : Law.documented ≤ Law.documented :=
    ⟨⟨fun _ _ _ hmet => hmet, fun _ _ hmet => hmet⟩, fun _ hframes => hframes, fun _ _ he => he⟩
  exact hevaluated.obeys (fun _ => .documented) (fun _ => Law.documented_kept)
    (fun _ => hempty) (fun _ _ => hle) fun _ _ hdata => hdata

theorem Config.resume_raises {c after : Config} {suspension : Suspension} {answer : Option String}
    {fault : Fault} (h : Config.resume suspension answer c = .failed fault after) :
    fault.isOrdinary = true ∨
      fault = .literalMissing ∧ ∃ text, answer = some text ∧ Token.isCut text = false :=
  (Config.resume_fault h).imp_left Fault.isOrdinary_of_isOfProgram

theorem World.Reachable.raises {w : World} (h : w.Reachable) {th : Thread} (hth : th ∈ w.threads)
    {focus : Focus} {fault : Fault} {after : Config} (hphase : th.phase = .running focus)
    (hstep : Config.step ⟨focus, th.env, th.stack, w.shared⟩ = .failed fault after) :
    Config.Raises ⟨focus, th.env, th.stack, w.shared⟩ fault := by
  have hfollows := Config.step_follows ⟨focus, th.env, th.stack, w.shared⟩
  rw [hstep] at hfollows
  exact (hfollows.raises (h.documented.config hth hphase)).1

theorem Fault.IsKnown.isDocumented {fault : Fault} (h : fault.IsKnown) : fault.IsDocumented := by
  rcases h with hordinary | hliteral | ⟨w, hw, hraises⟩
  · exact .inl hordinary
  · exact .inr (.inl hliteral)
  · cases hraises with
    | stepped hth hphase hstep => exact (hw.raises hth hphase hstep).isDocumented
    | resumed hth hphase hresume =>
        rcases Config.resume_raises hresume with hordinary | ⟨hliteral, _⟩
        · exact .inl hordinary
        · exact .inr (.inl hliteral)

/-- **Stacks are always proper.**  In every world that can be reached, every stack is
proper, and so is the stack of every continuation that is held anywhere; a step fails only
as `Config.Raises` says, which is never for a frame that is missing or in the wrong place;
and an answer of the host fails only for what is in it.  So whatever the user of an
interpreter does, the evaluations have proper stacks, and no command ends in a fault that
would mean that the machine has lost its way, unless a file with such a fault was given. -/
theorem stacks_are_always_proper :
    (∀ w : World, w.Reachable →
      (∀ th ∈ w.threads, Frame.Proper th.stack.frames) ∧ w.Obeys .documented ∧
      (∀ th ∈ w.threads, ∀ focus fault after, th.phase = .running focus →
        Config.step ⟨focus, th.env, th.stack, w.shared⟩ = .failed fault after →
        fault.isInternal = false ∧ Config.Raises ⟨focus, th.env, th.stack, w.shared⟩ fault) ∧
      ∀ th ∈ w.threads, ∀ suspension answer fault after, th.phase = .suspended suspension →
        Config.resume suspension answer ⟨.drain .void, th.env, th.stack, w.shared⟩ =
          .failed fault after →
        fault.isOrdinary = true ∨
          fault = .literalMissing ∧ ∃ text, answer = some text ∧ Token.isCut text = false) ∧
    ∀ history lines outcomes s, Session.Leads history (.start lines) outcomes s →
      (∀ ev ∈ s.evaluations, Frame.Proper ev.stack.frames) ∧
      ∀ failure, .failed failure ∈ outcomes →
        (failure.fault.isInternal = false ∧ failure.fault.IsDocumented) ∨
          ∃ name, .load name (.error failure.fault) ∈ history := by
  constructor
  · intro w hw
    have hdocumented := hw.documented
    refine ⟨fun th hth => (hdocumented.threads th hth).1.law, hdocumented, ?_, ?_⟩
    · intro th hth focus fault after hphase hstep
      have hraises := hw.raises hth hphase hstep
      exact ⟨hraises.isDocumented.not_internal, hraises⟩
    · intro th hth suspension answer fault after hphase hresume
      exact Config.resume_raises hresume
  · intro history lines outcomes s hleads
    obtain ⟨⟨threads, captures, hw, hshown⟩, hfault⟩ := hleads.reached (Session.start_reached lines)
    constructor
    · intro ev hev
      obtain ⟨records, hth⟩ := hshown.exists_thread (List.mem_reverse.mpr hev)
      have hproper := (hw.documented.threads _ hth).1.law
      rwa [Thread.stack_ofEvaluation] at hproper
    · intro failure hfailed
      rcases hfault failure hfailed with hknown | hload
      · exact .inl ⟨hknown.isDocumented.not_internal, hknown.isDocumented⟩
      · exact .inr hload

/-- In `(begin 1 . 2)` the frame that waits for the value of `1` holds `2`, and fails with
it on a stack that is proper.  So does the command that evaluates it. -/
theorem stacks_are_always_proper_of_dotted_sequence :
    ∃ (d : Datum) (w : World) (th : Thread) (focus : Focus) (after : Config), w.Reachable ∧
      th ∈ w.threads ∧ th.phase = .running focus ∧ Frame.Proper th.stack.frames ∧
      Config.step ⟨focus, th.env, th.stack, w.shared⟩ = .failed (.noPart "int" "cdr") after ∧
      Config.Raises ⟨focus, th.env, th.stack, w.shared⟩ (.noPart "int" "cdr") ∧
      ∃ s, Session.Leads [.evaluate d] (.start []) [.failed ⟨.noPart "int" "cdr", none⟩] s ∧
        (Fault.noPart "int" "cdr").IsDocumented := by
  have hw := World.reachable_alone
    (.ofList [.symbol "begin", .number (.exact 1)] (.number (.exact 2))) 3
  have hleads : Session.Leads
      [.evaluate (.ofList [.symbol "begin", .number (.exact 1)] (.number (.exact 2)))] (.start [])
      [.failed ⟨.noPart "int" "cdr", none⟩] _ := ⟨4, rfl⟩
  obtain ⟨hworld, hsession⟩ := stacks_are_always_proper
  obtain ⟨hproper, _, hraises, _⟩ := hworld _ hw
  obtain ⟨_, hfault⟩ := hsession _ _ _ _ hleads
  refine ⟨_, _, _, _, _, hw, List.mem_cons_self, rfl, hproper _ List.mem_cons_self, rfl,
    (hraises _ List.mem_cons_self _ _ _ rfl rfl).2, _, hleads, ?_⟩
  rcases hfault _ List.mem_cons_self with ⟨_, hdocumented⟩ | ⟨name, hload⟩
  · exact hdocumented
  · cases hload with
    | tail _ hnone => cases hnone

end SchemeMachine
