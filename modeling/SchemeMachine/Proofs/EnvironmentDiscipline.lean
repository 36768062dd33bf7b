import SchemeMachine.Proofs.Moves
import SchemeMachine.Proofs.World.Captures

/-!
# Code runs in the environment it belongs to

The machine has one current environment, which only calls and restoring frames
change.  A call saves the environment it leaves unless the top frame restores one
anyway, and a continuation that is called leaves the environment of its caller for
one more step.  Even so every frame finds the environment that its code belongs to.

The invariant, `Owned`, reads the stack from the top.  Down to the first restoring
frame everything belongs to the current environment, and below that frame everything
belongs to the environment it restores.  What is current does not matter when a
restoring frame is on top, and such are the stacks that continuations hold.
-/

namespace SchemeMachine

/-- The records of some frames are right, if they are resumed in the environment
`env`. -/
inductive Owned : Addr → List Frame → Records → Prop
  | nil {env : Addr} : Owned env [] []
  | restore {env node : Addr} {frames : List Frame} {records : Records}
      (h : Owned node frames records) :
      Owned env ((.restore, .environment node) :: frames) (none :: records)
  | other {env : Addr} {kind : FrameKind} {payload : Value} {frames : List Frame}
      {records : Records} (hkind : kind ≠ .restore) (h : Owned env frames records) :
      Owned env ((kind, payload) :: frames)
        (Records.entry (some env) (kind, payload) :: records)

namespace Owned

variable {env found : Addr} {frames : List Frame} {records : Records}

theorem length_eq (h : Owned env frames records) : records.length = frames.length := by
  induction h with
  | nil => rfl
  | restore _ ih => rw [List.length_cons, List.length_cons, ih]
  | other _ _ ih => rw [List.length_cons, List.length_cons, ih]

/-- A restoring frame on top makes the current environment irrelevant. -/
theorem of_restore (h : Owned env frames records)
    (htop : frames.head?.map (·.1) = some .restore) (found : Addr) :
    Owned found frames records := by
  cases h with
  | nil => cases htop
  | restore h => exact .restore h
  | other hkind _ => exact absurd (Option.some.inj htop) hkind

theorem keep (h : Owned env frames records) (owner : Option Addr) :
    Owned env frames (Records.grow owner records frames) := by
  have hgrow : Records.grow owner records frames = records :=
    Records.grow_append owner h.length_eq []
  rwa [hgrow]

/-- A frame is pushed for code that belongs to the current environment. -/
theorem push {base : Records} (h : Owned env frames (Records.grow (some env) base frames))
    (hlength : base.length ≤ frames.length) {kind : FrameKind} (hkind : kind ≠ .restore)
    (payload : Value) :
    Owned env ((kind, payload) :: frames)
      (Records.grow (some env) base ((kind, payload) :: frames)) := by
  rw [Records.grow_cons _ hlength]
  exact .other hkind h

theorem pushOperands {base : Records}
    (h : Owned env frames (Records.grow (some env) base frames))
    (hlength : base.length ≤ frames.length) (others : List Value) :
    Owned env (others.map (FrameKind.operand, ·) ++ frames)
      (Records.grow (some env) base (others.map (FrameKind.operand, ·) ++ frames)) := by
  induction others with
  | nil => exact h
  | cons other others ih =>
      refine push ih ?_ (by decide) other
      rw [List.length_append]
      omega

/-- The top frame, if it holds code, holds code of the current environment. -/
theorem head {top frame : Frame} {record : Option Addr} (h : Owned env (top :: frames) records)
    (hcode : frame.1.isCode = true) (hmem : (frame, record) ∈ [top].zip records) :
    record = some env := by
  cases h with
  | restore h =>
      cases List.mem_singleton.mp hmem
      cases hcode
  | other hkind h =>
      cases List.mem_singleton.mp hmem
      exact if_pos hcode

/-- What is above a saved environment may run in any other. -/
theorem pushRestore {k : Stack} (h : Owned env k.frames records) (found : Addr)
    (owner : Option Addr) :
    Owned found (k.pushRestore env).frames
      (Records.grow owner records (k.pushRestore env).frames) := by
  rw [Stack.frames_pushRestore]
  by_cases htop : k.top? = some .restore
  · rw [if_pos htop]
    exact (h.of_restore htop found).keep owner
  · rw [if_neg htop, Records.grow_cons owner (Nat.le_of_eq h.length_eq)]
    exact .restore (h.keep owner)

end Owned

namespace Config

variable {c : Config} {captures : List Capture} {records : Records} {env : Addr}
  {frames : List Frame}

/-- The records stay right over a step. -/
theorem Moves.owned (hmoves : c.Moves env frames) (h : Owned c.env c.stack.frames records)
    (hcaptures : ∀ capture ∈ captures, Owned capture.env capture.stack.frames capture.records)
    (hcontinuation : ∀ stamp frames arguments,
      c.focus = .call (.continuation stamp frames) arguments →
      ∃ capture, captures.find? (·.stamp = stamp) = some capture ∧ capture.frames = frames) :
    Owned env frames (c.recordsAfter captures records env frames) := by
  have hlength := h.length_eq
  cases hmoves with
  | reduced hfocus =>
      simp only [recordsAfter, hfocus]
      exact h.keep _
  | @pushed e kind payload hfocus hkind hpayload =>
      simp only [recordsAfter, hfocus]
      refine (h.keep _).push (Nat.le_of_eq hlength) ?_ payload
      rintro rfl
      cases hkind
  | @popped v kind payload rest hfocus hframes hkind =>
      rw [hframes] at h
      cases h with
      | restore h => cases hkind
      | other hne h =>
          cases kind with
          | choose | sequence | define | assign | operands =>
              simp only [recordsAfter, hfocus, Stack.top?, hframes]
              exact h.keep _
          | _ => cases hkind
  | @advanced v expressions more rest hfocus hframes hmore =>
      rw [hframes] at h
      cases h with
      | other hne h =>
          simp only [recordsAfter, hfocus, Stack.top?, hframes]
          exact (h.keep _).push (Nat.le_of_eq h.length_eq) hne more
  | @operandsBegun v chain others rest hfocus hframes =>
      rw [hframes] at h
      cases h with
      | other hne h =>
          simp only [recordsAfter, hfocus, Stack.top?, hframes]
          have hle := Nat.le_of_eq h.length_eq
          have hoperator := (h.keep _).push hle (show FrameKind.operator ≠ .restore by decide) v
          refine (hoperator.pushOperands (Nat.le_succ_of_le hle) others).push ?_ (by decide) .nil
          rw [List.length_append, List.length_cons]
          omega
  | @operandCollected v earlier e stamp rest hfocus hframes =>
      rw [hframes] at h
      cases h with
      | other hcollect h =>
          cases h with
          | other hoperand h =>
              simp only [recordsAfter, hfocus, Stack.top?, hframes, List.head?_cons,
                Option.map_some]
              rw [Records.grow_cons _ (Nat.le_of_eq h.length_eq)]
              exact .other hcollect (h.keep _)
  | operandsCollected hfocus hframes =>
      rw [hframes] at h
      cases h with
      | other hcollect h =>
          cases h with
          | other hoperator h =>
              simp only [recordsAfter, hfocus, Stack.top?, hframes]
              exact h.keep _
  | restored hfocus hframes =>
      rw [hframes] at h
      cases h with
      | restore h =>
          simp only [recordsAfter, hfocus, Stack.top?, hframes]
          exact h.keep _
      | other hne h => exact absurd rfl hne
  | @called callee arguments hfocus hcallee =>
      have hkept := h.keep (some c.env)
      cases callee with
      | continuation stamp frames => exact absurd rfl (hcallee stamp frames)
      | _ => simpa only [recordsAfter, hfocus] using hkept
  | captured hfocus hone =>
      simp only [recordsAfter, hfocus]
      exact h.pushRestore c.env _
  | @entered stamp parameters body arguments home frame hfocus =>
      simp only [recordsAfter, hfocus, Saving.save_eliding]
      refine (h.pushRestore env _).push ?_ (by decide) body
      rw [Stack.frames_pushRestore, hlength]
      split
      · exact Nat.le_refl _
      · exact Nat.le_succ _
  | reinstated hfocus =>
      obtain ⟨capture, hfind, rfl⟩ := hcontinuation _ _ _ hfocus
      simp only [recordsAfter, hfocus, hfind]
      exact (hcaptures capture (List.mem_of_find?_eq_some hfind)).pushRestore c.env none

end Config

/-! ## Every world that can be reached -/

namespace World

/-- The records of every stack that may still be run are right. -/
structure Disciplined (w : World) : Prop where
  threads : ∀ th ∈ w.threads, th.phase ≠ .over → Owned th.env th.stack.frames th.records
  captures : ∀ capture ∈ w.captures, Owned capture.env capture.stack.frames capture.records

/-- A continuation in the focus brings back the capture with its stamp. -/
theorem Traced.find?_capture {w : World} (h : w.Traced) {th : Thread} (hth : th ∈ w.threads)
    {stamp : Nat} {frames : List Frame} {arguments : Value}
    (hphase : th.phase = .running (.call (.continuation stamp frames) arguments)) :
    ∃ capture, w.captures.find? (·.stamp = stamp) = some capture ∧ capture.frames = frames := by
  have hthread := h.threads th hth
  rw [Thread.Meets, hphase] at hthread
  obtain ⟨⟨⟨capture, hmem, hstamp, hframes⟩, _⟩, _⟩ := hthread.1
  obtain ⟨found, hfound⟩ : ∃ found, w.captures.find? (·.stamp = stamp) = some found := by
    rw [← Option.isSome_iff_exists, List.find?_isSome]
    exact ⟨capture, hmem, by simp [hstamp]⟩
  have hsame : found.stamp = capture.stamp := by
    have hfoundStamp := List.find?_some hfound
    rw [hstamp]
    simpa using hfoundStamp
  have heq := h.capture_unique hmem (List.mem_of_find?_eq_some hfound) hsame
  exact ⟨found, hfound, heq ▸ hframes⟩

theorem Disciplined.stepped {sh : Shared} {before after : List Thread} {captures : List Capture}
    {focus : Focus} {env : Addr} {k : Stack} {records : Records} {c : Config}
    (hc : c = ⟨focus, env, k, sh⟩)
    (htraced : Traced ⟨sh, before ++ ⟨.running focus, env, k, records⟩ :: after, captures⟩)
    (h : Disciplined ⟨sh, before ++ ⟨.running focus, env, k, records⟩ :: after, captures⟩) :
    Disciplined ⟨c.step.config.shared,
      before ++ .ofTransition (c.nextRecords captures records) c.step :: after,
      (c.capture? records).toList ++ captures⟩ := by
  have hmem : (⟨.running focus, env, k, records⟩ : Thread) ∈
      before ++ ⟨.running focus, env, k, records⟩ :: after := by simp
  have hthread : Owned env k.frames records := h.threads _ hmem nofun
  constructor
  · have hnext : ∀ {next : Addr} {frames : List Frame}, c.Moves next frames →
        Owned next frames (c.recordsAfter captures records next frames) := by
      subst hc
      refine fun hmoves => hmoves.owned hthread h.captures fun stamp frames arguments hfocus => ?_
      exact htraced.find?_capture hmem (congrArg Thread.Phase.running hfocus)
    refine forall_mem_replace h.threads ?_
    rw [Config.nextRecords]
    have hmoved := c.step_moved
    generalize c.step = t at hmoved
    cases t with
    | running after => exact fun _ => hnext hmoved
    | suspended suspension after => exact fun _ => hnext hmoved
    | finished v after => exact fun hphase => absurd rfl hphase
    | failed fault after => exact fun hphase => absurd rfl hphase
  · intro capture hmem
    rcases List.mem_append.mp hmem with hnew | hold
    · obtain ⟨rfl, _⟩ := Config.capture?_eq_some (Option.mem_toList.mp hnew)
      subst hc
      exact hthread
    · exact h.captures capture hold

theorem Reachable.disciplined {w : World} (h : w.Reachable) : w.Disciplined := by
  induction h with
  | initial sh hstore =>
      exact ⟨fun th hmem => absurd hmem List.not_mem_nil,
        fun capture hmem => absurd hmem List.not_mem_nil⟩
  | step h hstep ih =>
      cases hstep with
      | submitted d env => exact ⟨List.forall_mem_cons.mpr ⟨fun _ => .nil, ih.threads⟩, ih.captures⟩
      | @started sh before after captures e env k records =>
          have hthread := ih.threads ⟨.ready e, env, k, records⟩ (by simp) nofun
          exact ⟨forall_mem_replace ih.threads fun _ => hthread, ih.captures⟩
      | stepped hc => exact ih.stepped hc h.traced
      | @resumed sh before after captures suspension env k records t answer ht =>
          have hthread := ih.threads ⟨.suspended suspension, env, k, records⟩ (by simp) nofun
          refine ⟨forall_mem_replace ih.threads fun hphase => ?_, ih.captures⟩
          -- an answer leaves the environment and the stack as they are
          obtain ⟨henv, hstack⟩ := Config.resume_config suspension answer ⟨.drain .void, env, k, sh⟩
          obtain ⟨henv', hstack', hrecords⟩ := Thread.ofTransition_eq records t
          rw [henv', hstack', hrecords, ht, henv, hstack]
          exact hthread
      | abandoned =>
          exact ⟨forall_mem_replace ih.threads fun hphase => absurd rfl hphase, ih.captures⟩
      | hosted next hstore => exact ⟨ih.threads, ih.captures⟩

end World

/-- The frames that are taken off when a value is handed to the stack: the top one,
and if that collects an argument, the one below it. -/
def Stack.takenOff (k : Stack) : List Frame :=
  match k.frames with
  | (.collect, earlier) :: frame :: _ => [(.collect, earlier), frame]
  | frame :: _ => [frame]
  | [] => []

theorem Owned.takenOff {env : Addr} {k : Stack} {records : Records}
    (h : Owned env k.frames records) {frame : Frame} {record : Option Addr}
    (hmem : (frame, record) ∈ k.takenOff.zip records) (hcode : frame.1.isCode = true) :
    record = some env := by
  unfold Stack.takenOff at hmem
  split at hmem
  · next earlier below rest hframes =>
      rw [hframes] at h
      cases h with
      | other hcollect h =>
          rcases List.mem_cons.mp hmem with heq | hmem
          · cases heq
            cases hcode
          · -- below a collecting frame, in the same environment
            exact h.head hcode hmem
  · next below rest _ hframes =>
      rw [hframes] at h
      exact h.head hcode hmem
  · cases hmem

/-- **Code runs in its environment.**  Whenever a frame that holds code is taken off a
stack, the current environment is the one that its code belongs to: in every evaluation of
an interpreter, whatever has happened before. -/
theorem code_runs_in_its_environment {w : World} {th : Thread} {v : Value} (hw : w.Reachable)
    (hth : th ∈ w.threads) (hphase : th.phase = .running (.drain v)) :
    th.records.length = th.stack.frames.length ∧
      ∀ frame record, (frame, record) ∈ th.stack.takenOff.zip th.records →
        frame.1.isCode = true → record = some th.env := by
  have howned : Owned th.env th.stack.frames th.records := by
    refine hw.disciplined.threads th hth ?_
    rw [hphase]
    exact nofun
  exact ⟨howned.length_eq, fun frame record hmem hcode => howned.takenOff hmem hcode⟩

/-- In `((lambda (x) (if x 1 2)) 3)` the test hands the value of `x` to the branches in
the frame of the call, which is node 26. -/
theorem code_runs_in_its_environment_of_call :
    ∃ (w : World) (th : Thread) (v branches : Value) (record : Option Addr), w.Reachable ∧
      th ∈ w.threads ∧ th.phase = .running (.drain v) ∧ th.env = 26 ∧
      ((FrameKind.choose, branches), record) ∈ th.stack.takenOff.zip th.records ∧
      record = some 26 := by
  have hw := World.reachable_alone
    (.ofList [.ofList [.symbol "lambda", .ofList [.symbol "x"] .nil,
      .ofList [.symbol "if", .symbol "x", .number (.exact 1), .number (.exact 2)] .nil] .nil,
      .number (.exact 3)] .nil) 10
  obtain ⟨_, hcode⟩ := code_runs_in_its_environment hw List.mem_cons_self rfl
  exact ⟨_, _, _, _, _, hw, List.mem_cons_self, rfl, rfl, List.mem_cons_self,
    hcode _ _ List.mem_cons_self rfl⟩

end SchemeMachine
