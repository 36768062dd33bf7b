import SchemeMachine.Proofs.Dialogue.Reading
import SchemeMachine.Proofs.Direct.Transparency

/-!
# Evaluations between two readings

An evaluation may read for itself, from the same lines and tokens as the loop.  It never puts
anything back: `evaluateValue_noMore`.

One that does not call `read` leaves the input as it finds it.  What it gives, what it writes
and the store it leaves depend on the store alone, and not on what is still to be read or was
written before: `evaluateValue_anywhere`.
-/

namespace SchemeMachine

namespace Served

/-- The interpreter while a run is where it is. -/
def interpreter (s : Served) : Interpreter :=
  ⟨s.transition.config.shared, s.lines⟩

theorem interpreter_of_result? {s : Served} {result : Except Stop Value × Interpreter}
    (h : s.result? = some result) : s.interpreter = result.2 := by
  obtain ⟨transition, lines⟩ := s
  cases transition with
  | running c => cases h
  | suspended suspension c => cases h
  | finished v c =>
      cases h
      rfl
  | failed fault c =>
      cases h
      rfl

end Served

/-! ## Nothing is put back -/

theorem InputBuffer.length_read (freshPrompt openPrompt : String) (buffer : InputBuffer) :
    (buffer.read freshPrompt openPrompt).2.tokens.length ≤ buffer.tokens.length := by
  unfold read
  split
  · next d rest hone => exact Nat.le_of_lt (Datum.length_lt_of_readOne hone)
  · exact Nat.le_refl _
  · exact Nat.zero_le _

theorem Shared.input_takeAnswer (sh : Shared)
    (answer : Except Fault InputBuffer.Answer × InputBuffer) :
    (sh.takeAnswer answer).2.input = answer.2 := by
  obtain ⟨fault | d | request | _, buffer⟩ := answer <;> rfl

/-- A step takes tokens from the input or leaves it as it is. -/
theorem Config.length_input_step (c : Config) :
    c.step.config.shared.input.tokens.length ≤ c.shared.input.tokens.length := by
  by_cases hreads : c.Reads
  · have hnone : Value.nil.elements = .ok [] := rfl
    rw [step_primitive hreads hnone, shared_replied]
    have hinput := c.shared.input_takeAnswer (c.shared.input.read "" "")
    exact hinput ▸ InputBuffer.length_read "" "" c.shared.input
  · obtain ⟨said, halike⟩ := c.step_amid c.shared.surroundings hreads
    have hinput : c.step.config.shared.input = c.shared.input :=
      congrArg Surroundings.input halike.said
    exact Nat.le_of_eq (congrArg (·.tokens.length) hinput)

namespace Served

open Interpreter (NoMore)

theorem interpreter_resumed (c : Config) (given : Except Fault Reply × Interpreter) :
    (resumed c given).interpreter = given.2 := by
  obtain ⟨fault | v | suspension, i⟩ := given <;> rfl

theorem noMore_next (s : Served) : NoMore s.next.interpreter s.interpreter := by
  obtain ⟨transition, lines⟩ := s
  cases transition with
  | running c => exact .inr ⟨rfl, c.length_input_step⟩
  | suspended suspension c =>
      rw [next, interpreter_resumed]
      cases suspension with
      | yielding v => exact .inr ⟨rfl, Nat.le_refl _⟩
      | awaiting request =>
          cases lines with
          | nil => exact .inr ⟨rfl, Nat.le_refl _⟩
          | cons line lines => exact .inl (Nat.lt_succ_self _)
  | finished v c => exact .refl _
  | failed fault c => exact .refl _

theorem noMore_after (s : Served) (n : Nat) : NoMore (s.after n).interpreter s.interpreter := by
  induction n generalizing s with
  | zero => exact .refl _
  | succ n ih => exact (ih s.next).trans s.noMore_next

end Served

namespace Interpreter

/-- An evaluation takes lines and tokens and puts none back. -/
theorem evaluateValue_noMore {e : Value} {i j : Interpreter} {given : Except Failure Value}
    (h : Gives (fun n => i.evaluateValue n e) given j) : NoMore j i := by
  obtain ⟨n, hn⟩ := gives_evaluateValue_iff.mp h
  have hmore := Served.noMore_after (Served.start e Store.global .empty i) n
  rwa [Served.interpreter_of_result? hn] at hmore

/-- The evaluation of an expression comes to a call of `read`. -/
def AppliesRead (e : Value) (i : Interpreter) : Prop :=
  ∃ n c, ((Served.start e Store.global .empty i).after n).transition = .running c ∧ c.Reads

end Interpreter

/-! ## Evaluations that do not read -/

/-- Two runs that go the same way, begun by two interpreters with the same store.  Both have
written the same text since, and the first has not touched its input. -/
structure Served.Parallel (i f : Interpreter) (s t : Served) : Prop where
  alike : ∃ said journal,
    t.transition = s.transition.amid ⟨f.shared.input, f.shared.output ++ said, journal⟩ ∧
      s.transition.config.shared.output = i.shared.output ++ said
  input : s.transition.config.shared.input = i.shared.input
  lines : s.lines = i.lines
  yields : ∀ suspension d, s.transition = .suspended suspension d → suspension.IsYield

namespace Served

variable {i f : Interpreter} {s t : Served}

theorem Parallel.start (e : Value) (hstore : f.shared.store = i.shared.store) :
    Parallel i f (start e Store.global .empty i) (start e Store.global .empty f) where
  alike := by
    refine ⟨"", f.shared.journal, ?_, String.append_empty.symm⟩
    rw [String.append_empty]
    have hshared : f.shared = i.shared.amid f.shared.surroundings :=
      Shared.eq_of_surroundings hstore rfl
    exact congrArg (fun sh => Transition.running ⟨.reduce e, Store.global, .empty, sh⟩) hshared
  input := rfl
  lines := rfl
  yields := by rintro _ _ ⟨⟩

/-- Runs that go the same way do so for another step, unless it reads. -/
theorem Parallel.next (h : Parallel i f s t)
    (hreads : ∀ c, s.transition = .running c → ¬ c.Reads) : Parallel i f s.next t.next := by
  obtain ⟨⟨said, journal, hthere, hsaid⟩, hinput, hlines, hyields⟩ := h
  obtain ⟨transition, lines⟩ := s
  obtain ⟨other, lines'⟩ := t
  obtain rfl : other = _ := hthere
  cases transition with
  | running c =>
      obtain ⟨more, halike⟩ :=
        c.step_amid ⟨f.shared.input, f.shared.output ++ said, journal⟩ (hreads c rfl)
      refine ⟨⟨said ++ more, journal, ?_, ?_⟩, ?_, hlines, halike.yields⟩
      · rw [← String.append_assoc]
        exact halike.there
      · rw [← String.append_assoc, ← hsaid]
        exact congrArg Surroundings.output halike.said
      · rw [← hinput]
        exact congrArg Surroundings.input halike.said
  | suspended suspension c =>
      have hyield := hyields suspension c rfl
      cases suspension with
      | awaiting request => cases hyield
      | yielding v =>
          exact ⟨⟨said, .yielded :: journal, rfl, hsaid⟩, hinput, hlines, by rintro _ _ ⟨⟩⟩
  | finished v c => exact ⟨⟨said, journal, rfl, hsaid⟩, hinput, hlines, hyields⟩
  | failed fault c => exact ⟨⟨said, journal, rfl, hsaid⟩, hinput, hlines, hyields⟩

theorem Parallel.after (h : Parallel i f s t) (n : Nat)
    (hreads : ∀ m c, (s.after m).transition = .running c → ¬ c.Reads) :
    Parallel i f (s.after n) (t.after n) := by
  induction n generalizing s t with
  | zero => exact h
  | succ n ih => exact ih (h.next (hreads 0)) fun m => hreads (m + 1)

theorem Parallel.result? (h : Parallel i f s t) {result : Except Stop Value × Interpreter}
    (hresult : s.result? = some result) :
    ∃ k said, t.result? = some (result.1, k) ∧ k.shared.store = result.2.shared.store ∧
      result.2.shared.output = i.shared.output ++ said ∧
      k.shared.output = f.shared.output ++ said ∧
      result.2.shared.input = i.shared.input ∧ result.2.lines = i.lines := by
  obtain ⟨⟨said, journal, hthere, hsaid⟩, hinput, hlines, hyields⟩ := h
  obtain ⟨transition, lines⟩ := s
  obtain ⟨other, lines'⟩ := t
  obtain rfl : other = _ := hthere
  cases transition with
  | running c => cases hresult
  | suspended suspension c => cases hresult
  | finished v c =>
      cases hresult
      exact ⟨_, said, rfl, rfl, hsaid, rfl, hinput, hlines⟩
  | failed fault c =>
      cases hresult
      exact ⟨_, said, rfl, rfl, hsaid, rfl, hinput, hlines⟩

end Served

namespace Interpreter

/-- An evaluation that does not read gives the same, writes the same and leaves the same store
wherever it is begun with the same store, and it leaves the input alone. -/
theorem evaluateValue_anywhere {e : Value} {i j f : Interpreter} {given : Except Failure Value}
    (h : Gives (fun n => i.evaluateValue n e) given j) (hreads : ¬ i.AppliesRead e)
    (hstore : f.shared.store = i.shared.store) :
    ∃ k said, Gives (fun n => f.evaluateValue n e) given k ∧
      k.shared.store = j.shared.store ∧ j.shared.output = i.shared.output ++ said ∧
      k.shared.output = f.shared.output ++ said ∧
      j.shared.input = i.shared.input ∧ j.lines = i.lines := by
  obtain ⟨n, hn⟩ := gives_evaluateValue_iff.mp h
  have hparallel := (Served.Parallel.start e hstore).after n
    fun m c hrunning hc => hreads ⟨m, c, hrunning, hc⟩
  obtain ⟨k, said, hk, hrest⟩ := hparallel.result? hn
  exact ⟨k, said, gives_evaluateValue_iff.mpr ⟨n, hk⟩, hrest⟩

end Interpreter

end SchemeMachine
