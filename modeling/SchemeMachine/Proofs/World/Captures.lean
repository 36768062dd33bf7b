import Mathlib.Data.List.Pairwise
import SchemeMachine.Proofs.Requirement.Step
import SchemeMachine.Proofs.World.Basic

/-!
# Every continuation was captured

In every world that can be reached, whatever continuation is held anywhere comes
from a call of `call/cc`: its frames are those of the one capture that has its
stamp.  It makes no difference whether the evaluation that made the capture has
ended since, has failed, or is suspended.
-/

namespace SchemeMachine

/-- Continuations have the frames of a capture with their stamp. -/
def Capture.required (captures : List Capture) : Requirement where
  closure _ _ _ := True
  continuation stamp frames := ∃ capture ∈ captures, capture.stamp = stamp ∧ capture.frames = frames

theorem Capture.required_mono (captures new : List Capture) :
    required captures ≤ required (new ++ captures) := by
  refine ⟨fun _ _ _ _ => trivial, ?_⟩
  rintro stamp frames ⟨capture, hmem, hcapture⟩
  exact ⟨capture, List.mem_append_right new hmem, hcapture⟩

/-- Every procedure that an evaluation may still come to meets the requirement. -/
def Thread.Meets (r : Requirement) (th : Thread) : Prop :=
  match th.phase with
  | .ready e => e.Meets r ∧ Frame.AllMeet r th.stack.frames
  | .running focus => focus.Meets r ∧ Frame.AllMeet r th.stack.frames
  | .suspended suspension => suspension.Meets r ∧ Frame.AllMeet r th.stack.frames
  | .over => True

namespace Thread

variable {r q : Requirement}

theorem Meets.mono {th : Thread} (hle : r ≤ q) (h : th.Meets r) : th.Meets q := by
  obtain ⟨phase, env, k, records⟩ := th
  cases phase with
  | ready e => exact ⟨h.1.mono hle, h.2.mono hle⟩
  | running focus =>
      refine ⟨?_, h.2.mono hle⟩
      cases focus with
      | reduce e => exact Value.Meets.mono hle h.1
      | drain v => exact Value.Meets.mono hle h.1
      | call callee arguments => exact ⟨h.1.1.mono hle, h.1.2.mono hle⟩
  | suspended suspension =>
      refine ⟨?_, h.2.mono hle⟩
      cases suspension with
      | awaiting request => trivial
      | yielding v => exact Value.Meets.mono hle h.1
  | _ => trivial

theorem ofTransition_meets {t : Transition} (h : t.Meets r) (records : Records) :
    (ofTransition records t).Meets r ∧ t.config.store.Meets r := by
  cases t with
  | running c => exact ⟨⟨h.focus, h.frames⟩, h.store⟩
  | suspended suspension c => exact ⟨⟨h.1, h.2.1⟩, h.2.2⟩
  | finished v c => exact ⟨trivial, h.2⟩
  | failed fault c => exact ⟨trivial, h⟩

end Thread

namespace World

/-- Every continuation in the world was captured, and no two captures have the same
stamp. -/
structure Traced (w : World) : Prop where
  store : w.shared.store.Meets (Capture.required w.captures)
  threads : ∀ th ∈ w.threads, th.Meets (Capture.required w.captures)
  fresh : ∀ capture ∈ w.captures, capture.stamp < w.shared.store.nextStamp
  distinct : w.captures.Pairwise (·.stamp ≠ ·.stamp)

theorem Traced.capture_unique {w : World} (h : w.Traced) {capture other : Capture}
    (hcapture : capture ∈ w.captures) (hother : other ∈ w.captures)
    (hstamp : other.stamp = capture.stamp) : other = capture := by
  have : Std.Symm fun a b : Capture => a.stamp ≠ b.stamp := ⟨fun _ _ hne => hne.symm⟩
  by_contra hne
  exact h.distinct.forall hother hcapture hne hstamp

/-- The other evaluations are where they were. -/
theorem forall_mem_replace {p : Thread → Prop} {before after : List Thread} {old new : Thread}
    (h : ∀ th ∈ before ++ old :: after, p th) (hnew : p new) :
    ∀ th ∈ before ++ new :: after, p th := by
  simp only [List.forall_mem_append, List.forall_mem_cons] at h ⊢
  exact ⟨h.1, hnew, h.2.2⟩

end World

/-- The capture of a step has the next stamp, and the continuation takes that stamp. -/
theorem Config.capture?_eq_some {c : Config} {records : Records} {capture : Capture}
    (h : c.capture? records = some capture) :
    capture = ⟨c.store.nextStamp, c.env, c.stack, records⟩ ∧
      c.store.nextStamp < c.step.config.store.nextStamp := by
  unfold capture? at h
  split at h
  · rename_i arguments hfocus
    split at h
    · rename_i argument hone
      refine ⟨(Option.some.inj h).symm, ?_⟩
      simp only [step, hfocus, call, callWithContinuation, hone]
      exact Nat.lt_add_of_pos_right Nat.two_pos
    · cases h
  · cases h

namespace World

theorem Traced.stepped {sh : Shared} {before after : List Thread} {captures : List Capture}
    {focus : Focus} {env : Addr} {k : Stack} {records : Records} {c : Config}
    (hc : c = ⟨focus, env, k, sh⟩)
    (h : Traced ⟨sh, before ++ ⟨.running focus, env, k, records⟩ :: after, captures⟩) :
    Traced ⟨c.step.config.shared,
      before ++ .ofTransition (c.nextRecords captures records) c.step :: after,
      (c.capture? records).toList ++ captures⟩ := by
  have hle := Capture.required_mono captures (c.capture? records).toList
  have hstamps : sh.store.nextStamp ≤ c.step.config.store.nextStamp := by
    have hchanges := c.step_changes.nextStamp_le
    rwa [hc] at hchanges ⊢
  have hthread := h.threads ⟨.running focus, env, k, records⟩ (by simp)
  have hmeets : c.Meets (Capture.required ((c.capture? records).toList ++ captures)) := by
    subst hc
    exact ⟨(hthread.mono hle).1, (hthread.mono hle).2, h.store.mono hle⟩
  have hstep := Config.step_meets hmeets (fun _ _ _ _ _ _ => trivial) (by
    intro arguments argument hfocus hone
    refine ⟨⟨c.store.nextStamp, c.env, c.stack, records⟩, ?_, rfl, rfl⟩
    simp [Config.capture?, hfocus, hone])
  obtain ⟨hnew, hstore⟩ := Thread.ofTransition_meets hstep
    (c.nextRecords captures records)
  refine ⟨hstore, ?_, ?_, ?_⟩
  · exact forall_mem_replace (fun th hth => (h.threads th hth).mono hle) hnew
  · intro capture hmem
    rcases List.mem_append.mp hmem with hnew | hold
    · obtain ⟨rfl, hlt⟩ := Config.capture?_eq_some (Option.mem_toList.mp hnew)
      exact hlt
    · exact Nat.lt_of_lt_of_le (h.fresh capture hold) hstamps
  · refine List.pairwise_append.mpr ⟨?_, h.distinct, ?_⟩
    · cases c.capture? records with
      | none => exact .nil
      | some capture => exact List.pairwise_singleton _ _
    · intro new hnew old hold
      obtain ⟨rfl, _⟩ := Config.capture?_eq_some (Option.mem_toList.mp hnew)
      have hlt : old.stamp < sh.store.nextStamp := h.fresh old hold
      subst hc
      exact Nat.ne_of_gt hlt

/-- Every world that can be reached knows where its continuations come from. -/
theorem Reachable.traced {w : World} (h : w.Reachable) : w.Traced := by
  induction h with
  | initial sh hstore =>
      refine ⟨?_, fun th hmem => absurd hmem List.not_mem_nil,
        fun capture hmem => absurd hmem List.not_mem_nil, .nil⟩
      rw [hstore]
      exact Store.initial_meets _
  | step h hstep ih =>
      cases hstep with
      | @submitted sh threads captures d env =>
          refine ⟨ih.store.of_nodes (Store.nodes_place d _), ?_, fun capture hmem => ?_,
            ih.distinct⟩
          · exact List.forall_mem_cons.mpr ⟨⟨Store.place_meets d _, trivial⟩, ih.threads⟩
          · exact Nat.lt_of_lt_of_le (ih.fresh capture hmem) (Store.nextStamp_place d _)
      | @started sh before after captures e env k records =>
          have hthread := ih.threads ⟨.ready e, env, k, records⟩ (by simp)
          exact ⟨ih.store, forall_mem_replace ih.threads hthread, ih.fresh, ih.distinct⟩
      | stepped hc => exact ih.stepped hc
      | @resumed sh before after captures suspension env k records t answer ht =>
          obtain ⟨hsuspension, hframes⟩ :=
            ih.threads ⟨.suspended suspension, env, k, records⟩ (by simp)
          have hmeets : t.Meets (Capture.required captures) := by
            rw [ht]
            exact Config.resume_meets (c := ⟨.drain .void, env, k, sh⟩) hsuspension hframes ih.store
              answer
          obtain ⟨hnew, hstore⟩ := Thread.ofTransition_meets hmeets records
          refine ⟨hstore, forall_mem_replace ih.threads hnew, fun capture hmem => ?_, ih.distinct⟩
          have hchanges := Config.resume_changes ⟨.drain .void, env, k, sh⟩ suspension answer
          rw [← ht] at hchanges
          exact Nat.lt_of_lt_of_le (ih.fresh capture hmem) hchanges.nextStamp_le
      | abandoned =>
          exact ⟨ih.store, forall_mem_replace ih.threads trivial, ih.fresh, ih.distinct⟩
      | hosted next hstore =>
          refine ⟨?_, ih.threads, fun capture hmem => ?_, ih.distinct⟩
          · rw [hstore]
            exact ih.store
          · rw [hstore]
            exact ih.fresh capture hmem

end World

end SchemeMachine
