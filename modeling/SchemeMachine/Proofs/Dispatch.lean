import Mathlib.Data.Finset.Card
import Mathlib.Data.List.Dedup
import SchemeMachine.Proofs.Surroundings

/-!
# Calls that are passed on

A call of `apply` or of `call/cc` is passed on to another procedure, and that may be one of the
two again.  `Config.Dispatches` follows a call through these rounds, until it has come to a
procedure of another kind or a round is refused.

There is no one thing that gets smaller in every round.  `apply` goes on with a part of its
arguments, but `call/cc` makes a new list, and that holds a copy of the stack.  The new list has a
single element, however, which is a continuation.  `apply` refuses it, and if `call/cc` is called
with it, the continuation is what is called next (`Config.settles_handed`).  So the rounds of
`apply` that are passed on come first, and each of them takes two pairs off the arguments
(`Value.pairCount_add_two_le`).  The round that is refused may find no pair there at all.
-/

namespace SchemeMachine

/-! ## The pairs in a value -/

namespace Value

/-- The pairs in a value, at any depth.  A pair that is shared is listed wherever it occurs. -/
def pairs : Value → List Value
  | pair stamp head tail => pair stamp head tail :: (pairs head ++ pairs tail)
  | _ => []

open Classical in
/-- The number of pairs in a value.  A pair that is shared counts once. -/
noncomputable def pairCount (v : Value) : Nat :=
  v.pairs.toFinset.card

variable {v p : Value}

theorem length_pairs_le_of_mem (h : p ∈ v.pairs) : p.pairs.length ≤ v.pairs.length := by
  fun_induction pairs v with
  | case1 stamp head tail ihHead ihTail =>
      rcases List.mem_cons.mp h with rfl | hinner
      · simp [pairs]
      · rw [List.length_cons, List.length_append]
        rcases List.mem_append.mp hinner with hhead | htail
        · have := ihHead hhead
          omega
        · have := ihTail htail
          omega
  | case2 => cases h

/-- A part of a pair has fewer pairs, because that pair is not one of them. -/
theorem pairCount_lt_of_subset {stamp : Nat} {head tail : Value}
    (hsubset : v.pairs ⊆ pairs head ++ pairs tail)
    (hlength : v.pairs.length < (pair stamp head tail).pairs.length) :
    v.pairCount < (pair stamp head tail).pairCount := by
  classical
  apply Finset.card_lt_card
  rw [Finset.ssubset_iff_of_subset]
  · refine ⟨pair stamp head tail, by simp [pairs], ?_⟩
    intro hmem
    have := length_pairs_le_of_mem (List.mem_toFinset.mp hmem)
    omega
  · intro p hp
    exact List.mem_toFinset.mpr (List.mem_cons_of_mem _ (hsubset (List.mem_toFinset.mp hp)))

theorem pairCount_head_lt (stamp : Nat) (head tail : Value) :
    head.pairCount < (pair stamp head tail).pairCount := by
  apply pairCount_lt_of_subset (List.subset_append_left _ _)
  rw [pairs, List.length_cons, List.length_append]
  omega

theorem pairCount_pos (stamp : Nat) (head tail : Value) : 0 < (pair stamp head tail).pairCount :=
  Nat.zero_lt_of_lt (pairCount_head_lt stamp head tail)

theorem pairCount_tail_lt (stamp : Nat) (head tail : Value) :
    tail.pairCount < (pair stamp head tail).pairCount := by
  apply pairCount_lt_of_subset (List.subset_append_right _ _)
  rw [pairs, List.length_cons, List.length_append]
  omega

/-- The second of two elements has at least two pairs less than the list. -/
theorem pairCount_add_two_le (stamp stamp' : Nat) (first second : Value) :
    second.pairCount + 2 ≤ (pair stamp first (pair stamp' second .nil)).pairCount := by
  have hinner := pairCount_head_lt stamp' second .nil
  have houter := pairCount_tail_lt stamp first (pair stamp' second .nil)
  omega

/-- Whether a value is the empty list or a pair. -/
def isNilOrPair : Value → Bool
  | nil | pair .. => true
  | _ => false

theorem eq_pair_of_elements {first : Value} {others : List Value}
    (h : v.elements = .ok (first :: others)) :
    ∃ stamp tail, v = .pair stamp first tail ∧ tail.elements = .ok others := by
  cases v with
  | pair stamp head tail =>
      rw [elements] at h
      cases htail : tail.elements with
      | error other =>
          rw [htail] at h
          cases h
      | ok found =>
          rw [htail] at h
          cases h
          exact ⟨stamp, tail, rfl, htail⟩
  | _ => cases h

end Value

theorem Stack.top?_pushRestore (env : Addr) (k : Stack) :
    (k.pushRestore env).top? = some .restore := by
  unfold pushRestore
  split
  next htop => exact htop
  next => rfl

/-! ## Rounds -/

/-- The procedures that pass a call on. -/
inductive Relay where
  | apply
  | capture
  deriving DecidableEq

/-- The value that is called. -/
def Relay.procedure : Relay → Value
  | apply => .applyToList
  | capture => .callWithContinuation

/-- What has become of a call that came to one of these procedures: whether it was passed on,
or else refused. -/
structure Round where
  relay : Relay
  passed : Bool
  deriving DecidableEq

/-- The procedure that is being called, if it is one that passes the call on. -/
def Focus.relay? : Focus → Option Relay
  | .call .applyToList _ => some .apply
  | .call .callWithContinuation _ => some .capture
  | _ => none

theorem Focus.relay?_eq_none {callee : Value} (happly : callee ≠ .applyToList)
    (hcapture : callee ≠ .callWithContinuation) (arguments : Value) :
    (Focus.call callee arguments).relay? = none := by
  cases callee with
  | applyToList => exact absurd rfl happly
  | callWithContinuation => exact absurd rfl hcapture
  | _ => rfl

theorem Focus.relay?_procedure (relay : Relay) (arguments : Value) :
    (Focus.call relay.procedure arguments).relay? = some relay := by
  cases relay <;> rfl

/-- A call has been refused with a fault of the language, or it has come to a procedure that does
not pass it on, with arguments that are the empty list or a pair. -/
def Transition.IsSettled (t : Transition) : Prop :=
  (∃ fault after, t = .failed fault after ∧ fault.ofLanguage = true) ∨
    ∃ last callee list, t = .running last ∧ last.focus = .call callee list ∧
      callee ≠ .applyToList ∧ callee ≠ .callWithContinuation ∧ list.isNilOrPair = true

namespace Config

/-- The call that the machine is about to make goes through these rounds.  At their end the
machine is about to call another kind of procedure, or the last round has failed. -/
inductive Dispatches : Config → List Round → Transition → Prop
  | left {c : Config} (h : c.focus.relay? = none) : Dispatches c [] (.running c)
  | passed {c next : Config} {relay : Relay} {rounds : List Round} {t : Transition}
      (h : c.focus.relay? = some relay) (hstep : c.step = .running next)
      (hlater : Dispatches next rounds t) : Dispatches c (⟨relay, true⟩ :: rounds) t
  | refused {c after : Config} {relay : Relay} {fault : Fault}
      (h : c.focus.relay? = some relay) (hstep : c.step = .failed fault after) :
      Dispatches c [⟨relay, false⟩] (.failed fault after)

variable {c : Config} {callee arguments : Value} {rounds : List Round} {t : Transition}

/-- A call goes one way only. -/
theorem Dispatches.unique (h : c.Dispatches rounds t) {others : List Round} {u : Transition}
    (hothers : c.Dispatches others u) : others = rounds ∧ u = t := by
  induction h generalizing others u with
  | left hnone =>
      cases hothers with
      | left => exact ⟨rfl, rfl⟩
      | passed hsome => cases hnone.symm.trans hsome
      | refused hsome => cases hnone.symm.trans hsome
  | passed hsome hstep _ ih =>
      cases hothers with
      | left hnone => cases hnone.symm.trans hsome
      | passed hsome' hstep' hlater =>
          cases hsome.symm.trans hsome'
          cases hstep.symm.trans hstep'
          obtain ⟨rfl, rfl⟩ := ih hlater
          exact ⟨rfl, rfl⟩
      | refused _ hstep' => cases hstep.symm.trans hstep'
  | refused hsome hstep =>
      cases hothers with
      | left hnone => cases hnone.symm.trans hsome
      | passed _ hstep' => cases hstep.symm.trans hstep'
      | refused hsome' hstep' =>
          cases hsome.symm.trans hsome'
          cases hstep.symm.trans hstep'
          exact ⟨rfl, rfl⟩

/-- Only the last round is refused. -/
theorem Dispatches.countP_apply_le (h : c.Dispatches rounds t) :
    rounds.countP (·.relay = .apply) ≤ rounds.count ⟨.apply, true⟩ + 1 := by
  induction h with
  | left => exact Nat.zero_le _
  | @passed c next relay rounds t _ _ _ ih =>
      cases relay with
      | apply => simpa using ih
      | capture => simpa using ih
  | @refused c after relay fault _ _ =>
      cases relay with
      | apply => decide
      | capture => decide

/-! ## One round -/

/-- `apply` passes a call on to the first of two arguments, with the second, and changes
nothing else; or it refuses the call. -/
theorem step_apply_cases (hfocus : c.focus = .call .applyToList arguments) :
    (∃ stamp stamp' first second, arguments = .pair stamp first (.pair stamp' second .nil) ∧
      second.isNilOrPair = true ∧ c.step = .running { c with focus := .call first second }) ∨
    ∃ fault, fault.ofLanguage = true ∧ c.step = .failed fault c := by
  simp only [step, hfocus, call, applyToList]
  split
  · exact .inr ⟨_, rfl, rfl⟩
  next first second helements =>
    obtain ⟨stamp, tail, rfl, htail⟩ := Value.eq_pair_of_elements helements
    obtain ⟨stamp', rest, rfl, hrest⟩ := Value.eq_pair_of_elements htail
    obtain rfl := eq_nil_of_elements hrest
    split
    · exact .inl ⟨_, _, _, _, rfl, rfl, rfl⟩
    · exact .inl ⟨_, _, _, _, rfl, rfl, rfl⟩
    · exact .inr ⟨_, rfl, rfl⟩
  · exact .inr ⟨_, rfl, rfl⟩

/-- `call/cc` passes a call on to its only argument, with a continuation, and saves the
environment on the stack. -/
theorem step_capture {stamp : Nat} {first : Value}
    (hfocus : c.focus = .call .callWithContinuation (.pair stamp first .nil)) :
    ∃ i j shared, c.step =
      .running ⟨.call first (.pair i (.continuation j (c.stack.pushRestore c.env).frames) .nil),
        c.env, c.stack.pushRestore c.env, shared⟩ := by
  rw [step, hfocus]
  exact ⟨_, _, _, rfl⟩

theorem step_capture_cases (hfocus : c.focus = .call .callWithContinuation arguments) :
    (∃ stamp first, arguments = .pair stamp first .nil) ∨
    ∃ fault, fault.ofLanguage = true ∧ c.step = .failed fault c := by
  simp only [step, hfocus, call, callWithContinuation]
  split
  · exact .inr ⟨_, rfl, rfl⟩
  next first helements =>
    obtain ⟨stamp, tail, rfl, htail⟩ := Value.eq_pair_of_elements helements
    obtain rfl := eq_nil_of_elements htail
    exact .inl ⟨stamp, first, rfl⟩
  · exact .inr ⟨_, rfl, rfl⟩

/-- What becomes of a call in one round: it is passed on by `apply` or by `call/cc`, or it is
refused, or it has come to another procedure. -/
theorem round_cases (hfocus : c.focus = .call callee arguments) :
    (∃ stamp stamp' first second, callee = .applyToList ∧
      arguments = .pair stamp first (.pair stamp' second .nil) ∧ second.isNilOrPair = true ∧
      c.step = .running { c with focus := .call first second }) ∨
    (∃ stamp first, callee = .callWithContinuation ∧ arguments = .pair stamp first .nil) ∨
    (∃ (relay : Relay) (fault : Fault), callee = relay.procedure ∧ fault.ofLanguage = true ∧
      c.step = .failed fault c) ∨
    (callee ≠ .applyToList ∧ callee ≠ .callWithContinuation) := by
  by_cases happly : callee = .applyToList
  · subst happly
    rcases step_apply_cases hfocus with
      ⟨stamp, stamp', first, second, hlist, hsecond, hstep⟩ | ⟨fault, hlanguage, hstep⟩
    · exact .inl ⟨stamp, stamp', first, second, rfl, hlist, hsecond, hstep⟩
    · exact .inr (.inr (.inl ⟨.apply, fault, rfl, hlanguage, hstep⟩))
  by_cases hcapture : callee = .callWithContinuation
  · subst hcapture
    rcases step_capture_cases hfocus with ⟨stamp, first, hlist⟩ | ⟨fault, hlanguage, hstep⟩
    · exact .inr (.inl ⟨stamp, first, rfl, hlist⟩)
    · exact .inr (.inr (.inl ⟨.capture, fault, rfl, hlanguage, hstep⟩))
  · exact .inr (.inr (.inr ⟨happly, hcapture⟩))

/-- Without arguments, no call is passed on: the round of `apply` or `call/cc` is refused. -/
theorem Dispatches.of_nil (hfocus : c.focus = .call callee .nil) (h : c.Dispatches rounds t) :
    rounds.countP (·.relay = .apply) = 0 ∨ callee = .applyToList ∧ rounds = [⟨.apply, false⟩] := by
  rcases round_cases hfocus with ⟨_, _, _, _, _, hlist, _⟩ | ⟨_, _, _, hlist⟩ |
    ⟨relay, fault, rfl, _, hstep⟩ | ⟨happly, hcapture⟩
  · cases hlist
  · cases hlist
  · have hrefused := Dispatches.refused (by rw [hfocus, Focus.relay?_procedure]) hstep
    obtain ⟨rfl, _⟩ := hrefused.unique h
    cases relay with
    | apply => exact .inr ⟨rfl, rfl⟩
    | capture => exact .inl rfl
  · have hleft := Dispatches.left (by rw [hfocus, Focus.relay?_eq_none happly hcapture])
    obtain ⟨rfl, _⟩ := hleft.unique h
    exact .inl rfl

/-! ## All rounds -/

/-- What the rounds of a call come to. -/
structure Settles (c : Config) (arguments : Value) (rounds : List Round) (t : Transition) :
    Prop where
  dispatches : c.Dispatches rounds t
  /-- There are at most two rounds of `call/cc`. -/
  captures : rounds.countP (·.relay = .capture) ≤ 2
  /-- After a round of `call/cc`, no call of `apply` is passed on. -/
  order : rounds.Pairwise fun earlier later => earlier.relay = .capture → later ≠ ⟨.apply, true⟩
  /-- Each call of `apply` that is passed on uses up two pairs of the arguments. -/
  applied : 2 * rounds.count ⟨.apply, true⟩ ≤ arguments.pairCount
  env : t.config.env = c.env
  /-- At most one frame is pushed, and it returns to the environment of the call. -/
  frames : t.config.stack.frames = c.stack.frames ∨
    t.config.stack.frames = (.restore, .environment c.env) :: c.stack.frames
  outcome : t.IsSettled

theorem settles_refused {relay : Relay} {fault : Fault}
    (hfocus : c.focus = .call relay.procedure arguments) (hlanguage : fault.ofLanguage = true)
    (hstep : c.step = .failed fault c) :
    c.Settles arguments [⟨relay, false⟩] (.failed fault c) where
  dispatches := .refused (by rw [hfocus, Focus.relay?_procedure]) hstep
  captures := by cases relay <;> decide
  order := List.pairwise_singleton _ _
  applied := by simp
  env := rfl
  frames := .inl rfl
  outcome := .inl ⟨fault, c, rfl, hlanguage⟩

theorem settles_left {list : Value} (hfocus : c.focus = .call callee list)
    (hlist : list.isNilOrPair = true) (happly : callee ≠ .applyToList)
    (hcapture : callee ≠ .callWithContinuation) : c.Settles arguments [] (.running c) where
  dispatches := .left (by rw [hfocus, Focus.relay?_eq_none happly hcapture])
  captures := Nat.zero_le _
  order := .nil
  applied := Nat.zero_le _
  env := rfl
  frames := .inl rfl
  outcome := .inr ⟨c, callee, list, rfl, hfocus, happly, hcapture, hlist⟩

/-- What `call/cc` hands on is refused by `apply`, and if it is handed to `call/cc` again, that
calls the continuation.  No other frame is pushed, since the environment has been saved. -/
theorem settles_handed {i j : Nat} {frames : List Frame}
    (hfocus : c.focus = .call callee (.pair i (.continuation j frames) .nil))
    (htop : c.stack.top? = some .restore) :
    ∃ rounds t, c.Dispatches rounds t ∧
      (rounds = [] ∨ rounds = [⟨.apply, false⟩] ∨ rounds = [⟨.capture, true⟩]) ∧
      t.config.env = c.env ∧ t.config.stack = c.stack ∧ t.IsSettled := by
  rcases round_cases hfocus with ⟨_, _, _, _, _, hlist, _⟩ | ⟨_, _, rfl, _⟩ |
    ⟨relay, fault, rfl, hlanguage, hstep⟩ | ⟨happly, hcapture⟩
  · -- a list of one element is not one of two
    cases hlist
  · obtain ⟨i', j', shared, hstep⟩ := step_capture hfocus
    -- the next callee is the continuation, and the top frame saves the environment already
    rw [Stack.pushRestore, if_pos htop] at hstep
    refine ⟨_, _, .passed (by rw [hfocus]; rfl) hstep (.left rfl), .inr (.inr rfl), rfl, rfl, ?_⟩
    exact .inr ⟨_, _, _, rfl, rfl, nofun, nofun, rfl⟩
  · cases relay with
    | apply =>
        exact ⟨_, _, .refused (by rw [hfocus]; rfl) hstep, .inr (.inl rfl), rfl, rfl,
          .inl ⟨fault, c, rfl, hlanguage⟩⟩
    | capture =>
        -- one element is what `call/cc` takes
        obtain ⟨_, _, _, hpassed⟩ := step_capture hfocus
        cases hpassed.symm.trans hstep
  · have hleft : c.Settles .nil [] (.running c) := settles_left hfocus rfl happly hcapture
    exact ⟨_, _, hleft.dispatches, .inl rfl, rfl, rfl, hleft.outcome⟩

theorem settles_captured {stamp : Nat} {first : Value}
    (hfocus : c.focus = .call .callWithContinuation (.pair stamp first .nil)) :
    ∃ rounds t, c.Settles arguments rounds t := by
  obtain ⟨i, j, shared, hstep⟩ := step_capture hfocus
  obtain ⟨rounds, t, hdispatches, hrounds, henv, hstack, houtcome⟩ :=
    settles_handed (c := ⟨_, c.env, c.stack.pushRestore c.env, shared⟩) rfl
      (Stack.top?_pushRestore c.env c.stack)
  refine ⟨⟨.capture, true⟩ :: rounds, t, .passed (by rw [hfocus]; rfl) hstep hdispatches, ?_, ?_,
    ?_, henv, ?_, houtcome⟩
  · rcases hrounds with rfl | rfl | rfl <;> decide
  · rcases hrounds with rfl | rfl | rfl <;> decide
  · have hnone : (⟨.capture, true⟩ :: rounds).count ⟨.apply, true⟩ = 0 := by
      rcases hrounds with rfl | rfl | rfl <;> decide
    rw [hnone]
    exact Nat.zero_le _
  · rw [hstack, Stack.frames_pushRestore]
    split
    · exact .inl rfl
    · exact .inr rfl

theorem Settles.applied_to {stamp stamp' : Nat} {first second : Value}
    (hfocus : c.focus = .call .applyToList (.pair stamp first (.pair stamp' second .nil)))
    (hstep : c.step = .running { c with focus := .call first second })
    (h : Settles { c with focus := .call first second } second rounds t) :
    c.Settles (.pair stamp first (.pair stamp' second .nil)) (⟨.apply, true⟩ :: rounds) t where
  dispatches := .passed (by rw [hfocus]; rfl) hstep h.dispatches
  captures := by simpa using h.captures
  order := List.pairwise_cons.mpr ⟨fun _ _ => nofun, h.order⟩
  applied := by
    have hless := Value.pairCount_add_two_le stamp stamp' first second
    have hrest := h.applied
    rw [List.count_cons_self]
    omega
  env := h.env
  frames := h.frames
  outcome := h.outcome

/-- Every call settles.  The induction is on the pairs in the arguments, of which a round of
`apply` uses two; a round of `call/cc` is followed by at most one more. -/
theorem exists_settles (hfocus : c.focus = .call callee arguments)
    (hlist : arguments.isNilOrPair = true) : ∃ rounds t, c.Settles arguments rounds t := by
  induction hcount : arguments.pairCount using Nat.strong_induction_on
    generalizing c callee arguments with
  | _ count ih =>
      rcases round_cases hfocus with ⟨stamp, stamp', first, second, rfl, rfl, hsecond, hstep⟩ |
        ⟨stamp, first, rfl, rfl⟩ | ⟨relay, fault, rfl, hlanguage, hstep⟩ | ⟨happly, hcapture⟩
      · have hless := Value.pairCount_add_two_le stamp stamp' first second
        obtain ⟨rounds, t, hsettles⟩ := ih second.pairCount (by omega)
          (c := { c with focus := .call first second }) rfl hsecond rfl
        exact ⟨_, t, hsettles.applied_to hfocus hstep⟩
      · exact settles_captured hfocus
      · exact ⟨_, _, settles_refused hfocus hlanguage hstep⟩
      · exact ⟨_, _, settles_left hfocus hlist happly hcapture⟩

end Config

/-- **A call is passed on finitely often.**  Whatever is called, with the empty list or a pair as
arguments, the call goes through one sequence of rounds, and that comes to an end.  There are at
most two rounds of `call/cc`, after which no call of `apply` is passed on.  The rounds of `apply`
that are passed on are at most half as many as the pairs in the arguments.  With the one that is
refused, if there is one, they are no more than these pairs, unless `apply` is called without any
arguments.  In the end the call is refused with an error of the language, or it has come to a
procedure of another kind, and at most one frame was pushed, to return to the environment. -/
theorem call_dispatch_ends {c : Config} {callee arguments : Value}
    (hfocus : c.focus = .call callee arguments) (hlist : arguments.isNilOrPair = true) :
    ∃ rounds t, c.Settles arguments rounds t ∧
      (∀ others u, c.Dispatches others u → others = rounds ∧ u = t) ∧
      (rounds.countP (·.relay = .apply) ≤ arguments.pairCount ∨
        callee = .applyToList ∧ arguments = .nil ∧ rounds = [⟨.apply, false⟩]) := by
  obtain ⟨rounds, t, hsettles⟩ := Config.exists_settles hfocus hlist
  refine ⟨rounds, t, hsettles, fun others u => hsettles.dispatches.unique, ?_⟩
  cases arguments with
  | nil =>
      rcases hsettles.dispatches.of_nil hfocus with hzero | ⟨hcallee, hrounds⟩
      · exact .inl (hzero ▸ Nat.zero_le _)
      · exact .inr ⟨hcallee, rfl, hrounds⟩
  | pair stamp head tail =>
      have htried := hsettles.dispatches.countP_apply_le
      have happlied := hsettles.applied
      have hpos := Value.pairCount_pos stamp head tail
      exact .inl (by omega)
  | _ => cases hlist

/-- `(apply)` is refused in a round of `apply`, and there is no pair in its arguments. -/
theorem apply_without_arguments_takes_a_round :
    let c : Config := ⟨.call .applyToList .nil, Store.global, .empty, .initial⟩
    Value.nil.isNilOrPair = true ∧ (∃ t, c.Dispatches [⟨.apply, false⟩] t) ∧
      ¬∀ rounds t, c.Dispatches rounds t →
        rounds.countP (·.relay = .apply) ≤ Value.nil.pairCount := by
  intro c
  have hdispatches : c.Dispatches [⟨.apply, false⟩] (.failed _ _) := .refused rfl rfl
  refine ⟨rfl, ⟨_, hdispatches⟩, fun hbound => ?_⟩
  have hone : 1 ≤ Value.nil.pairCount := hbound _ _ hdispatches
  simp [Value.pairCount, Value.pairs] at hone

/-- `(apply apply (list call/cc (list call/cc)))` goes through two rounds of `apply` and two of
`call/cc`, and comes to the continuation that the first of these has captured. -/
theorem call_dispatch_ends_of_nested :
    let inner := Value.pair 2 .callWithContinuation
      (.pair 3 (.pair 4 .callWithContinuation .nil) .nil)
    let arguments := Value.pair 0 .applyToList (.pair 1 inner .nil)
    let c : Config := ⟨.call .applyToList arguments, Store.global, .empty, .initial⟩
    ∃ t, c.Settles arguments
        [⟨.apply, true⟩, ⟨.apply, true⟩, ⟨.capture, true⟩, ⟨.capture, true⟩] t ∧
      t.config.stack.frames = [(.restore, .environment Store.global)] := by
  intro inner arguments c
  have hfocus : c.focus = .call .applyToList arguments := rfl
  obtain ⟨rounds, t, hsettles, hunique, _⟩ := call_dispatch_ends hfocus rfl
  have hdispatches := Config.Dispatches.passed (c := c) rfl rfl
    (.passed rfl rfl (.passed rfl rfl (.passed rfl rfl (.left rfl))))
  obtain ⟨rfl, rfl⟩ := hunique _ _ hdispatches
  exact ⟨_, hsettles, rfl⟩

end SchemeMachine
