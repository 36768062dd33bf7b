import SchemeMachine.Environment.Store
import SchemeMachine.Proofs.Form

/-!
# Code is data

An expression comes from a text, so it is made of atoms and pairs and shows a datum:
`Value.IsData`.  The parts of an expression are data with it.
-/

namespace SchemeMachine

namespace Value

/-- The datum that a value shows, if it is made of nothing but data. -/
def datum? : Value → Option Datum
  | nil => some .nil
  | bool b => some (.bool b)
  | number n => some (.number n)
  | string s => some (.string s)
  | symbol name => some (.symbol name)
  | pair _ head tail =>
    match datum? head, datum? tail with
    | some d, some e => some (.pair d e)
    | _, _ => none
  | _ => none

/-- The value is made of nothing but data. -/
def IsData (v : Value) : Prop :=
  ∃ d, v.datum? = some d

theorem isData_pair {stamp : Nat} {head tail : Value} :
    IsData (.pair stamp head tail) ↔ head.IsData ∧ tail.IsData := by
  constructor
  · rintro ⟨d, h⟩
    rw [datum?] at h
    split at h
    · next first rest hhead htail => exact ⟨⟨first, hhead⟩, ⟨rest, htail⟩⟩
    · cases h
  · rintro ⟨⟨d, hhead⟩, ⟨e, htail⟩⟩
    refine ⟨.pair d e, ?_⟩
    rw [datum?, hhead, htail]

theorem datum?_place (d : Datum) (s : Store) : (s.place d).1.datum? = some d := by
  induction d generalizing s with
  | pair head tail ihHead ihTail => simp only [Store.place, Store.newPair, datum?, ihHead, ihTail]
  | _ => rfl

/-- What is read from a text is data. -/
theorem isData_place (d : Datum) (s : Store) : (s.place d).1.IsData :=
  ⟨d, datum?_place d s⟩

theorem IsData.items {v x : Value} (h : v.IsData) (hx : x ∈ v.items) : x.IsData := by
  cases v with
  | pair stamp head tail =>
      obtain ⟨hhead, htail⟩ := isData_pair.mp h
      rcases List.mem_cons.mp hx with rfl | hmem
      · exact hhead
      · exact IsData.items htail hmem
  | _ => cases hx

theorem items_of_elements {v : Value} {found : List Value} (h : v.elements = .ok found) :
    v.items = found := by
  cases v with
  | nil =>
      cases h
      rfl
  | pair stamp head tail =>
      rw [Value.elements] at h
      cases htail : tail.elements with
      | error other => simp [htail, Except.map] at h
      | ok rest =>
          simp only [htail, Except.map, Except.ok.injEq] at h
          subst h
          rw [Value.items, items_of_elements htail]
  | _ => cases h

/-- The types of data that are no lists. -/
theorem IsData.typeName_mem {v : Value} (h : v.IsData) (hnil : v ≠ .nil)
    (hpair : ∀ stamp head tail, v ≠ .pair stamp head tail) :
    v.typeName ∈ ["bool", "int", "float", "str", "Symbol"] := by
  obtain ⟨d, h⟩ := h
  cases v with
  | nil => exact absurd rfl hnil
  | pair stamp head tail => exact absurd rfl (hpair stamp head tail)
  | bool b => simp [typeName]
  | string s => simp [typeName]
  | symbol name => simp [typeName]
  | number n => cases n <;> simp [typeName]
  | _ => cases h

end Value

/-- The parts of a form are data. -/
def Form.AllData : Form → Prop
  | .branch test yes no => test.IsData ∧ yes.IsData ∧ ∀ x, no = some x → x.IsData
  | .sequence expressions => expressions.IsData
  | .lambda parameters body => parameters.IsData ∧ body.IsData
  | .procedure name parameters body => name.IsData ∧ parameters.IsData ∧ body.IsData
  | .definition name expression | .assignment name expression => name.IsData ∧ expression.IsData
  | .application operator operands => operator.IsData ∧ operands.IsData
  | .constant _ | .symbol _ | .quotation _ | .malformed => True

theorem Form.allData_of {e : Value} (h : e.IsData) : (Form.of e).AllData := by
  have hshape := Form.shape_of e
  generalize Form.of e = form at hshape
  cases form with
  | branch test yes no =>
      cases no with
      | none =>
          obtain ⟨_, _, _, _, rfl⟩ := hshape
          simp only [Value.isData_pair] at h
          exact ⟨h.2.1, h.2.2.1, nofun⟩
      | some x =>
          obtain ⟨_, _, _, _, _, rfl⟩ := hshape
          simp only [Value.isData_pair] at h
          refine ⟨h.2.1, h.2.2.1, ?_⟩
          rintro _ ⟨⟩
          exact h.2.2.2.1
  | sequence expressions =>
      obtain ⟨_, _, rfl⟩ := hshape
      exact (Value.isData_pair.mp h).2
  | lambda parameters body =>
      obtain ⟨_, _, _, rfl⟩ := hshape
      simp only [Value.isData_pair] at h
      exact h.2
  | procedure name parameters body =>
      obtain ⟨_, _, _, _, rfl⟩ := hshape
      simp only [Value.isData_pair] at h
      exact ⟨h.2.1.1, h.2.1.2, h.2.2⟩
  | definition name x | assignment name x =>
      obtain ⟨_, _, _, _, rfl⟩ := hshape
      simp only [Value.isData_pair] at h
      exact ⟨h.2.1, h.2.2.1⟩
  | application operator operands =>
      obtain ⟨_, rfl⟩ := hshape
      exact Value.isData_pair.mp h
  | constant | symbol | quotation | malformed => trivial

/-- What follows the first two elements of data is data. -/
theorem Value.IsData.afterSecond {e : Value} (h : e.IsData) : e.afterSecond.IsData := by
  unfold Value.afterSecond
  split
  · simp only [isData_pair] at h
    exact h.2.2
  · exact h

end SchemeMachine
