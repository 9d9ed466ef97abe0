import SmallLisp.Value.Access
import SmallLisp.Value.Printer

/-!
# SmallLisp.Proofs.Value.Sequence

A value as the sequence of its elements. Positions, the first element and what follows it are read
off that sequence, whatever the chain ends in, and so is the text of a list. Only how the chain ends
can not: a list is built from its elements again just if it is proper.

* `IsProper`: chains that end in `nil`.
* `nth_eq_getD`, `render_of_isList`: positions and texts by the elements.
* `ofList_elements_eq_iff`: the chains that are made of nothing but their elements.
* `KeepsTexts`: functions on values that change no text.
* `sequence_views`: all views of one value together.
-/

namespace SmallLisp
namespace Value

/-- A chain that ends in `nil`; `nil` is the empty one. -/
def IsProper : Value → Prop
  | .nil => True
  | .pair _ tail => tail.IsProper
  | _ => False

theorem nth_eq_getD (v : Value) (n : Nat) : v.nth n = v.elements.getD n .nil := by
  induction v generalizing n with
  | nil => cases n <;> rfl
  | pair head tail _ iht =>
    cases n with
    | zero => rfl
    | succ n => exact iht n
  | last head _ => cases n <;> rfl
  | _ => cases n <;> rfl

theorem nthAt_eq (v : Value) (i : Int) :
    v.nthAt i = if i < 0 then .error (.negativePosition i)
      else .ok (v.elements.getD i.toNat .nil) := by
  rw [nthAt, nth_eq_getD]

/-- A list has a first element, and what follows that has the others. -/
theorem elements_of_isList {v : Value} (h : v.isList = true) :
    ∃ head rest, v.car = .ok head ∧ v.cdr = .ok rest ∧ v.elements = head :: rest.elements := by
  cases v with
  | pair head tail => exact ⟨head, tail, rfl, rfl, rfl⟩
  | last head => exact ⟨head, .nil, rfl, rfl, rfl⟩
  | _ => cases h

theorem ofList_elements_eq_iff (v : Value) : ofList v.elements = v ↔ v.IsProper := by
  induction v with
  | nil => exact ⟨fun _ => trivial, fun _ => rfl⟩
  | pair head tail _ iht =>
    rw [elements, ofList, pair.injEq, and_iff_right rfl, iht]
    rfl
  | _ => simp [elements, ofList, IsProper]

/-- The text of a list is made of those of its elements. -/
theorem render_of_isList {v : Value} (h : v.isList = true) :
    v.render = "(" ++ String.intercalate " " (v.elements.map render) ++ ")" := by
  rw [render, elementTexts_eq_map]
  cases v with
  | pair head tail => rfl
  | last head => rfl
  | _ => cases h

theorem isList_ofList {vs : List Value} (h : vs ≠ []) : (ofList vs).isList = true := by
  cases vs with
  | nil => exact absurd rfl h
  | cons v vs => rfl

/-- The text of a list does not show what it ends in. -/
theorem render_ofList_elements {v : Value} (h : v.isList = true) :
    (ofList v.elements).render = v.render := by
  obtain ⟨head, rest, -, -, helements⟩ := elements_of_isList h
  have hlist : (ofList v.elements).isList = true := isList_ofList (by simp [helements])
  rw [render_of_isList hlist, elements_ofList, render_of_isList h]

/-- A function on values that changes atoms only, and these so that they print as before. -/
structure KeepsTexts (f : Value → Value) : Prop where
  pair : ∀ head tail, f (.pair head tail) = .pair (f head) (f tail)
  last : ∀ head, f (.last head) = .last (f head)
  atom : ∀ v, v.isList = false → (f v).elementTexts = v.elementTexts ∧ (f v).render = v.render

theorem KeepsTexts.texts {f : Value → Value} (hf : KeepsTexts f) (v : Value) :
    (f v).elementTexts = v.elementTexts ∧ (f v).render = v.render := by
  induction v with
  | pair head tail ihhead ihtail =>
    have htexts : (f (.pair head tail)).elementTexts = (Value.pair head tail).elementTexts := by
      rw [hf.pair]
      show (f head).render :: (f tail).elementTexts = head.render :: tail.elementTexts
      rw [ihhead.2, ihtail.1]
    refine ⟨htexts, ?_⟩
    rw [render, htexts, hf.pair]
    rfl
  | last head ihhead =>
    have htexts : (f (.last head)).elementTexts = (Value.last head).elementTexts := by
      rw [hf.last]
      show [(f head).render] = [head.render]
      rw [ihhead.2]
    refine ⟨htexts, ?_⟩
    rw [render, htexts, hf.last]
    rfl
  | _ => exact hf.atom _ rfl

theorem KeepsTexts.render_eq {f : Value → Value} (hf : KeepsTexts f) (v : Value) :
    (f v).render = v.render :=
  (hf.texts v).2

/-- The views of a value agree with the sequence of its elements. At a position of the sequence is
its element, behind it there is `nil`, and before it there is nothing to be asked for; of a list the
parts are the first element and a value with the others. Every sequence is that of the list built
from it. The list built from the elements of a value is that value just if it is proper, and is
printed like it if it is any list. -/
theorem sequence_views (v : Value) :
    (∀ i : Int, v.nthAt i = if i < 0 then .error (.negativePosition i)
      else .ok (v.elements.getD i.toNat .nil)) ∧
    (v.isList = true → ∃ head rest,
      v.car = .ok head ∧ v.cdr = .ok rest ∧ v.elements = head :: rest.elements) ∧
    (∀ vs, (ofList vs).elements = vs) ∧
    (ofList v.elements = v ↔ v.IsProper) ∧
    (v.isList = true → (ofList v.elements).render = v.render) :=
  ⟨v.nthAt_eq, elements_of_isList, elements_ofList, v.ofList_elements_eq_iff,
    render_ofList_elements⟩

end Value
end SmallLisp
