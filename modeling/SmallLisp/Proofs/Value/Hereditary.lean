import SmallLisp.Builtin.Arithmetic
import SmallLisp.Builtin.Lists

/-!
# SmallLisp.Proofs.Value.Hereditary

Properties that lists hand on to their parts and have from them. Taking lists apart and building
them keeps such a property, and so does everything the builtins do without a world: they make
numbers and lists, and atoms only by handing on those they were given.

* `Occurs`: an atom occurs somewhere in a value; `Mentions`: a name does, in a symbol or a variable.
* `hereditary_within`: that only certain atoms occur is such a property.
* `hereditary_linked`: so is that no list in a value is open, as `cons` never makes one.
-/

namespace SmallLisp
namespace Value

/-- An atom occurs in a value, at any depth. -/
def Occurs (atom : Value) : Value → Prop
  | .pair head tail => Occurs atom head ∨ Occurs atom tail
  | .last head => Occurs atom head
  | v => v = atom

/-- A symbol or a variable with this name occurs in a value. -/
def Mentions (v : Value) (name : String) : Prop :=
  Occurs (.sym name) v ∨ Occurs (.var name) v

/-- Only atoms that satisfy `p` occur in a value. -/
def Within (p : Value → Prop) (v : Value) : Prop :=
  ∀ atom, Occurs atom v → p atom

/-- No list in a value is open: each has its link. -/
def Linked : Value → Prop
  | .pair head tail => Linked head ∧ Linked tail
  | .last _ => False
  | _ => True

/-- A property that every list hands on to its parts and has from them, and that no number and no end
of a list lacks. No builtin makes an open list, so such a list need not have it from its part. -/
structure Hereditary (P : Value → Prop) : Prop where
  nil : P .nil
  num : ∀ x, P (.num x)
  pair : ∀ head tail, P (.pair head tail) ↔ P head ∧ P tail
  last : ∀ head, P (.last head) → P head

theorem hereditary_within {p : Value → Prop} (hnil : p .nil) (hnum : ∀ x, p (.num x)) :
    Hereditary (Within p) where
  nil := by intro atom h; exact h ▸ hnil
  num := by intro x atom h; exact h ▸ hnum x
  pair := by
    intro head tail
    constructor
    · intro h; exact ⟨fun a ha => h a (.inl ha), fun a ha => h a (.inr ha)⟩
    · rintro ⟨hh, ht⟩ a (ha | ha)
      · exact hh a ha
      · exact ht a ha
  last := fun _ => id

theorem hereditary_linked : Hereditary Linked where
  nil := trivial
  num := fun _ => trivial
  pair := fun _ _ => Iff.rfl
  last := fun _ => False.elim

namespace Hereditary

variable {P : Value → Prop} (hP : Hereditary P)

include hP

theorem elements {v : Value} (h : P v) : ∀ a ∈ v.elements, P a := by
  induction v with
  | nil => intro a ha; cases ha
  | pair head tail _ iht =>
    intro a ha
    obtain ⟨hh, ht⟩ := (hP.pair head tail).mp h
    rcases List.mem_cons.mp ha with ha | ha
    · exact ha ▸ hh
    · exact iht ht a ha
  | last head _ => intro a ha; exact List.mem_singleton.mp ha ▸ hP.last head h
  | _ => intro a ha; exact List.mem_singleton.mp ha ▸ h

theorem ofList {vs : List Value} (h : ∀ v ∈ vs, P v) : P (Value.ofList vs) := by
  induction vs with
  | nil => exact hP.nil
  | cons v vs ih =>
    exact (hP.pair _ _).mpr ⟨h v (by simp), ih fun u hu => h u (by simp [hu])⟩

theorem nth {v : Value} (h : P v) (n : Nat) : P (v.nth n) := by
  induction n generalizing v with
  | zero =>
    cases v with
    | pair head tail => exact ((hP.pair _ _).mp h).1
    | last head => exact hP.last _ h
    | _ => exact h
  | succ n ih =>
    cases v with
    | pair head tail => exact ih ((hP.pair _ _).mp h).2
    | _ => exact hP.nil

theorem car {v u : Value} (h : P v) (hu : v.car = .ok u) : P u := by
  cases v with
  | pair head tail => cases hu; exact ((hP.pair _ _).mp h).1
  | last head => cases hu; exact hP.last _ h
  | _ => cases hu

theorem cdr {v u : Value} (h : P v) (hu : v.cdr = .ok u) : P u := by
  cases v with
  | pair head tail => cases hu; exact ((hP.pair _ _).mp h).2
  | last head => cases hu; exact hP.nil
  | _ => cases hu

theorem fold {operation : String} {f : Float → Float → Float} {neutral : Float}
    {args : List Value} {u : Value} (hu : Arithmetic.fold operation f neutral args = .ok u) :
    P u := by
  simp only [Arithmetic.fold] at hu
  split at hu
  · cases hu
  · cases hu; exact hP.num _

theorem foldFirst {operation : String} {counted : Counted} {f : Float → Float → Float}
    {args : List Value} {u : Value} (hu : Arithmetic.foldFirst operation counted f args = .ok u) :
    P u := by
  simp only [Arithmetic.foldFirst] at hu
  split at hu
  · cases hu
  · cases hu
  · cases hu; exact hP.num _

theorem cons {args : List Value} {u : Value} (h : ∀ v ∈ args, P v)
    (hu : Lists.cons args = .ok u) : P u := by
  rcases args with _ | ⟨a, _ | ⟨b, _ | ⟨_, _⟩⟩⟩
  · cases hu
  · cases hu; exact (hP.pair _ _).mpr ⟨h a (by simp), hP.nil⟩
  · cases hu; exact (hP.pair _ _).mpr ⟨h a (by simp), h b (by simp)⟩
  · cases hu

theorem partOf {part : Part} {counted : Counted} {access : Value → Except Error Value}
    (haccess : ∀ {v u}, P v → access v = .ok u → P u) {args : List Value} {u : Value}
    (h : ∀ v ∈ args, P v) (hu : Lists.partOf part counted access args = .ok u) : P u := by
  unfold Lists.partOf at hu
  split at hu
  · cases hu; exact hP.nil
  · cases hu; exact hP.nil
  · split at hu
    · exact haccess (h _ (by simp)) hu
    · cases hu
  · cases hu

theorem nthOf {args : List Value} {u : Value} (h : ∀ v ∈ args, P v)
    (hu : Lists.nth args = .ok u) : P u := by
  unfold Lists.nth at hu
  split at hu
  · rename_i position v
    split at hu
    · cases hu
    · split at hu
      · cases hu
      · rename_i i hi
        split at hu
        · rw [nthAt, if_neg hi] at hu
          cases hu
          exact hP.nth (h v (by simp)) _
        · cases hu
  · cases hu

end Hereditary
end Value
end SmallLisp
