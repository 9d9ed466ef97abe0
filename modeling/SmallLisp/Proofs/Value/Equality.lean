import SmallLisp.Proofs.Number.Equality
import SmallLisp.Proofs.Value.Sequence
import SmallLisp.Value.Loose

/-!
# SmallLisp.Proofs.Value.Equality

Equality of values, and of what may lie in the cell store in the place of one. Two of these are
equal just if every number in them is one, which `nan` is not, and they are the same once no zero
has a sign. Texts, elements and truth do not show that sign.

* `Loose.NanFree`, `Loose.unsigned`: every number is one; no zero has a sign.
* `Loose.equal_iff`: equality is identity of what is left then.
* `Value.keepsTexts_unsigned`, `Value.elements_of_equal`: what equal values have in common.
* `Value.equal_laws`: all of it together.
-/

namespace SmallLisp
namespace Loose

/-- An atom occurs in what is stored, at any depth, in a bare cell too. -/
def Occurs (atom : Loose) : Loose → Prop
  | .pair head tail => Occurs atom head ∨ Occurs atom tail
  | .last head => Occurs atom head
  | .cell head => Occurs atom head
  | .cells head rest => Occurs atom head ∨ Occurs atom rest
  | v => v = atom

/-- Every number that occurs is one. -/
def NanFree (v : Loose) : Prop :=
  ∀ x, Occurs (.num x) v → x.isNaN = false

/-- What is stored, with no sign on its zeros. -/
def unsigned : Loose → Loose
  | .num x => .num (Number.unsignZero x)
  | .pair head tail => .pair head.unsigned tail.unsigned
  | .last head => .last head.unsigned
  | .cell head => .cell head.unsigned
  | .cells head rest => .cells head.unsigned rest.unsigned
  | v => v

theorem nanFree_num_iff (x : Float) : (num x).NanFree ↔ x.isNaN = false :=
  ⟨fun h => h x rfl, by rintro h _ ⟨⟩; exact h⟩

theorem nanFree_pair_iff (head tail : Loose) :
    (pair head tail).NanFree ↔ head.NanFree ∧ tail.NanFree := by
  simp only [NanFree, Occurs, or_imp, forall_and]

theorem nanFree_cells_iff (head rest : Loose) :
    (cells head rest).NanFree ↔ head.NanFree ∧ rest.NanFree := by
  simp only [NanFree, Occurs, or_imp, forall_and]

theorem equal_iff (a b : Loose) :
    a.equal b = true ↔ a.NanFree ∧ b.NanFree ∧ a.unsigned = b.unsigned := by
  induction a generalizing b with
  | num x =>
    cases b with
    | num y =>
      rw [equal, Number.beq_iff, nanFree_num_iff, nanFree_num_iff, unsigned, unsigned, num.injEq]
    | _ => simp [equal, unsigned]
  | pair head tail ihhead ihtail =>
    cases b with
    | pair head' tail' =>
      rw [equal, Bool.and_eq_true, ihhead, ihtail, nanFree_pair_iff, nanFree_pair_iff, unsigned,
        unsigned, pair.injEq]
      tauto
    | _ => simp [equal, unsigned]
  | last head ihhead =>
    cases b with
    | last head' =>
      rw [equal, ihhead, unsigned, unsigned, last.injEq]
      rfl
    | _ => simp [equal, unsigned]
  | cell head ihhead =>
    cases b with
    | cell head' =>
      rw [equal, ihhead, unsigned, unsigned, cell.injEq]
      rfl
    | _ => simp [equal, unsigned]
  | cells head rest ihhead ihrest =>
    cases b with
    | cells head' rest' =>
      rw [equal, Bool.and_eq_true, ihhead, ihrest, nanFree_cells_iff, nanFree_cells_iff, unsigned,
        unsigned, cells.injEq]
      tauto
    | _ => simp [equal, unsigned]
  | _ => cases b <;> simp [equal, unsigned, NanFree, Occurs]

theorem equal_comm (a b : Loose) : a.equal b = b.equal a := by
  rw [Bool.eq_iff_iff, equal_iff, equal_iff]
  exact ⟨fun ⟨ha, hb, h⟩ => ⟨hb, ha, h.symm⟩, fun ⟨hb, ha, h⟩ => ⟨ha, hb, h.symm⟩⟩

theorem equal_trans {a b c : Loose} (h : a.equal b = true) (h' : b.equal c = true) :
    a.equal c = true := by
  obtain ⟨ha, -, hab⟩ := (equal_iff a b).mp h
  obtain ⟨-, hc, hbc⟩ := (equal_iff b c).mp h'
  exact (equal_iff a c).mpr ⟨ha, hc, hab.trans hbc⟩

theorem equal_self_iff (a : Loose) : a.equal a = true ↔ a.NanFree := by
  rw [equal_iff]
  exact ⟨fun h => h.1, fun h => ⟨h, h, rfl⟩⟩

end Loose

namespace Value

/-- A value with no sign on its zeros. -/
def unsigned : Value → Value
  | .num x => .num (Number.unsignZero x)
  | .pair head tail => .pair head.unsigned tail.unsigned
  | .last head => .last head.unsigned
  | v => v

theorem toLoose_unsigned (v : Value) : v.unsigned.toLoose = v.toLoose.unsigned := by
  induction v with
  | pair head tail ihhead ihtail => exact congrArg₂ Loose.pair ihhead ihtail
  | last head ihhead => exact congrArg Loose.last ihhead
  | _ => rfl

theorem toLoose_inj {u v : Value} : u.toLoose = v.toLoose ↔ u = v := by
  refine ⟨fun h => ?_, congrArg toLoose⟩
  have hvalue := congrArg Loose.toValue h
  rwa [toValue_toLoose, toValue_toLoose, Except.ok.injEq] at hvalue

theorem equal_iff (u v : Value) :
    u.equal v = true ↔ u.toLoose.NanFree ∧ v.toLoose.NanFree ∧ u.unsigned = v.unsigned := by
  rw [equal, Loose.equal_iff, ← toLoose_unsigned, ← toLoose_unsigned, toLoose_inj]

theorem keepsTexts_unsigned : KeepsTexts unsigned where
  pair := fun _ _ => rfl
  last := fun _ => rfl
  atom := by
    intro v hv
    cases v with
    | num x => simp only [unsigned, render, elementTexts, enclose, Number.text_unsignZero, and_self]
    | pair head tail => cases hv
    | last head => cases hv
    | _ => exact ⟨rfl, rfl⟩

theorem isTruthy_unsigned (v : Value) : v.unsigned.isTruthy = v.isTruthy := by
  cases v <;> rfl

theorem elements_unsigned (v : Value) : v.unsigned.elements = v.elements.map unsigned := by
  induction v with
  | pair head tail _ ihtail => exact congrArg (head.unsigned :: ·) ihtail
  | _ => rfl

theorem nanFree_of_mem_elements {v : Value} (h : v.toLoose.NanFree) :
    ∀ u ∈ v.elements, u.toLoose.NanFree := by
  induction v with
  | nil => intro u hu; cases hu
  | pair head tail _ ihtail =>
    obtain ⟨hhead, htail⟩ := (Loose.nanFree_pair_iff _ _).mp h
    intro u hu
    rcases List.mem_cons.mp hu with rfl | hu
    · exact hhead
    · exact ihtail htail u hu
  | last head _ => intro u hu; exact List.mem_singleton.mp hu ▸ h
  | _ => intro u hu; exact List.mem_singleton.mp hu ▸ h

theorem elements_of_equal {u v : Value} (h : u.equal v = true) :
    List.Forall₂ (fun a b => a.equal b = true) u.elements v.elements := by
  obtain ⟨hu, hv, huv⟩ := (equal_iff u v).mp h
  have hmap : u.elements.map unsigned = v.elements.map unsigned := by
    rw [← elements_unsigned, ← elements_unsigned, huv]
  have hlength : u.elements.length = v.elements.length := by
    simpa only [List.length_map] using congrArg List.length hmap
  refine List.forall₂_iff_get.mpr ⟨hlength, fun i hi hi' => (equal_iff _ _).mpr ⟨?_, ?_, ?_⟩⟩
  · exact nanFree_of_mem_elements hu _ (List.get_mem _ _)
  · exact nanFree_of_mem_elements hv _ (List.get_mem _ _)
  · have hget : (u.elements.map unsigned)[i]? = (v.elements.map unsigned)[i]? := by rw [hmap]
    simpa [hi, hi'] using hget

/-- Equality is symmetric and transitive, bare cells included, and the two zeros are equal. What
equals itself is what `nan` does not occur in. Equal values have the same text and the same truth,
as many elements, and equal ones at each position. -/
theorem equal_laws (a b c : Loose) :
    a.equal b = b.equal a ∧
    (a.equal b = true → b.equal c = true → a.equal c = true) ∧
    (a.equal a = true ↔ ∀ x, Loose.Occurs (.num x) a → x.isNaN = false) ∧
    (∀ negative negative', (Value.num (Number.ofCode negative 0)).equal
      (.num (Number.ofCode negative' 0)) = true) ∧
    ∀ u v : Value, u.equal v = true →
      u.render = v.render ∧ u.isTruthy = v.isTruthy ∧
      u.elements.length = v.elements.length ∧
      List.Forall₂ (fun a b => a.equal b = true) u.elements v.elements := by
  refine ⟨Loose.equal_comm a b, Loose.equal_trans, Loose.equal_self_iff a, Number.zero_beq_zero,
    fun u v h => ?_⟩
  obtain ⟨-, -, huv⟩ := (equal_iff u v).mp h
  have helements := elements_of_equal h
  refine ⟨?_, ?_, helements.length_eq, helements⟩
  · rw [← keepsTexts_unsigned.render_eq u, huv, keepsTexts_unsigned.render_eq]
  · rw [← isTruthy_unsigned u, huv, isTruthy_unsigned]

end Value
end SmallLisp
