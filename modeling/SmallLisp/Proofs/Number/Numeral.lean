import Mathlib.Data.List.TakeWhile
import SmallLisp.Number.Decimal

/-!
# SmallLisp.Proofs.Number.Numeral

The numerals as a grammar, and the decimals they stand for.

* `Numeral`: a minus sign or none, then digits with at most one point.
* `read?_eq_some_iff`: numerals are what is read as a decimal.
-/

namespace SmallLisp
namespace Number

/-- Digits with at most one point among them, one digit at the least. -/
inductive Unsigned (negative : Bool) : List Char → Decimal → Prop
  | whole {digits : List Char} : digits ≠ [] → (∀ c ∈ digits, c.isDigit = true) →
      Unsigned negative digits ⟨negative, Decimal.ofDigits digits, 0⟩
  | point {whole fraction : List Char} : whole ++ fraction ≠ [] →
      (∀ c ∈ whole ++ fraction, c.isDigit = true) →
      Unsigned negative (whole ++ '.' :: fraction)
        ⟨negative, Decimal.ofDigits (whole ++ fraction), -(fraction.length : Int)⟩

/-- A minus sign or none, then digits with at most one point. -/
inductive Numeral : List Char → Decimal → Prop
  | positive {cs : List Char} {d : Decimal} : Unsigned false cs d → Numeral cs d
  | negative {cs : List Char} {d : Decimal} : Unsigned true cs d → Numeral ('-' :: cs) d

theorem Unsigned.head_ne_minus {negative : Bool} {cs : List Char} {d : Decimal}
    (h : Unsigned negative cs d) : cs.head? ≠ some '-' := by
  intro hm
  cases h with
  | whole _ hd => exact absurd (hd '-' (List.mem_of_head? hm)) (by decide)
  | @point whole fraction _ hd =>
    cases whole with
    | nil => exact absurd hm (by simp)
    | cons c whole =>
      cases hm
      exact absurd (hd '-' (by simp)) (by decide)

theorem readUnsigned?_eq_some_iff (negative : Bool) (cs : List Char) (d : Decimal) :
    Decimal.readUnsigned? negative cs = some d ↔ Unsigned negative cs d := by
  constructor
  · intro h
    have hw : ∀ c ∈ cs.takeWhile Char.isDigit, c.isDigit = true :=
      List.all_eq_true.mp List.all_takeWhile
    have hcs : cs.takeWhile Char.isDigit ++ cs.dropWhile Char.isDigit = cs :=
      List.takeWhile_append_dropWhile
    simp only [Decimal.readUnsigned?] at h
    split at h
    · rename_i hdrop
      rw [hdrop, List.append_nil] at hcs
      rw [hcs] at h hw
      split at h
      · cases h
      · rename_i hne
        cases h
        exact .whole (by simpa using hne) hw
    · rename_i fraction hdrop
      split at h
      · rename_i hf
        cases h
        simp only [Bool.and_eq_true, List.all_eq_true, Bool.not_eq_true', Bool.and_eq_false_iff,
          List.isEmpty_eq_false_iff] at hf
        rw [hdrop] at hcs
        have hne : cs.takeWhile Char.isDigit ++ fraction ≠ [] := by
          rw [ne_eq, List.append_eq_nil_iff, not_and_or]
          exact hf.2
        have hdigits : ∀ c ∈ cs.takeWhile Char.isDigit ++ fraction, c.isDigit = true := by
          intro c hc
          exact (List.mem_append.mp hc).elim (hw c) (hf.1 c)
        have hp : Unsigned negative _ _ := .point hne hdigits
        rwa [hcs] at hp
      · cases h
    · cases h
  · intro h
    cases h with
    | whole hne hd =>
      have htake : cs.takeWhile Char.isDigit = cs := List.takeWhile_eq_self_iff.mpr hd
      have hdrop : cs.dropWhile Char.isDigit = [] := List.dropWhile_eq_nil_iff.mpr hd
      simp only [Decimal.readUnsigned?, htake, hdrop, List.isEmpty_iff, if_neg hne]
    | @point whole fraction hne hd =>
      have hw : ∀ c ∈ whole, c.isDigit = true := fun c hc => hd c (by simp [hc])
      have hf : fraction.all Char.isDigit = true :=
        List.all_eq_true.mpr fun c hc => hd c (by simp [hc])
      have htake : (whole ++ '.' :: fraction).takeWhile Char.isDigit = whole := by
        rw [List.takeWhile_append_of_pos hw, List.takeWhile_cons_of_neg (by decide),
          List.append_nil]
      have hdrop : (whole ++ '.' :: fraction).dropWhile Char.isDigit = '.' :: fraction := by
        rw [List.dropWhile_append_of_pos hw, List.dropWhile_cons_of_neg (by decide)]
      have hsome : (whole.isEmpty && fraction.isEmpty) = false := by
        rw [Bool.and_eq_false_iff, List.isEmpty_eq_false_iff, List.isEmpty_eq_false_iff]
        exact not_and_or.mp fun h => hne (by rw [h.1, h.2]; rfl)
      simp only [Decimal.readUnsigned?, htake, hdrop, hf, hsome, Bool.not_false, Bool.and_self,
        if_true]

theorem read?_eq_some_iff (cs : List Char) (d : Decimal) :
    Decimal.read? cs = some d ↔ Numeral cs d := by
  constructor
  · intro h
    unfold Decimal.read? at h
    split at h
    · exact .negative ((readUnsigned?_eq_some_iff _ _ _).mp h)
    · exact .positive ((readUnsigned?_eq_some_iff _ _ _).mp h)
  · intro h
    cases h with
    | positive hu =>
      unfold Decimal.read?
      split
      · exact absurd rfl hu.head_ne_minus
      · exact (readUnsigned?_eq_some_iff _ _ _).mpr hu
    | negative hu => exact (readUnsigned?_eq_some_iff _ _ _).mpr hu

theorem Numeral.ne_nil {cs : List Char} {d : Decimal} (h : Numeral cs d) : cs ≠ [] := by
  cases h with
  | positive hu =>
    cases hu with
    | whole hne _ => exact hne
    | point _ _ => simp
  | negative _ => simp

end Number
end SmallLisp
