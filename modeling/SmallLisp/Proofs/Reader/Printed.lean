import SmallLisp.Proofs.Reader.Reread

/-!
# SmallLisp.Proofs.Reader.Printed

Code that is printed can be read again. The printed text of a form is a form of the grammar, and
its value there is equal to the form.

* `Legible`: the atoms whose texts are tokens of the same atom.
* `IsCode`: forms as values, with legible atoms in them.
* `isWritten_of_isCode`: forms are written, and nothing in them is read otherwise.
* `parse_render`: reading undoes printing.
-/

namespace SmallLisp
namespace Reader

/-- An atom that can stand behind an operator and be read again. -/
def Legible : Value → Prop
  | .nil => True
  | .num x => Number.IsFinite x ∧ 'e' ∉ (Number.text x).toList
  | .sym id => ∀ c ∈ id.toList, isTokenChar c = true
  | .var id => IsToken id.toList ∧ id.toList ≠ ['n', 'i', 'l'] ∧ id.toList.head? ≠ some '\'' ∧
      ∃ c ∈ id.toList, isNumeralChar c = false
  | _ => False

mutual

/-- A form as a value: a proper list of an operator or a form, and arguments behind it. -/
def IsCode : Value → Prop
  | .pair head tail => (IsOperator head ∨ IsCode head) ∧ AreArguments tail
  | _ => False

/-- A proper list of legible atoms and forms. -/
def AreArguments : Value → Prop
  | .nil => True
  | .pair head tail => (Legible head ∨ IsCode head) ∧ AreArguments tail
  | _ => False

end

/-! ## Code as what is written -/

theorem isWord_of_legible {v : Value} (h : Legible v) : IsWord v := by
  cases v with
  | nil => exact isWord_nil
  | num x => exact isWord_num x
  | sym id => exact isWord_sym h
  | var id =>
    obtain ⟨htoken, hnil, hquote, hother⟩ := h
    exact isWord_var htoken hnil hquote hother
  | _ => cases h

theorem plain_of_legible {v : Value} (h : Legible v) {x : Float} (hx : Value.Occurs (.num x) v) :
    Number.IsPlain x := by
  cases v with
  | num y => cases hx; exact h
  | pair head tail => cases h
  | last head => cases h
  | _ => cases hx

theorem isWritten_of_isCode (v : Value) :
    (IsCode v → IsWritten v ∧ ∀ x, Value.Occurs (.num x) v → Number.IsPlain x) ∧
    (AreArguments v → AreWritten v ∧ ∀ x, Value.Occurs (.num x) v → Number.IsPlain x) := by
  induction v with
  | nil => exact ⟨False.elim, fun _ => ⟨trivial, fun _ => nofun⟩⟩
  | pair head tail ihhead ihtail =>
    constructor
    · rintro ⟨hhead, htail⟩
      obtain ⟨hwritten, hplain⟩ := ihtail.2 htail
      rcases hhead with hop | hcode
      · refine ⟨⟨.inl hop, hwritten⟩, Value.forall_num_pair_iff.mpr ⟨fun x hx => ?_, hplain⟩⟩
        cases head with
        | op id => cases hx
        | _ => cases hop
      · exact ⟨⟨.inr (ihhead.1 hcode).1, hwritten⟩,
          Value.forall_num_pair_iff.mpr ⟨(ihhead.1 hcode).2, hplain⟩⟩
    · rintro ⟨hhead, htail⟩
      obtain ⟨hwritten, hplain⟩ := ihtail.2 htail
      rcases hhead with hatom | hcode
      · exact ⟨⟨.inl (isWord_of_legible hatom), hwritten⟩,
          Value.forall_num_pair_iff.mpr ⟨fun _ => plain_of_legible hatom, hplain⟩⟩
      · exact ⟨⟨.inr (ihhead.1 hcode).1, hwritten⟩,
          Value.forall_num_pair_iff.mpr ⟨(ihhead.1 hcode).2, hplain⟩⟩
  | _ => exact ⟨False.elim, False.elim⟩

theorem spells_render (v : Value) :
    (IsCode v → ∃ body items u, v.render.toList = '(' :: body ++ [')'] ∧ Spells body items ∧
      FormValue items u ∧ u.equal v = true) ∧
    (AreArguments v → ∃ items args, Spells (argumentText v) items ∧
      List.Forall₂ Item.Argument items args ∧ (Value.ofList args).equal v = true) := by
  constructor
  · intro h
    obtain ⟨hwritten, hplain⟩ := (isWritten_of_isCode v).1 h
    obtain ⟨body, items, htext, hspell, hvalue⟩ := (spells_reread v).1 hwritten
    exact ⟨body, items, _, htext, hspell, hvalue, v.equal_reread_iff.mpr hplain⟩
  · intro h
    obtain ⟨hwritten, hplain⟩ := (isWritten_of_isCode v).2 h
    obtain ⟨items, args, hspell, hargs, hvalue⟩ := (spells_reread v).2 hwritten
    exact ⟨items, args, hspell, hargs, by rw [hvalue]; exact v.equal_reread_iff.mpr hplain⟩

/-- Reading undoes printing on forms: the text of a form is read as an equal form. -/
theorem parse_render {v : Value} (h : IsCode v) :
    ∃ u, parse v.render = .ok u ∧ u.equal v = true := by
  obtain ⟨body, items, u, htext, hspell, hvalue, hequal⟩ := (spells_render v).1 h
  refine ⟨u, ?_, hequal⟩
  have hform : IsForm v.render.toList u := ⟨body, items, htext, hspell, hvalue⟩
  have hwhole : v.render.toList = [] ++ v.render.toList ++ [] := by simp
  exact parse_of_isForm hwhole (by simp) hform

/-- A form in the first place, `nil`, a symbol without a name and the negative zero. -/
theorem parse_render_form_head :
    let v := Value.ofList
      [.ofList [.op "f", .var "x"], .nil, .sym "", .num (Number.ofCode true 0)]
    IsCode v ∧ ∃ u, parse v.render = .ok u ∧ u.equal v = true := by
  intro v
  have hx : Legible (.var "x") :=
    ⟨⟨by decide, List.all_eq_true.mp rfl⟩, by decide, by decide, 'x', by decide, rfl⟩
  have hf : IsCode (.ofList [.op "f", .var "x"]) :=
    ⟨.inl ⟨by decide, List.all_eq_true.mp rfl⟩, .inl hx, trivial⟩
  have hsym : Legible (.sym "") := by intro c hc; cases hc
  have hzero : Legible (.num (Number.ofCode true 0)) := ⟨⟨true, 0, -1074, by decide⟩, by decide⟩
  have hv : IsCode v := ⟨.inr hf, .inl trivial, .inl hsym, .inl hzero, trivial⟩
  exact ⟨hv, parse_render hv⟩

end Reader
end SmallLisp
