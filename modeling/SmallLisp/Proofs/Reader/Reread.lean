import SmallLisp.Proofs.Number.Written
import SmallLisp.Proofs.Reader.Accepts
import SmallLisp.Proofs.Value.Hereditary
import SmallLisp.Proofs.Value.Sequence

/-!
# SmallLisp.Proofs.Reader.Reread

What becomes of a value that is printed and read again. Names, `nil` and plain numbers come back as
they are, zero without its sign; a number that is printed as an infinity or with an exponent comes
back as a variable of that name. The text stays the same, so that it is read and printed again
without any change.

* `Value.reread`: the value that the text of a value has, with `render_reread` and
  `equal_reread_iff`.
* `IsWord`: atoms whose texts are tokens; `IsWritten`: forms as values, with words in them.
* `isWritten_of_parse`: everything that is read is such a form, by induction on the grammar.
* `parse_of_isWritten`: the text of such a form is read, by induction on the value.
-/

namespace SmallLisp
namespace Value

/-- What the text of a value stands for as code. -/
def reread : Value → Value
  | .num x => if Number.IsPlain x then .num (Number.unsignZero x) else .var (Number.text x)
  | .pair head tail => .pair head.reread tail.reread
  | .last head => .last head.reread
  | v => v

theorem keepsTexts_reread : KeepsTexts reread where
  pair := fun _ _ => rfl
  last := fun _ => rfl
  atom := by
    intro v hv
    cases v with
    | num x =>
      simp only [reread]
      split
      · simp only [render, elementTexts, enclose, Number.text_unsignZero, and_self]
      · exact ⟨rfl, rfl⟩
    | pair head tail => cases hv
    | last head => cases hv
    | _ => exact ⟨rfl, rfl⟩

/-- To be read again changes no text. -/
theorem render_reread (v : Value) : v.reread.render = v.render :=
  keepsTexts_reread.render_eq v

theorem equal_pair (a b c d : Value) :
    (Value.pair a b).equal (.pair c d) = (a.equal c && b.equal d) := rfl

theorem forall_num_pair_iff {p : Float → Prop} {head tail : Value} :
    (∀ x, Occurs (.num x) (.pair head tail) → p x) ↔
      (∀ x, Occurs (.num x) head → p x) ∧ ∀ x, Occurs (.num x) tail → p x := by
  simp only [Occurs, or_imp, forall_and]

/-- A value is equal to what its text stands for just if all numbers in it are plain. -/
theorem equal_reread_iff (v : Value) :
    v.reread.equal v = true ↔ ∀ x, Occurs (.num x) v → Number.IsPlain x := by
  induction v with
  | nil => exact ⟨fun _ _ => nofun, fun _ => rfl⟩
  | sym id => exact ⟨fun _ _ => nofun, fun _ => beq_self_eq_true id⟩
  | var id => exact ⟨fun _ _ => nofun, fun _ => beq_self_eq_true id⟩
  | op id => exact ⟨fun _ _ => nofun, fun _ => beq_self_eq_true id⟩
  | num x =>
    have hoccurs : (∀ y, Occurs (.num y) (.num x) → Number.IsPlain y) ↔ Number.IsPlain x := by
      constructor
      · exact fun h => h x rfl
      · rintro h y ⟨⟩
        exact h
    rw [hoccurs, reread]
    split
    · rename_i hx
      exact ⟨fun _ => hx, fun _ => Number.unsignZero_beq hx.1⟩
    · rename_i hx
      exact ⟨nofun, fun h => absurd h hx⟩
  | pair head tail ihhead ihtail =>
    rw [reread, equal_pair, Bool.and_eq_true, ihhead, ihtail, forall_num_pair_iff]
  | last head ihhead => exact ihhead

end Value

namespace Reader

/-! ## Texts -/

/-- The text of arguments, with a blank in front of each. -/
def argumentText (v : Value) : List Char :=
  v.elementTexts.flatMap fun text => ' ' :: text.toList

theorem toList_intercalate_blank (texts : List String) :
    ∀ first : String, (String.intercalate " " (first :: texts)).toList =
      first.toList ++ texts.flatMap fun text => ' ' :: text.toList := by
  induction texts with
  | nil => intro first; rw [String.intercalate_singleton, List.flatMap_nil, List.append_nil]
  | cons text texts ih =>
    intro first
    rw [String.intercalate_cons_cons, String.toList_append, String.toList_append, ih,
      List.flatMap_cons, List.append_assoc]
    rfl

theorem toList_render_pair (head tail : Value) :
    (Value.pair head tail).render.toList =
      '(' :: (head.render.toList ++ argumentText tail) ++ [')'] := by
  have htexts : (Value.pair head tail).elementTexts = head.render :: tail.elementTexts := rfl
  rw [Value.render, htexts, Value.enclose, String.toList_append, String.toList_append,
    toList_intercalate_blank]
  rfl

theorem argumentText_pair (head tail : Value) :
    argumentText (.pair head tail) = ' ' :: (head.render.toList ++ argumentText tail) := by
  simp [argumentText, Value.elementTexts, Value.render]

theorem delimited_argumentText (v : Value) : Delimited (argumentText v) := by
  unfold argumentText
  cases v.elementTexts with
  | nil => intro c hc; cases hc
  | cons text texts => exact delimited_cons (by decide) _

/-! ## Words -/

/-- An atom whose text is a token. -/
structure IsWord (v : Value) : Prop where
  token : IsToken v.render.toList
  classified : Classified v.render.toList v.reread

theorem isTokenChar_of_isTextChar {c : Char} (h : Number.IsTextChar c) : isTokenChar c = true := by
  rcases h with h | h
  · exact isTokenChar_of_isNumeralChar (isNumeralChar_of_isDigit h)
  · simp only [List.mem_cons, List.not_mem_nil, or_false] at h
    rcases h with rfl | rfl | rfl | rfl <;> decide

/-- A number with an exponent is no numeral, and no other word of its own either. -/
theorem classified_exponent {x : Float} (hx : Number.IsFinite x)
    (he : 'e' ∈ (Number.text x).toList) :
    IsToken (Number.text x).toList ∧ Classified (Number.text x).toList (.var (Number.text x)) := by
  have hchars : ∀ c ∈ (Number.text x).toList, Number.IsTextChar c :=
    fun c hc => Number.isTextChar_of_mem_text hx hc
  have hnil : (Number.text x).toList ≠ ['n', 'i', 'l'] := by
    intro h
    rw [h] at he
    exact absurd he (by decide)
  have hquote : (Number.text x).toList.head? ≠ some '\'' := by
    intro h
    rcases hchars _ (List.mem_of_mem_head? h) with hd | hd
    · exact absurd hd (by decide)
    · exact absurd hd (by decide)
  refine ⟨⟨List.ne_nil_of_mem he, fun c hc => isTokenChar_of_isTextChar (hchars c hc)⟩, ?_⟩
  have hname := Classified.name hnil hquote ⟨'e', he, rfl⟩
  rwa [String.ofList_toList] at hname

theorem classified_infinity (negative : Bool) :
    IsToken (Number.infinityText negative) ∧
      Classified (Number.infinityText negative) (.var (String.ofList (Number.infinityText negative))) := by
  cases negative with
  | true =>
    exact ⟨⟨by decide, List.all_eq_true.mp rfl⟩, .name (by decide) (by decide) ⟨'i', by decide, rfl⟩⟩
  | false =>
    exact ⟨⟨by decide, List.all_eq_true.mp rfl⟩, .name (by decide) (by decide) ⟨'i', by decide, rfl⟩⟩

theorem classified_nan :
    IsToken Number.nanText ∧ Classified Number.nanText (.var (String.ofList Number.nanText)) :=
  ⟨⟨by decide, List.all_eq_true.mp rfl⟩, .name (by decide) (by decide) ⟨'n', by decide, rfl⟩⟩

/-- A number is a word, if not always of a number. -/
theorem isWord_num (x : Float) : IsWord (.num x) := by
  have hword : ∀ v, IsToken (Number.text x).toList ∧ Classified (Number.text x).toList v →
      (Value.num x).reread = v → IsWord (.num x) := by
    rintro _ ⟨htoken, hclass⟩ rfl
    exact ⟨htoken, hclass⟩
  by_cases hplain : Number.IsPlain x
  · obtain ⟨d, hnum, hd⟩ := Number.text_numeral hplain
    have hchars := isNumeralChar_of_numeral hnum
    refine hword (.num d.toFloat) ⟨⟨hnum.ne_nil, ?_⟩, .number hchars hnum⟩ ?_
    · exact fun c hc => isTokenChar_of_isNumeralChar (hchars c hc)
    · rw [Value.reread, if_pos hplain, hd]
  · refine hword (.var (Number.text x)) ?_ (by rw [Value.reread, if_neg hplain])
    cases hparts : Number.parts x with
    | finite negative m q =>
      have hx : Number.IsFinite x := ⟨negative, m, q, hparts⟩
      exact classified_exponent hx (by simpa [Number.IsPlain, hx] using hplain)
    | infinite negative =>
      simp only [Number.text, hparts, String.toList_ofList]
      exact classified_infinity negative
    | nan =>
      simp only [Number.text, hparts, String.toList_ofList]
      exact classified_nan

theorem toList_render_sym (id : String) : (Value.sym id).render.toList = '\'' :: id.toList :=
  String.toList_append

theorem isWord_sym {id : String} (h : ∀ c ∈ id.toList, isTokenChar c = true) :
    IsWord (.sym id) := by
  have hclass := Classified.symbol id.toList
  rw [String.ofList_toList] at hclass
  constructor
  · rw [toList_render_sym]
    refine ⟨by simp, fun c hc => ?_⟩
    rcases List.mem_cons.mp hc with rfl | hc
    · decide
    · exact h c hc
  · rw [toList_render_sym]
    exact hclass

theorem isWord_var {id : String} (htoken : IsToken id.toList) (hnil : id.toList ≠ ['n', 'i', 'l'])
    (hquote : id.toList.head? ≠ some '\'') (hother : ∃ c ∈ id.toList, isNumeralChar c = false) :
    IsWord (.var id) := by
  have hclass := Classified.name hnil hquote hother
  rw [String.ofList_toList] at hclass
  exact ⟨htoken, hclass⟩

theorem isWord_nil : IsWord .nil :=
  ⟨⟨by decide, List.all_eq_true.mp rfl⟩, .nil⟩

/-- What a token stands for is a word. -/
theorem isWord_of_classified {token : List Char} {v : Value} (htoken : IsToken token)
    (h : Classified token v) : IsWord v := by
  cases h with
  | nil => exact isWord_nil
  | symbol id =>
    refine isWord_sym fun c hc => htoken.chars c ?_
    rw [String.toList_ofList] at hc
    exact List.mem_cons_of_mem _ hc
  | number _ _ => exact isWord_num _
  | name hnil hquote hother =>
    have hlist := @String.toList_ofList token
    exact isWord_var (by rwa [hlist]) (by rwa [hlist]) (by rwa [hlist]) (by rwa [hlist])

/-- No list is a word. -/
theorem isList_of_isWord {v : Value} (h : IsWord v) : v.isList = false := by
  have hclass := h.classified
  cases v with
  | pair head tail => generalize (Value.pair head tail).render.toList = cs at hclass; cases hclass
  | last head => generalize (Value.last head).render.toList = cs at hclass; cases hclass
  | _ => rfl

/-! ## Written forms -/

/-- A function whose name can stand in the first place of a form and be read again. -/
def IsOperator : Value → Prop
  | .op id => IsToken id.toList
  | _ => False

theorem isList_of_isOperator {v : Value} (h : IsOperator v) : v.isList = false := by
  cases v with
  | op id => rfl
  | _ => cases h

mutual

/-- A form as a value: a proper list of an operator or a form, and words or forms behind it. -/
def IsWritten : Value → Prop
  | .pair head tail => (IsOperator head ∨ IsWritten head) ∧ AreWritten tail
  | _ => False

/-- A proper list of words and forms. -/
def AreWritten : Value → Prop
  | .nil => True
  | .pair head tail => (IsWord head ∨ IsWritten head) ∧ AreWritten tail
  | _ => False

end

theorem areWritten_ofList {args : List Value} (h : ∀ a ∈ args, IsWord a ∨ IsWritten a) :
    AreWritten (.ofList args) := by
  induction args with
  | nil => trivial
  | cons a args ih => exact ⟨h a (by simp), ih fun b hb => h b (by simp [hb])⟩

/-- What items stand for, in the first place and behind it. -/
def Item.IsWritten (item : Item) : Prop :=
  (IsOperator item.head ∨ Reader.IsWritten item.head) ∧
    ∀ v, item.Argument v → IsWord v ∨ Reader.IsWritten v

theorem isWritten_of_arguments {items : List Item} {args : List Value}
    (h : List.Forall₂ Item.Argument items args) (hitems : ∀ item ∈ items, item.IsWritten) :
    ∀ a ∈ args, IsWord a ∨ IsWritten a := by
  induction h with
  | nil => intro a ha; cases ha
  | cons hfirst _ ih =>
    intro a ha
    rcases List.mem_cons.mp ha with rfl | ha
    · exact (hitems _ (by simp)).2 a hfirst
    · exact ih (fun item hitem => hitems item (by simp [hitem])) a ha

theorem isWritten_of_formValue {items : List Item} {v : Value} (h : FormValue items v)
    (hitems : ∀ item ∈ items, item.IsWritten) : IsWritten v := by
  cases h with
  | intro first hargs =>
    have hall := isWritten_of_arguments hargs fun item hitem => hitems item (by simp [hitem])
    exact ⟨(hitems first (by simp)).1, areWritten_ofList hall⟩

theorem isWritten_of_spells {body : List Char} {items : List Item} (h : Spells body items) :
    ∀ item ∈ items, item.IsWritten := by
  induction h with
  | nil => intro item hitem; cases hitem
  | blank _ _ ih => exact ih
  | @token t cs items ht _ _ ih =>
    intro item hitem
    rcases List.mem_cons.mp hitem with rfl | hitem
    · have hop : IsOperator (.op (String.ofList t)) := by rwa [IsOperator, String.toList_ofList]
      exact ⟨.inl hop, by rintro v ⟨h⟩; exact .inl (isWord_of_classified ht h)⟩
    · exact ih item hitem
  | form _ hvalue _ ihinner ih =>
    intro item hitem
    rcases List.mem_cons.mp hitem with rfl | hitem
    · have hv := isWritten_of_formValue hvalue ihinner
      exact ⟨.inr hv, by rintro v ⟨_⟩; exact .inr hv⟩
    · exact ih item hitem

/-- Everything that is read is a written form. -/
theorem isWritten_of_parse {text : String} {v : Value} (h : parse text = .ok v) : IsWritten v := by
  obtain ⟨_, _, _, -, -, _, _, -, hspells, hvalue⟩ := begins_of_parse h
  exact isWritten_of_formValue hvalue (isWritten_of_spells hspells)

/-- The texts of written forms and of arguments in the grammar. -/
theorem spells_reread (v : Value) :
    (IsWritten v → ∃ body items, v.render.toList = '(' :: body ++ [')'] ∧ Spells body items ∧
      FormValue items v.reread) ∧
    (AreWritten v → ∃ items args, Spells (argumentText v) items ∧
      List.Forall₂ Item.Argument items args ∧ Value.ofList args = v.reread) := by
  induction v with
  | nil => exact ⟨False.elim, fun _ => ⟨[], [], .nil, .nil, rfl⟩⟩
  | pair head tail ihhead ihtail =>
    -- a form in either place, in front of what spells the arguments behind it
    have form : IsWritten head → ∀ items, Spells (argumentText tail) items →
        Spells (head.render.toList ++ argumentText tail) (.form head.reread :: items) := by
      intro hwritten items hitems
      obtain ⟨body, inner, htext, hspell, hvalue⟩ := ihhead.1 hwritten
      rw [htext, List.append_assoc]
      exact .form hspell hvalue hitems
    constructor
    · rintro ⟨hhead, htail⟩
      obtain ⟨items, args, hspell, hargs, hvalue⟩ := ihtail.2 htail
      rw [toList_render_pair, Value.reread, ← hvalue]
      rcases hhead with hop | hwritten
      · cases head with
        | op id =>
          refine ⟨_, _, rfl, .token hop (delimited_argumentText tail) hspell, ?_⟩
          have hfirst := FormValue.intro (.token id.toList) hargs
          rwa [Item.head, String.ofList_toList] at hfirst
        | _ => cases hop
      · exact ⟨_, _, rfl, form hwritten items hspell, .intro (.form head.reread) hargs⟩
    · rintro ⟨hhead, htail⟩
      obtain ⟨items, args, hspell, hargs, hvalue⟩ := ihtail.2 htail
      have hlist : Value.ofList (head.reread :: args) = (Value.pair head tail).reread := by
        rw [Value.ofList, hvalue, Value.reread]
      rw [argumentText_pair]
      rcases hhead with hword | hwritten
      · exact ⟨_, _, .blank rfl (.token hword.token (delimited_argumentText tail) hspell),
          .cons (.token hword.classified) hargs, hlist⟩
      · exact ⟨_, _, .blank rfl (form hwritten items hspell), .cons (.form head.reread) hargs,
          hlist⟩
  | _ => exact ⟨False.elim, False.elim⟩

/-- The text of a written form is read as what it stands for. -/
theorem parse_of_isWritten {v : Value} (h : IsWritten v) : parse v.render = .ok v.reread := by
  obtain ⟨body, items, htext, hspell, hvalue⟩ := (spells_reread v).1 h
  have hform : IsForm v.render.toList v.reread := ⟨body, items, htext, hspell, hvalue⟩
  have hwhole : v.render.toList = [] ++ v.render.toList ++ [] := by simp
  exact parse_of_isForm hwhole (by simp) hform

/-- Printing brings a text that can be read into a normal form, in one pass. What was read is
printed as a text that can be read as well, and what is read then is printed as that text again:
it differs from what was read first in that a number that is infinite or printed with an exponent
has become a variable, and the two are equal just if there is no such number. -/
theorem parse_render_of_parse {text : String} {v : Value} (h : parse text = .ok v) :
    parse v.render = .ok v.reread ∧ v.reread.render = v.render ∧
      (v.reread.equal v = true ↔ ∀ x, Value.Occurs (.num x) v →
        Number.IsFinite x ∧ 'e' ∉ (Number.text x).toList) :=
  ⟨parse_of_isWritten (isWritten_of_parse h), v.render_reread, v.equal_reread_iff⟩

/-- A number that is printed with an exponent, a zero with a sign, and more text behind the form. -/
theorem parse_render_of_parse_exponent :
    let v := Value.ofList [.ofList [.op "f", .num (Number.nearest false (10 ^ 16) 1)], .sym "",
      .nil, .num (Number.ofCode true 0)]
    parse "((f 10000000000000000)' nil -0) x" = .ok v ∧
      parse v.render = .ok v.reread ∧ v.reread.render = v.render ∧
      (v.reread.equal v = true ↔ ∀ x, Value.Occurs (.num x) v →
        Number.IsFinite x ∧ 'e' ∉ (Number.text x).toList) := by
  intro v
  have h : parse "((f 10000000000000000)' nil -0) x" = .ok v := by decide +kernel
  exact ⟨h, parse_render_of_parse h⟩

end Reader
end SmallLisp
