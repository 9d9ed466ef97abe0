import Mathlib.Data.List.Forall2
import SmallLisp.Proofs.Number.Numeral
import SmallLisp.Reader.Form

/-!
# SmallLisp.Proofs.Reader.Grammar

The written language as a grammar, without a reader: which texts are forms, and of which values.

* `Classified`: the tokens behind the operator and the values they stand for.
* `Spells`: the texts between two parentheses and the items in them.
* `IsForm`: the texts of forms; `BeginsWithForm`: blanks, a form, and whatever comes then.
* `atom_eq_ok_iff`: classifying a token is what the reader does with it.
-/

namespace SmallLisp
namespace Reader

open Number (Decimal Numeral read?_eq_some_iff)

/-- The characters that a token consists of: neither parentheses nor blanks. -/
def isTokenChar (c : Char) : Bool :=
  c != '(' && c != ')' && !Text.isBlank c

structure IsToken (cs : List Char) : Prop where
  nonempty : cs ≠ []
  chars : ∀ c ∈ cs, isTokenChar c = true

/-- A text that no token goes on into. -/
def Delimited (cs : List Char) : Prop :=
  ∀ c ∈ cs.head?, isTokenChar c = false

/-- What a token stands for behind the operator. A token of numeral characters that is no numeral
stands for nothing. -/
inductive Classified : List Char → Value → Prop
  | nil : Classified ['n', 'i', 'l'] .nil
  | symbol (id : List Char) : Classified ('\'' :: id) (.sym (String.ofList id))
  | number {token : List Char} {d : Decimal} : (∀ c ∈ token, isNumeralChar c = true) →
      Numeral token d → Classified token (.num d.toFloat)
  | name {token : List Char} : token ≠ ['n', 'i', 'l'] → token.head? ≠ some '\'' →
      (∃ c ∈ token, isNumeralChar c = false) → Classified token (.var (String.ofList token))

/-- What stands between the parentheses of a form: tokens as they are written, and forms, which
only their values matter of. -/
inductive Item where
  | token (cs : List Char)
  | form (v : Value)

/-- What an item stands for in the first place. -/
def Item.head : Item → Value
  | .token cs => .op (String.ofList cs)
  | .form v => v

/-- What an item stands for in a later place. -/
inductive Item.Argument : Item → Value → Prop
  | token {cs : List Char} {v : Value} : Classified cs v → Argument (.token cs) v
  | form (v : Value) : Argument (.form v) v

/-- The value of a form with the given items, which must be one at the least. -/
inductive FormValue : List Item → Value → Prop
  | intro (first : Item) {items : List Item} {args : List Value} :
      List.Forall₂ Item.Argument items args →
      FormValue (first :: items) (.pair first.head (.ofList args))

/-- A text is a sequence of items, with blanks around them where one likes. A token extends as far
as it can. -/
inductive Spells : List Char → List Item → Prop
  | nil : Spells [] []
  | blank {c : Char} {cs : List Char} {items : List Item} : Text.isBlank c = true →
      Spells cs items → Spells (c :: cs) items
  | token {t cs : List Char} {items : List Item} : IsToken t → Delimited cs →
      Spells cs items → Spells (t ++ cs) (.token t :: items)
  | form {body cs : List Char} {inner items : List Item} {v : Value} : Spells body inner →
      FormValue inner v → Spells cs items → Spells ('(' :: body ++ ')' :: cs) (.form v :: items)

/-- A text is a form of value `v`. -/
def IsForm (cs : List Char) (v : Value) : Prop :=
  ∃ body items, cs = '(' :: body ++ [')'] ∧ Spells body items ∧ FormValue items v

/-- A text begins with a form of value `v`, up to blanks. -/
def BeginsWithForm (cs : List Char) (v : Value) : Prop :=
  ∃ blanks form rest, cs = blanks ++ form ++ rest ∧ (∀ c ∈ blanks, Text.isBlank c = true) ∧
    IsForm form v

theorem delimited_cons {c : Char} (h : isTokenChar c = false) (cs : List Char) :
    Delimited (c :: cs) := by
  intro d hd
  cases hd
  exact h

theorem isBlank_of_isTokenChar {c : Char} (h : isTokenChar c = true) :
    c ≠ '(' ∧ c ≠ ')' ∧ Text.isBlank c = false := by
  simpa [isTokenChar, and_assoc] using h

/-! ## Tokens -/

theorem isNumeralChar_of_isDigit {c : Char} (h : c.isDigit = true) : isNumeralChar c = true := by
  simp [isNumeralChar, h]

theorem isNumeralChar_of_unsigned {negative : Bool} {cs : List Char} {d : Decimal}
    (h : Number.Unsigned negative cs d) : ∀ c ∈ cs, isNumeralChar c = true := by
  cases h with
  | whole _ hd => exact fun c hc => isNumeralChar_of_isDigit (hd c hc)
  | point _ hd =>
    intro c hc
    rcases List.mem_append.mp hc with hc | hc
    · exact isNumeralChar_of_isDigit (hd c (List.mem_append_left _ hc))
    · rcases List.mem_cons.mp hc with rfl | hc
      · rfl
      · exact isNumeralChar_of_isDigit (hd c (List.mem_append_right _ hc))

theorem isNumeralChar_of_numeral {cs : List Char} {d : Decimal} (h : Numeral cs d) :
    ∀ c ∈ cs, isNumeralChar c = true := by
  cases h with
  | positive hu => exact isNumeralChar_of_unsigned hu
  | negative hu =>
    intro c hc
    rcases List.mem_cons.mp hc with rfl | hc
    · rfl
    · exact isNumeralChar_of_unsigned hu c hc

theorem isTokenChar_of_isNumeralChar {c : Char} (h : isNumeralChar c = true) :
    isTokenChar c = true := by
  simp only [isNumeralChar, Bool.or_eq_true, beq_iff_eq] at h
  rcases h with (h | rfl) | rfl
  · have hd : 48 ≤ c.toNat ∧ c.toNat ≤ 57 := by
      simpa [Char.isDigit, UInt32.le_iff_toNat_le] using h
    have hopen : c ≠ '(' := by rintro rfl; exact absurd hd (by decide)
    have hclose : c ≠ ')' := by rintro rfl; exact absurd hd (by decide)
    have hblank : Text.isBlank c = false := by
      simp only [Text.isBlank, Bool.or_eq_false_iff, Bool.and_eq_false_iff, decide_eq_false_iff_not,
        beq_eq_false_iff_ne]
      omega
    simp [isTokenChar, hopen, hclose, hblank]
  · decide
  · decide

theorem numeral_eq_ok_iff (token : List Char) (v : Value) :
    numeral token = .ok v ↔ ∃ d, Numeral token d ∧ v = .num d.toFloat := by
  unfold numeral
  constructor
  · intro h
    split at h
    · rename_i d hd
      cases h
      exact ⟨d, (read?_eq_some_iff token d).mp hd, rfl⟩
    · cases h
  · rintro ⟨d, hd, rfl⟩
    rw [(read?_eq_some_iff token d).mpr hd]

theorem atom_of_head? {token : List Char} (hne : token ≠ []) (hq : token.head? ≠ some '\'') :
    atom token = if token = ['n', 'i', 'l'] then .ok .nil
      else if token.all isNumeralChar then numeral token
      else .ok (.var (String.ofList token)) := by
  unfold atom
  split
  · exact absurd rfl hne
  · exact absurd rfl hq
  · rfl

theorem atom_of_numeralChars {token : List Char} (hne : token ≠ [])
    (hall : ∀ c ∈ token, isNumeralChar c = true) : atom token = numeral token := by
  have hq : token.head? ≠ some '\'' := fun hq =>
    absurd (hall _ (List.mem_of_head? hq)) (by decide)
  have hnil : token ≠ ['n', 'i', 'l'] := by
    rintro rfl
    exact absurd (hall 'n' (by simp)) (by decide)
  rw [atom_of_head? hne hq, if_neg hnil, if_pos (List.all_eq_true.mpr hall)]

/-- The reader takes a token for what the grammar says. -/
theorem atom_eq_ok_iff (token : List Char) (v : Value) :
    atom token = .ok v ↔ Classified token v := by
  constructor
  · intro h
    unfold atom at h
    split at h
    · cases h
    · cases h; exact .symbol _
    · rename_i hne hquote
      split at h
      · rename_i hnil; cases h; exact hnil ▸ .nil
      · rename_i hnil
        split at h
        · rename_i hall
          obtain ⟨d, hd, rfl⟩ := (numeral_eq_ok_iff token v).mp h
          exact .number (List.all_eq_true.mp hall) hd
        · rename_i hall
          cases h
          refine .name hnil ?_ (by simpa using hall)
          intro hq
          obtain ⟨id, rfl⟩ := List.head?_eq_some_iff.mp hq
          exact hquote id rfl
  · intro h
    cases h with
    | nil => rfl
    | symbol id => rfl
    | number hall hd =>
      rw [atom_of_numeralChars hd.ne_nil hall]
      exact (numeral_eq_ok_iff token _).mpr ⟨_, hd, rfl⟩
    | name hnil hq hv =>
      obtain ⟨c, hc, hnum⟩ := hv
      have hall : ¬token.all isNumeralChar = true := fun hall =>
        absurd (List.all_eq_true.mp hall c hc) (by simp [hnum])
      rw [atom_of_head? (List.ne_nil_of_mem hc) hq, if_neg hnil, if_neg hall]

/-- It refuses only what looks like a number and is none. -/
theorem atom_eq_error_iff {token : List Char} (hne : token ≠ []) (e : Error) :
    atom token = .error e ↔ (∀ c ∈ token, isNumeralChar c = true) ∧ (∀ d, ¬Numeral token d) ∧
      e = .malformedNumber (String.ofList token) := by
  constructor
  · intro h
    by_cases hall : ∀ c ∈ token, isNumeralChar c = true
    · rw [atom_of_numeralChars hne hall, numeral] at h
      cases hread : Number.Decimal.read? token with
      | some d => simp only [hread, reduceCtorEq] at h
      | none =>
        rw [hread] at h
        cases h
        refine ⟨hall, fun d hd => ?_, rfl⟩
        rw [(read?_eq_some_iff token d).mpr hd] at hread
        cases hread
    · unfold atom at h
      split at h
      · exact absurd rfl hne
      · cases h
      · rw [if_neg (fun h => hall (List.all_eq_true.mp h))] at h
        split at h <;> cases h
  · rintro ⟨hall, hnumeral, rfl⟩
    rw [atom_of_numeralChars hne hall, numeral]
    cases hread : Number.Decimal.read? token with
    | some d => exact absurd ((read?_eq_some_iff token d).mp hread) (hnumeral d)
    | none => rfl

end Reader
end SmallLisp
