import SmallLisp.Number.Written
import SmallLisp.Proofs.Number.Decimal
import SmallLisp.Proofs.Number.Numeral

/-!
# SmallLisp.Proofs.Number.Written

What is written without an exponent is a numeral again, of the same number.

* `Denotes`: an unsigned numeral of a given magnitude.
* `wholeText_denotes`, `positionalText_denotes`: the layouts without an exponent.
* `IsPlain`: the doubles printed without an exponent; `text_numeral`: their texts are numerals of
  them, up to the sign of zero.
* `isTextChar_of_mem_text`: the characters that all finite numbers are written with.
-/

namespace SmallLisp
namespace Number

/-- Digits with at most one point that spell the magnitude of a decimal. -/
def Denotes (cs : List Char) (d : Decimal) : Prop :=
  ∃ d', Unsigned d.negative cs d' ∧ d'.magnitude = d.magnitude

/-! ## Digits -/

theorem isDigit_of_mem_digitChars {d : Decimal} {c : Char} (h : c ∈ d.digitChars) :
    c.isDigit = true :=
  Nat.isDigit_of_mem_toDigits (by decide) (by decide) h

theorem isDigit_of_mem_zeros {n : Nat} {c : Char} (h : c ∈ zeros n) : c.isDigit = true := by
  rw [List.eq_of_mem_replicate h]
  decide

theorem digitChars_ne_nil (d : Decimal) : d.digitChars ≠ [] :=
  Nat.toDigits_ne_nil

@[simp] theorem ofDigits_digitChars (d : Decimal) : Decimal.ofDigits d.digitChars = d.digits :=
  Nat.ofDigitChars_ten_toDigits

theorem ofDigits_append_zeros (cs : List Char) (n : Nat) :
    Decimal.ofDigits (cs ++ zeros n) = Decimal.ofDigits cs * 10 ^ n := by
  rw [Decimal.ofDigits, Nat.ofDigitChars_append, zeros, Nat.ofDigitChars_replicate_zero,
    Nat.mul_comm]
  rfl

theorem ofDigits_zeros_append (n : Nat) (cs : List Char) :
    Decimal.ofDigits (zeros n ++ cs) = Decimal.ofDigits cs := by
  rw [Decimal.ofDigits, Nat.ofDigitChars_append, zeros, Nat.ofDigitChars_replicate_zero,
    Nat.mul_zero]
  rfl

/-! ## Layouts -/

/-- Digits around a point, as many behind it as the exponent says. -/
theorem denotes_point {d : Decimal} {whole fraction : List Char}
    (hdigits : ∀ c ∈ whole ++ fraction, c.isDigit = true)
    (hvalue : Decimal.ofDigits (whole ++ fraction) = d.digits) (hne : whole ++ fraction ≠ [])
    (hlength : (fraction.length : Int) = -d.exponent) : Denotes (whole ++ '.' :: fraction) d := by
  refine ⟨_, .point hne hdigits, ?_⟩
  rw [Decimal.magnitude, Decimal.magnitude, hvalue, hlength, neg_neg]

theorem wholeText_denotes {d : Decimal} (h : 0 ≤ d.exponent) : Denotes (wholeText d) d := by
  obtain ⟨n, hn⟩ := Int.eq_ofNat_of_zero_le h
  have hdigits : ∀ c ∈ wholeText d, c.isDigit = true := by
    intro c hc
    rcases List.mem_append.mp hc with hc | hc
    · exact isDigit_of_mem_digitChars hc
    · exact isDigit_of_mem_zeros hc
  have hne : wholeText d ≠ [] := by simp [wholeText, digitChars_ne_nil]
  refine ⟨_, .whole hne hdigits, ?_⟩
  rw [Decimal.magnitude, Decimal.magnitude, wholeText, ofDigits_append_zeros, ofDigits_digitChars,
    hn]
  simp

theorem positionalText_denotes {d : Decimal} (h : d.exponent < 0) :
    Denotes (positionalText d) d := by
  unfold positionalText
  have hlead : d.leadExponent = d.exponent + d.digitChars.length - 1 := rfl
  rw [if_neg (by omega)]
  split
  · rename_i hl
    refine denotes_point ?_ ?_ ?_ ?_
    · rw [List.take_append_drop]; exact fun c hc => isDigit_of_mem_digitChars hc
    · rw [List.take_append_drop, ofDigits_digitChars]
    · rw [List.take_append_drop]; exact digitChars_ne_nil d
    · rw [List.length_drop]; omega
  · rename_i hl
    have hshape : '0' :: '.' :: zeros (-d.leadExponent - 1).toNat ++ d.digitChars =
        ['0'] ++ '.' :: (zeros (-d.leadExponent - 1).toNat ++ d.digitChars) := rfl
    have hzeros : ['0'] ++ (zeros (-d.leadExponent - 1).toNat ++ d.digitChars) =
        zeros ((-d.leadExponent - 1).toNat + 1) ++ d.digitChars := rfl
    rw [hshape]
    refine denotes_point ?_ ?_ (by simp) ?_
    · rw [hzeros]
      intro c hc
      rcases List.mem_append.mp hc with hc | hc
      · exact isDigit_of_mem_zeros hc
      · exact isDigit_of_mem_digitChars hc
    · rw [hzeros, ofDigits_zeros_append, ofDigits_digitChars]
    · rw [List.length_append, zeros, List.length_replicate]; omega

/-! ## Written numbers -/

theorem Unsigned.negative_eq {negative : Bool} {cs : List Char} {d : Decimal}
    (h : Unsigned negative cs d) : d.negative = negative := by
  cases h <;> rfl

theorem Unsigned.numeral {negative : Bool} {cs : List Char} {d : Decimal}
    (h : Unsigned negative cs d) : Numeral (signText negative ++ cs) d := by
  cases negative with
  | true => exact .negative h
  | false => exact .positive h

/-- A decimal other than zero, written without an exponent, is a numeral of the same number. -/
theorem decimalText_numeral {d : Decimal} (hd : d.digits ≠ 0) (he : 'e' ∉ decimalText d) :
    ∃ d', Numeral (decimalText d) d' ∧ d'.negative = d.negative ∧ d'.magnitude = d.magnitude := by
  have signed : ∀ cs, Denotes cs d → ∃ d', Numeral (signText d.negative ++ cs) d' ∧
      d'.negative = d.negative ∧ d'.magnitude = d.magnitude := by
    rintro cs ⟨d', hu, hm⟩
    exact ⟨d', hu.numeral, hu.negative_eq, hm⟩
  unfold decimalText at he ⊢
  rw [if_neg hd] at he ⊢
  split
  · rename_i hwhole
    simp only [Bool.and_eq_true, decide_eq_true_eq] at hwhole
    exact signed _ (wholeText_denotes hwhole.1)
  · rename_i hwhole
    rw [if_neg hwhole] at he
    unfold decimalRepr at he ⊢
    split
    · rename_i hpos
      have hexp : d.exponent < 0 := by
        simp only [hpos, Bool.and_true, decide_eq_true_eq] at hwhole
        omega
      exact signed _ (positionalText_denotes hexp)
    · rename_i hpos
      rw [if_neg hpos] at he
      exact absurd (by simp [scientificText, exponentText]) he

/-- A double whose text is a numeral: it is finite and written without an exponent. -/
def IsPlain (x : Float) : Prop :=
  IsFinite x ∧ 'e' ∉ (text x).toList

instance (x : Float) : Decidable (IsPlain x) :=
  inferInstanceAs (Decidable (_ ∧ _))

/-- A double as its text has it: zero is written without a sign. -/
def unsignZero (x : Float) : Float :=
  if x = ofCode true 0 then ofCode false 0 else x

theorem text_unsignZero (x : Float) : text (unsignZero x) = text x := by
  unfold unsignZero
  split
  · rename_i h
    subst h
    decide
  · rfl

theorem unsignZero_beq {x : Float} (h : IsFinite x) : (unsignZero x == x) = true := by
  obtain ⟨negative, m, q, hparts⟩ := h
  unfold unsignZero
  split
  · rename_i hx
    rw [hx]
    exact zero_beq_zero false true
  · exact beq_self_of_parts hparts

/-- The text of a plain double is a numeral of that double, up to the sign of zero. -/
theorem text_numeral {x : Float} (h : IsPlain x) :
    ∃ d, Numeral (text x).toList d ∧ d.toFloat = unsignZero x := by
  obtain ⟨⟨negative, m, q, hparts⟩, he⟩ := h
  have htext : (text x).toList = decimalText (shortest x negative m q) := by
    rw [text, hparts, String.toList_ofList]
  have hx := shortest_toFloat hparts
  rw [htext] at he ⊢
  by_cases hd : (shortest x negative m q).digits = 0
  · refine ⟨⟨false, 0, 0⟩, ?_, ?_⟩
    · rw [decimalText, if_pos hd]
      exact .positive (.whole (by simp) (by simp))
    · rw [← hx, Decimal.toFloat_of_digits_eq_zero hd, Decimal.toFloat_of_digits_eq_zero rfl]
      cases (shortest x negative m q).negative <;> decide
  · obtain ⟨d, hnum, hneg, hmag⟩ := decimalText_numeral hd he
    refine ⟨d, hnum, ?_⟩
    rw [Decimal.toFloat_congr hneg hmag, hx, unsignZero, if_neg]
    rintro rfl
    have hzero : parts (ofCode true 0) = .finite true 0 minExponent := by decide
    rw [hzero] at hparts
    cases hparts
    exact hd rfl

/-! ## Characters -/

/-- The characters that finite numbers are written with. -/
def IsTextChar (c : Char) : Prop :=
  c.isDigit = true ∨ c ∈ ['-', '.', 'e', '+']

theorem isTextChar_of_mem_digitChars {d : Decimal} {c : Char} (h : c ∈ d.digitChars) :
    IsTextChar c :=
  .inl (isDigit_of_mem_digitChars h)

theorem isTextChar_of_mem_zeros {n : Nat} {c : Char} (h : c ∈ zeros n) : IsTextChar c :=
  .inl (isDigit_of_mem_zeros h)

theorem isTextChar_of_mem_signText {negative : Bool} {c : Char} (h : c ∈ signText negative) :
    IsTextChar c := by
  cases negative with
  | true => exact .inr (by simp [List.mem_singleton.mp h])
  | false => cases h

theorem isTextChar_of_mem_wholeText {d : Decimal} {c : Char} (h : c ∈ wholeText d) :
    IsTextChar c :=
  (List.mem_append.mp h).elim isTextChar_of_mem_digitChars isTextChar_of_mem_zeros

theorem isTextChar_of_mem_positionalText {d : Decimal} {c : Char} (h : c ∈ positionalText d) :
    IsTextChar c := by
  unfold positionalText at h
  split at h
  · rcases List.mem_append.mp h with h | h
    · exact isTextChar_of_mem_wholeText h
    · rcases List.mem_pair.mp h with rfl | rfl
      · exact .inr (by decide)
      · exact .inl rfl
  · split at h
    · rcases List.mem_append.mp h with h | h
      · exact isTextChar_of_mem_digitChars (List.mem_of_mem_take h)
      · rcases List.mem_cons.mp h with rfl | h
        · exact .inr (by decide)
        · exact isTextChar_of_mem_digitChars (List.mem_of_mem_drop h)
    · rcases List.mem_append.mp h with h | h
      · rcases List.mem_cons.mp h with rfl | h
        · exact .inl rfl
        · rcases List.mem_cons.mp h with rfl | h
          · exact .inr (by decide)
          · exact isTextChar_of_mem_zeros h
      · exact isTextChar_of_mem_digitChars h

theorem isTextChar_of_mem_exponentText {e : Int} {c : Char} (h : c ∈ exponentText e) :
    IsTextChar c := by
  unfold exponentText at h
  rcases List.mem_append.mp h with h | h
  · rcases List.mem_cons.mp h with rfl | h
    · exact .inr (by decide)
    · rcases List.mem_cons.mp h with h | h
      · subst h
        split <;> exact .inr (by decide)
      · exact isTextChar_of_mem_zeros h
  · exact .inl (Nat.isDigit_of_mem_toDigits (by decide) (by decide) h)

theorem isTextChar_of_mem_scientificText {d : Decimal} {c : Char} (h : c ∈ scientificText d) :
    IsTextChar c := by
  unfold scientificText at h
  rcases List.mem_append.mp h with h | h
  · have hdigit : c = '.' ∨ c ∈ d.digitChars := by
      split at h
      · cases h
      · rename_i hd
        rw [hd]
        exact .inr h
      · rename_i hd
        rw [hd]
        simp only [List.mem_cons] at h ⊢
        tauto
    rcases hdigit with rfl | hdigit
    · exact .inr (by decide)
    · exact isTextChar_of_mem_digitChars hdigit
  · exact isTextChar_of_mem_exponentText h

theorem isTextChar_of_mem_decimalText {d : Decimal} {c : Char} (h : c ∈ decimalText d) :
    IsTextChar c := by
  have hsigned : ∀ cs, (c ∈ cs → IsTextChar c) → c ∈ signText d.negative ++ cs → IsTextChar c :=
    fun cs hcs hc => (List.mem_append.mp hc).elim isTextChar_of_mem_signText hcs
  unfold decimalText at h
  split at h
  · rw [List.mem_singleton.mp h]
    exact .inl rfl
  · split at h
    · exact hsigned _ isTextChar_of_mem_wholeText h
    · unfold decimalRepr at h
      refine hsigned _ (fun hc => ?_) h
      split at hc
      · exact isTextChar_of_mem_positionalText hc
      · exact isTextChar_of_mem_scientificText hc

/-- A finite number is written with digits, signs, a point and the mark of the exponent. -/
theorem isTextChar_of_mem_text {x : Float} (hx : IsFinite x) {c : Char}
    (h : c ∈ (text x).toList) : IsTextChar c := by
  obtain ⟨negative, m, q, hparts⟩ := hx
  rw [text, hparts, String.toList_ofList] at h
  exact isTextChar_of_mem_decimalText h

end Number
end SmallLisp
