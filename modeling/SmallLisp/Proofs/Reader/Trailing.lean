import SmallLisp.Proofs.Reader.Diagnosis

/-!
# SmallLisp.Proofs.Reader.Trailing

Blanks behind a text. What is read does not depend on them, and neither does what is wrong, but for
one position: a token outside of every form is noticed at the blank behind it, and at its own last
character where there is none.

* `flush_inside`: inside a form a token is taken in alike wherever it ends.
* `run_append_blanks`: from inside a form the reader comes to the same with more blanks to read.
* `EndsStray`: the texts that end in a token outside of every form.
* `parse_append_blanks`: reading a text with blanks behind it.
-/

namespace SmallLisp
namespace Reader

/-! ## Inside a form -/

theorem flush_inside (l : Level) (outer : List Level) (token : List Char) (p q : Nat) :
    (⟨l :: outer, token⟩ : State).flush p = (⟨l :: outer, token⟩ : State).flush q := by
  cases token <;> rfl

section Blanks

variable {blanks : List Char} (hblanks : ∀ c ∈ blanks, Text.isBlank c = true)

include hblanks

theorem run_blanks_at_end (l : Level) (outer : List Level) (token : List Char) (p q : Nat) :
    run blanks p ⟨l :: outer, token⟩ = run [] q ⟨l :: outer, token⟩ := by
  cases blanks with
  | nil => rw [run, run, flush_inside l outer token (p - 1) (q - 1)]
  | cons c blanks =>
    have hc : isTokenChar c = false := by simp [isTokenChar, hblanks c (by simp)]
    rw [run_delimiter hc, run, flush_inside l outer token p (q - 1)]
    cases hflush : (⟨l :: outer, token⟩ : State).flush (q - 1) with
    | error e => rfl
    | ok s =>
      obtain ⟨l', rfl, -⟩ := flush_cases hflush
      have hrun := run_blanks_between (c :: blanks) [] p (l' :: outer) hblanks
      rw [List.append_nil] at hrun
      exact hrun

/-- Inside a form the reader comes to the same form, or to the same error, if there are more blanks
at the end of the text. The induction is on the text that is left to read. -/
theorem run_append_blanks (cs : List Char) :
    ∀ (p : Nat) (l : Level) (outer : List Level) (token : List Char),
      (run (cs ++ blanks) p ⟨l :: outer, token⟩).map Reading.form =
        (run cs p ⟨l :: outer, token⟩).map Reading.form := by
  induction cs with
  | nil =>
    intro p l outer token
    rw [List.nil_append, run_blanks_at_end hblanks l outer token p p]
  | cons c cs ih =>
    intro p l outer token
    rw [List.cons_append]
    cases hc : isTokenChar c with
    | true =>
      rw [run_tokenChar hc, run_tokenChar hc]
      exact ih _ _ _ _
    | false =>
      rw [run_delimiter hc, run_delimiter hc]
      cases hflush : (⟨l :: outer, token⟩ : State).flush p with
      | error e => rfl
      | ok s =>
        obtain ⟨l', rfl, -⟩ := flush_cases hflush
        dsimp only
        rcases delimiter_cases hc with rfl | rfl | hblank
        · rw [run_open, run_open]
          exact ih _ _ _ _
        · rw [run_close, run_close]
          cases l'.close with
          | error e => rfl
          | ok v =>
            cases outer with
            | nil => rfl
            | cons next outer => exact ih _ _ _ _
        · rw [run_blank hblank, run_blank hblank]
          exact ih _ _ _ _

end Blanks

/-! ## Texts -/

/-- There is nothing in a text but blanks and a token, which ends with the text. -/
def EndsStray (cs token : List Char) : Prop :=
  ∃ front, cs = front ++ token ∧ (∀ c ∈ front, Text.isBlank c = true) ∧ IsToken token

theorem delimited_of_blanks {blanks : List Char} (h : ∀ c ∈ blanks, Text.isBlank c = true) :
    Delimited blanks := by
  intro c hc
  simp [isTokenChar, h c (List.mem_of_head? hc)]

theorem run_endsStray {cs token : List Char} (h : EndsStray cs token) {blanks : List Char}
    (hblanks : ∀ c ∈ blanks, Text.isBlank c = true) :
    run (cs ++ blanks) 0 State.start = .error (.strayToken (String.ofList token)
      (if blanks = [] then cs.length - 1 else cs.length)) := by
  obtain ⟨front, rfl, hfront, htoken⟩ := h
  rw [List.append_assoc, run_blanks front _ 0 hfront, run_stray htoken (delimited_of_blanks hblanks),
    Nat.zero_add, List.length_append]

theorem run_append_blanks_start {blanks : List Char} (hblanks : ∀ c ∈ blanks, Text.isBlank c = true)
    {cs : List Char} (h : ∀ token, ¬EndsStray cs token) :
    (run (cs ++ blanks) 0 State.start).map Reading.form =
      (run cs 0 State.start).map Reading.form := by
  have hfront : ∀ c ∈ cs.takeWhile Text.isBlank, Text.isBlank c = true :=
    List.all_eq_true.mp List.all_takeWhile
  have hsplit : cs.takeWhile Text.isBlank ++ cs.dropWhile Text.isBlank = cs :=
    List.takeWhile_append_dropWhile
  rw [← hsplit, List.append_assoc, run_blanks _ _ 0 hfront, run_blanks _ _ 0 hfront]
  cases hrest : cs.dropWhile Text.isBlank with
  | nil =>
    have hrun := run_blanks blanks [] (0 + (cs.takeWhile Text.isBlank).length) hblanks
    rw [List.append_nil] at hrun
    rw [List.nil_append, hrun]
    rfl
  | cons c rest =>
    have hblank : Text.isBlank c = false := head?_dropWhile (by rw [hrest]; rfl)
    cases hc : isTokenChar c with
    | true =>
      obtain ⟨token, rest', hshape, htoken, hdelimited⟩ := exists_token hc rest
      have hne : rest' ≠ [] := by
        rintro rfl
        refine h token ⟨cs.takeWhile Text.isBlank, ?_, hfront, htoken⟩
        rw [← List.append_nil token, ← hshape, ← hrest, hsplit]
      obtain ⟨d, rest', rfl⟩ := List.exists_cons_of_ne_nil hne
      have hmore : Delimited (d :: rest' ++ blanks) := delimited_cons (hdelimited d rfl) _
      rw [hshape, List.append_assoc, run_stray htoken hdelimited, run_stray htoken hmore,
        if_neg hne, if_neg (by simp)]
    | false =>
      rcases delimiter_cases hc with rfl | rfl | hyes
      · rw [List.cons_append, State.start, run_open, run_open]
        exact run_append_blanks hblanks rest _ _ _ _
      · rw [List.cons_append, run_close_outside, run_close_outside]
      · rw [hyes] at hblank
        cases hblank

theorem parse_eq_map (text : String) :
    parse text = (run text.toList 0 State.start).map Reading.form := by
  rw [parse, read]
  cases run text.toList 0 State.start <;> rfl

/-- Reading a text with blanks behind it. If the text is blanks and a token, it is refused for that
token, which ends at the last character of the text if nothing comes behind it, and at the first
blank if there is one. Every other text has the value it has without the blanks, or is refused for
the same error, its position and its message included. Every refusal is a syntax error. -/
theorem parse_append_blanks {blanks : String} (hblanks : Text.allBlank blanks.toList = true)
    (text : String) :
    (∀ token, EndsStray text.toList token →
      parse text = .error (.strayToken (String.ofList token) (text.length - 1)) ∧
      (blanks ≠ "" →
        parse (text ++ blanks) = .error (.strayToken (String.ofList token) text.length))) ∧
    ((∀ token, ¬EndsStray text.toList token) → parse (text ++ blanks) = parse text) ∧
    ∀ e, parse (text ++ blanks) = .error e → e.kind = .syntaxError := by
  have hall : ∀ c ∈ blanks.toList, Text.isBlank c = true := List.all_eq_true.mp hblanks
  refine ⟨fun token htoken => ⟨?_, fun hne => ?_⟩, fun hstray => ?_, fun e => kind_of_parse⟩
  · have hrun := run_endsStray htoken (List.forall_mem_nil (Text.isBlank · = true))
    rw [List.append_nil, if_pos rfl, String.length_toList] at hrun
    rw [parse_eq_map, hrun]
    rfl
  · have hrun := run_endsStray htoken hall
    rw [if_neg (by simpa using hne), String.length_toList] at hrun
    rw [parse_eq_map, String.toList_append, hrun]
    rfl
  · rw [parse_eq_map, parse_eq_map, String.toList_append, run_append_blanks_start hall hstray]

theorem parse_append_blanks_unfinished :
    Text.allBlank "\u3000\n".toList = true ∧ (∀ token, ¬EndsStray " (+ 1 (- 2-".toList token) ∧
      parse (" (+ 1 (- 2-" ++ "\u3000\n") = .error (.malformedNumber "2-") := by
  have hblanks : Text.allBlank "\u3000\n".toList = true := by decide
  have hstray : ∀ token, ¬EndsStray " (+ 1 (- 2-".toList token := by
    rintro token ⟨front, hsplit, hfront, -, htoken⟩
    have hmem : '(' ∈ front ++ token := hsplit ▸ by decide
    rcases List.mem_append.mp hmem with h | h
    · exact absurd (hfront _ h) (by decide)
    · exact absurd (htoken _ h) (by decide)
  refine ⟨hblanks, hstray, ?_⟩
  rw [(parse_append_blanks hblanks _).2.1 hstray]
  decide +kernel

/-- A token outside of every form is at one place without a blank behind it and at another one with
it, and the messages differ. -/
theorem parse_append_blanks_stray :
    parse "foo" = .error (.strayToken "foo" 2) ∧
      parse ("foo" ++ " ") = .error (.strayToken "foo" 3) ∧
      (Error.strayToken "foo" 2).message ≠ (Error.strayToken "foo" 3).message := by
  have hmessage : ∀ p, (Error.strayToken "foo" p).message =
      "Unexpected token " ++ Text.quoted "foo" ++ " outside of a form at " ++ Error.natText p :=
    fun _ => rfl
  refine ⟨by decide +kernel, by decide +kernel, ?_⟩
  rw [hmessage, hmessage, ne_eq, String.append_right_inj]
  decide

end Reader
end SmallLisp
