import Mathlib.Data.List.DropRight
import SmallLisp.Proofs.Reader.Accepts

/-!
# SmallLisp.Proofs.Reader.Diagnosis

Which error a text is refused with. It is read off the text: what stands in front of the first
parenthesis, and then the first place where a form is closed that has no items yet, or where a token
ends that should have been a number. If the first form has no such place, it must be unclosed.

* `Fresh`, `Unclosed`, `Defect`: where in a text one is, and what is wrong there.
* `Diagnosis`: the error of a text that does not begin with a form.
* `Tracks`: what the state of the reader says about the text it has seen.
* `run_verdict`: from such a state on it stops at the first defect.
* `parse_diagnosis`: what is refused, and as what.
-/

namespace SmallLisp
namespace Reader

open Number (Numeral)

/-! ## Texts and their errors -/

/-- The token that a text ends with; behind a delimiter there is none. -/
def lastToken (seen : List Char) : List Char :=
  seen.rtakeWhile isTokenChar

/-- What comes before that token. -/
def beforeToken (seen : List Char) : List Char :=
  seen.rdropWhile isTokenChar

/-- A text ends in a form that has no items yet: an opening parenthesis is the last thing in it. -/
def Fresh (seen : List Char) : Prop :=
  (seen.rdropWhile Text.isBlank).getLast? = some '('

/-- The form that a text begins with is not closed in it. -/
def Unclosed (seen : List Char) : Prop :=
  ∀ front, front ≠ [] → front <+: seen → front.count ')' < front.count '('

/-- What is wrong at a place in a text, between what is seen and what comes then: a form is closed
that has no items, or a token behind the operator ends that is no number, though it is made of the
characters of numbers. -/
inductive Defect (seen rest : List Char) : Error → Prop
  | emptyForm : Fresh seen → rest.head? = some ')' → Defect seen rest .emptyForm
  | malformed : lastToken seen ≠ [] → Delimited rest → ¬Fresh (beforeToken seen) →
      (∀ c ∈ lastToken seen, isNumeralChar c = true) → (∀ d, ¬Numeral (lastToken seen) d) →
      Defect seen rest (.malformedNumber (String.ofList (lastToken seen)))

/-- Nothing is wrong at the first places of a text. -/
def CleanBefore (cs : List Char) (n : Nat) : Prop :=
  ∀ seen rest e, cs = seen ++ rest → seen.length < n → ¬Defect seen rest e

/-- Nothing is wrong up to where the first form is closed. -/
def Clean (cs : List Char) : Prop :=
  ∀ seen rest e, cs = seen ++ rest → Unclosed seen → ¬Defect seen rest e

/-- What is wrong first, before the first form is closed. -/
def FirstDefect (cs : List Char) (e : Error) : Prop :=
  ∃ seen rest, cs = seen ++ rest ∧ Unclosed seen ∧ Defect seen rest e ∧
    CleanBefore cs seen.length

/-- The error of a text that has some blanks in front of it and begins with none. -/
inductive Diagnosis (blanks : Nat) : List Char → Error → Prop
  | nothing : Diagnosis blanks [] .noForm
  | unmatched (rest : List Char) : Diagnosis blanks (')' :: rest) (.unmatchedClose blanks)
  | stray {t rest : List Char} : IsToken t → Delimited rest →
      Diagnosis blanks (t ++ rest) (.strayToken (String.ofList t)
        (if rest = [] then blanks + t.length - 1 else blanks + t.length))
  | defect {rest : List Char} {e : Error} : FirstDefect ('(' :: rest) e →
      Diagnosis blanks ('(' :: rest) e
  | unclosed {rest : List Char} : Clean ('(' :: rest) → Unclosed ('(' :: rest) →
      Diagnosis blanks ('(' :: rest)
        (.unclosed (('(' :: rest).count '(' - ('(' :: rest).count ')'))

/-! ## Places in a text -/

section Places

variable {seen rest cs : List Char} {c : Char} {e e' : Error}

theorem lastToken_tokenChar (hc : isTokenChar c = true) :
    lastToken (seen ++ [c]) = lastToken seen ++ [c] :=
  List.rtakeWhile_concat_pos _ _ _ hc

theorem lastToken_delimiter (hc : isTokenChar c = false) : lastToken (seen ++ [c]) = [] :=
  List.rtakeWhile_concat_neg _ _ _ (by simp [hc])

theorem beforeToken_tokenChar (hc : isTokenChar c = true) :
    beforeToken (seen ++ [c]) = beforeToken seen :=
  List.rdropWhile_concat_pos _ _ _ hc

theorem beforeToken_of_lastToken (h : lastToken seen = []) : beforeToken seen = seen := by
  have happend : beforeToken seen ++ lastToken seen = seen := List.rdropWhile_append_rtakeWhile
  rwa [h, List.append_nil] at happend

theorem fresh_open : Fresh (seen ++ ['(']) := by
  rw [Fresh, List.rdropWhile_concat_neg _ _ _ (by decide), List.getLast?_concat]

theorem fresh_blank (hc : Text.isBlank c = true) : Fresh (seen ++ [c]) ↔ Fresh seen := by
  rw [Fresh, List.rdropWhile_concat_pos _ _ _ hc, Fresh]

theorem not_fresh_of_item (hblank : Text.isBlank c = false) (hopen : c ≠ '(') :
    ¬Fresh (seen ++ [c]) := by
  rw [Fresh, List.rdropWhile_concat_neg _ _ _ (by simp [hblank]), List.getLast?_concat]
  simpa using hopen

/-- A token is an item. -/
theorem not_fresh_of_lastToken (h : lastToken seen ≠ []) : ¬Fresh seen := by
  rcases List.eq_nil_or_concat' seen with rfl | ⟨front, c, rfl⟩
  · exact absurd rfl h
  · cases hc : isTokenChar c with
    | true =>
      obtain ⟨hopen, -, hblank⟩ := isBlank_of_isTokenChar hc
      exact not_fresh_of_item hblank hopen
    | false => exact absurd (lastToken_delimiter hc) h

/-- One thing only is wrong at a place. -/
theorem Defect.unique (h : Defect seen rest e) (h' : Defect seen rest e') : e = e' := by
  cases h with
  | emptyForm hfresh _ =>
    cases h' with
    | emptyForm _ _ => rfl
    | malformed htoken _ _ _ _ => exact absurd hfresh (not_fresh_of_lastToken htoken)
  | malformed htoken _ _ _ _ =>
    cases h' with
    | emptyForm hfresh _ => exact absurd hfresh (not_fresh_of_lastToken htoken)
    | malformed _ _ _ _ _ => rfl

theorem FirstDefect.unique (h : FirstDefect cs e) (h' : FirstDefect cs e') : e = e' := by
  obtain ⟨seen, rest, rfl, -, hdefect, hclean⟩ := h
  obtain ⟨seen', rest', heq, -, hdefect', hclean'⟩ := h'
  have hlength : seen.length = seen'.length := by
    rcases Nat.lt_trichotomy seen.length seen'.length with hlt | heq | hgt
    · exact absurd hdefect (hclean' seen rest e rfl hlt)
    · exact heq
    · exact absurd hdefect' (hclean seen' rest' e' heq hgt)
  obtain ⟨rfl, rfl⟩ := List.append_inj heq hlength
  exact hdefect.unique hdefect'

theorem FirstDefect.not_clean (h : FirstDefect cs e) : ¬Clean cs := by
  obtain ⟨seen, rest, hcs, hunclosed, hdefect, -⟩ := h
  exact fun hclean => hclean seen rest e hcs hunclosed hdefect

theorem CleanBefore.succ (h : CleanBefore (seen ++ rest) seen.length)
    (hhere : ∀ e, ¬Defect seen rest e) : CleanBefore (seen ++ rest) (seen.length + 1) := by
  intro seen' rest' e heq hlt
  rcases Nat.lt_succ_iff_lt_or_eq.mp hlt with hlt | hlength
  · exact h seen' rest' e heq hlt
  · obtain ⟨rfl, rfl⟩ := List.append_inj heq hlength.symm
    exact hhere e

theorem count_open (seen : List Char) : (seen ++ ['(']).count '(' = seen.count '(' + 1 ∧
    (seen ++ ['(']).count ')' = seen.count ')' := by
  simp [List.count_append]

theorem count_close (seen : List Char) : (seen ++ [')']).count '(' = seen.count '(' ∧
    (seen ++ [')']).count ')' = seen.count ')' + 1 := by
  simp [List.count_append]

theorem Unclosed.concat (h : Unclosed seen)
    (hcount : (seen ++ [c]).count ')' < (seen ++ [c]).count '(') : Unclosed (seen ++ [c]) := by
  intro front hne hfront
  rcases List.prefix_concat_iff.mp hfront with rfl | hfront
  · exact hcount
  · exact h front hne hfront

end Places

/-! ## What the reader has seen -/

/-- The state of the reader says how many forms a text is in the middle of, which token it ends
with, and whether the innermost form has an item before that token. -/
structure Tracks (seen : List Char) (l : Level) (outer : List Level) (acc : List Char) : Prop where
  unclosed : Unclosed seen
  token : lastToken seen = acc.reverse
  depth : outer.length + 1 + seen.count ')' = seen.count '('
  fresh : l.head = none ↔ Fresh (beforeToken seen)

namespace Tracks

variable {seen acc : List Char} {l l' : Level} {outer outer' : List Level} {c : Char}

theorem start : Tracks ['('] Level.start [] [] where
  unclosed front hne hfront := by
    rcases List.prefix_concat_iff.mp (show front <+: [] ++ ['('] from hfront) with rfl | hnil
    · decide
    · exact absurd (List.prefix_nil.mp hnil) hne
  token := rfl
  depth := rfl
  fresh := ⟨fun _ => rfl, fun _ => rfl⟩

theorem tokenChar (h : Tracks seen l outer acc) (hc : isTokenChar c = true) :
    Tracks (seen ++ [c]) l outer (c :: acc) := by
  obtain ⟨hopen, hclose, -⟩ := isBlank_of_isTokenChar hc
  have hdepth : outer.length + 1 + (seen ++ [c]).count ')' = (seen ++ [c]).count '(' := by
    simpa [List.count_append, hopen, hclose] using h.depth
  refine ⟨h.unclosed.concat (by omega), ?_, hdepth, ?_⟩
  · rw [lastToken_tokenChar hc, h.token, List.reverse_cons]
  · rw [beforeToken_tokenChar hc]
    exact h.fresh

theorem delimiter (h : Tracks seen l outer acc) (hc : isTokenChar c = false)
    (hdepth : outer'.length + 1 + (seen ++ [c]).count ')' = (seen ++ [c]).count '(')
    (hfresh : l'.head = none ↔ Fresh (seen ++ [c])) : Tracks (seen ++ [c]) l' outer' [] := by
  refine ⟨h.unclosed.concat (by omega), lastToken_delimiter hc, hdepth, ?_⟩
  rwa [beforeToken_of_lastToken (lastToken_delimiter hc)]

theorem opened (h : Tracks seen l outer acc) (l' : Level) :
    Tracks (seen ++ ['(']) Level.start (l' :: outer) [] := by
  have hdepth := h.depth
  obtain ⟨hopen, hclose⟩ := count_open seen
  refine h.delimiter (by decide) ?_ ⟨fun _ => fresh_open, fun _ => rfl⟩
  rw [List.length_cons, hopen, hclose]
  omega

theorem closed {next : Level} (h : Tracks seen l (next :: outer) acc) (v : Value) :
    Tracks (seen ++ [')']) (next.addForm v) outer [] := by
  have hitem : ¬Fresh (seen ++ [')']) := not_fresh_of_item (by decide) (by decide)
  have hsome : (next.addForm v).head ≠ none := by
    unfold Level.addForm
    split <;> simp [*]
  have hdepth := h.depth
  obtain ⟨hopen, hclose⟩ := count_close seen
  rw [List.length_cons] at hdepth
  refine h.delimiter (by decide) ?_ ⟨fun hnone => absurd hnone hsome, fun hf => absurd hf hitem⟩
  rw [hopen, hclose]
  omega

theorem blank (h : Tracks seen l outer acc) (hc : Text.isBlank c = true)
    (hl' : l'.head = none ↔ Fresh seen) : Tracks (seen ++ [c]) l' outer [] := by
  obtain ⟨hopen, hclose⟩ := not_parenthesis_of_isBlank hc
  refine h.delimiter (by simp [isTokenChar, hc]) ?_ (hl'.trans (fresh_blank hc).symm)
  simpa [List.count_append, hopen, hclose] using h.depth

/-- When a token is taken in, it is refused for a defect, or the level knows whether it is empty and
there is nothing wrong but that it may be closed so. -/
theorem flush (h : Tracks seen l outer acc) {rest : List Char} (hrest : Delimited rest) (p : Nat) :
    (∃ e, (⟨l :: outer, acc⟩ : State).flush p = .error e ∧ Defect seen rest e) ∨
    ∃ l', (⟨l :: outer, acc⟩ : State).flush p = .ok ⟨l' :: outer, []⟩ ∧
      (l'.head = none ↔ Fresh seen) ∧
      ∀ e, Defect seen rest e → Fresh seen ∧ rest.head? = some ')' := by
  obtain rfl : (lastToken seen).reverse = acc := by rw [h.token, List.reverse_reverse]
  by_cases htoken : lastToken seen = []
  · refine .inr ⟨l, by rw [htoken]; rfl, ?_, fun e he => ?_⟩
    · rw [h.fresh, beforeToken_of_lastToken htoken]
    · cases he with
      | emptyForm hfresh hclose => exact ⟨hfresh, hclose⟩
      | malformed hne _ _ _ _ => exact absurd htoken hne
  have hnotFresh : ¬Fresh seen := not_fresh_of_lastToken htoken
  cases hhead : l.head with
  | none =>
    have hadd : l.addToken (lastToken seen) =
        .ok ⟨some (.op (String.ofList (lastToken seen))), l.args⟩ := by rw [Level.addToken, hhead]
    refine .inr ⟨_, flush_token htoken hadd outer p, by simpa using hnotFresh, fun e he => ?_⟩
    cases he with
    | emptyForm hfresh _ => exact absurd hfresh hnotFresh
    | malformed _ _ hitem _ _ => exact absurd (h.fresh.mp hhead) hitem
  | some head =>
    have hitem : ¬Fresh (beforeToken seen) := fun hfresh => by
      rw [h.fresh.mpr hfresh] at hhead
      cases hhead
    cases hatom : atom (lastToken seen) with
    | ok v =>
      have hadd : l.addToken (lastToken seen) = .ok ⟨some head, l.args ++ [v]⟩ := by
        simp only [Level.addToken, hhead, hatom]
      refine .inr ⟨_, flush_token htoken hadd outer p, by simpa using hnotFresh, fun e he => ?_⟩
      cases he with
      | emptyForm hfresh _ => exact absurd hfresh hnotFresh
      | malformed _ _ _ hall hnumeral =>
        rw [(atom_eq_error_iff htoken _).mpr ⟨hall, hnumeral, rfl⟩] at hatom
        cases hatom
    | error e =>
      have hadd : l.addToken (lastToken seen) = .error e := by
        simp only [Level.addToken, hhead, hatom]
      obtain ⟨hall, hnumeral, rfl⟩ := (atom_eq_error_iff htoken e).mp hatom
      exact .inl ⟨_, flush_token_error htoken hadd outer p,
        .malformed htoken hrest hitem hall hnumeral⟩

end Tracks

/-! ## Reading on -/

/-- What becomes of a text that begins with a parenthesis. -/
def Verdict (cs : List Char) : Except Error Reading → Prop
  | .ok _ => Clean cs ∧ ¬Unclosed cs
  | .error e => FirstDefect cs e ∨
      Clean cs ∧ Unclosed cs ∧ e = .unclosed (cs.count '(' - cs.count ')')

/-- Behind the parenthesis that closes the first form there is nothing to be wrong. -/
theorem clean_of_closed {seen rest : List Char} (hclean : CleanBefore (seen ++ rest) seen.length)
    (hclosed : seen ≠ []) (hcount : seen.count ')' = seen.count '(') :
    Clean (seen ++ rest) ∧ ¬Unclosed (seen ++ rest) := by
  have hne : ∀ {cs}, seen <+: cs → ¬Unclosed cs := fun hfront hunclosed =>
    absurd hcount (Nat.ne_of_lt (hunclosed seen hclosed hfront))
  refine ⟨fun seen' rest' e heq hunclosed => ?_, hne (List.prefix_append _ _)⟩
  rcases Nat.lt_or_ge seen'.length seen.length with hlt | hge
  · exact hclean seen' rest' e heq hlt
  · have hfront : seen <+: seen' :=
      List.prefix_of_prefix_length_le (List.prefix_append seen rest)
        (heq ▸ List.prefix_append seen' rest') hge
    exact absurd hunclosed (hne hfront)

/-- From where the reader has seen nothing wrong it stops at the next thing that is. The induction
is on what it has not seen. -/
theorem run_verdict (rest : List Char) :
    ∀ {seen : List Char} {l : Level} {outer : List Level} {acc : List Char} (p : Nat),
      Tracks seen l outer acc → CleanBefore (seen ++ rest) seen.length →
      Verdict (seen ++ rest) (run rest p ⟨l :: outer, acc⟩) := by
  induction rest with
  | nil =>
    intro seen l outer acc p h hclean
    have hend : Delimited [] := nofun
    rw [run]
    rcases h.flush hend (p - 1) with ⟨e, hflush, hdefect⟩ | ⟨l', hflush, -, hhere⟩
    · rw [hflush]
      exact .inl ⟨seen, [], rfl, h.unclosed, hdefect, hclean⟩
    · have hfree : ∀ e, ¬Defect seen [] e := fun e he => Option.some_ne_none _ (hhere e he).2.symm
      rw [hflush]
      refine .inr ⟨fun seen' rest' e heq _ => ?_, by simpa using h.unclosed, ?_⟩
      · refine hclean.succ hfree seen' rest' e heq (Nat.lt_succ_of_le ?_)
        have hlength := congrArg List.length heq
        simp only [List.append_nil, List.length_append] at hlength
        omega
      · have hdepth := h.depth
        rw [List.append_nil, ← hdepth, Nat.add_sub_cancel]
        rfl
  | cons c rest ih =>
    intro seen l outer acc p h hclean
    have hshape : seen ++ c :: rest = (seen ++ [c]) ++ rest := List.append_cons seen c rest
    -- whatever the character is, the reader goes on if there is no defect in front of it
    have hnext : (∀ e, ¬Defect seen (c :: rest) e) →
        CleanBefore (seen ++ [c] ++ rest) (seen ++ [c]).length := by
      intro hfree
      rw [← hshape, List.length_append]
      exact hclean.succ hfree
    cases hc : isTokenChar c with
    | true =>
      obtain ⟨-, hclose, -⟩ := isBlank_of_isTokenChar hc
      rw [run_tokenChar hc, hshape]
      refine ih _ (h.tokenChar hc) (hnext fun e he => ?_)
      cases he with
      | emptyForm _ hhead => exact hclose (Option.some.inj hhead)
      | malformed _ hrest _ _ _ =>
        rw [hrest c rfl] at hc
        cases hc
    | false =>
      rw [run_delimiter hc]
      rcases h.flush (delimited_cons hc rest) p with
        ⟨e, hflush, hdefect⟩ | ⟨l', hflush, hl', hhere⟩
      · rw [hflush]
        exact .inl ⟨seen, c :: rest, rfl, h.unclosed, hdefect, hclean⟩
      rw [hflush]
      dsimp only
      rcases delimiter_cases hc with rfl | rfl | hblank
      · rw [run_open, hshape]
        refine ih _ (h.opened l') (hnext fun e he => ?_)
        exact absurd (Option.some.inj (hhere e he).2) (by decide)
      · rw [run_close, Level.close]
        cases hhead : l'.head with
        | none =>
          exact .inl ⟨seen, ')' :: rest, rfl, h.unclosed, .emptyForm (hl'.mp hhead) rfl, hclean⟩
        | some head =>
          have hfree : ∀ e, ¬Defect seen (')' :: rest) e := fun e he => by
            rw [hl'.mpr (hhere e he).1] at hhead
            cases hhead
          dsimp only
          cases outer with
          | nil =>
            have hdepth := h.depth
            obtain ⟨hopen, hclose⟩ := count_close seen
            rw [List.length_nil] at hdepth
            rw [hshape]
            refine clean_of_closed (hnext hfree) (by simp) ?_
            rw [hopen, hclose]
            omega
          | cons next outer =>
            rw [hshape]
            exact ih _ (h.closed _) (hnext hfree)
      · obtain ⟨-, hclose⟩ := not_parenthesis_of_isBlank hblank
        rw [run_blank hblank, hshape]
        refine ih _ (h.blank hblank hl') (hnext fun e he => ?_)
        exact hclose (Option.some.inj (hhere e he).2)

theorem verdict_open (rest : List Char) (p : Nat) :
    Verdict ('(' :: rest) (run ('(' :: rest) p State.start) := by
  rw [State.start, run_open]
  refine run_verdict rest (p + 1) .start fun seen rest' e _ hlt => ?_
  obtain rfl : seen = [] := List.eq_nil_of_length_eq_zero (Nat.lt_one_iff.mp hlt)
  rintro (⟨hfresh, -⟩ | ⟨hne, -, -, -, -⟩)
  · cases hfresh
  · exact hne rfl

theorem run_stray {t rest : List Char} (ht : IsToken t) (hrest : Delimited rest) (p : Nat) :
    run (t ++ rest) p State.start = .error (.strayToken (String.ofList t)
      (if rest = [] then p + t.length - 1 else p + t.length)) := by
  rw [State.start, run_tokenChars t _ _ _ _ ht.chars, List.append_nil]
  cases rest with
  | nil => rw [run, flush_stray ht.nonempty, if_pos rfl]
  | cons d rest =>
    rw [run_delimiter (hrest d rfl), flush_stray ht.nonempty, if_neg (List.cons_ne_nil d rest)]

theorem head?_dropWhile {p : Char → Bool} {cs : List Char} {c : Char}
    (h : c ∈ (cs.dropWhile p).head?) : p c = false := by
  have hnot := List.head?_dropWhile_not p cs
  rwa [Option.mem_def.mp h] at hnot

theorem exists_token {c : Char} (hc : isTokenChar c = true) (cs : List Char) :
    ∃ t rest, c :: cs = t ++ rest ∧ IsToken t ∧ Delimited rest := by
  refine ⟨(c :: cs).takeWhile isTokenChar, (c :: cs).dropWhile isTokenChar,
    List.takeWhile_append_dropWhile.symm, ⟨?_, ?_⟩, fun d hd => head?_dropWhile hd⟩
  · rw [List.takeWhile_cons_of_pos hc]
    exact List.cons_ne_nil _ _
  · exact List.all_eq_true.mp List.all_takeWhile

theorem run_eq_error_iff {cs : List Char} (hcs : ∀ c ∈ cs.head?, Text.isBlank c = false) (p : Nat)
    (e : Error) : run cs p State.start = .error e ↔ Diagnosis p cs e := by
  constructor
  · intro h
    cases cs with
    | nil => cases h; exact .nothing
    | cons c rest =>
      cases hc : isTokenChar c with
      | true =>
        obtain ⟨t, rest', hsplit, ht, hrest⟩ := exists_token hc rest
        rw [hsplit] at h ⊢
        rw [run_stray ht hrest] at h
        cases h
        exact .stray ht hrest
      | false =>
        rcases delimiter_cases hc with rfl | rfl | hblank
        · have hverdict := verdict_open rest p
          rw [h] at hverdict
          rcases hverdict with hfirst | ⟨hclean, hunclosed, rfl⟩
          · exact .defect hfirst
          · exact .unclosed hclean hunclosed
        · rw [run_close_outside] at h
          cases h
          exact .unmatched rest
        · rw [hcs c rfl] at hblank
          cases hblank
  · intro h
    cases h with
    | nothing => rfl
    | unmatched rest => exact run_close_outside rest p
    | stray ht hrest => exact run_stray ht hrest p
    | @defect rest e hfirst =>
      have hverdict := verdict_open rest p
      cases hrun : run ('(' :: rest) p State.start with
      | ok r =>
        rw [hrun] at hverdict
        exact absurd hverdict.1 hfirst.not_clean
      | error e' =>
        rw [hrun] at hverdict
        rcases hverdict with hfirst' | ⟨hclean, -, -⟩
        · rw [hfirst.unique hfirst']
        · exact absurd hclean hfirst.not_clean
    | @unclosed rest hclean hunclosed =>
      have hverdict := verdict_open rest p
      cases hrun : run ('(' :: rest) p State.start with
      | ok r =>
        rw [hrun] at hverdict
        exact absurd hunclosed hverdict.2
      | error e' =>
        rw [hrun] at hverdict
        rcases hverdict with hfirst | ⟨-, -, rfl⟩
        · exact absurd hclean hfirst.not_clean
        · rfl

theorem count_of_blanks {blanks : List Char} (h : ∀ c ∈ blanks, Text.isBlank c = true) :
    blanks.count '(' = 0 ∧ blanks.count ')' = 0 :=
  ⟨List.count_eq_zero.mpr fun hmem => absurd (h _ hmem) (by decide),
    List.count_eq_zero.mpr fun hmem => absurd (h _ hmem) (by decide)⟩

theorem Diagnosis.count_of_unclosed {blanks n : Nat} {cs : List Char}
    (h : Diagnosis blanks cs (.unclosed n)) :
    1 ≤ n ∧ n + cs.count ')' = cs.count '(' := by
  generalize he : Error.unclosed n = e at h
  cases h with
  | defect hfirst =>
    obtain ⟨seen, rest, -, -, hdefect, -⟩ := hfirst
    rw [← he] at hdefect
    cases hdefect
  | unclosed hclean hunclosed =>
    cases he
    have hlt := hunclosed _ (List.cons_ne_nil _ _) (List.prefix_refl _)
    omega
  | _ => cases he

/-- Which texts are refused, as what, and in which words. With the blanks in front of it left out,
a text is refused just when it has a diagnosis, and with that one. Forms that are left open are
counted over the whole text. -/
theorem parse_diagnosis (text : String) :
    let cs := text.toList
    (∀ e, parse text = .error e ↔
      Diagnosis (cs.takeWhile Text.isBlank).length (cs.dropWhile Text.isBlank) e) ∧
    (∀ n, parse text = .error (.unclosed n) → 1 ≤ n ∧ n + cs.count ')' = cs.count '(') ∧
    Error.noForm.message = "No form found in input" ∧
    (∀ i, (Error.unmatchedClose i).message = "Unmatched ')' at " ++ Error.natText i) ∧
    (∀ t i, (Error.strayToken t i).message =
      "Unexpected token " ++ Text.quoted t ++ " outside of a form at " ++ Error.natText i) ∧
    Error.emptyForm.message = "Empty form: '()' has no operator" ∧
    (∀ t, (Error.malformedNumber t).message = "Malformed number " ++ Text.quoted t) ∧
    ∀ n, (Error.unclosed n).message =
      "Unbalanced parentheses: " ++ Error.natText n ++ " '(' left open" := by
  intro cs
  have hsplit : cs.takeWhile Text.isBlank ++ cs.dropWhile Text.isBlank = cs :=
    List.takeWhile_append_dropWhile
  have hblanks : ∀ c ∈ cs.takeWhile Text.isBlank, Text.isBlank c = true :=
    List.all_eq_true.mp List.all_takeWhile
  have hparse : ∀ e, parse text = .error e ↔
      Diagnosis (cs.takeWhile Text.isBlank).length (cs.dropWhile Text.isBlank) e := by
    intro e
    have hrun : read text = run (cs.dropWhile Text.isBlank)
        (cs.takeWhile Text.isBlank).length State.start := by
      rw [read, ← Nat.zero_add (cs.takeWhile Text.isBlank).length, ← run_blanks _ _ 0 hblanks,
        hsplit]
    have hread : parse text = .error e ↔ read text = .error e := by
      unfold parse
      cases read text <;> simp
    rw [hread, hrun, run_eq_error_iff (fun c hc => head?_dropWhile hc)]
  refine ⟨hparse, fun n hn => ?_, rfl, fun _ => rfl, fun _ _ => rfl, rfl, fun _ => rfl,
    fun _ => rfl⟩
  obtain ⟨hopen, hclose⟩ := count_of_blanks hblanks
  obtain ⟨hpos, hcount⟩ := ((hparse _).mp hn).count_of_unclosed
  rw [← hsplit, List.count_append, List.count_append, hopen, hclose, Nat.zero_add, Nat.zero_add]
  exact ⟨hpos, hcount⟩

example : parse " (f 1-2 () (" = .error (.malformedNumber "1-2") := by decide +kernel

end Reader
end SmallLisp
