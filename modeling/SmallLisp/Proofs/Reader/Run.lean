import SmallLisp.Proofs.Reader.Grammar

/-!
# SmallLisp.Proofs.Reader.Run

What one character does to the state of the reader, written out once. A character of a token is put
aside. Any other first lets the token in front of it be taken in (`run_delimiter`), so that the
other equations are about states in which no token is being read.

* `run_tokenChar`, `run_delimiter`: the two kinds of characters.
* `run_open`, `run_close`, `run_blank`: what each delimiter does then.
* `flush_cases`: what taking a token in can do.
* `kind_of_run`: every refusal is a syntax error.
-/

namespace SmallLisp
namespace Reader

/-! ## Characters -/

theorem delimiter_cases {c : Char} (h : isTokenChar c = false) :
    c = '(' ∨ c = ')' ∨ Text.isBlank c = true := by
  by_cases hopen : c = '('
  · exact .inl hopen
  · by_cases hclose : c = ')'
    · exact .inr (.inl hclose)
    · exact .inr (.inr (by simpa [isTokenChar, hopen, hclose] using h))

theorem not_parenthesis_of_isBlank {c : Char} (h : Text.isBlank c = true) :
    c ≠ '(' ∧ c ≠ ')' := by
  constructor <;> rintro rfl <;> cases h

theorem run_tokenChar {c : Char} (hc : isTokenChar c = true) (rest : List Char) (p : Nat)
    (s : State) : run (c :: rest) p s = run rest (p + 1) ⟨s.levels, c :: s.token⟩ := by
  obtain ⟨hopen, hclose, hblank⟩ := isBlank_of_isTokenChar hc
  rw [run, if_neg hopen, if_neg hclose, hblank]
  rfl

theorem run_open (rest : List Char) (p : Nat) (levels : List Level) :
    run ('(' :: rest) p ⟨levels, []⟩ = run rest (p + 1) ⟨Level.start :: levels, []⟩ := by
  rw [run, if_pos rfl]
  rfl

theorem run_close_outside (rest : List Char) (p : Nat) :
    run (')' :: rest) p State.start = .error (.unmatchedClose p) := by
  rw [run, if_neg (by decide), if_pos rfl]
  rfl

theorem run_close (rest : List Char) (p : Nat) (l : Level) (outer : List Level) :
    run (')' :: rest) p ⟨l :: outer, []⟩ =
      match l.close with
      | .error e => .error e
      | .ok v =>
        match outer with
        | [] => .ok ⟨v, rest⟩
        | next :: outer => run rest (p + 1) ⟨next.addForm v :: outer, []⟩ := by
  rw [run, if_neg (by decide), if_pos rfl]
  cases hl : l.close with
  | error e => simp only [State.flush, hl]
  | ok v => cases outer <;> simp only [State.flush, hl]

theorem run_blank {c : Char} (hc : Text.isBlank c = true) (rest : List Char) (p : Nat)
    (levels : List Level) : run (c :: rest) p ⟨levels, []⟩ = run rest (p + 1) ⟨levels, []⟩ := by
  obtain ⟨hopen, hclose⟩ := not_parenthesis_of_isBlank hc
  rw [run, if_neg hopen, if_neg hclose, if_pos hc]
  rfl

/-- Where no token is being read, blanks change the position alone. -/
theorem run_blanks_between (blanks : List Char) :
    ∀ (rest : List Char) (p : Nat) (levels : List Level),
      (∀ c ∈ blanks, Text.isBlank c = true) →
      run (blanks ++ rest) p ⟨levels, []⟩ = run rest (p + blanks.length) ⟨levels, []⟩ := by
  induction blanks with
  | nil => intro rest p levels _; rfl
  | cons c blanks ih =>
    intro rest p levels hall
    have hblanks : ∀ d ∈ blanks, Text.isBlank d = true := fun d hd => hall d (by simp [hd])
    rw [List.cons_append, run_blank (hall c (by simp)), ih _ _ _ hblanks, List.length_cons]
    congr 1
    omega

/-! ## Tokens -/

theorem flush_token_nil {s s' : State} {p : Nat} (h : s.flush p = .ok s') : s'.token = [] := by
  unfold State.flush at h
  split at h
  · rename_i hs; cases h; exact hs
  · split at h
    · cases h
    · split at h <;> cases h
      rfl

/-- Where no token goes on, the one being read is taken in first. -/
theorem run_delimiter {d : Char} (hd : isTokenChar d = false) (rest : List Char) (p : Nat)
    (s : State) : run (d :: rest) p s =
      match s.flush p with
      | .error e => .error e
      | .ok s' => run (d :: rest) p s' := by
  cases hs : s.flush p with
  | error e =>
    rcases delimiter_cases hd with rfl | rfl | hblank
    · rw [run, if_pos rfl, hs]
    · rw [run, if_neg (by decide), if_pos rfl, hs]
    · obtain ⟨hopen, hclose⟩ := not_parenthesis_of_isBlank hblank
      rw [run, if_neg hopen, if_neg hclose, if_pos hblank, hs]
  | ok s' =>
    have hs' : s'.flush p = .ok s' := by rw [State.flush, flush_token_nil hs]
    show run (d :: rest) p s = run (d :: rest) p s'
    rcases delimiter_cases hd with rfl | rfl | hblank
    · rw [run, run, if_pos rfl, if_pos rfl, hs, hs']
    · have hne : ')' ≠ '(' := by decide
      rw [run, run, if_neg hne, if_neg hne, if_pos rfl, if_pos rfl, hs, hs']
    · obtain ⟨hopen, hclose⟩ := not_parenthesis_of_isBlank hblank
      rw [run, run, if_neg hopen, if_neg hopen, if_neg hclose, if_neg hclose, if_pos hblank,
        if_pos hblank, hs, hs']

theorem run_tokenChars (t : List Char) :
    ∀ (rest : List Char) (p : Nat) (levels : List Level) (acc : List Char),
      (∀ c ∈ t, isTokenChar c = true) →
      run (t ++ rest) p ⟨levels, acc⟩ = run rest (p + t.length) ⟨levels, t.reverse ++ acc⟩ := by
  induction t with
  | nil => intro rest p levels acc _; rfl
  | cons c t ih =>
    intro rest p levels acc hall
    have ht : ∀ d ∈ t, isTokenChar d = true := fun d hd => hall d (by simp [hd])
    rw [List.cons_append, run_tokenChar (hall c (by simp)), ih _ _ _ _ ht, List.length_cons,
      List.reverse_cons, List.append_assoc, List.singleton_append]
    congr 1
    omega

/-- Taking in the token being read leaves the level with that token, or as it was if none is. -/
theorem flush_cases {l : Level} {outer : List Level} {acc : List Char} {p : Nat} {s : State}
    (h : (⟨l :: outer, acc⟩ : State).flush p = .ok s) :
    ∃ l', s = ⟨l' :: outer, []⟩ ∧
      (acc = [] ∧ l' = l ∨ acc ≠ [] ∧ l.addToken acc.reverse = .ok l') := by
  cases acc with
  | nil => cases h; exact ⟨l, rfl, .inl ⟨rfl, rfl⟩⟩
  | cons c acc =>
    simp only [State.flush] at h
    split at h
    · rename_i l' hl'
      cases h
      exact ⟨l', rfl, .inr ⟨by simp, hl'⟩⟩
    · cases h

theorem flush_outside {acc : List Char} {p : Nat} {s : State}
    (h : (⟨[], acc⟩ : State).flush p = .ok s) : acc = [] ∧ s = State.start := by
  cases acc with
  | nil => cases h; exact ⟨rfl, rfl⟩
  | cons c acc => cases h

theorem reverse_eq_cons {t : List Char} (ht : t ≠ []) :
    ∃ c rev, t.reverse = c :: rev ∧ (c :: rev).reverse = t := by
  obtain ⟨c, rev, hrev⟩ := List.exists_cons_of_ne_nil (List.reverse_ne_nil_iff.mpr ht)
  exact ⟨c, rev, hrev, by rw [← hrev, List.reverse_reverse]⟩

theorem flush_token {t : List Char} (ht : t ≠ []) {l l' : Level} (h : l.addToken t = .ok l')
    (outer : List Level) (p : Nat) :
    (⟨l :: outer, t.reverse⟩ : State).flush p = .ok ⟨l' :: outer, []⟩ := by
  obtain ⟨c, rev, hrev, hback⟩ := reverse_eq_cons ht
  rw [hrev, State.flush]
  simp only [hback, h]

theorem flush_token_error {t : List Char} (ht : t ≠ []) {l : Level} {e : Error}
    (h : l.addToken t = .error e) (outer : List Level) (p : Nat) :
    (⟨l :: outer, t.reverse⟩ : State).flush p = .error e := by
  obtain ⟨c, rev, hrev, hback⟩ := reverse_eq_cons ht
  rw [hrev, State.flush]
  simp only [hback, h]

theorem flush_stray {t : List Char} (ht : t ≠ []) (p : Nat) :
    (⟨[], t.reverse⟩ : State).flush p = .error (.strayToken (String.ofList t) p) := by
  obtain ⟨c, rev, hrev, hback⟩ := reverse_eq_cons ht
  rw [hrev, State.flush]
  simp only [hback]

/-! ## Refusals -/

theorem kind_of_atom {token : List Char} {e : Error} (h : atom token = .error e) :
    e.kind = .syntaxError := by
  unfold atom at h
  split at h
  · cases h; rfl
  · cases h
  · split at h
    · cases h
    · split at h
      · unfold numeral at h
        split at h <;> cases h
        rfl
      · cases h

theorem kind_of_addToken {l : Level} {token : List Char} {e : Error}
    (h : l.addToken token = .error e) : e.kind = .syntaxError := by
  unfold Level.addToken at h
  split at h
  · cases h
  · split at h
    · cases h
    · rename_i ha; cases h; exact kind_of_atom ha

theorem kind_of_flush {s : State} {p : Nat} {e : Error} (h : s.flush p = .error e) :
    e.kind = .syntaxError := by
  unfold State.flush at h
  split at h
  · cases h
  · split at h
    · cases h; rfl
    · split at h
      · cases h
      · rename_i ha; cases h; exact kind_of_addToken ha

theorem kind_of_close {l : Level} {e : Error} (h : l.close = .error e) :
    e.kind = .syntaxError := by
  unfold Level.close at h
  split at h
  · cases h; rfl
  · cases h

theorem kind_of_missing (s : State) : s.missing.kind = .syntaxError := by
  unfold State.missing
  split <;> rfl

theorem kind_of_run (cs : List Char) :
    ∀ (p : Nat) (s : State) (e : Error), run cs p s = .error e → e.kind = .syntaxError := by
  induction cs with
  | nil =>
    intro p s e h
    rw [run] at h
    split at h
    · rename_i he; cases h; exact kind_of_flush he
    · cases h; exact kind_of_missing _
  | cons c cs ih =>
    intro p s e h
    cases hc : isTokenChar c with
    | true => rw [run_tokenChar hc] at h; exact ih _ _ _ h
    | false =>
      rw [run_delimiter hc] at h
      split at h
      · rename_i he; cases h; exact kind_of_flush he
      · rename_i s' hs
        obtain ⟨levels, token⟩ := s'
        obtain rfl : token = [] := flush_token_nil hs
        rcases delimiter_cases hc with rfl | rfl | hblank
        · rw [run_open] at h; exact ih _ _ _ h
        · cases levels with
          | nil => rw [← State.start, run_close_outside] at h; cases h; rfl
          | cons l outer =>
            rw [run_close] at h
            split at h
            · rename_i he; cases h; exact kind_of_close he
            · split at h
              · cases h
              · exact ih _ _ _ h
        · rw [run_blank hblank] at h; exact ih _ _ _ h

end Reader
end SmallLisp
