import SmallLisp.Proofs.Reader.Run

/-!
# SmallLisp.Proofs.Reader.Accepts

The reader accepts exactly the texts that begin with a form, and reads the value of that form.

* `Level.Completes`: the items that an open level still needs to become a form.
* `run_of_spells`: the reader takes items in and closes the level behind them.
* `Closes`: what a text must look like for the open levels to be closed by it.
* `closes_of_run`: a reading that succeeds has seen such a text.
* `parse_grammar`: what is read, what is refused, and that what follows the form is not looked at.
-/

namespace SmallLisp
namespace Reader

/-! ## Levels -/

namespace Level

def take (l : Level) : Item → Except Error Level
  | .token cs => l.addToken cs
  | .form v => .ok (l.addForm v)

/-- With these items taken in, a level is a form of value `v`. -/
def Completes (l : Level) : List Item → Value → Prop
  | [], v => l.close = .ok v
  | item :: items, v => ∃ l', l.take item = .ok l' ∧ l'.Completes items v

theorem take_argument (head : Value) (args : List Value) (item : Item) (l : Level) :
    (⟨some head, args⟩ : Level).take item = .ok l ↔
      ∃ v, item.Argument v ∧ l = ⟨some head, args ++ [v]⟩ := by
  cases item with
  | token cs =>
    simp only [take, addToken]
    constructor
    · intro h
      split at h
      · rename_i v hv
        cases h
        exact ⟨v, .token ((atom_eq_ok_iff cs v).mp hv), rfl⟩
      · cases h
    · rintro ⟨v, ⟨hv⟩, rfl⟩
      rw [(atom_eq_ok_iff cs v).mpr hv]
  | form v =>
    constructor
    · intro h; cases h; exact ⟨v, .form v, rfl⟩
    · rintro ⟨_, ⟨_⟩, rfl⟩; rfl

theorem completes_args (head : Value) :
    ∀ (items : List Item) (args : List Value) (v : Value),
      (⟨some head, args⟩ : Level).Completes items v ↔
        ∃ vs, List.Forall₂ Item.Argument items vs ∧ v = .pair head (.ofList (args ++ vs)) := by
  intro items
  induction items with
  | nil =>
    intro args v
    constructor
    · intro h; cases h; exact ⟨[], .nil, by rw [List.append_nil]⟩
    · rintro ⟨_, ⟨⟩, rfl⟩; rw [List.append_nil]; rfl
  | cons item items ih =>
    intro args v
    constructor
    · rintro ⟨l, hl, hc⟩
      obtain ⟨a, ha, rfl⟩ := (take_argument head args item l).mp hl
      obtain ⟨vs, hm, rfl⟩ := (ih _ v).mp hc
      exact ⟨a :: vs, .cons ha hm, by rw [List.append_assoc, List.singleton_append]⟩
    · rintro ⟨_, hall, rfl⟩
      obtain ⟨a, vs, ha, hm, rfl⟩ := List.forall₂_cons_left_iff.mp hall
      refine ⟨_, (take_argument head args item _).mpr ⟨a, ha, rfl⟩, (ih _ _).mpr ⟨vs, hm, ?_⟩⟩
      rw [List.append_assoc, List.singleton_append]

/-- What a level just opened needs are the items of a form. -/
theorem completes_start (items : List Item) (v : Value) :
    start.Completes items v ↔ FormValue items v := by
  cases items with
  | nil =>
    constructor
    · intro h; cases h
    · intro h; cases h
  | cons first items =>
    have hfirst : start.take first = .ok ⟨some first.head, []⟩ := by cases first <;> rfl
    constructor
    · rintro ⟨l, hl, hc⟩
      rw [hfirst] at hl
      cases hl
      obtain ⟨args, ha, rfl⟩ := (completes_args _ items [] v).mp hc
      exact .intro first ha
    · rintro ⟨_, ha⟩
      exact ⟨_, hfirst, (completes_args _ items [] _).mpr ⟨_, ha, rfl⟩⟩

end Level

/-! ## What the grammar derives is read -/

/-- A level takes a token in, whatever comes behind it. -/
theorem run_token {t cs : List Char} (ht : IsToken t) (hcs : Delimited cs) (hne : cs ≠ [])
    {l l' : Level} (h : l.addToken t = .ok l') (outer : List Level) (p : Nat) :
    run (t ++ cs) p ⟨l :: outer, []⟩ = run cs (p + t.length) ⟨l' :: outer, []⟩ := by
  obtain ⟨d, rest, rfl⟩ := List.exists_cons_of_ne_nil hne
  rw [run_tokenChars t _ _ _ _ ht.chars, List.append_nil, run_delimiter (hcs d rfl),
    flush_token ht.nonempty h]

/-- How the reader goes on behind a form of value `v`: with the reading, or in the level around. -/
def Resumes : List Level → Value → List Char → Reading → Prop
  | [], v, rest, r => r = ⟨v, rest⟩
  | next :: outer, v, rest, r => ∀ p, run rest p ⟨next.addForm v :: outer, []⟩ = .ok r

theorem run_of_spells {body : List Char} {items : List Item} (h : Spells body items) :
    ∀ (l : Level) (outer : List Level) (v : Value) (rest : List Char) (r : Reading) (p : Nat),
      l.Completes items v → Resumes outer v rest r →
      run (body ++ ')' :: rest) p ⟨l :: outer, []⟩ = .ok r := by
  induction h with
  | nil =>
    intro l outer v rest r p hl hr
    have hclose : l.close = .ok v := hl
    rw [List.nil_append, run_close, hclose]
    cases outer with
    | nil => exact congrArg Except.ok hr.symm
    | cons next outer => exact hr _
  | @blank c cs items hc _ ih =>
    intro l outer v rest r p hl hr
    rw [List.cons_append, run_blank hc]
    exact ih l outer v rest r _ hl hr
  | @token t cs items ht hcs _ ih =>
    rintro l outer v rest r p ⟨l', hl', hc⟩ hr
    rw [List.append_assoc, run_token ht ?_ (by simp) hl']
    · exact ih l' outer v rest r _ hc hr
    · cases cs with
      | nil => exact delimited_cons (by decide) rest
      | cons d cs => exact delimited_cons (hcs d rfl) _
  | @form body cs inner items u _ hu _ ihbody ihcs =>
    rintro l outer v rest r p ⟨l', hl', hc⟩ hr
    cases hl'
    have hshape : '(' :: body ++ ')' :: cs ++ ')' :: rest =
        '(' :: (body ++ ')' :: (cs ++ ')' :: rest)) := by simp
    rw [hshape, run_open]
    refine ihbody Level.start (l :: outer) u _ r _ ((Level.completes_start inner u).mpr hu) ?_
    intro p'
    exact ihcs _ outer v rest r p' hc hr

theorem run_blanks (blanks : List Char) :
    ∀ (rest : List Char) (p : Nat), (∀ c ∈ blanks, Text.isBlank c = true) →
      run (blanks ++ rest) p State.start = run rest (p + blanks.length) State.start :=
  fun rest p hall => run_blanks_between blanks rest p [] hall

/-- A text that begins with a form is read, and what comes behind the form is left. -/
theorem run_of_isForm {blanks form : List Char} {v : Value}
    (hblanks : ∀ c ∈ blanks, Text.isBlank c = true) (hform : IsForm form v) (rest : List Char) :
    run (blanks ++ form ++ rest) 0 State.start = .ok ⟨v, rest⟩ := by
  obtain ⟨body, items, rfl, hbody, hv⟩ := hform
  have hshape : blanks ++ ('(' :: body ++ [')']) ++ rest =
      blanks ++ ('(' :: (body ++ ')' :: rest)) := by simp
  rw [hshape, run_blanks blanks _ 0 hblanks, State.start, run_open]
  exact run_of_spells hbody Level.start [] v rest _ _ ((Level.completes_start items v).mpr hv) rfl

/-! ## What is read the grammar derives -/

/-- The text closes all the open levels, the outermost one with value `v`, and leaves `rest`. -/
inductive Closes : Level → List Level → List Char → Value → List Char → Prop
  | last {l : Level} {body rest : List Char} {items : List Item} {v : Value} :
      Spells body items → l.Completes items v → Closes l [] (body ++ ')' :: rest) v rest
  | inner {l next : Level} {outer : List Level} {body cs rest : List Char} {items : List Item}
      {u v : Value} : Spells body items → l.Completes items u →
      Closes (next.addForm u) outer cs v rest →
      Closes l (next :: outer) (body ++ ')' :: cs) v rest

namespace Closes

variable {l l' : Level} {outer : List Level} {cs rest : List Char} {v : Value}

/-- A text goes in front of one that closes the levels if it goes in front of the items there. -/
theorem prepend (front : List Char)
    (hfront : ∀ body tail items u, cs = body ++ ')' :: tail → Spells body items →
      l'.Completes items u → ∃ items', Spells (front ++ body) items' ∧ l.Completes items' u)
    (h : Closes l' outer cs v rest) : Closes l outer (front ++ cs) v rest := by
  cases h with
  | last hs hl =>
    obtain ⟨items', hs', hl'⟩ := hfront _ _ _ _ rfl hs hl
    rw [← List.append_assoc]
    exact .last hs' hl'
  | inner hs hl hr =>
    obtain ⟨items', hs', hl'⟩ := hfront _ _ _ _ rfl hs hl
    rw [← List.append_assoc]
    exact .inner hs' hl' hr

theorem blank {c : Char} (hc : Text.isBlank c = true) (h : Closes l outer cs v rest) :
    Closes l outer (c :: cs) v rest :=
  h.prepend [c] fun _ _ items _ _ hs hl => ⟨items, .blank hc hs, hl⟩

theorem token {t : List Char} (ht : IsToken t) (hcs : Delimited cs) (hl' : l.addToken t = .ok l')
    (h : Closes l' outer cs v rest) : Closes l outer (t ++ cs) v rest := by
  refine h.prepend _ ?_
  rintro body tail items u rfl hs hl
  refine ⟨.token t :: items, .token ht ?_ hs, l', hl', hl⟩
  -- the items end where the text does or at the delimiter
  intro d hd
  cases body with
  | nil => cases hd
  | cons c body => cases hd; exact hcs d rfl

theorem form {body : List Char} {items : List Item} {u : Value} (hs : Spells body items)
    (hu : FormValue items u) (h : Closes (l.addForm u) outer cs v rest) :
    Closes l outer ('(' :: body ++ ')' :: cs) v rest := by
  have hshape : '(' :: body ++ ')' :: cs = ('(' :: body ++ [')']) ++ cs := by simp
  rw [hshape]
  refine h.prepend _ ?_
  rintro inner tail items' w rfl hs' hl
  refine ⟨.form u :: items', ?_, l.addForm u, rfl, hl⟩
  have hf := Spells.form hs hu hs'
  rwa [List.append_cons] at hf

end Closes

/-- What closes the levels after the token being read was taken in closes them before it. -/
theorem Closes.of_flush {l : Level} {outer : List Level} {acc : List Char} {p : Nat} {s : State}
    (h : (⟨l :: outer, acc⟩ : State).flush p = .ok s) (hacc : ∀ c ∈ acc, isTokenChar c = true)
    {d : Char} (hd : isTokenChar d = false) {cs rest : List Char} {v : Value} :
    ∃ l', s = ⟨l' :: outer, []⟩ ∧
      (Closes l' outer (d :: cs) v rest → Closes l outer (acc.reverse ++ d :: cs) v rest) := by
  obtain ⟨l', hs, ⟨rfl, rfl⟩ | ⟨hne, hl'⟩⟩ := flush_cases h
  · exact ⟨l', hs, id⟩
  · have ht : IsToken acc.reverse :=
      ⟨by simpa using hne, fun c hc => hacc c (List.mem_reverse.mp hc)⟩
    exact ⟨l', hs, fun hc => hc.token ht (delimited_cons hd cs) hl'⟩

theorem closes_of_run (cs : List Char) :
    ∀ (p : Nat) (l : Level) (outer : List Level) (acc : List Char) (r : Reading),
      (∀ c ∈ acc, isTokenChar c = true) → run cs p ⟨l :: outer, acc⟩ = .ok r →
      Closes l outer (acc.reverse ++ cs) r.form r.rest := by
  induction cs with
  | nil =>
    intro p l outer acc r _ h
    rw [run] at h
    split at h <;> cases h
  | cons c cs ih =>
    intro p l outer acc r hacc h
    cases hc : isTokenChar c with
    | true =>
      rw [run_tokenChar hc] at h
      have hin := ih _ _ _ _ _ (by simpa [hc] using hacc) h
      rwa [List.reverse_cons, List.append_assoc, List.singleton_append] at hin
    | false =>
      rw [run_delimiter hc] at h
      split at h
      · cases h
      · rename_i s hs
        obtain ⟨l', rfl, hback⟩ := Closes.of_flush hs hacc hc
        refine hback ?_
        rcases delimiter_cases hc with rfl | rfl | hblank
        · -- the level just opened closes first, and its form goes into the one around it
          rw [run_open] at h
          cases ih _ _ _ _ _ (by simp) h with
          | inner hspell hl hr => exact hr.form hspell ((Level.completes_start _ _).mp hl)
        · rw [run_close] at h
          split at h
          · cases h
          · rename_i v hl
            split at h
            · cases h; exact .last .nil hl
            · exact .inner .nil hl (ih _ _ _ _ _ (by simp) h)
        · rw [run_blank hblank] at h
          exact .blank hblank (ih _ _ _ _ _ (by simp) h)

/-- Before the first form only blanks are passed over, and no token is begun. -/
theorem begins_of_run (cs : List Char) :
    ∀ (p : Nat) (acc : List Char) (r : Reading), run cs p ⟨[], acc⟩ = .ok r →
      acc = [] ∧ BeginsWithForm cs r.form := by
  induction cs with
  | nil =>
    intro p acc r h
    rw [run] at h
    split at h <;> cases h
  | cons c cs ih =>
    intro p acc r h
    cases hc : isTokenChar c with
    | true =>
      rw [run_tokenChar hc] at h
      exact absurd (ih _ _ _ h).1 (by simp)
    | false =>
      rw [run_delimiter hc] at h
      split at h
      · cases h
      · rename_i s hs
        obtain ⟨rfl, rfl⟩ := flush_outside hs
        refine ⟨rfl, ?_⟩
        rcases delimiter_cases hc with rfl | rfl | hblank
        · rw [State.start, run_open] at h
          cases closes_of_run cs _ _ _ _ r (by simp) h with
          | @last _ body _ items _ hspell hl =>
            exact ⟨[], '(' :: body ++ [')'], r.rest, by simp, by simp, body, items, rfl, hspell,
              (Level.completes_start _ _).mp hl⟩
        · rw [run_close_outside] at h
          cases h
        · rw [State.start, run_blank hblank] at h
          obtain ⟨-, blanks, form, rest, rfl, hb, hf⟩ := ih _ _ _ h
          refine ⟨c :: blanks, form, rest, rfl, ?_, hf⟩
          intro d hd
          rcases List.mem_cons.mp hd with rfl | hd
          · exact hblank
          · exact hb d hd

/-! ## The reader and the grammar -/

theorem parse_of_isForm {text : String} {blanks form rest : List Char} {v : Value}
    (htext : text.toList = blanks ++ form ++ rest)
    (hblanks : ∀ c ∈ blanks, Text.isBlank c = true) (hform : IsForm form v) :
    parse text = .ok v := by
  rw [parse, read, htext, run_of_isForm hblanks hform]

theorem kind_of_parse {text : String} {e : Error} (h : parse text = .error e) :
    e.kind = .syntaxError := by
  unfold parse read at h
  split at h
  · cases h
  · rename_i e' he
    cases h
    exact kind_of_run _ _ _ _ he

theorem begins_of_parse {text : String} {v : Value} (h : parse text = .ok v) :
    BeginsWithForm text.toList v := by
  unfold parse read at h
  split at h
  · rename_i r hr
    cases h
    exact (begins_of_run _ _ _ r hr).2
  · cases h

/-- The reader accepts exactly its grammar. It returns a value just when the text is blanks, a form
of that value, and something more; what that something is plays no part. Every other text is
refused as a syntax error. -/
theorem parse_grammar (text : String) :
    (∀ v, parse text = .ok v ↔ BeginsWithForm text.toList v) ∧
    (∀ blanks form rest rest' v, text.toList = blanks ++ form ++ rest →
      (∀ c ∈ blanks, Text.isBlank c = true) → IsForm form v →
      parse (String.ofList (blanks ++ form ++ rest')) = parse text) ∧
    ((∃ v, BeginsWithForm text.toList v) ∨
      ∃ e, parse text = .error e ∧ e.kind = .syntaxError) := by
  refine ⟨fun v => ⟨begins_of_parse, ?_⟩, ?_, ?_⟩
  · rintro ⟨blanks, form, rest, htext, hblanks, hform⟩
    exact parse_of_isForm htext hblanks hform
  · intro blanks form rest rest' v htext hblanks hform
    rw [parse_of_isForm htext hblanks hform, parse_of_isForm String.toList_ofList hblanks hform]
  · cases h : parse text with
    | ok v => exact .inl ⟨v, begins_of_parse h⟩
    | error e => exact .inr ⟨e, rfl, kind_of_parse h⟩

end Reader
end SmallLisp
