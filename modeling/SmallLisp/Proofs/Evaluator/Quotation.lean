import SmallLisp.Proofs.Evaluator.Direct
import SmallLisp.Proofs.Reader.Accepts

/-!
# SmallLisp.Proofs.Evaluator.Quotation

Evaluation undoes quotation. The code `(eval (quote v))` has the outcome that `v` itself has as
code; only a variable stands for its binding on the way, as it does in `(eval x)`. `eval` takes one
evaluation more, so the two are compared under bounds that differ by one, and as far as they end
at all.

* `SameOutcome`: two runs end alike, or both go on for ever.
* `untraced_eval_argument`: what `eval` does with an argument that costs nothing to walk.
* `parse_evalQuoteText`: the quotation of a written form, around whatever blanks precede it.
* `evaluate_evalQuote`: the law for values, for variables and for texts.
-/

namespace SmallLisp

/-- The code `(quote v)`. -/
def Value.quotation (v : Value) : Value :=
  .ofList [.op "quote", v]

/-- The code `(eval (quote v))`. -/
def Value.evalQuote (v : Value) : Value :=
  .ofList [.op "eval", v.quotation]

/-- The text of `(eval (quote v))` around a text of `v`. -/
def Reader.evalQuoteText (text : String) : String :=
  "(eval (quote " ++ text ++ "))"

namespace Evaluator

/-! ## Outcomes under all bounds -/

/-- Some bound suffices for a run, and this is its outcome then, trace aside. -/
def Settles (run : Nat → Outcome) (o : Outcome) : Prop :=
  o.result ≠ .error .exhausted ∧ ∃ nesting, (run nesting).untraced = o

/-- Two runs settle in the same outcome, or neither settles. -/
structure SameOutcome (run run' : Nat → Outcome) : Prop where
  settles : ∀ o, Settles run o ↔ Settles run' o
  endless : (∀ nesting, (run nesting).result = .error .exhausted) ↔
    ∀ nesting, (run' nesting).result = .error .exhausted

/-- A run that needs a bound greater by one than another has the same outcome. -/
theorem sameOutcome_of_succ {run run' : Nat → Outcome}
    (hmono : ∀ n, (run n).Refines (run (n + 1)))
    (hsucc : ∀ n, (run (n + 1)).untraced = (run' n).untraced) : SameOutcome run run' where
  settles := by
    intro o
    constructor
    · rintro ⟨hfin, n, rfl⟩
      rcases hmono n with he | he
      · exact absurd he hfin
      · exact ⟨hfin, n, by rw [← hsucc, he]⟩
    · rintro ⟨hfin, n, rfl⟩
      exact ⟨hfin, n + 1, hsucc n⟩
  endless := by
    have hresult : ∀ n, (run (n + 1)).result = (run' n).result := by
      intro n
      show (run (n + 1)).untraced.result = (run' n).untraced.result
      rw [hsucc]
    constructor
    · intro h n
      rw [← hresult]
      exact h (n + 1)
    · intro h n
      rcases hmono n with he | he
      · exact he
      · rw [← he, hresult]
        exact h n

theorem evaluate_refines_succ (n : Nat) (r : Registry) (code : Value) (w : World) :
    (evaluate n r code w).Refines (evaluate (n + 1) r code w) :=
  nested_refines_succ (n + 1) r code w

/-- What was recorded before has no influence on what evaluation does. -/
theorem untraced_evaluate_congr {w w' : World} (h : Direct.Traceless w w') (n : Nat) (r : Registry)
    (code : Value) : (evaluate n r code w).untraced = (evaluate n r code w').untraced :=
  (Direct.nested_alike (n + 1) r code w w' h).untraced.trans
    (Direct.nested_alike (n + 1) r code w' w' rfl).untraced.symm

/-! ## One argument of `eval` -/

/-- An argument that yields a value and changes nothing. -/
def Yields (e v : Value) : Prop :=
  (∀ name, e ≠ .op name) ∧ ∀ (call : Caller) (depth : Nat) (w : World),
    ∃ w', headOutcome call e depth w = .ok v w' ∧ Direct.Traceless w' w

theorem quotation_yields (v : Value) : Yields v.quotation v := by
  refine ⟨nofun, fun call depth w => ?_⟩
  rw [headOutcome_of_isList rfl, Value.quotation, Value.ofList, walk_pair_quote]
  exact ⟨_, rfl, rfl⟩

theorem var_yields (id : String) : Yields (.var id) (.var id) :=
  ⟨nofun, fun _ _ w => ⟨w, rfl, rfl⟩⟩

theorem walk_yields {e v : Value} (h : Yields e v) (call : Caller) (depth : Nat)
    (collected : List Value) (w : World) : ∃ w', Direct.Traceless w' w ∧
      walk call (.pair e .nil) depth collected w = ⟨.ok v, collected, w'⟩ := by
  obtain ⟨hop, hhead⟩ := h
  obtain ⟨w', hfirst, hw'⟩ := hhead call depth (w.record (.visit depth (.pair e .nil)))
  refine ⟨w'.record (.visit (depth + 1) .nil), hw', ?_⟩
  rw [walk_pair (hop "quote"), hfirst]
  exact finish_of_ne_op hop call v depth collected _

theorem arguments_collect (t : Table) (v : Value) :
    arguments t (collect [] v) = if v = .nil then [] else [resolve t v] := by
  cases v <;> rfl

section Registries

variable {r : Registry} (hr : r.lookup "eval" = .ok (.eval .own))

include hr

/-- A call of `eval` with one collected value evaluates what the value stands for. -/
theorem untraced_apply_eval (n : Nat) (v : Value) (depth : Nat) (w : World) :
    (apply (reentry (nested (n + 1)) r) r "eval" depth (collect [] v) w).untraced =
      (evaluate n r (resolve w.table v) w).untraced := by
  simp only [apply, hr, arguments_collect, Builtin.run]
  split
  · rename_i hv
    subst hv
    rfl
  · let called := w.record (.call depth "eval" [resolve w.table v])
    have hcalled : Direct.Traceless called w := rfl
    exact untraced_evaluate_congr hcalled n r _

theorem untraced_eval_argument {e v : Value} (h : Yields e v) (n : Nat) (w : World) :
    (evaluate (n + 1) r (.ofList [.op "eval", e]) w).untraced =
      (evaluate n r (resolve w.table v) w).untraced := by
  let call := apply (reentry (nested (n + 1)) r) r
  let code := Value.ofList [.op "eval", e]
  obtain ⟨w', hw', hwalk⟩ := walk_yields h call 1 [] (w.record (.visit 0 code))
  have htraceless : Direct.Traceless w' w := hw'
  have hstep : walk call code 0 [] w =
      finish call (.op "eval") (.op "eval") 0 (collect [] v) w' := by
    show walk call (.pair (.op "eval") (.pair e .nil)) 0 [] w = _
    rw [walk_operator (by decide)]
    simp only [code, Value.ofList] at hwalk
    simp only [hwalk]
  calc (evaluate (n + 1) r code w).untraced
      = (walk call code 0 [] w).outcome.untraced := rfl
    _ = (call "eval" 0 (collect [] v) w').untraced := by rw [hstep]; rfl
    _ = (evaluate n r (resolve w'.table v) w').untraced := untraced_apply_eval hr n v 0 w'
    _ = (evaluate n r (resolve w.table v) w).untraced := by
      rw [htraceless.table]
      exact untraced_evaluate_congr htraceless n r _

theorem sameOutcome_eval_argument {e v : Value} (h : Yields e v) (w : World) :
    SameOutcome (fun n => evaluate n r (.ofList [.op "eval", e]) w)
      (fun n => evaluate n r (resolve w.table v) w) :=
  sameOutcome_of_succ (fun n => evaluate_refines_succ n r _ w)
    fun n => untraced_eval_argument hr h n w

end Registries

theorem lookup_eval_standard (notifies : Bool) :
    (Registry.standard notifies).lookup "eval" = .ok (.eval .own) := by
  cases notifies <;> rfl

end Evaluator

namespace Reader

/-! ## Quotation of written forms -/

theorem isForm_of_read {text : String} {v : Value} (h : read text = .ok ⟨v, []⟩) :
    ∃ blanks form, text.toList = blanks ++ form ∧ (∀ c ∈ blanks, Text.isBlank c = true) ∧
      IsForm form v := by
  have hparse : parse text = .ok v := by rw [parse, h]
  obtain ⟨blanks, form, rest, htext, hblanks, hform⟩ := begins_of_parse hparse
  have hread : read text = .ok ⟨v, rest⟩ := by rw [read, htext, run_of_isForm hblanks hform]
  rw [h] at hread
  cases hread
  exact ⟨blanks, form, by simpa using htext, hblanks, hform⟩

theorem spells_isForm {blanks form : List Char} {v : Value}
    (hblanks : ∀ c ∈ blanks, Text.isBlank c = true) (hform : IsForm form v) :
    Spells (blanks ++ form) [.form v] := by
  induction blanks with
  | nil =>
    obtain ⟨body, items, rfl, hbody, hv⟩ := hform
    exact .form hbody hv .nil
  | cons c blanks ih =>
    exact .blank (hblanks c (by simp)) (ih fun d hd => hblanks d (by simp [hd]))

/-- An operator in front of one form, with blanks between them. -/
theorem isForm_operator {name blanks form : List Char} {v : Value} (hname : IsToken name)
    (hblanks : ∀ c ∈ blanks, Text.isBlank c = true) (hform : IsForm form v) :
    IsForm ('(' :: (name ++ ' ' :: (blanks ++ form)) ++ [')'])
      (.ofList [.op (String.ofList name), v]) := by
  have hbehind : Spells (' ' :: (blanks ++ form)) [.form v] :=
    .blank rfl (spells_isForm hblanks hform)
  have hdelimited : Delimited (' ' :: (blanks ++ form)) := delimited_cons (by decide) _
  exact ⟨_, _, rfl, .token hname hdelimited hbehind,
    .intro (.token name) (.cons (.form v) .nil)⟩

theorem parse_evalQuoteText {text : String} {v : Value} (h : read text = .ok ⟨v, []⟩) :
    parse (evalQuoteText text) = .ok v.evalQuote := by
  obtain ⟨blanks, form, htext, hblanks, hform⟩ := isForm_of_read h
  have hquote : IsToken ['q', 'u', 'o', 't', 'e'] := ⟨by decide, List.all_eq_true.mp rfl⟩
  have heval : IsToken ['e', 'v', 'a', 'l'] := ⟨by decide, List.all_eq_true.mp rfl⟩
  have hinner := isForm_operator hquote hblanks hform
  have houter := isForm_operator heval (List.forall_mem_nil _) hinner
  refine parse_of_isForm (?_ : _ = [] ++ _ ++ []) (List.forall_mem_nil _) houter
  rw [evalQuoteText, String.toList_append, String.toList_append, htext]
  simp

end Reader

namespace Evaluator

/-- Evaluation undoes quotation, over every table and whatever is printed and asked for. A value
that is no variable has as code the outcome of its quotation under `eval`: the same value or error,
the same table, text printed and exit requests, or both go on for ever. A variable has the outcome
of its binding, quoted or not. And a text that ends with its first form is read inside of the
quotation as it is by itself, so that texts obey the law as well. -/
theorem evaluate_evalQuote (notifies : Bool) (v : Value) (w : World) :
    let r := Registry.standard notifies
    let run : Value → Nat → Outcome := fun code nesting => evaluate nesting r code w
    ((∀ x, v ≠ .var x) → SameOutcome (run v.evalQuote) (run v)) ∧
    (∀ x, v = .var x → SameOutcome (run v.evalQuote) (run (w.table.get x)) ∧
      SameOutcome (run (.ofList [.op "eval", .var x])) (run (w.table.get x))) ∧
    ∀ text, Reader.read text = .ok ⟨v, []⟩ →
      Reader.parse (Reader.evalQuoteText text) = .ok v.evalQuote ∧
      SameOutcome (fun nesting => evaluateText nesting r (Reader.evalQuoteText text) w)
        (fun nesting => evaluateText nesting r text w) := by
  intro r run
  have hr : r.lookup "eval" = .ok (.eval .own) := lookup_eval_standard notifies
  have hquoted : SameOutcome (run v.evalQuote) (run (resolve w.table v)) :=
    sameOutcome_eval_argument hr (quotation_yields v) w
  refine ⟨fun hv => ?_, ?_, fun text hread => ?_⟩
  · rwa [resolve_of_ne_var hv] at hquoted
  · rintro x rfl
    exact ⟨hquoted, sameOutcome_eval_argument hr (var_yields x) w⟩
  · have hsplice := Reader.parse_evalQuoteText hread
    have hparse : Reader.parse text = .ok v := by rw [Reader.parse, hread]
    have hv : ∀ x, v ≠ .var x := by
      rintro x rfl
      obtain ⟨_, _, _, -, -, _, _, -, -, hvalue⟩ := Reader.begins_of_parse hparse
      cases hvalue
    rw [resolve_of_ne_var hv] at hquoted
    refine ⟨hsplice, ?_⟩
    simp only [evaluateText, hsplice, hparse]
    exact hquoted

end Evaluator
end SmallLisp
