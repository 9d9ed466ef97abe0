import SmallLisp.Proofs.Builtin.Guards
import SmallLisp.Proofs.Evaluator.Failures
import SmallLisp.Proofs.Reader.Reread
import SmallLisp.Proofs.Session.Course

/-!
# SmallLisp.Proofs.Session.Errors

The errors that a user can meet. A text that is read has no list in it that ends in an atom, so
evaluation comes across what is no code only where `eval` is given some, out of a table of whatever
values. Errors of the registry, of the printer and of access to lists never get out, and no builtin
runs into a fault.

* `undotted_of_parse`: what was read is code throughout.
* `request_errors`: how a text can fail.
-/

namespace SmallLisp

namespace Reader

theorem undotted_of_isWritten (v : Value) :
    (IsWritten v → v.Undotted) ∧ (AreWritten v → v.Undotted) := by
  induction v with
  | nil => exact ⟨False.elim, fun _ => trivial⟩
  | pair head tail ihhead ihtail =>
    have hlist : ∀ {p : Prop}, (p → head.isList = false) → p ∨ IsWritten head →
        head.isList = true → head.Undotted := by
      intro p hatom hp hl
      rcases hp with hp | hhead
      · simp [hatom hp] at hl
      · exact ihhead.1 hhead
    exact ⟨fun ⟨hhead, htail⟩ => ⟨hlist isList_of_isOperator hhead, ihtail.2 htail⟩,
      fun ⟨hhead, htail⟩ => ⟨hlist isList_of_isWord hhead, ihtail.2 htail⟩⟩
  | _ => exact ⟨False.elim, False.elim⟩

theorem undotted_of_parse {text : String} {v : Value} (h : parse text = .ok v) : v.Undotted :=
  (undotted_of_isWritten v).1 (isWritten_of_parse h)

end Reader

theorem Value.render?_toLoose (v : Value) : v.toLoose.render? = .ok v.render := by
  rw [Loose.render?, toValue_toLoose]

namespace Session

/-- How a text can fail, whatever values the table holds, with any builtins of the default modules:

* It cannot be read, which is a syntax error; nothing has run, and nothing has changed.
* It was read, and a call was refused for its name or its arguments.
* There is `eval` in it, and it was given what is no code, or it nests more deeply than the session
  allows, be that because it goes on for ever.

In particular no registry or precondition error gets out, nor is a value ever found unprintable. In
what a builtin or `quote` does, no partial operation is ever out of its domain. -/
theorem request_errors {s : Session} {notifies : Bool}
    (hs : s.registry.FilledFrom notifies [.arith, .list, .env]) (text : String) :
    let a := s.request text
    (∀ f, a.result = .error f →
      (∃ e, f = .error e ∧ Reader.parse text = .error e ∧ e.kind = .syntaxError ∧
        a = ⟨.error (.error e), "", [], s⟩) ∨
      ∃ code, Reader.parse text = .ok code ∧
        ((∃ e, f = .error e ∧ e.kind ∈ [.arityError, .typeError, .nameError] ∧
            ∀ v, e ≠ .unprintable v) ∨
          Value.Occurs (.op "eval") code ∧
            (f = .exhausted ∨ ∃ e, f = .error e ∧ e.kind = .evaluationError))) ∧
      (∀ v : Value, v.toLoose.render? = .ok v.render) ∧
      (∀ reenter b args w, Guarded.run reenter b args w = .ok (b.run reenter args w)) ∧
      ∀ rest, Guarded.quote rest = .ok (Evaluator.quote rest) := by
  intro a
  refine ⟨fun f hf => ?_, Value.render?_toLoose, Guarded.run_eq_ok, Guarded.quote_eq_ok⟩
  obtain ⟨-, hr⟩ | ⟨e, -, hparse, hr⟩ | ⟨r, -, -, hparse, hr⟩ := s.request_cases text
  · simp only [a, hr] at hf
    cases hf
  · simp only [a, hr] at hf
    cases hf
    exact .inl ⟨e, rfl, hparse, Reader.kind_of_parse hparse, hr⟩
  simp only [a, hr, result_remember] at hf
  have hcall : ∀ e : Error, f = .error e → e.OfCall →
      ∃ e, f = .error e ∧ e.kind ∈ [.arityError, .typeError, .nameError] ∧
        ∀ v, e ≠ .unprintable v :=
    fun e he h => ⟨e, he, h.kind, h.ne_unprintable⟩
  refine .inr ⟨r.form, hparse, ?_⟩
  by_cases heval : Value.Occurs (.op "eval") r.form
  · rcases Evaluator.evaluate_fails hs _ _ _ f hf with hdeep | ⟨e, he, h | ⟨v, rfl⟩⟩
    · exact .inr ⟨heval, .inl hdeep⟩
    · exact .inl (hcall e he h)
    · exact .inr ⟨heval, .inr ⟨_, he, rfl⟩⟩
  · obtain ⟨e, he, h⟩ := Evaluator.evaluate_fails_of_undotted hs _ (Reader.undotted_of_parse hparse)
      heval _ f hf
    exact .inl (hcall e he h)

/-- With a list in the table that ends in an atom, which `eval` finds to be no code. -/
theorem request_errors_stored_dotted :
    let table := Table.empty.bind "x" (.pair (.op "car") (.sym "a"))
    let s := start table (Registry.ofModules true [.env, .list]) "!!"
    s.registry.FilledFrom true [.arith, .list, .env] ∧
      (s.request "(eval x)").result = .error (.error (.notCode (.sym "a"))) ∧
      (Error.notCode (.sym "a")).kind = .evaluationError ∧
      ∃ code, Reader.parse "(eval x)" = .ok code ∧ Value.Occurs (.op "eval") code := by
  intro table s
  have hs : s.registry.FilledFrom true [.arith, .list, .env] :=
    (Registry.filledFrom_ofModules true [.env, .list]).mono (by decide)
  have hresult : (s.request "(eval x)").result = .error (.error (.notCode (.sym "a"))) := by
    decide +kernel
  refine ⟨hs, hresult, rfl, ?_⟩
  obtain ⟨e, he, -, hkind, -⟩ | ⟨code, hparse, ⟨e, he, hkind, -⟩ | ⟨heval, -⟩⟩ :=
    (request_errors hs "(eval x)").1 _ hresult
  · cases he
    cases hkind
  · cases he
    simp [Error.kind] at hkind
  · exact ⟨code, hparse, heval⟩

end Session
end SmallLisp
