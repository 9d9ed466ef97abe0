import SmallLisp.Proofs.Evaluator.Walk
import SmallLisp.Proofs.Registry.Modules
import SmallLisp.Proofs.Value.Hereditary

/-!
# SmallLisp.Proofs.Evaluator.Failures

How an evaluation can fail. A call fails because of its name or its arguments (`Error.OfCall`), and
a walk fails at what is no code. Code in which every list ends in `nil` has nothing of the kind; only
what `eval` is given at run time may.

* `run_fails`: one builtin. What it does to lists and numbers is asked of lists and numbers only.
* `walk_fails`: a walk, given how the calls in it fail.
* `evaluate_fails`: a whole evaluation in a registry of the default modules, `eval` included.
* `evaluate_fails_of_undotted`: code that ends in `nil` throughout and has no `eval` in it.
-/

namespace SmallLisp

/-- What a call refuses: an unknown name, or arguments of the wrong number or kind. -/
def Error.OfCall : Error → Prop
  | .unknownFunction _ => True
  | .wrongCount _ => True
  | .notNumbers _ => True
  | .notList _ _ => True
  | .indexNotNumber _ => True
  | .indexNegative _ => True
  | .nthNotList _ => True
  | .setName _ => True
  | .notStorable _ => True
  | .getName _ => True
  | _ => False

theorem Error.OfCall.kind {e : Error} (h : e.OfCall) :
    e.kind ∈ [.arityError, .typeError, .nameError] := by
  cases e <;> simp [OfCall, Error.kind] at h ⊢

theorem Error.OfCall.ne_unprintable {e : Error} (h : e.OfCall) (v : Loose) :
    e ≠ .unprintable v := by
  rintro rfl
  exact h

/-- Every failure that a result may be satisfies `F`. -/
def FailsWithin (F : Failure → Prop) (result : Except Failure Value) : Prop :=
  ∀ f, result = .error f → F f

/-- Chains end in `nil`, in a value and in the lists that it has for elements. -/
def Value.Undotted : Value → Prop
  | .nil => True
  | .pair head tail => (head.isList = true → head.Undotted) ∧ tail.Undotted
  | .last head => head.isList = true → head.Undotted
  | _ => False

/-! ## Builtins -/

namespace Arithmetic

variable {operation : String} {counted : Counted} {f : Float → Float → Float} {neutral : Float}
  {args : List Value} {e : Error}

theorem ofCall_of_numbers (h : numbers operation args = .error e) : e.OfCall := by
  induction args with
  | nil => cases h
  | cons a args ih =>
    cases a with
    | num x =>
      simp only [numbers] at h
      split at h
      · cases h
      · rename_i e' he
        cases h
        exact ih he
    | _ => cases h; trivial

theorem ofCall_of_fold (h : fold operation f neutral args = .error e) : e.OfCall := by
  unfold fold at h
  split at h
  · rename_i e' he
    cases h
    exact ofCall_of_numbers he
  · cases h

theorem ofCall_of_foldFirst (h : foldFirst operation counted f args = .error e) : e.OfCall := by
  unfold foldFirst at h
  split at h
  · rename_i e' he
    cases h
    exact ofCall_of_numbers he
  · cases h; trivial
  · cases h

end Arithmetic

namespace Lists

variable {args : List Value} {e : Error}

theorem ofCall_of_cons (h : cons args = .error e) : e.OfCall := by
  unfold cons at h
  split at h <;> cases h
  trivial

/-- A part is asked of a list only, so it is there. -/
theorem ofCall_of_partOf {part : Part} {counted : Counted} {access : Value → Except Error Value}
    (haccess : ∀ v, v.isList = true → ∃ u, access v = .ok u)
    (h : partOf part counted access args = .error e) : e.OfCall := by
  unfold partOf at h
  split at h
  · cases h
  · cases h
  · rename_i v _
    split at h
    · rename_i hlist
      obtain ⟨u, hu⟩ := haccess v hlist
      rw [hu] at h
      cases h
    · cases h; trivial
  · cases h; trivial

theorem car_of_isList (v : Value) (h : v.isList = true) : ∃ u, v.car = .ok u := by
  cases v with
  | pair head tail => exact ⟨head, rfl⟩
  | last head => exact ⟨head, rfl⟩
  | _ => cases h

theorem cdr_of_isList (v : Value) (h : v.isList = true) : ∃ u, v.cdr = .ok u := by
  cases v with
  | pair head tail => exact ⟨tail, rfl⟩
  | last head => exact ⟨.nil, rfl⟩
  | _ => cases h

theorem ofCall_of_nth (h : nth args = .error e) : e.OfCall := by
  unfold nth at h
  split at h
  · split at h
    · cases h; trivial
    · split at h
      · cases h; trivial
      · rename_i i hi
        split at h
        · rw [Value.nthAt, if_neg hi] at h
          cases h
        · cases h; trivial
  · cases h; trivial

end Lists

namespace Evaluator

variable {F : Failure → Prop}

theorem failsWithin_ok (v : Value) : FailsWithin F (.ok v) := nofun

theorem failsWithin_error {f : Failure} (h : F f) : FailsWithin F (.error f) := by
  rintro _ ⟨⟩
  exact h

theorem headOutcome_fails {call : Caller} {head : Value}
    (h : head.isList = true → ∀ depth collected w,
      FailsWithin F (walk call head depth collected w).result) (depth : Nat) (w : World) :
    FailsWithin F (headOutcome call head depth w).result := by
  cases hl : head.isList with
  | true =>
    rw [headOutcome_of_isList hl]
    exact h hl (depth + 1) [] w
  | false =>
    rw [headOutcome_of_not_isList hl]
    exact failsWithin_ok _

theorem finish_fails {call : Caller} {head value : Value} {depth : Nat} {collected : List Value}
    {w : World} (hcall : ∀ name, Value.Occurs (.op name) head →
      FailsWithin F (call name depth collected w).result) :
    FailsWithin F (finish call head value depth collected w).result := by
  cases head with
  | op name => exact hcall name rfl
  | _ => exact failsWithin_ok _

section Calls

variable (hF : ∀ e : Error, e.OfCall → F (.error e))

include hF

theorem ofExcept_fails {r : Except Error Value} (h : ∀ {e}, r = .error e → e.OfCall) (w : World) :
    FailsWithin F (Outcome.ofExcept r w).result := by
  cases r with
  | ok v => exact failsWithin_ok v
  | error e => exact failsWithin_error (hF e (h rfl))

theorem set_fails (args : List Value) (w : World) : FailsWithin F (Bindings.set args w).result := by
  unfold Bindings.set
  split
  · split
    · exact failsWithin_error (hF _ trivial)
    · exact failsWithin_ok _
  · exact failsWithin_error (hF _ trivial)
  · exact failsWithin_error (hF _ trivial)

theorem get_fails (args : List Value) (w : World) : FailsWithin F (Bindings.get args w).result := by
  unfold Bindings.get
  split
  · exact failsWithin_ok _
  · exact failsWithin_error (hF _ trivial)
  · exact failsWithin_error (hF _ trivial)

theorem run_fails {reenter : Builtin.Reentry} {b : Builtin}
    (heval : ∀ scope, b = .eval scope → ∀ code w, FailsWithin F (reenter scope code w).result)
    (args : List Value) (w : World) : FailsWithin F (b.run reenter args w).result := by
  cases b with
  | add => exact ofExcept_fails hF Arithmetic.ofCall_of_fold w
  | sub => exact ofExcept_fails hF Arithmetic.ofCall_of_foldFirst w
  | mul => exact ofExcept_fails hF Arithmetic.ofCall_of_fold w
  | div => exact ofExcept_fails hF Arithmetic.ofCall_of_foldFirst w
  | cons => exact ofExcept_fails hF Lists.ofCall_of_cons w
  | car => exact ofExcept_fails hF (Lists.ofCall_of_partOf Lists.car_of_isList) w
  | cdr => exact ofExcept_fails hF (Lists.ofCall_of_partOf Lists.cdr_of_isList) w
  | nth => exact ofExcept_fails hF Lists.ofCall_of_nth w
  | list => exact failsWithin_ok _
  | set => exact set_fails hF args w
  | get => exact get_fails hF args w
  | dump => exact failsWithin_ok _
  | print => cases args <;> exact failsWithin_ok _
  | eval scope =>
    rcases args with _ | ⟨code, _ | ⟨_, _⟩⟩
    · exact failsWithin_ok _
    · exact heval scope rfl code w
    · exact failsWithin_error (hF _ trivial)
  | exit notifies => exact failsWithin_ok _

theorem apply_fails {reenter : Builtin.Reentry} {r : Registry} {name : String}
    (heval : ∀ scope, r.lookup name = .ok (.eval scope) →
      ∀ code w, FailsWithin F (reenter scope code w).result)
    (depth : Nat) (collected : List Value) (w : World) :
    FailsWithin F (apply reenter r name depth collected w).result := by
  unfold apply
  dsimp only
  split
  · rename_i e he
    rw [Registry.eq_unknownFunction_of_lookup he]
    exact failsWithin_error (hF _ trivial)
  · rename_i b hb
    exact run_fails hF (fun scope heq => heval scope (heq ▸ hb)) _ _

theorem quote_fails (rest : Value) : FailsWithin F (quote rest) := by
  unfold quote
  split
  · exact failsWithin_ok _
  · exact failsWithin_error (hF _ trivial)

/-- A walk fails as the calls in it do, and at what is no code if it meets any. -/
theorem walk_fails {call : Caller} {code : Value}
    (hcode : code.Undotted ∨ ∀ v, F (.error (.notCode v)))
    (hcall : ∀ name, Value.Occurs (.op name) code →
      ∀ depth collected w, FailsWithin F (call name depth collected w).result) :
    ∀ depth collected w, FailsWithin F (walk call code depth collected w).result := by
  induction code with
  | nil => intro depth collected w; exact failsWithin_ok _
  | pair head tail ihh iht =>
    intro depth collected w
    by_cases hq : head = .op "quote"
    · subst hq
      rw [walk_pair_quote]
      exact quote_fails hF tail
    have hfirst := headOutcome_fails
      (fun hl => ihh (hcode.imp_left fun h => h.1 hl) fun name h => hcall name (.inl h))
      depth (w.record (.visit depth (.pair head tail)))
    rw [walk_pair hq]
    dsimp only
    split
    · rename_i f hf
      exact failsWithin_error (hfirst f hf)
    · have hrest := iht (hcode.imp_left And.right) fun name h => hcall name (.inr h)
      split
      · rename_i f hf
        exact failsWithin_error (hrest _ _ _ f hf)
      · exact finish_fails fun name h => hcall name (.inl h) _ _ _
  | last head ihh =>
    intro depth collected w
    by_cases hq : head = .op "quote"
    · subst hq
      rw [walk_last_quote]
      exact quote_fails hF .nil
    have hfirst := headOutcome_fails (fun hl => ihh (hcode.imp_left fun h => h hl) hcall)
      depth (w.record (.visit depth (.last head)))
    rw [walk_last hq]
    dsimp only
    split
    · rename_i f hf
      exact failsWithin_error (hfirst f hf)
    · exact finish_fails fun name h => hcall name h _ _ _
  | _ =>
    intro depth collected w
    exact failsWithin_error (hcode.resolve_left id _)

end Calls

/-! ## Evaluations -/

variable {notifies : Bool} {r : Registry} (hr : r.FilledFrom notifies [.arith, .list, .env])

include hr

/-- How an evaluation can fail, whatever the code: `eval` may meet what is no code, or nest too
deeply. -/
theorem nested_fails (hcall : ∀ e : Error, e.OfCall → F (.error e))
    (hcode : ∀ v, F (.error (.notCode v))) (hdeep : F .exhausted) (n : Nat) :
    ∀ code w, FailsWithin F (nested n r code w).result := by
  induction n with
  | zero => intro code w; exact failsWithin_error hdeep
  | succ n ih =>
    intro code w
    refine walk_fails hcall (.inr hcode) (fun name _ => ?_) 0 [] w
    refine apply_fails hcall fun scope hscope => ?_
    obtain rfl : scope = .own := (hr.native hscope).2
    exact ih

theorem evaluate_fails (nesting : Nat) (code : Value) (w : World) :
    FailsWithin (fun f => f = .exhausted ∨ ∃ e : Error, f = .error e ∧
      (e.OfCall ∨ ∃ v, e = .notCode v)) (evaluate nesting r code w).result :=
  nested_fails hr (fun e h => .inr ⟨e, rfl, .inl h⟩) (fun v => .inr ⟨_, rfl, .inr ⟨v, rfl⟩⟩)
    (.inl rfl) (nesting + 1) code w

theorem evaluate_fails_of_undotted (nesting : Nat) {code : Value} (hcode : code.Undotted)
    (heval : ¬Value.Occurs (.op "eval") code) (w : World) :
    FailsWithin (fun f => ∃ e : Error, f = .error e ∧ e.OfCall)
      (evaluate nesting r code w).result := by
  refine walk_fails (fun e h => ⟨e, rfl, h⟩) (.inl hcode) (fun name hname => ?_) 0 [] w
  refine apply_fails (fun e h => ⟨e, rfl, h⟩) fun scope hscope => ?_
  obtain rfl : "eval" = name := (hr.native hscope).1
  exact absurd hname heval

end Evaluator
end SmallLisp
