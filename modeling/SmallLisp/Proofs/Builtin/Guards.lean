import SmallLisp.Evaluator
import SmallLisp.Proofs.Number.Division

/-!
# SmallLisp.Proofs.Builtin.Guards

What the builtins do rests on operations that are partial: a quotient needs a divisor other than
zero, a truncation a finite number, and arguments can only be picked or taken apart if there are
enough of them. Here the builtins are spelled out with these operations, each behind the test that
guards it. No test lets a fault through, whatever the arguments are.

* `Fault`: what a partial operation refuses, with the operations in question.
* `divide_eq`: a zero divisor is caught, and the quotient is that of doubles.
* `Guarded.run`, `Guarded.quote`: the builtins and the special form, test by test.
* `Guarded.run_eq_ok`, `Guarded.quote_eq_ok`: they never fault, and do what they do without tests.
-/

namespace SmallLisp

/-- What a partial operation refuses to do. -/
inductive Fault where
  | zeroDivisor
  | notFinite
  /-- A position behind the last argument. -/
  | outOfRange
  /-- Not as many values as there are names for them. -/
  | wrongLength
deriving DecidableEq, Repr

namespace Guarded

/-! ## Partial operations -/

def quotient (x y : Float) : Except Fault Float :=
  if y == 0.0 then .error .zeroDivisor else .ok (x / y)

def whole (x : Float) : Except Fault Int :=
  match Number.truncate? x with
  | some i => .ok i
  | none => .error .notFinite

def element (args : List Value) (position : Nat) : Except Fault Value :=
  match args[position]? with
  | some v => .ok v
  | none => .error .outOfRange

def both : List Value → Except Fault (Value × Value)
  | [a, b] => .ok (a, b)
  | _ => .error .wrongLength

def firstAndRest : List Float → Except Fault (Float × List Float)
  | x :: xs => .ok (x, xs)
  | [] => .error .wrongLength

/-- A quotient whose fault is caught. -/
def divide (x y : Float) : Float :=
  match quotient x y with
  | .ok q => q
  | .error _ => Number.quotientByZero x y

theorem divide_eq (x y : Float) : divide x y = x / y := by
  unfold divide quotient
  cases hy : y == 0.0 with
  | true => exact (Number.div_of_beq_zero x hy).symm
  | false => rfl

theorem whole_of_isFinite {x : Float} (h : Number.IsFinite x) :
    ∃ i, whole x = .ok i ∧ Number.truncate? x = some i := by
  obtain ⟨negative, m, q, hparts⟩ := h
  simp only [whole, Number.truncate?, hparts]
  exact ⟨_, rfl, rfl⟩

theorem truncate?_of_not_isFinite {x : Float} (h : ¬Number.IsFinite x) :
    Number.truncate? x = none := by
  unfold Number.truncate?
  split
  · rename_i negative m q hparts
    exact absurd ⟨negative, m, q, hparts⟩ h
  · rfl
  · rfl

/-! ## Builtins -/

def foldFirst (operation : String) (counted : Counted) (f : Float → Float → Float)
    (args : List Value) : Except Fault (Except Error Value) :=
  if args.isEmpty then .ok (.error (.wrongCount counted))
  else
    match Arithmetic.numbers operation args with
    | .error e => .ok (.error e)
    | .ok xs => do
      let (x, rest) ← firstAndRest xs
      return .ok (.num (rest.foldl f x))

def cons (args : List Value) : Except Fault (Except Error Value) :=
  if args.isEmpty || 2 < args.length then .ok (.error (.wrongCount .cons))
  else do
    let head ← element args 0
    let tail ← if args.length = 2 then element args 1 else .ok .nil
    return .ok (.pair head tail)

def partOf (part : Part) (counted : Counted) (access : Value → Except Error Value)
    (args : List Value) : Except Fault (Except Error Value) :=
  if 1 < args.length then .ok (.error (.wrongCount counted))
  else do
    let v ← if args.isEmpty then .ok .nil else element args 0
    if v = .nil then return .ok .nil
    else if v.isList then return access v
    else return .error (.notList part v)

def nth (args : List Value) : Except Fault (Except Error Value) :=
  if args.length ≠ 2 then .ok (.error (.wrongCount .nth))
  else do
    let (position, v) ← both args
    match position with
    | .num x =>
      if Number.IsFinite x then
        let i ← whole x
        if i < 0 then return .error (.indexNegative i)
        else if v.isList then return v.nthAt i
        else return .error (.nthNotList v)
      else return .error (.indexNotNumber position)
    | _ => return .error (.indexNotNumber position)

def set (args : List Value) (w : World) : Except Fault Outcome :=
  if args.length ≠ 2 then .ok (.fail (.wrongCount .set) w)
  else do
    let (name, v) ← both args
    match name with
    | .sym id =>
      match Bindings.unstorable? v with
      | some kind => return .fail (.notStorable kind) w
      | none => return .ok v (w.bind id v)
    | _ => return .fail (.setName name) w

def get (args : List Value) (w : World) : Except Fault Outcome :=
  if args.length ≠ 1 then .ok (.fail (.wrongCount .get) w)
  else do
    let name ← element args 0
    match name with
    | .sym id => return .ok (w.table.get id) w
    | _ => return .fail (.getName name) w

def reevaluate (reenter : Builtin.Reentry) (scope : Scope) (args : List Value) (w : World) :
    Except Fault Outcome :=
  if 1 < args.length then .ok (.fail (.wrongCount .eval) w)
  else if args.isEmpty then .ok (.ok .nil w)
  else do
    let code ← element args 0
    return reenter scope code w

/-- A builtin with its tests; those not listed use no partial operation. -/
def run (reenter : Builtin.Reentry) (b : Builtin) (args : List Value) (w : World) :
    Except Fault Outcome :=
  match b with
  | .sub => (foldFirst "-" .sub (· - ·) args).map (.ofExcept · w)
  | .div => (foldFirst "/" .div divide args).map (.ofExcept · w)
  | .cons => (cons args).map (.ofExcept · w)
  | .car => (partOf .car .car Value.car args).map (.ofExcept · w)
  | .cdr => (partOf .cdr .cdr Value.cdr args).map (.ofExcept · w)
  | .nth => (nth args).map (.ofExcept · w)
  | .set => set args w
  | .get => get args w
  | .eval scope => reevaluate reenter scope args w
  | b => .ok (b.run reenter args w)

/-- The special form with its test. -/
def quote (rest : Value) : Except Fault (Except Failure Value) :=
  if rest.elements.length ≠ 1 then .ok (.error (.error (.wrongCount .quote)))
  else do
    let v ← element rest.elements 0
    return .ok v

/-! ## No faults -/

/-- The numbers of arguments are as many as the arguments. -/
theorem length_numbers {operation : String} {args : List Value} {xs : List Float}
    (h : Arithmetic.numbers operation args = .ok xs) : xs.length = args.length := by
  induction args generalizing xs with
  | nil => cases h; rfl
  | cons a args ih =>
    cases a with
    | num x =>
      simp only [Arithmetic.numbers] at h
      split at h
      · rename_i ys hys
        cases h
        rw [List.length_cons, List.length_cons, ih hys]
      · cases h
    | _ => cases h

theorem foldFirst_eq_ok (operation : String) (counted : Counted) (f : Float → Float → Float)
    (args : List Value) :
    foldFirst operation counted f args = .ok (Arithmetic.foldFirst operation counted f args) := by
  cases args with
  | nil => rfl
  | cons a args =>
    simp only [foldFirst, Arithmetic.foldFirst, List.isEmpty_cons, Bool.false_eq_true, if_false]
    cases hnumbers : Arithmetic.numbers operation (a :: args) with
    | error e => rfl
    | ok xs =>
      cases xs with
      | nil => cases length_numbers hnumbers
      | cons x xs => rfl

theorem cons_eq_ok (args : List Value) : cons args = .ok (Lists.cons args) := by
  rcases args with _ | ⟨a, _ | ⟨b, _ | ⟨c, args⟩⟩⟩ <;> rfl

theorem partOf_eq_ok (part : Part) (counted : Counted) (access : Value → Except Error Value)
    (args : List Value) :
    partOf part counted access args = .ok (Lists.partOf part counted access args) := by
  rcases args with _ | ⟨a, _ | ⟨b, args⟩⟩
  · rfl
  · cases a <;> rfl
  · cases a <;> rfl

theorem nth_eq_ok (args : List Value) : nth args = .ok (Lists.nth args) := by
  rcases args with _ | ⟨position, _ | ⟨v, _ | ⟨c, args⟩⟩⟩
  · rfl
  · rfl
  · cases position with
    | num x =>
      by_cases hx : Number.IsFinite x
      · obtain ⟨i, hwhole, htruncate⟩ := whole_of_isFinite hx
        have hguarded : nth [.num x, v] = if i < 0 then .ok (.error (.indexNegative i))
            else if v.isList then .ok (v.nthAt i) else .ok (.error (.nthNotList v)) := by
          show (if Number.IsFinite x then whole x >>= _ else _) = _
          rw [if_pos hx, hwhole]
          rfl
        rw [hguarded]
        simp only [Lists.nth, Lists.index?, htruncate]
        split
        · rfl
        · split <;> rfl
      · have hguarded : nth [.num x, v] = .ok (.error (.indexNotNumber (.num x))) := if_neg hx
        rw [hguarded]
        simp only [Lists.nth, Lists.index?, truncate?_of_not_isFinite hx]
    | _ => rfl
  · rfl

theorem set_eq_ok (args : List Value) (w : World) : set args w = .ok (Bindings.set args w) := by
  rcases args with _ | ⟨name, _ | ⟨v, _ | ⟨c, args⟩⟩⟩
  · rfl
  · cases name <;> rfl
  · cases name with
    | sym id => cases v <;> rfl
    | _ => rfl
  · cases name <;> rfl

theorem get_eq_ok (args : List Value) (w : World) : get args w = .ok (Bindings.get args w) := by
  rcases args with _ | ⟨name, _ | ⟨c, args⟩⟩
  · rfl
  · cases name <;> rfl
  · cases name <;> rfl

theorem reevaluate_eq_ok (reenter : Builtin.Reentry) (scope : Scope) (args : List Value)
    (w : World) :
    reevaluate reenter scope args w = .ok (Builtin.reevaluate reenter scope args w) := by
  rcases args with _ | ⟨code, _ | ⟨c, args⟩⟩ <;> rfl

/-- No builtin faults, whatever it is called with. -/
theorem run_eq_ok (reenter : Builtin.Reentry) (b : Builtin) (args : List Value) (w : World) :
    run reenter b args w = .ok (b.run reenter args w) := by
  cases b with
  | sub => rw [run, foldFirst_eq_ok]; rfl
  | div =>
    have hdivide : divide = (· / ·) := funext₂ divide_eq
    rw [run, foldFirst_eq_ok, hdivide]
    rfl
  | cons => rw [run, cons_eq_ok]; rfl
  | car => rw [run, partOf_eq_ok]; rfl
  | cdr => rw [run, partOf_eq_ok]; rfl
  | nth => rw [run, nth_eq_ok]; rfl
  | set => exact set_eq_ok args w
  | get => exact get_eq_ok args w
  | eval scope => exact reevaluate_eq_ok reenter scope args w
  | _ => rfl

theorem quote_eq_ok (rest : Value) : quote rest = .ok (Evaluator.quote rest) := by
  unfold quote Evaluator.quote
  rcases rest.elements with _ | ⟨v, _ | ⟨u, vs⟩⟩ <;> rfl

end Guarded
end SmallLisp
