import SmallLisp.Proofs.Builtin.Guards
import SmallLisp.Proofs.Evaluator.Calls
import SmallLisp.Proofs.Evaluator.Failures
import SmallLisp.Proofs.Number.Truncation

/-!
# SmallLisp.Proofs.Builtin.Refusals

When a builtin refuses its arguments: if they are too few or too many, and otherwise if they are not
of the kinds it asks for. Nothing else makes it fail, and what it refuses leaves no mark.

* `Builtin.Takes`, `Builtin.Suits`: the numbers and the kinds of arguments, builtin by builtin.
* `Outcome.Judged`: what becomes of a call by these two.
* `run_judged`: every builtin that does not evaluate is judged so.
* `callNamed_refusals`: the standard registry, where `eval` hands on what evaluation makes of its
  argument.
-/

namespace SmallLisp

/-- An error of a kind. -/
def Outcome.FailsAs (kind : ErrorKind) (o : Outcome) : Prop :=
  ∃ e : Error, o.result = .error (.error e) ∧ e.kind = kind

namespace Builtin

/-- A builtin takes so many arguments. -/
def Takes : Builtin → Nat → Prop
  | .sub, n => 1 ≤ n
  | .div, n => 1 ≤ n
  | .cons, n => n = 1 ∨ n = 2
  | .car, n => n ≤ 1
  | .cdr, n => n ≤ 1
  | .nth, n => n = 2
  | .set, n => n = 2
  | .get, n => n = 1
  | .eval _, n => n ≤ 1
  | _, _ => True

def AreNumbers (args : List Value) : Prop :=
  ∀ a ∈ args, ∃ x, a = .num x

def AreLists (args : List Value) : Prop :=
  ∀ a ∈ args, a = .nil ∨ a.isList = true

/-- The arguments, which are as many as a builtin takes, are of the kinds it asks for. A position is
a finite number that is not negative when its fraction is left out. -/
def Suits : Builtin → List Value → Prop
  | .add, args => AreNumbers args
  | .sub, args => AreNumbers args
  | .mul, args => AreNumbers args
  | .div, args => AreNumbers args
  | .car, args => AreLists args
  | .cdr, args => AreLists args
  | .nth, args => ∃ x r v, args = [.num x, v] ∧ Number.rational? x = some r ∧
      0 ≤ Number.towardZero r ∧ v.isList = true
  | .set, args => ∃ id v, args = [.sym id, v] ∧ (∀ id, v ≠ .var id) ∧ ∀ id, v ≠ .op id
  | .get, args => ∃ id, args = [.sym id]
  | _, _ => True

end Builtin

/-- What becomes of a call in a world: the count of its arguments is judged first, then their kinds.
A refusal leaves the world as it was. -/
inductive Outcome.Judged (counted suited : Prop) (w : World) : Outcome → Prop
  | count {e : Error} : ¬counted → e.kind = .arityError → Judged counted suited w (.fail e w)
  | kind {e : Error} : counted → ¬suited → e.kind = .typeError →
      Judged counted suited w (.fail e w)
  | done (v : Value) (w' : World) : counted → suited → Judged counted suited w (.ok v w')

namespace Outcome.Judged

variable {counted suited : Prop} {w : World} {o : Outcome}

theorem failsAs_arity_iff (h : o.Judged counted suited w) :
    o.FailsAs .arityError ↔ ¬counted := by
  cases h with
  | count hcount he => exact ⟨fun _ => hcount, fun _ => ⟨_, rfl, he⟩⟩
  | kind hcount _ he =>
    refine ⟨?_, fun hno => absurd hcount hno⟩
    rintro ⟨e', h, he'⟩
    cases h
    rw [he] at he'
    cases he'
  | done v w' hcount _ => exact ⟨nofun, fun hno => absurd hcount hno⟩

theorem failsAs_type_iff (h : o.Judged counted suited w) :
    o.FailsAs .typeError ↔ counted ∧ ¬suited := by
  cases h with
  | count hcount he =>
    refine ⟨?_, fun hno => absurd hno.1 hcount⟩
    rintro ⟨e', h, he'⟩
    cases h
    rw [he] at he'
    cases he'
  | kind hcount hkind he => exact ⟨fun _ => ⟨hcount, hkind⟩, fun _ => ⟨_, rfl, he⟩⟩
  | done v w' _ hkind => exact ⟨nofun, fun hno => absurd hkind hno.2⟩

theorem succeeds_iff (h : o.Judged counted suited w) :
    (∃ v, o.result = .ok v) ↔ counted ∧ suited := by
  cases h with
  | count hcount _ => exact ⟨nofun, fun hyes => absurd hyes.1 hcount⟩
  | kind _ hkind _ => exact ⟨nofun, fun hyes => absurd hyes.2 hkind⟩
  | done v w' hcount hkind => exact ⟨fun _ => ⟨hcount, hkind⟩, fun _ => ⟨v, rfl⟩⟩

theorem world_eq (h : o.Judged counted suited w) {f : Failure} (hf : o.result = .error f) :
    o.world = w := by
  cases h with
  | count _ _ => rfl
  | kind _ _ _ => rfl
  | done v w' _ _ => cases hf

end Outcome.Judged

/-! ## Builtins -/

namespace Builtin

open Outcome (Judged)

theorem numbers_cases (operation : String) (args : List Value) :
    (AreNumbers args ∧ ∃ xs, Arithmetic.numbers operation args = .ok xs) ∨
      (¬AreNumbers args ∧ Arithmetic.numbers operation args = .error (.notNumbers operation)) := by
  induction args with
  | nil => exact .inl ⟨nofun, [], rfl⟩
  | cons a args ih =>
    cases a with
    | num x =>
      rcases ih with ⟨hall, xs, hxs⟩ | ⟨hnot, herr⟩
      · refine .inl ⟨?_, x :: xs, by simp only [Arithmetic.numbers, hxs]⟩
        intro a ha
        rcases List.mem_cons.mp ha with rfl | ha
        · exact ⟨x, rfl⟩
        · exact hall a ha
      · refine .inr ⟨fun hall => hnot fun a ha => hall a (by simp [ha]), ?_⟩
        simp only [Arithmetic.numbers, herr]
    | _ => exact .inr ⟨fun hall => by simpa using hall _ (List.mem_cons_self), rfl⟩

theorem fold_judged (operation : String) (f : Float → Float → Float) (neutral : Float)
    (args : List Value) (w : World) :
    Judged True (AreNumbers args) w (.ofExcept (Arithmetic.fold operation f neutral args) w) := by
  unfold Arithmetic.fold
  rcases numbers_cases operation args with ⟨hall, xs, hxs⟩ | ⟨hnot, herr⟩
  · rw [hxs]
    exact .done _ w trivial hall
  · rw [herr]
    exact .kind trivial hnot rfl

theorem foldFirst_judged (operation : String) (counted : Counted) (f : Float → Float → Float)
    (args : List Value) (w : World) : Judged (1 ≤ args.length) (AreNumbers args) w
      (.ofExcept (Arithmetic.foldFirst operation counted f args) w) := by
  unfold Arithmetic.foldFirst
  rcases numbers_cases operation args with ⟨hall, xs, hxs⟩ | ⟨hnot, herr⟩
  · have hlength := Guarded.length_numbers hxs
    rw [hxs]
    cases xs with
    | nil => exact .count (by rw [← hlength]; decide) rfl
    | cons x xs => exact .done _ w (by rw [← hlength]; exact Nat.succ_pos _) hall
  · rw [herr]
    refine .kind ?_ hnot rfl
    -- without arguments all of them are numbers
    cases args with
    | nil => exact absurd nofun hnot
    | cons a args => exact Nat.succ_pos _

theorem cons_judged (args : List Value) (w : World) :
    Judged (args.length = 1 ∨ args.length = 2) True w (.ofExcept (Lists.cons args) w) := by
  rcases args with _ | ⟨a, _ | ⟨b, _ | ⟨c, args⟩⟩⟩
  · exact .count (by simp) rfl
  · exact .done _ w (.inl rfl) trivial
  · exact .done _ w (.inr rfl) trivial
  · exact .count (by simp) rfl

theorem partOf_judged {part : Part} {counted : Counted} {access : Value → Except Error Value}
    (haccess : ∀ v, v.isList = true → ∃ u, access v = .ok u) (args : List Value) (w : World) :
    Judged (args.length ≤ 1) (AreLists args) w
      (.ofExcept (Lists.partOf part counted access args) w) := by
  rcases args with _ | ⟨v, _ | ⟨u, args⟩⟩
  · exact .done .nil w (Nat.zero_le 1) nofun
  · have hsingle : AreLists [v] ↔ v = .nil ∨ v.isList = true := by simp [AreLists]
    cases v with
    | nil => exact .done .nil w (Nat.le_refl 1) (hsingle.mpr (.inl rfl))
    | pair head tail =>
      obtain ⟨u, hu⟩ := haccess (.pair head tail) rfl
      have hpart : Lists.partOf part counted access [.pair head tail] = .ok u := hu
      rw [hpart]
      exact .done u w (Nat.le_refl 1) (hsingle.mpr (.inr rfl))
    | last head =>
      obtain ⟨u, hu⟩ := haccess (.last head) rfl
      have hpart : Lists.partOf part counted access [.last head] = .ok u := hu
      rw [hpart]
      exact .done u w (Nat.le_refl 1) (hsingle.mpr (.inr rfl))
    | _ => exact .kind (Nat.le_refl 1) (by simp [hsingle, Value.isList]) rfl
  · cases v <;> exact .count (by simp) rfl

/-- A position as `nth` reads it. -/
theorem suits_nth_iff (position v : Value) : Suits .nth [position, v] ↔
    ∃ i, Lists.index? position = some i ∧ 0 ≤ i ∧ v.isList = true := by
  constructor
  · rintro ⟨x, r, u, h, hr, hi, hlist⟩
    cases h
    refine ⟨Number.towardZero r, ?_, hi, hlist⟩
    rw [Lists.index?, Number.truncate?_eq_map, hr, Option.map_some]
  · rintro ⟨i, hindex, hi, hlist⟩
    cases position with
    | num x =>
      rw [Lists.index?, Number.truncate?_eq_map] at hindex
      obtain ⟨r, hr, rfl⟩ := Option.map_eq_some_iff.mp hindex
      exact ⟨x, r, v, rfl, hr, hi, hlist⟩
    | _ => cases hindex

theorem nth_judged (args : List Value) (w : World) :
    Judged (args.length = 2) (Suits .nth args) w (.ofExcept (Lists.nth args) w) := by
  rcases args with _ | ⟨position, _ | ⟨v, _ | ⟨c, args⟩⟩⟩
  · exact .count (by simp) rfl
  · exact .count (by simp) rfl
  · rw [suits_nth_iff, Lists.nth]
    cases hindex : Lists.index? position with
    | none => exact .kind rfl (by simp) rfl
    | some i =>
      dsimp only
      by_cases hi : i < 0
      · rw [if_pos hi]
        exact .kind rfl (by simp [hi]) rfl
      rw [if_neg hi]
      cases hlist : v.isList with
      | false => exact .kind rfl (by simp) rfl
      | true =>
        have hnth : v.nthAt i = .ok (v.nth i.toNat) := if_neg hi
        rw [if_pos rfl, hnth]
        exact .done _ w rfl ⟨i, rfl, not_lt.mp hi, rfl⟩
  · exact .count (by simp) rfl

theorem set_judged (args : List Value) (w : World) :
    Judged (args.length = 2) (Suits .set args) w (Bindings.set args w) := by
  rcases args with _ | ⟨name, _ | ⟨v, _ | ⟨c, args⟩⟩⟩
  · exact .count (by simp) rfl
  · cases name <;> exact .count (by simp) rfl
  · cases name with
    | sym id =>
      cases v with
      | var n => exact .kind rfl (by simp [Suits]) rfl
      | op n => exact .kind rfl (by simp [Suits]) rfl
      | _ => exact .done _ _ rfl ⟨id, _, rfl, nofun, nofun⟩
    | _ => exact .kind rfl (by simp [Suits]) rfl
  · cases name <;> exact .count (by simp) rfl

theorem get_judged (args : List Value) (w : World) :
    Judged (args.length = 1) (Suits .get args) w (Bindings.get args w) := by
  rcases args with _ | ⟨name, _ | ⟨c, args⟩⟩
  · exact .count (by simp) rfl
  · cases name with
    | sym id => exact .done _ w rfl ⟨id, rfl⟩
    | _ => exact .kind rfl (by simp [Suits]) rfl
  · cases name <;> exact .count (by simp) rfl

/-- A builtin that does not evaluate fails by its arguments alone, and does nothing then. -/
theorem run_judged (reenter : Reentry) {b : Builtin} (heval : ∀ scope, b ≠ .eval scope)
    (args : List Value) (w : World) :
    Judged (b.Takes args.length) (b.Suits args) w (b.run reenter args w) := by
  cases b with
  | add => exact fold_judged "+" _ _ args w
  | sub => exact foldFirst_judged "-" .sub _ args w
  | mul => exact fold_judged "*" _ _ args w
  | div => exact foldFirst_judged "/" .div _ args w
  | cons => exact cons_judged args w
  | car => exact partOf_judged Lists.car_of_isList args w
  | cdr => exact partOf_judged Lists.cdr_of_isList args w
  | nth => exact nth_judged args w
  | list => exact .done _ _ trivial trivial
  | set => exact set_judged args w
  | get => exact get_judged args w
  | dump => exact .done _ _ trivial trivial
  | print => cases args <;> exact .done _ _ trivial trivial
  | eval scope => exact absurd rfl (heval scope)
  | exit notifies => exact .done _ _ trivial trivial

end Builtin

/-- What makes a builtin of the standard registry fail when it is called on given arguments, and
that such a failure leaves the world as it was. Only what `eval` is given one of is beyond this: it
does what the evaluation of that one does. -/
theorem callNamed_refusals {notifies : Bool} {name : String} {b : Builtin}
    (h : (Registry.standard notifies).lookup name = .ok b) (nesting : Nat) (args : List Value)
    (w : World) :
    let o := callNamed (nesting + 1) (Registry.standard notifies) name args w
    b.name = name ∧
      (b ≠ .eval .own →
        (o.FailsAs .arityError ↔ ¬b.Takes args.length) ∧
        (o.FailsAs .typeError ↔ b.Takes args.length ∧ ¬b.Suits args) ∧
        ((∃ v, o.result = .ok v) ↔ b.Takes args.length ∧ b.Suits args) ∧
        ∀ f, o.result = .error f → o.world = w) ∧
      (b = .eval .own →
        (¬b.Takes args.length → o.FailsAs .arityError ∧ o.world = w) ∧
        (args = [] → o = .ok .nil w) ∧
        ∀ code, args = [code] → o = evaluate nesting (Registry.standard notifies) code w) := by
  obtain ⟨hname, hnative⟩ := Registry.lookup_standard_iff.mp h
  refine ⟨hname, fun heval => ?_, ?_⟩
  · have hb : ∀ scope, b ≠ .eval scope := by
      rintro scope rfl
      rw [show scope = .own from hnative] at heval
      exact heval rfl
    have hjudged := Builtin.run_judged
      (Evaluator.reentry (Evaluator.nested (nesting + 1)) (Registry.standard notifies))
      hb args w
    simp only [callNamed, h]
    exact ⟨hjudged.failsAs_arity_iff, hjudged.failsAs_type_iff, hjudged.succeeds_iff,
      fun f hf => hjudged.world_eq hf⟩
  · rintro rfl
    refine ⟨fun hcount => ?_, ?_, ?_⟩
    · simp only [callNamed, h]
      rcases args with _ | ⟨a, _ | ⟨c, args⟩⟩
      · exact absurd (Nat.zero_le 1) hcount
      · exact absurd (Nat.le_refl 1) hcount
      · exact ⟨⟨_, rfl, rfl⟩, rfl⟩
    · rintro rfl
      simp only [callNamed, h]
      rfl
    · rintro code rfl
      exact Evaluator.callNamed_eval h nesting code w

/-- The position -0.9 is taken for the first one, and -1 is refused. -/
theorem callNamed_refusals_negative_fraction :
    let nth := fun (position : Number.Decimal) =>
      callNamed 1 (Registry.standard false) "nth" [.num position.toFloat, .last (.sym "a")]
        (World.start .empty)
    (∃ v, (nth ⟨true, 9, -1⟩).result = .ok v) ∧ (nth ⟨true, 1, 0⟩).FailsAs .typeError := by
  have hlookup : (Registry.standard false).lookup "nth" = .ok .nth := rfl
  constructor
  · obtain ⟨-, hrefusals, -⟩ := callNamed_refusals hlookup 0
      [.num (Number.Decimal.toFloat ⟨true, 9, -1⟩), .last (.sym "a")] (World.start .empty)
    obtain ⟨-, -, hok, -⟩ := hrefusals nofun
    exact hok.mpr ⟨rfl, (Builtin.suits_nth_iff _ _).mpr ⟨0, by decide +kernel, Int.le_refl 0, rfl⟩⟩
  · obtain ⟨-, hrefusals, -⟩ := callNamed_refusals hlookup 0
      [.num (Number.Decimal.toFloat ⟨true, 1, 0⟩), .last (.sym "a")] (World.start .empty)
    obtain ⟨-, htype, -, -⟩ := hrefusals nofun
    have hindex : Lists.index? (.num (Number.Decimal.toFloat ⟨true, 1, 0⟩)) = some (-1) := by
      decide +kernel
    refine htype.mpr ⟨rfl, fun hsuits => ?_⟩
    obtain ⟨i, hi, hnonneg, -⟩ := (Builtin.suits_nth_iff _ _).mp hsuits
    rw [hindex] at hi
    cases hi
    exact absurd hnonneg (by decide)

end SmallLisp
