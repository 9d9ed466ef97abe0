import SmallLisp.Proofs.Evaluator.Direct
import SmallLisp.Proofs.Number.Truncation
import SmallLisp.Proofs.Reader.Grammar
import SmallLisp.Proofs.Registry.Modules
import SmallLisp.Proofs.Value.Sequence

/-!
# SmallLisp.Proofs.Evaluator.Indexing

What `nth` finds in a list that is built on the spot. Whatever the arguments of `list` are and do,
`nth` does nothing besides, and finds what `list` was given, or `nil` behind the last of it. The one
exception is a list of nothing: it is `nil`, which never becomes an argument, so that `nth` is one
argument short.

* `evaluate_list`: `list` is called last, and what it yields are the arguments it is called with.
* `untraced_evaluate_nth`: evaluating the form around it is evaluating the list and calling `nth`.
* `evaluate_nth_list`: the element that is found.
-/

namespace SmallLisp

/-- The code `(list e …)`. -/
def Value.listCode (es : List Value) : Value :=
  .ofList (.op "list" :: es)

/-- The code `(nth x code)`. -/
def Value.nthCode (x : Float) (code : Value) : Value :=
  .ofList [.op "nth", .num x, code]

theorem Value.nth_ofList (n : Nat) (vs : List Value) : (ofList vs).nth n = vs.getD n .nil := by
  rw [nth_eq_getD, elements_ofList]

theorem Reader.atom_of_digits {token : List Char} (hne : token ≠ [])
    (hdigits : ∀ c ∈ token, c.isDigit = true)
    (hlt : Number.Decimal.ofDigits token < 2 ^ 53) :
    ∃ x, atom token = .ok (.num x) ∧
      Number.truncate? x = some (Number.Decimal.ofDigits token : Int) := by
  refine ⟨_, (atom_eq_ok_iff token _).mpr (.number ?_ (.positive (.whole hne hdigits))),
    Number.truncate?_natural hlt⟩
  exact fun c hc => isNumeralChar_of_isDigit (hdigits c hc)

namespace Evaluator

theorem evaluate_operator {name : String} (hname : name ≠ "quote") {nesting : Nat} {r : Registry}
    {tail : Value} {w : World} {v : Value}
    (h : (evaluate nesting r (.pair (.op name) tail) w).result = .ok v) :
    ∃ collected u, evaluate nesting r (.pair (.op name) tail) w =
      apply (reentry (nested nesting) r) r name 0 collected u := by
  let call := apply (reentry (nested nesting) r) r
  let s := walk call tail 1 [] (w.record (.visit 0 (.pair (.op name) tail)))
  have hevaluate : evaluate nesting r (.pair (.op name) tail) w =
      (walk call (.pair (.op name) tail) 0 [] w).outcome := rfl
  rw [walk_operator hname] at hevaluate
  cases hs : s.result with
  | error f =>
    simp only [s, hs] at hevaluate
    rw [hevaluate] at h
    cases h
  | ok u =>
    simp only [s, hs] at hevaluate
    exact ⟨_, _, hevaluate⟩

theorem evaluate_list {r : Registry} (hr : r.lookup "list" = .ok .list) {nesting : Nat}
    {es : List Value} {w : World} {v : Value}
    (h : (evaluate nesting r (.listCode es) w).result = .ok v) :
    ∃ args, v = .ofList args ∧
      (evaluate nesting r (.listCode es) w).world.trace.getLast? = some (.call 0 "list" args) := by
  obtain ⟨collected, u, heq⟩ := evaluate_operator (by decide) h
  have hcall : evaluate nesting r (.listCode es) w =
      .ok (.ofList (arguments u.table collected))
        (u.record (.call 0 "list" (arguments u.table collected))) := by
    rw [Value.listCode, Value.ofList, heq, apply, hr]
    rfl
  rw [hcall] at h ⊢
  cases h
  exact ⟨_, rfl, List.getLast?_concat⟩

theorem chain_nthCode {call : Direct.Caller} {code v : Value} (hcode : code.isList = true)
    {w u : World} (h : (Direct.chain call code w).outcome = .ok v u) (x : Float) :
    (Direct.chain call (.nthCode x code) w).outcome =
      call "nth" (.num x :: if v = .nil then [] else [v]) u := by
  have hnotOp : ∀ name, code ≠ .op name := by
    rintro name rfl
    cases hcode
  have hlist : Direct.headOutcome call code w = .ok v u := by
    rw [Direct.headOutcome, if_pos hcode, h]
  have hlast : Direct.chain call (.pair code .nil) w = ⟨.ok (v, []), u⟩ := by
    rw [Direct.chain_pair (hnotOp "quote"), hlist]
    cases code with
    | op name => exact absurd rfl (hnotOp name)
    | _ => rfl
  have hposition : Value.num x ≠ .op "quote" := by simp
  have hboth : Direct.chain call (.pair (.num x) (.pair code .nil)) w =
      ⟨.ok (.num x, if v = .nil then [] else [v]), u⟩ := by
    have hnum : Direct.headOutcome call (.num x) w = .ok (.num x) w := rfl
    rw [Direct.chain_pair hposition, hnum]
    dsimp only [Outcome.ok]
    rw [hlast]
    rfl
  have hop : Direct.headOutcome call (.op "nth") w = .ok (.op "nth") w := rfl
  have hsome : Value.num x ≠ .nil := by simp
  rw [Value.nthCode, Value.ofList, Value.ofList, Value.ofList, Value.ofList,
    Direct.chain_pair (by decide), hop]
  dsimp only [Outcome.ok]
  rw [hboth]
  dsimp only
  rw [if_neg hsome]
  exact Direct.outcome_close_operator _ _ _ _ _

/-- The form around a list does nothing besides calling `nth` with what the list yields; a list of
nothing yields nothing to call it with. -/
theorem untraced_evaluate_nth {r : Registry} (hr : r.lookup "nth" = .ok .nth) {nesting : Nat}
    {code : Value} (hcode : code.isList = true) {w : World} {v : Value}
    (h : (evaluate nesting r code w).result = .ok v) (hv : ∀ id, v ≠ .var id) (x : Float) :
    (evaluate nesting r (.nthCode x code) w).untraced =
      .ofExcept (Lists.nth (.num x :: if v = .nil then [] else [v]))
        (evaluate nesting r code w).world.untraced := by
  have halike : ∀ code,
      Direct.Alike (evaluate nesting r code w) (Direct.evaluate nesting r code w) :=
    fun code => Direct.nested_alike (nesting + 1) r code w w rfl
  have heq := (halike code).untraced
  have hresult : (Direct.evaluate nesting r code w).result = .ok v := by
    rw [← h]
    exact (congrArg Outcome.result heq).symm
  have hworld : (Direct.evaluate nesting r code w).world.untraced =
      (evaluate nesting r code w).world.untraced := (congrArg Outcome.world heq).symm
  have hdirect : Direct.evaluate nesting r (.nthCode x code) w =
      .ofExcept (Lists.nth (.num x :: if v = .nil then [] else [v]))
        (Direct.evaluate nesting r code w).world := by
    have hyield : Direct.evaluate nesting r code w =
        .ok v (Direct.evaluate nesting r code w).world := by rw [Outcome.ok, ← hresult]
    have hargs : (.num x :: if v = .nil then [] else [v]).map
        (resolve (Direct.evaluate nesting r code w).world.table) =
        .num x :: if v = .nil then [] else [v] := by
      split
      · rfl
      · rw [List.map_cons, List.map_singleton, resolve_of_ne_var hv]
        rfl
    refine (chain_nthCode hcode hyield x).trans ?_
    rw [Direct.invoke, hr, hargs]
    rfl
  rw [(halike (.nthCode x code)).untraced, hdirect, ← hworld]
  cases Lists.nth (.num x :: if v = .nil then [] else [v]) <;> rfl

theorem nth_of_args {x : Float} {k : Nat} (hk : Number.truncate? x = some (k : Int))
    (args : List Value) :
    Lists.nth (.num x :: if Value.ofList args = .nil then [] else [.ofList args]) =
      if args = [] then .error (.wrongCount .nth) else .ok (args.getD k .nil) := by
  cases args with
  | nil => rfl
  | cons a args =>
    have hindex : Lists.index? (.num x) = some (k : Int) := hk
    have hpos : ¬(k : Int) < 0 := by omega
    have hne : Value.ofList (a :: args) ≠ .nil := nofun
    have hlist : (Value.ofList (a :: args)).isList = true := rfl
    rw [if_neg hne, Lists.nth, hindex]
    dsimp only
    rw [if_neg hpos, if_pos hlist, Value.nthAt, if_neg hpos, Int.toNat_natCast, Value.nth_ofList]
    rfl

/-- Indexing a list that is built on the spot. If the form of `list` has a value, then the form of
`nth` around it leaves the same table, text and exit requests, and has as its value the argument of
`list` at the position, or `nil` behind the last one, unless `list` was called with nothing: that is
an error. Positions are numbers without their fractions; those written with digits are exact below
`2 ^ 53`. -/
theorem evaluate_nth_list {notifies : Bool} {nesting : Nat} {es : List Value} {w : World}
    {v : Value}
    (h : (evaluate nesting (Registry.standard notifies) (.listCode es) w).result = .ok v) :
    (∃ args,
      let o := evaluate nesting (Registry.standard notifies) (.listCode es) w
      o.world.trace.getLast? = some (.call 0 "list" args) ∧
      ∀ x (k : Nat), Number.truncate? x = some (k : Int) →
        let o' := evaluate nesting (Registry.standard notifies) (.nthCode x (.listCode es)) w
        o'.world.untraced = o.world.untraced ∧
        o'.result = if args = [] then .error (.error (.wrongCount .nth))
          else .ok (args.getD k .nil)) ∧
    ∀ token : List Char, token ≠ [] → (∀ c ∈ token, c.isDigit = true) →
      Number.Decimal.ofDigits token < 2 ^ 53 →
      ∃ x, Reader.atom token = .ok (.num x) ∧
        Number.truncate? x = some (Number.Decimal.ofDigits token : Int) := by
  have hlist : (Registry.standard notifies).lookup "list" = .ok .list :=
    Registry.lookup_standard_iff.mpr ⟨rfl, trivial⟩
  have hnth : (Registry.standard notifies).lookup "nth" = .ok .nth :=
    Registry.lookup_standard_iff.mpr ⟨rfl, trivial⟩
  obtain ⟨args, rfl, htrace⟩ := evaluate_list hlist h
  refine ⟨⟨args, htrace, fun x k hk => ?_⟩, fun token => Reader.atom_of_digits⟩
  have hvar : ∀ id, Value.ofList args ≠ .var id := by
    intro id
    cases args <;> exact nofun
  have heq := untraced_evaluate_nth hnth rfl h hvar x
  rw [nth_of_args hk] at heq
  refine ⟨?_, (congrArg Outcome.result heq).trans ?_⟩
  · refine (congrArg Outcome.world heq).trans ?_
    split <;> rfl
  · split <;> rfl

theorem evaluate_nth_list_unbound :
    let element := fun x => (evaluate 0 (Registry.standard false)
      (.nthCode x (.listCode [.var "a", .sym "b"])) (World.start .empty)).result
    ∃ zero one, Reader.atom ['0'] = .ok (.num zero) ∧ element zero = .ok .nil ∧
      Reader.atom ['1'] = .ok (.num one) ∧ element one = .ok (.sym "b") := by
  intro element
  have h : (evaluate 0 (Registry.standard false) (.listCode [.var "a", .sym "b"])
      (World.start .empty)).result = .ok (.ofList [.nil, .sym "b"]) := rfl
  obtain ⟨⟨args, htrace, hnth⟩, hread⟩ := evaluate_nth_list h
  obtain rfl : [.nil, .sym "b"] = args := by
    have hcall := htrace.symm.trans (show _ = some (.call 0 "list" [.nil, .sym "b"]) from rfl)
    cases hcall
    rfl
  obtain ⟨zero, hzero, hzero'⟩ := hread ['0'] (by decide) (List.all_eq_true.mp rfl) (by decide)
  obtain ⟨one, hone, hone'⟩ := hread ['1'] (by decide) (List.all_eq_true.mp rfl) (by decide)
  have hfirst := (hnth zero 0 hzero').2
  have hsecond := (hnth one 1 hone').2
  rw [if_neg (List.cons_ne_nil _ _)] at hfirst hsecond
  exact ⟨zero, one, hzero, hfirst, hone, hsecond⟩

/-- A list of nothing has no position behind its end. -/
theorem evaluate_nth_list_empty :
    let o := evaluate 0 (Registry.standard false) (.listCode []) (World.start .empty)
    o.result = .ok .nil ∧ o.world.trace.getLast? = some (.call 0 "list" []) ∧
      ∃ x, Reader.atom ['0'] = .ok (.num x) ∧
        (evaluate 0 (Registry.standard false) (.nthCode x (.listCode []))
          (World.start .empty)).result = .error (.error (.wrongCount .nth)) :=
  ⟨rfl, rfl, _, rfl, rfl⟩

end Evaluator
end SmallLisp
