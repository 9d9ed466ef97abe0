import SmallLisp.Proofs.Evaluator.Failures
import SmallLisp.Proofs.Value.Sequence

/-!
# SmallLisp.Proofs.Evaluator.Data

Evaluation of plain data, in which no operator occurs. There is nothing to call, so all that the
walk can do is to step from part to part. It does step on every part, whether the value of it is
used or not, and stops at the first end of a dotted chain in printed order; if there is none, the
value is the leftmost leaf.

* `Value.pieces`: what a value is printed in, with the dotted ends marked; `join_pieces`.
* `Value.ends`: the dotted ends in printed order; there are none just in undotted values.
* `World.Stepped`: one world comes from another by steps of the walk alone.
* `walk_data`: a walk over plain data, whatever a call would do; `evaluate_data`.
-/

namespace SmallLisp

/-- A piece of a printed text. If it is the text of the end of a dotted chain, it has that end. -/
structure Piece where
  text : String
  dottedEnd : Option Value

def Piece.plain (text : String) : Piece :=
  ⟨text, none⟩

/-- The text that pieces make up. -/
def Piece.join (pieces : List Piece) : String :=
  String.join (pieces.map Piece.text)

namespace Value

/-- The pieces of a value, given those of its elements in case it is a list. -/
def enclosePieces (v : Value) (elements : List (List Piece)) : List Piece :=
  if v.isList then .plain "(" :: [.plain " "].intercalate elements ++ [.plain ")"]
  else [.plain v.render]

/-- The pieces of each element of a chain. An atom in the place of a chain is a dotted end. -/
def elementPieces : Value → List (List Piece)
  | .nil => []
  | .pair head tail => enclosePieces head head.elementPieces :: tail.elementPieces
  | .last head => [enclosePieces head head.elementPieces]
  | atom => [[⟨atom.render, some atom⟩]]

/-- What a value is printed in, one piece after the other. -/
def pieces (v : Value) : List Piece :=
  enclosePieces v v.elementPieces

/-- The ends of the dotted chains in a chain and in its elements, in printed order. -/
def ends (v : Value) : List Value :=
  v.elementPieces.flatten.filterMap Piece.dottedEnd

/-- What following heads leads to: the first value on the way that is no list. -/
def leftmost : Value → Value
  | .pair head _ => head.leftmost
  | .last head => head.leftmost
  | v => v

theorem leftmost_of_not_isList {v : Value} (h : v.isList = false) : v.leftmost = v := by
  cases v with
  | pair head tail => cases h
  | last head => cases h
  | _ => rfl

/-! ## Texts -/

theorem join_append (ps qs : List Piece) :
    Piece.join (ps ++ qs) = Piece.join ps ++ Piece.join qs := by
  rw [Piece.join, List.map_append, String.join_append]
  rfl

theorem join_intercalate (elements : List (List Piece)) :
    Piece.join ([.plain " "].intercalate elements) =
      String.intercalate " " (elements.map Piece.join) := by
  induction elements with
  | nil => rfl
  | cons ps rest ih =>
    cases rest with
    | nil => simp [List.intercalate]
    | cons qs rest =>
      rw [List.intercalate_cons_cons, join_append, join_append, ih]
      exact String.intercalate_cons_cons.symm

/-- The text of a value, if the pieces of its elements make up theirs. -/
theorem join_pieces_of_elements {v : Value}
    (h : v.elementPieces.map Piece.join = v.elements.map render) :
    Piece.join v.pieces = v.render := by
  rw [pieces, enclosePieces]
  split
  · rename_i hlist
    rw [render_of_isList hlist, ← h, ← join_intercalate, ← List.singleton_append, join_append,
      join_append]
    rfl
  · rfl

theorem join_elementPieces (v : Value) :
    v.elementPieces.map Piece.join = v.elements.map render := by
  induction v with
  | nil => rfl
  | pair head tail ihhead ihtail =>
    rw [elementPieces, elements, List.map_cons, List.map_cons, ihtail]
    exact congrArg (· :: _) (join_pieces_of_elements ihhead)
  | last head ihhead => exact congrArg (fun text => [text]) (join_pieces_of_elements ihhead)
  | _ => rfl

/-- The pieces of a value make up its text. -/
theorem join_pieces (v : Value) : Piece.join v.pieces = v.render :=
  join_pieces_of_elements v.join_elementPieces

/-! ## Dotted ends -/

theorem filterMap_intercalate (elements : List (List Piece)) :
    ([.plain " "].intercalate elements).filterMap Piece.dottedEnd =
      elements.flatten.filterMap Piece.dottedEnd := by
  induction elements with
  | nil => rfl
  | cons ps rest ih =>
    cases rest with
    | nil => simp [List.intercalate]
    | cons qs rest =>
      rw [List.intercalate_cons_cons, List.filterMap_append, ih, List.flatten_cons,
        List.filterMap_append]
      simp [Piece.plain]

/-- The dotted ends among the pieces of a value: those of its chain if it has one. -/
theorem filterMap_pieces (v : Value) :
    v.pieces.filterMap Piece.dottedEnd = if v.isList then v.ends else [] := by
  rw [pieces, enclosePieces]
  split
  · rw [← List.singleton_append, List.filterMap_append, List.filterMap_append,
      filterMap_intercalate]
    exact List.append_nil _
  · rfl

theorem ends_pair (head tail : Value) :
    (pair head tail).ends = (if head.isList then head.ends else []) ++ tail.ends := by
  rw [← filterMap_pieces, ends, elementPieces, List.flatten_cons, List.filterMap_append]
  rfl

theorem ends_last (head : Value) :
    (last head).ends = if head.isList then head.ends else [] := by
  rw [← filterMap_pieces, ends, elementPieces, List.flatten_singleton]
  rfl

/-- Values without a dotted end are those whose chains end in `nil` or are open, at every depth. -/
theorem ends_eq_nil_iff (v : Value) : v.ends = [] ↔ v.Undotted := by
  induction v with
  | nil => exact ⟨fun _ => trivial, fun _ => rfl⟩
  | pair head tail ihhead ihtail =>
    rw [ends_pair, List.append_eq_nil_iff, ihtail, Undotted, ← ihhead]
    simp
  | last head ihhead =>
    rw [ends_last, Undotted, ← ihhead]
    simp
  | _ => exact ⟨nofun, nofun⟩

end Value

/-! ## Evaluation -/

/-- A world comes from another by steps of the walk: these are on record, and nothing else has
changed. -/
def World.Stepped (w w' : World) : Prop :=
  ∃ steps : List (Nat × Value),
    w' = { w with trace := w.trace ++ steps.map fun step => .visit step.1 step.2 }

namespace World.Stepped

variable {w w' w'' : World}

theorem refl (w : World) : w.Stepped w :=
  ⟨[], by simp⟩

theorem visit (w : World) (depth : Nat) (code : Value) :
    w.Stepped (w.record (.visit depth code)) :=
  ⟨[(depth, code)], rfl⟩

theorem trans (h : w.Stepped w') (h' : w'.Stepped w'') : w.Stepped w'' := by
  obtain ⟨steps, rfl⟩ := h
  obtain ⟨more, rfl⟩ := h'
  exact ⟨steps ++ more, by simp⟩

end World.Stepped

namespace Evaluator

/-- A value, unless something is refused as code: the first of what is. -/
def unlessRefused (v : Value) : List Value → Except Failure Value
  | [] => .ok v
  | a :: _ => .error (.error (.notCode a))

/-- Plain data has a value or a dotted end that comes first, and comes to it by steps alone. -/
structure Settled (v : Value) (ends : List Value) (w : World) (o : Outcome) : Prop where
  result : o.result = unlessRefused v.leftmost ends
  world : w.Stepped o.world

theorem headOutcome_settled {call : Caller} {head : Value}
    (ih : ∀ depth collected w, Settled head head.ends w (walk call head depth collected w).outcome)
    (depth : Nat) (w : World) :
    Settled head (if head.isList then head.ends else []) w (headOutcome call head depth w) := by
  cases hl : head.isList with
  | true =>
    rw [headOutcome_of_isList hl, if_pos rfl]
    exact ih (depth + 1) [] w
  | false =>
    rw [headOutcome_of_not_isList hl, if_neg Bool.false_ne_true]
    exact ⟨congrArg Except.ok (Value.leftmost_of_not_isList hl).symm, .refl w⟩

/-- A walk over plain data calls nothing, whatever a call would do. -/
theorem walk_data (call : Caller) {v : Value} (hv : ∀ name, ¬Value.Occurs (.op name) v) :
    ∀ depth collected w, Settled v v.ends w (walk call v depth collected w).outcome := by
  induction v with
  | op name => exact absurd rfl (hv name)
  | pair head tail ihhead ihtail =>
    intro depth collected w
    have hop : ∀ name, head ≠ .op name := by rintro name rfl; exact hv name (.inl rfl)
    obtain ⟨hresult, hworld⟩ := headOutcome_settled (ihhead fun name h => hv name (.inl h)) depth
      (w.record (.visit depth (.pair head tail)))
    have hsofar := (World.Stepped.visit w depth (.pair head tail)).trans hworld
    rw [walk_pair (hop "quote"), Value.ends_pair]
    dsimp only
    rw [hresult]
    cases hends : (if head.isList then head.ends else []) with
    | cons a as => exact ⟨rfl, hsofar⟩
    | nil =>
      -- the value of the tail is dropped, but a dotted end in it is not
      obtain ⟨hvalue, hrest⟩ := ihtail (fun name h => hv name (.inr h)) (depth + 1) collected
        (headOutcome call head depth (w.record (.visit depth (.pair head tail)))).world
      dsimp only [unlessRefused, Step.outcome] at hvalue ⊢
      rw [hvalue, List.nil_append]
      cases tail.ends with
      | cons a as => exact ⟨rfl, hsofar.trans hrest⟩
      | nil =>
        dsimp only [unlessRefused]
        rw [finish_of_ne_op hop]
        exact ⟨rfl, hsofar.trans hrest⟩
  | last head ihhead =>
    intro depth collected w
    have hop : ∀ name, head ≠ .op name := by rintro name rfl; exact hv name rfl
    obtain ⟨hresult, hworld⟩ := headOutcome_settled (ihhead hv) depth
      (w.record (.visit depth (.last head)))
    have hsofar := (World.Stepped.visit w depth (.last head)).trans hworld
    rw [walk_last (hop "quote"), Value.ends_last]
    dsimp only
    rw [hresult]
    cases hends : (if head.isList then head.ends else []) with
    | cons a as => exact ⟨rfl, hsofar⟩
    | nil =>
      dsimp only [unlessRefused]
      rw [finish_of_ne_op hop]
      exact ⟨rfl, hsofar⟩
  | _ => intro depth collected w; exact ⟨rfl, .visit w depth _⟩

/-- Evaluation of plain data, in any registry: it calls nothing, prints nothing and binds nothing.
`nil` is its own value, and any other atom is refused as code. The value of a list whose chains are
proper or open at every depth is its leftmost leaf as it stands. Any other list is refused because
of the dotted end that comes first among the pieces of its text, wherever that is. What is refused
is an evaluation error that names it. -/
theorem evaluate_data {v : Value} (hv : ∀ name, ¬Value.Occurs (.op name) v) (nesting : Nat)
    (r : Registry) (w : World) :
    let o := evaluate nesting r v w
    let refuses (a : Value) := o.result = .error (.error (.notCode a)) ∧
      (Error.notCode a).kind = .evaluationError ∧
      (Error.notCode a).message = "Cannot evaluate " ++ a.render ++ ": code must be nil or a list"
    w.Stepped o.world ∧
    (v = .nil → o.result = .ok .nil) ∧
    (v.isList = false → v ≠ .nil → refuses v) ∧
    (v.isList = true → v.Undotted → o.result = .ok v.leftmost) ∧
    (v.isList = true → ¬v.Undotted →
      ∃ a, v.pieces.findSome? Piece.dottedEnd = some a ∧ refuses a) ∧
    Piece.join v.pieces = v.render := by
  intro o refuses
  obtain ⟨hresult, hworld⟩ : Settled v v.ends w o := walk_data _ hv 0 [] w
  refine ⟨hworld, ?_, ?_, fun _ hundotted => ?_, fun hlist hdotted => ?_, v.join_pieces⟩
  · rintro rfl
    exact hresult
  · intro hlist hnil
    refine ⟨?_, rfl, rfl⟩
    rw [hresult]
    cases v with
    | nil => exact absurd rfl hnil
    | pair head tail => cases hlist
    | last head => cases hlist
    | _ => rfl
  · rw [hresult, v.ends_eq_nil_iff.mpr hundotted, unlessRefused]
  · rw [← List.head?_filterMap, Value.filterMap_pieces, if_pos hlist]
    cases hends : v.ends with
    | nil => exact absurd (v.ends_eq_nil_iff.mp hends) hdotted
    | cons a as =>
      rw [hends] at hresult
      exact ⟨a, rfl, hresult, rfl, rfl⟩

/-- A dotted pair in an open list in a dotted one: the inner end is the first. -/
theorem evaluate_data_nested_end :
    let v := Value.pair (.ofList [.var "x", .nil])
      (.pair (.last (.pair (.sym "a") (.var "y"))) (.sym "b"))
    (∀ name, ¬Value.Occurs (.op name) v) ∧ v.render = "((x nil) (('a y)) 'b)" ∧
      (evaluate 0 Registry.empty v (World.start .empty)).result =
        .error (.error (.notCode (.var "y"))) := by
  intro v
  have hv : ∀ name, ¬Value.Occurs (.op name) v := by simp [v, Value.ofList, Value.Occurs]
  have hdotted : ¬v.Undotted := by simp [v, Value.Undotted]
  obtain ⟨-, -, -, -, hrefused, -⟩ := evaluate_data hv 0 Registry.empty (World.start .empty)
  obtain ⟨a, ha, hresult, -⟩ := hrefused rfl hdotted
  obtain rfl : .var "y" = a := Option.some.inj ha
  exact ⟨hv, rfl, hresult⟩

end Evaluator
end SmallLisp
