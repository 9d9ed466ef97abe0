import SmallLisp.Proofs.Evaluator.Provenance
import SmallLisp.Proofs.Reader.Reread
import SmallLisp.Proofs.Session.Course

/-!
# SmallLisp.Proofs.Session.Reachable

The values that a session can come across by the texts it is given. Nothing that is read or built is
an open list, no variable and no operator is stored, and so no variable is ever handed to a builtin.
The three need one another: an argument is no variable because the table holds none, and `set` keeps
it so.

* `linked_of_parse`: code that was read has no open list in it.
* `Resolved.ne_var`: arguments that are looked up in such a table are no variables.
* `request_regular`: what one text keeps; `session_reachable`: what any texts do.
-/

namespace SmallLisp

/-- Numbers, symbols, `nil` and lists, but no name that stands for something else. -/
def Value.IsDatum : Value → Prop
  | .var _ => False
  | .op _ => False
  | _ => True

theorem Value.isDatum_of_stored {v : Value} (h : Bindings.unstorable? v = none) : v.IsDatum := by
  cases v with
  | var id => cases h
  | op id => cases h
  | _ => trivial

/-- Every binding is a datum without open lists. -/
def Table.Regular (t : Table) : Prop :=
  ∀ name, (t.get name).IsDatum ∧ (t.get name).Linked

/-! ## Code that was read -/

namespace Reader

/-- No list in a written form is open. -/
theorem linked_of_isWritten (v : Value) :
    (IsWritten v → v.Linked) ∧ (AreWritten v → v.Linked) := by
  have hatom : ∀ {u : Value}, u.isList = false → u.Linked := by
    intro u hu
    cases u with
    | pair head tail => cases hu
    | last head => cases hu
    | _ => trivial
  induction v with
  | nil => exact ⟨fun _ => trivial, fun _ => trivial⟩
  | pair head tail ihhead ihtail =>
    constructor
    · rintro ⟨hop | hhead, htail⟩
      · exact ⟨hatom (isList_of_isOperator hop), ihtail.2 htail⟩
      · exact ⟨ihhead.1 hhead, ihtail.2 htail⟩
    · rintro ⟨hword | hhead, htail⟩
      · exact ⟨hatom (isList_of_isWord hword), ihtail.2 htail⟩
      · exact ⟨ihhead.1 hhead, ihtail.2 htail⟩
  | _ => exact ⟨False.elim, False.elim⟩

theorem linked_of_parse {text : String} {v : Value} (h : parse text = .ok v) : v.Linked :=
  (linked_of_isWritten v).1 (isWritten_of_parse h)

end Reader

/-! ## Arguments that were looked up -/

theorem Evaluator.resolve_ne_var {t : Table} (ht : ∀ name, (t.get name).IsDatum) (v : Value)
    (id : String) : resolve t v ≠ .var id := by
  cases v with
  | var name =>
    intro h
    have hdatum := ht name
    rw [show t.get name = .var id from h] at hdatum
    exact hdatum
  | _ => intro h; cases h

theorem Table.isDatum_replay {t : Table} (ht : ∀ name, (t.get name).IsDatum) (es : List Event) :
    ∀ name, ((t.replay es).get name).IsDatum :=
  replay_all (fun _ _ _ _ hb =>
    Value.isDatum_of_stored (Event.binding?_eq_some hb).2.2.2) ht

/-- Where no variable is stored, no argument is one. -/
theorem Resolved.ne_var {es : List Event} {t : Table} (h : Resolved t es)
    (ht : ∀ name, (t.get name).IsDatum) :
    ∀ e ∈ es, ∀ a ∈ e.arguments, ∀ id, a ≠ .var id := by
  induction es generalizing t with
  | nil => intro e he; cases he
  | cons first es ih =>
    intro e he a ha id
    rcases List.mem_cons.mp he with rfl | he
    · obtain ⟨v, rfl⟩ := h.1 a ha
      exact Evaluator.resolve_ne_var ht v id
    · exact ih h.2 (Table.isDatum_replay ht [first]) e he a ha id

/-! ## Sessions -/

namespace Session

/-- A session with the standard registry over a regular table, without open lists in what it has
kept. -/
structure Regular (s : Session) : Prop where
  registry : s.registry = Registry.standard true
  table : s.table.Regular
  lastCode : s.lastCode.Linked
  lastResult : s.lastResult.Linked

/-- What a regular session answers: the table is regular at every moment, and what is handed to
builtins is neither an open list nor a variable. -/
structure Answer.Regular (s : Session) (a : Answer) : Prop where
  session : a.session.Regular
  table : a.session.table = s.table.replay a.trace
  moments : ∀ past, past <+: a.trace → (s.table.replay past).Regular
  arguments : ∀ e ∈ a.trace, ∀ v ∈ e.arguments, v.Linked ∧ ∀ id, v ≠ .var id

theorem Regular.unchanged {s : Session} (hs : s.Regular) (result : Except Failure Value) :
    Answer.Regular s ⟨result, "", [], s⟩ where
  session := hs
  table := rfl
  moments := by
    intro past hpast
    rw [List.prefix_nil.mp hpast]
    exact hs.table
  arguments := by intro e he; cases he

theorem Regular.pervaded {s : Session} (hs : s.Regular) {events : List Event}
    (hevents : OfReading events) :
    World.Pervaded Value.Linked { World.start s.table with trace := events } where
  bindings := fun name => (hs.table name).2
  calls := by
    intro depth name args h
    obtain ⟨rest, hrest⟩ := hevents _ h
    cases hrest

theorem evaluateAfter_regular {s : Session} (hs : s.Regular) {events : List Event}
    (hevents : OfReading events) {code : Value} (hcode : code.Linked) :
    let a := s.evaluateAfter events code
    Answer.Regular s a ∧ ∀ v, a.result = .ok v → v.Linked := by
  intro a
  have htable := evaluateAfter_table hs.registry hevents code
  obtain ⟨w, hw, -, -⟩ := evaluateAfter_history hs.registry hevents code
  obtain ⟨hvalue, hend⟩ := Evaluator.evaluate_pervaded Value.hereditary_linked s.nesting s.registry
    hcode (hs.pervaded hevents)
  have hdata : ∀ name, (s.table.get name).IsDatum := fun name => (hs.table name).1
  have hmoments : ∀ past, past <+: a.trace → (s.table.replay past).Regular := fun past hpast name =>
    ⟨Table.isDatum_replay hdata past name,
      hend.bindings_replay hpast.subset (fun name => (hs.table name).2) name⟩
  refine ⟨⟨⟨hs.registry, ?_, hs.lastCode, hs.lastResult⟩, htable, hmoments, ?_⟩, hvalue⟩
  · rw [htable]
    exact hmoments _ (List.prefix_refl _)
  · exact fun e he v hv => ⟨hend.arguments he v hv, hw.resolved.ne_var hdata e he v hv⟩

/-- A text leaves a regular session regular, and is so at every moment in between. -/
theorem request_regular {s : Session} (hs : s.Regular) (text : String) :
    Answer.Regular s (s.request text) := by
  obtain ⟨-, hr⟩ | ⟨e, -, -, hr⟩ | ⟨r, -, -, hparse, hr⟩ := s.request_cases text
  · rw [hr]
    exact hs.unchanged _
  · rw [hr]
    exact hs.unchanged _
  · have hcode := Reader.linked_of_parse hparse
    obtain ⟨ha, hvalue⟩ := evaluateAfter_regular hs (ofReading_events r) hcode
    rw [hr]
    refine ⟨?_, by simpa using ha.table, by simpa using ha.moments, by simpa using ha.arguments⟩
    rw [session_remember]
    split
    · rename_i v hv
      exact ⟨ha.session.registry, ha.session.table, hcode, hvalue v hv⟩
    · exact ha.session

theorem final_regular {s : Session} (hs : s.Regular) (texts : List String) :
    (s.final (texts.map .text)).Regular := by
  induction texts generalizing s with
  | nil => exact hs
  | cons text rest ih =>
    rw [List.map_cons, final_cons]
    exact ih (request_regular hs text).session

theorem regular_start {table : Table} (h : table.Regular) (token : String) :
    (start table (Registry.standard true) token).Regular :=
  ⟨rfl, h, trivial, trivial⟩

/-- At every moment of a session over a regular table, whatever texts it was given before and
whether they failed: every binding is a number, a symbol, `nil` or a list; no list is open in a
binding, in the last code and result, or in what a builtin is called with; and no builtin is called
with a variable. -/
theorem session_reachable {s : Session} (hs : s.Regular) (texts : List String) (text : String) :
    let now := s.final (texts.map .text)
    let a := now.perform (.text text)
    now.lastCode.Linked ∧ now.lastResult.Linked ∧
      a.session.table = now.table.replay a.trace ∧
      (∀ past, past <+: a.trace → ∀ name,
        ((now.table.replay past).get name).IsDatum ∧ ((now.table.replay past).get name).Linked) ∧
      ∀ depth name args, .call depth name args ∈ a.trace →
        ∀ v ∈ args, v.Linked ∧ ∀ id, v ≠ .var id := by
  intro now a
  have hnow := final_regular hs texts
  have ha := request_regular hnow text
  exact ⟨hnow.lastCode, hnow.lastResult, ha.table, ha.moments,
    fun _ _ _ hcall => ha.arguments _ hcall⟩

/-- A list that holds a variable and an operator may well be stored, taken apart and handed on. What
is called with its variable is called with the binding of that. -/
theorem session_reachable_stored_code :
    let stored := Value.ofList [.op "f", .var "y"]
    let s := start (Table.empty.bind "x" stored) (Registry.standard true) "!!"
    let now := s.final (["(set 'z (cdr x))", "(set 'x"].map .text)
    let a := now.perform (.text "(list z (car x) (car z))")
    s.Regular ∧ now.table.get "z" = .ofList [.var "y"] ∧
      .call 0 "list" [.ofList [.var "y"], .op "f", .nil] ∈ a.trace ∧
      now.lastCode.Linked ∧
      ∀ depth name args, .call depth name args ∈ a.trace → .var "y" ∉ args := by
  intro stored s
  have htable : (Table.empty.bind "x" stored).Regular := by
    intro name
    rw [Table.get_bind]
    split
    · exact ⟨trivial, trivial, trivial, trivial⟩
    · exact ⟨trivial, trivial⟩
  have hs : s.Regular := regular_start htable "!!"
  obtain ⟨hcode, -, -, -, hargs⟩ :=
    session_reachable hs ["(set 'z (cdr x))", "(set 'x"] "(list z (car x) (car z))"
  refine ⟨hs, ?_, ?_, hcode, fun depth name args hcall hy => ?_⟩
  · decide +kernel
  · decide +kernel
  · exact (hargs depth name args hcall _ hy).2 "y" rfl

end Session
end SmallLisp
