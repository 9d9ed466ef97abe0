import Mathlib.Data.Set.Defs
import SmallLisp.Proofs.Evaluator.Nesting
import SmallLisp.Proofs.Registry.Modules

/-!
# SmallLisp.Proofs.Evaluator.Footprint

The footprint of an evaluation: a set of names that the code stays within, and so does every value
that the table binds to one of them. What is outside has no influence, and stays as it is. `dump`,
which shows the whole table, must not occur.

* `Footed`: worlds that agree inside the footprint, and are as they were outside of it.
* `footed_coupling`: no builtin but `dump` leaves the footprint, whatever it is given from inside.
* `evaluate_footprint`: two evaluations from tables that agree inside.
-/

namespace SmallLisp
namespace Evaluator

/-- The tables agree on the names in `N`: they bind them to the same values, and leave the same of
them unbound. -/
def AgreeOn (N : Set String) (t t' : Table) : Prop :=
  ∀ n ∈ N, t.values.find? n = t'.values.find? n

/-- The atoms that may occur inside a footprint. -/
def Inside (N : Set String) : Value → Prop
  | .sym id => id ∈ N
  | .var id => id ∈ N
  | .op id => id ≠ "dump"
  | _ => True

variable {N : Set String} {E E' : Table}

theorem within_inside {v : Value} (hnames : ∀ n, v.Mentions n → n ∈ N)
    (hdump : ¬Value.Occurs (.op "dump") v) : v.Within (Inside N) := by
  intro atom ha
  cases atom with
  | sym id => exact hnames id (.inl ha)
  | var id => exact hnames id (.inr ha)
  | op id => rintro rfl; exact hdump ha
  | _ => trivial

/-- Worlds reached from the tables `E` and `E'` that agree inside the footprint `N`, have only
values from inside bound there, and are as they were outside. -/
structure Footed (N : Set String) (E E' : Table) (w w' : World) : Prop where
  agree : AgreeOn N w.table w'.table
  values : ∀ n ∈ N, (w.table.get n).Within (Inside N)
  outside : ∀ n ∉ N, w.table.values.find? n = E.values.find? n
  outside' : ∀ n ∉ N, w'.table.values.find? n = E'.values.find? n
  output : w.output = w'.output
  exits : w.exits = w'.exits

theorem Footed.get {w w' : World} (h : Footed N E E' w w') {id : String} (hid : id ∈ N) :
    w.table.get id = w'.table.get id ∧ (w.table.get id).Within (Inside N) :=
  ⟨by rw [Table.get, Table.get, h.agree id hid], h.values id hid⟩

theorem Footed.bind {w w' : World} (h : Footed N E E' w w') {id : String} (hid : id ∈ N)
    {v : Value} (hv : v.Within (Inside N)) : Footed N E E' (w.bind id v) (w'.bind id v) where
  agree := by
    intro n hn
    simp only [World.bind, Table.bind, NameMap.find?_insert, h.agree n hn]
  values := by
    intro n hn
    simp only [World.bind, Table.get_bind]
    split
    · exact hv
    · exact h.values n hn
  outside := by
    intro n hn
    have hne : n ≠ id := fun he => hn (he ▸ hid)
    simp only [World.bind, Table.bind, NameMap.find?_insert, if_neg hne, h.outside n hn]
  outside' := by
    intro n hn
    have hne : n ≠ id := fun he => hn (he ▸ hid)
    simp only [World.bind, Table.bind, NameMap.find?_insert, if_neg hne, h.outside' n hn]
  output := h.output
  exits := h.exits

theorem footed_coupling : Coupling (Value.Within (Inside N)) (Footed N E E') where
  hereditary := Value.hereditary_within trivial fun _ => trivial
  get := by
    rintro w w' id h (hid | hid)
    · exact h.get (hid (.sym id) rfl)
    · exact h.get (hid (.var id) rfl)
  bind := by intro w w' id v h hid hv; exact h.bind (hid (.sym id) rfl) hv
  print := by
    intro w w' text h
    exact ⟨h.agree, h.values, h.outside, h.outside', congrArg (· ++ text) h.output, h.exits⟩
  requestExit := by
    intro w w' h
    exact ⟨h.agree, h.values, h.outside, h.outside', h.output, congrArg (· + 1) h.exits⟩
  visit := by
    intro w w' code depth h _
    exact ⟨h.agree, h.values, h.outside, h.outside', h.output, h.exits⟩
  call := by
    intro w w' name args depth h _ _
    exact ⟨h.agree, h.values, h.outside, h.outside', h.output, h.exits⟩

/-- Inside a footprint nothing names `dump`. -/
theorem standard_dumpsAlike (notifies : Bool) (R : World → World → Prop) :
    DumpsAlike (Value.Within (Inside N)) R (Registry.standard notifies) := by
  intro name hname h
  exact absurd (Registry.native_of_lookup_ofModules h).1.symm (hname (.op name) rfl)

theorem start_footed (hvalues : ∀ n ∈ N, ∀ m, (E.get n).Mentions m → m ∈ N)
    (hdumps : ∀ n ∈ N, ¬Value.Occurs (.op "dump") (E.get n)) (hagree : AgreeOn N E E') :
    Footed N E E' (World.start E) (World.start E') :=
  ⟨hagree, fun n hn => within_inside (hvalues n hn) (hdumps n hn), fun _ _ => rfl, fun _ _ => rfl,
    rfl, rfl⟩

/-- Evaluation of code that stays inside a footprint depends on the bindings inside only, and
changes no others: from two tables that agree inside it has the same result, prints the same, asks
for as many exits and ends in tables that agree inside, and neither table changes outside. One
evaluation goes on for ever exactly if the other does. -/
theorem evaluate_footprint {notifies : Bool} {code : Value}
    (hcode : ∀ n, code.Mentions n → n ∈ N) (hdump : ¬Value.Occurs (.op "dump") code)
    (hvalues : ∀ n ∈ N, ∀ m, (E.get n).Mentions m → m ∈ N)
    (hdumps : ∀ n ∈ N, ¬Value.Occurs (.op "dump") (E.get n)) (hagree : AgreeOn N E E') :
    (∀ nesting,
      let o := evaluate nesting (Registry.standard notifies) code (World.start E)
      let o' := evaluate nesting (Registry.standard notifies) code (World.start E')
      o.result = o'.result ∧ o.world.output = o'.world.output ∧ o.world.exits = o'.world.exits ∧
        AgreeOn N o.world.table o'.world.table ∧
        (∀ n ∉ N, o.world.table.values.find? n = E.values.find? n) ∧
        ∀ n ∉ N, o'.world.table.values.find? n = E'.values.find? n) ∧
    (Diverges evaluate (Registry.standard notifies) code (World.start E) ↔
      Diverges evaluate (Registry.standard notifies) code (World.start E')) := by
  have paired : ∀ nesting, Outcome.Paired (Value.Within (Inside N)) (Footed N E E')
      (evaluate nesting (Registry.standard notifies) code (World.start E))
      (evaluate nesting (Registry.standard notifies) code (World.start E')) :=
    fun nesting => nested_paired footed_coupling (standard_dumpsAlike false _) (nesting + 1) _ _ _ _
      (standard_dumpsAlike notifies _) (within_inside hcode hdump)
      (start_footed hvalues hdumps hagree)
  constructor
  · intro nesting
    have hw := (paired nesting).world
    exact ⟨(paired nesting).result, hw.output, hw.exits, hw.agree, hw.outside, hw.outside'⟩
  · constructor
    · intro hd nesting; rw [← (paired nesting).result]; exact hd nesting
    · intro hd nesting; rw [(paired nesting).result]; exact hd nesting

/-- Code stored under `f` runs inside the names `f` and `x`, whatever is bound to `y`. -/
theorem evaluate_footprint_stored_code :
    let N : Set String := {n | n = "f" ∨ n = "x"}
    let code := Value.ofList [.op "eval", .var "f"]
    let t := Table.empty.bind "f" (.ofList [.op "set", .sym "x", .num 1])
    let t' := t.bind "y" (.op "dump")
    (∀ nesting,
      let o := evaluate nesting (Registry.standard false) code (World.start t)
      let o' := evaluate nesting (Registry.standard false) code (World.start t')
      o.result = o'.result ∧ o.world.output = o'.world.output ∧ o.world.exits = o'.world.exits ∧
        AgreeOn N o.world.table o'.world.table ∧
        (∀ n ∉ N, o.world.table.values.find? n = t.values.find? n) ∧
        ∀ n ∉ N, o'.world.table.values.find? n = t'.values.find? n) ∧
    (Diverges evaluate (Registry.standard false) code (World.start t) ↔
      Diverges evaluate (Registry.standard false) code (World.start t')) := by
  intro N code t t'
  have hf : t.get "f" = .ofList [.op "set", .sym "x", .num 1] := by simp [t, Table.get_bind]
  have hx : t.get "x" = .nil := by simp [t, Table.get_bind]
  refine evaluate_footprint ?_ ?_ ?_ ?_ ?_
  · intro n hn
    simp only [code, Value.Mentions, Value.ofList, Value.Occurs, reduceCtorEq, Value.var.injEq,
      false_or, or_false] at hn
    exact .inl hn.symm
  · simp [code, Value.ofList, Value.Occurs]
  · rintro n (rfl | rfl) m hm
    · simp only [hf, Value.Mentions, Value.ofList, Value.Occurs, reduceCtorEq, Value.sym.injEq,
        false_or, or_false] at hm
      exact .inr hm.symm
    · simp [hx, Value.Mentions, Value.Occurs] at hm
  · rintro n (rfl | rfl)
    · simp [hf, Value.ofList, Value.Occurs]
    · simp [hx, Value.Occurs]
  · intro n hn
    have hne : n ≠ "y" := by rcases hn with rfl | rfl <;> decide
    simp only [t', Table.bind, NameMap.find?_insert, if_neg hne]

end Evaluator
end SmallLisp
