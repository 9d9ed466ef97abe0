import Mathlib.Data.List.Dedup
import Mathlib.Data.List.Induction
import SmallLisp.Proofs.Session.Course

/-!
# SmallLisp.Proofs.Table.Writes

The table of bindings after any attempts to write to it, whoever makes them and whichever of them
fail. Under every name there is what was written last, and the views of the table agree on that: a
look-up, the test for a name, the number of bindings, their list in the order of the names, and the
text that `dump` prints.

* `Write`: an attempt of the host, or a call of `set`; `Write.binding?` is the binding it makes.
* `run_of_binding`, `run_of_no_binding`: what becomes of an attempt.
* `latest`: the last of some bindings that has a name.
* `Table.Views`: what all views of a table show if some bindings were made in order.
* `views_writeAll`: a table that was empty; `table_final`: that of a session is such a one.
-/

namespace SmallLisp

/-- An attempt to write to the table. -/
inductive Write where
  | define (key : Key) (v : Value)
  | set (args : List Value)

namespace Write

def run (w : World) : Write → Outcome
  | .define key v =>
    let (result, table) := w.table.define key v
    .ofExcept result { w with table }
  | .set args => Bindings.set args w

/-- The binding that an attempt makes, if it does not fail. -/
def binding? : Write → Option (String × Value)
  | .define key v => key.name?.map (·, v)
  | .set args => Bindings.stored? args

theorem name_of_name {key : Key} {name : String} (h : key.name? = some name) :
    key.name = .ok name := by
  cases key with
  | text n => cases h; rfl
  | value v =>
    have hv : v.name? = some name := h
    simp only [Key.name, hv]

/-- A key that is no name is refused for what it is. -/
theorem name_of_no_name {key : Key} (h : key.name? = none) :
    ∃ v, key = .value v ∧ key.name = .error (.keyNotName v) := by
  cases key with
  | text name => cases h
  | value v =>
    have hv : v.name? = none := h
    exact ⟨v, rfl, by simp only [Key.name, hv]⟩

theorem run_of_binding {x : Write} {name : String} {v : Value} (h : x.binding? = some (name, v))
    (w : World) : x.run w = .ok v (w.bind name v) := by
  cases x with
  | define key u =>
    obtain ⟨n, hn, heq⟩ := Option.map_eq_some_iff.mp h
    cases heq
    simp only [run, Table.define, name_of_name hn]
    rfl
  | set args =>
    simp only [binding?] at h
    unfold Bindings.stored? at h
    split at h
    · rename_i id u
      split at h
      · rename_i hstored
        cases h
        simp only [run, Bindings.set, hstored]
      · cases h
    · cases h

theorem run_of_no_binding {x : Write} (h : x.binding? = none) (w : World) :
    ∃ e, x.run w = .fail e w := by
  cases x with
  | define key v =>
    obtain ⟨u, -, hname⟩ := name_of_no_name (Option.map_eq_none_iff.mp h)
    exact ⟨.keyNotName u, by simp only [run, Table.define, hname]; rfl⟩
  | set args =>
    simp only [binding?] at h
    simp only [run]
    unfold Bindings.set
    split
    · rename_i id v
      split
      · exact ⟨_, rfl⟩
      · rename_i hstored
        simp only [Bindings.stored?, hstored] at h
        cases h
    · exact ⟨_, rfl⟩
    · exact ⟨_, rfl⟩

end Write

/-- The last of some bindings that has the name. -/
def latest (made : List (String × Value)) (name : String) : Option Value :=
  made.reverse.lookup name

theorem latest_concat (made : List (String × Value)) (b : String × Value) (name : String) :
    latest (made ++ [b]) name = if name = b.1 then some b.2 else latest made name := by
  rw [latest, List.reverse_append, List.reverse_singleton, List.singleton_append, List.lookup_cons]
  by_cases h : name = b.1
  · rw [if_pos h, beq_iff_eq.mpr h]
  · rw [if_neg h, beq_eq_false_iff_ne.mpr h]
    rfl

theorem isSome_latest_iff (made : List (String × Value)) (name : String) :
    (latest made name).isSome = true ↔ name ∈ made.map Prod.fst := by
  rw [latest, List.lookup_isSome_iff, List.mem_map]
  exact exists_congr fun b => by rw [List.mem_reverse, beq_iff_eq, eq_comm (a := name)]

/-- The code points of a text. -/
def codePoints (s : String) : List Nat :=
  s.toList.map Char.toNat

theorem codePoints_lt {a b : String} (h : a < b) : codePoints a < codePoints b :=
  List.map_lt (fun _ _ hlt => hlt) (String.lt_iff.mp h)

namespace Table

/-- The table after an attempt. -/
def write (t : Table) (x : Write) : Table :=
  (x.run (World.start t)).world.table

/-- The table after some attempts, in order. -/
def writeAll (t : Table) (writes : List Write) : Table :=
  writes.foldl write t

theorem write_eq (t : Table) (x : Write) : t.write x =
    match x.binding? with
    | some (name, v) => t.bind name v
    | none => t := by
  cases h : x.binding? with
  | some b => rw [write, Write.run_of_binding h]; rfl
  | none =>
    obtain ⟨e, he⟩ := Write.run_of_no_binding h (World.start t)
    rw [write, he]
    rfl

theorem writeAll_append (t : Table) (writes more : List Write) :
    t.writeAll (writes ++ more) = (t.writeAll writes).writeAll more :=
  List.foldl_append

/-- What is found in the table is the last binding made. The induction takes away the last attempt,
which is the first one to be looked at. -/
theorem find?_writeAll (writes : List Write) (name : String) :
    (empty.writeAll writes).values.find? name =
      latest (writes.filterMap Write.binding?) name := by
  induction writes using List.reverseRecOn with
  | nil => rfl
  | append_singleton writes x ih =>
    have hlast : empty.writeAll (writes ++ [x]) = (empty.writeAll writes).write x :=
      writeAll_append _ _ _
    rw [hlast, write_eq, List.filterMap_append]
    cases hx : x.binding? with
    | none =>
      rw [List.filterMap_cons_none hx, List.filterMap_nil, List.append_nil]
      exact ih
    | some b =>
      rw [List.filterMap_cons_some hx, List.filterMap_nil, latest_concat, ← ih]
      exact NameMap.find?_insert _ _ _ _

/-- What the views of a table show after some bindings were made. -/
structure Views (t : Table) (made : List (String × Value)) : Prop where
  get : ∀ name, t.get name = (latest made name).getD .nil
  lookup : ∀ key, t.lookup key = key.name.map fun name => (latest made name).getD .nil
  /-- What is no name is not in the table. -/
  contains : ∀ key, t.contains key = true ↔
    ∃ name, key.name? = some name ∧ name ∈ made.map Prod.fst
  size : t.size = (made.map Prod.fst).dedup.length
  ascending : (t.bindings.map fun b => codePoints b.1).Pairwise (· < ·)
  once : ∀ name ∈ made.map Prod.fst, (t.bindings.map Prod.fst).count name = 1
  bindings : ∀ name v, (name, v) ∈ t.bindings ↔ latest made name = some v
  dump : ∀ reenter args w, w.table = t → Builtin.run reenter .dump args w =
    .ok .nil (w.print (String.join (t.bindings.map fun b => b.1 ++ "\t" ++ b.2.tagged ++ "\n")))

theorem views_of_find? {t : Table} {made : List (String × Value)}
    (h : ∀ name, t.values.find? name = latest made name) : t.Views made := by
  have hmem : ∀ name, name ∈ t.values.names ↔ name ∈ made.map Prod.fst := fun name => by
    rw [NameMap.mem_names_iff, h, isSome_latest_iff]
  have hnodup : t.values.names.Nodup :=
    t.values.pairwise_names.imp String.ne_of_lt
  have hget : ∀ name, t.get name = (latest made name).getD .nil := fun name => by rw [get, h]
  refine ⟨hget, fun key => ?_, fun key => ?_, ?_, ?_, ?_, fun name v => ?_, ?_⟩
  · rw [lookup]
    cases key.name with
    | ok name => simp only [hget, Except.map]
    | error e => rfl
  · unfold contains
    split
    · rename_i name hname
      rw [NameMap.contains, ← NameMap.mem_names_iff, hmem, hname]
      simp
    · rename_i hname
      simp [hname]
  · have hperm : t.values.names.Perm (made.map Prod.fst).dedup :=
      (List.perm_ext_iff_of_nodup hnodup (List.nodup_dedup _)).mpr fun name => by
        rw [hmem, List.mem_dedup]
    rw [← hperm.length_eq]
    exact (List.length_map _).symm
  · exact List.pairwise_map.mpr (t.values.ascending.imp codePoints_lt)
  · exact fun name hname => List.count_eq_one_of_mem hnodup ((hmem name).mpr hname)
  · rw [← h]
    exact t.values.mem_entries_iff name v
  · rintro reenter args w rfl
    rfl

theorem views_writeAll (writes : List Write) :
    (empty.writeAll writes).Views (writes.filterMap Write.binding?) :=
  views_of_find? (find?_writeAll writes)

end Table

/-! ## Sessions -/

/-- The attempt to write that an event is. -/
def Event.write? : Event → Option Write
  | .call _ name args => if name = "set" then some (.set args) else none
  | _ => none

theorem Table.after_eq (t : Table) (e : Event) : t.after e =
    match e.write? with
    | some x => t.write x
    | none => t := by
  cases e with
  | call depth name args =>
    by_cases hset : name = "set"
    · have hwrite : (Event.call depth name args).write? = some (.set args) := if_pos hset
      have hbinding : (Event.call depth name args).binding? = Bindings.stored? args := if_pos hset
      rw [after, hwrite, hbinding]
      exact (t.write_eq (.set args)).symm
    · simp only [after, Event.binding?, Event.write?, if_neg hset]
  | _ => rfl

theorem Table.replay_eq_writeAll (t : Table) (events : List Event) :
    t.replay events = t.writeAll (events.filterMap Event.write?) := by
  induction events generalizing t with
  | nil => rfl
  | cons e events ih =>
    rw [replay_cons, ih, after_eq]
    cases hx : e.write? with
    | none => rw [List.filterMap_cons_none hx]
    | some x => rw [List.filterMap_cons_some hx]; rfl

namespace Session

/-- The attempts to write to the table that a step of a session makes: one if it is the host's, and
otherwise those of its evaluation. -/
def writes : Request × Answer → List Write
  | (.define key v, _) => [.define key v]
  | (_, a) => a.trace.filterMap Event.write?

theorem table_perform {s : Session} (hs : s.registry = Registry.standard true) (q : Request) :
    (s.perform q).session.table = s.table.writeAll (writes (q, s.perform q)) := by
  rw [perform_table hs]
  cases q with
  | define key v =>
    show (s.table.define key v).2 = s.table.write (.define key v)
    rw [Table.define, Table.write_eq, Write.binding?]
    cases hname : key.name? with
    | some name => rw [Write.name_of_name hname]; rfl
    | none =>
      obtain ⟨u, -, hrefused⟩ := Write.name_of_no_name hname
      rw [hrefused]
      rfl
  | exit => rfl
  | text text => exact Table.replay_eq_writeAll _ _
  | code code => exact Table.replay_eq_writeAll _ _

/-- The table of a session is made by the attempts to write in its steps. -/
theorem table_final {s : Session} (hs : s.registry = Registry.standard true)
    (requests : List Request) :
    (s.final requests).table = s.table.writeAll ((s.steps requests).flatMap writes) := by
  induction requests generalizing s with
  | nil => rfl
  | cons q rest ih =>
    rw [final_cons, ih ((s.perform_setting q).1.trans hs), table_perform hs, steps_cons,
      List.flatMap_cons, Table.writeAll_append]

end Session

/-- A table that was empty, after attempts to write to it by the host and by calls of `set`. An
attempt succeeds and makes its binding, or it fails and nothing has changed. All views of the table
show the bindings that were made: the last one under each name. In a session that starts with an
empty table, with any bound on the nesting of `eval`, the attempts are those of the host and the
calls of `set` in whatever was evaluated, and the views are those of what these have bound. -/
theorem Table.writeAll_course (writes : List Write) (token : String) (nesting : Nat)
    (requests : List Session.Request) :
    (∀ (x : Write) (w : World),
      (∀ name v, x.binding? = some (name, v) → x.run w = .ok v (w.bind name v)) ∧
      (x.binding? = none → ∃ e, x.run w = .fail e w)) ∧
    (empty.writeAll writes).Views (writes.filterMap Write.binding?) ∧
    let s : Session := { Session.start empty (Registry.standard true) token with nesting }
    let attempts := (s.steps requests).flatMap Session.writes
    (s.final requests).table = empty.writeAll attempts ∧
      (s.final requests).table.Views (attempts.filterMap Write.binding?) := by
  refine ⟨fun x w => ⟨fun name v h => Write.run_of_binding h w, fun h => x.run_of_no_binding h w⟩,
    views_writeAll writes, ?_⟩
  intro s attempts
  have htable : (s.final requests).table = empty.writeAll attempts :=
    Session.table_final rfl requests
  exact ⟨htable, htable ▸ views_writeAll attempts⟩

example : (Table.empty.writeAll [.define (.value (.var "b")) .nil, .set [.sym "a", .sym "x"],
    .define (.value .nil) (.sym "y"), .define (.text "a") (.sym "z")]).bindings =
    [("a", .sym "z"), ("b", .nil)] := by decide +kernel

end SmallLisp
