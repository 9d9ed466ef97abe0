import SmallLisp.NameMap
import SmallLisp.Error

/-!
# SmallLisp.Table

The table of bindings: one flat map from names to values, in which every name that was never bound
stands for `nil`. The host may name a binding by text or by a value that carries a name.
-/

namespace SmallLisp

structure Table where
  values : NameMap Value
deriving DecidableEq, Inhabited

/-- What the host uses to name a binding. -/
inductive Key where
  | text (name : String)
  | value (v : Value)
deriving DecidableEq

def Key.name? : Key → Option String
  | .text name => some name
  | .value v => v.name?

/-- The name that a key stands for; a value without a name is refused. -/
def Key.name : Key → Except Error String
  | .text name => .ok name
  | .value v =>
    match v.name? with
    | some name => .ok name
    | none => .error (.keyNotName v)

namespace Table

def empty : Table :=
  ⟨NameMap.empty⟩

def bind (t : Table) (name : String) (v : Value) : Table :=
  ⟨t.values.insert name v⟩

/-- What a name is bound to, `nil` if it never was. -/
def get (t : Table) (name : String) : Value :=
  (t.values.find? name).getD .nil

def bindings (t : Table) : List (String × Value) :=
  t.values.entries

def size (t : Table) : Nat :=
  t.values.size

/-- Binds what a key stands for. A refused key leaves the table as it was. -/
def define (t : Table) (key : Key) (v : Value) : Except Error Value × Table :=
  match key.name with
  | .ok name => (.ok v, t.bind name v)
  | .error e => (.error e, t)

def lookup (t : Table) (key : Key) : Except Error Value :=
  match key.name with
  | .ok name => .ok (t.get name)
  | .error e => .error e

/-- Whether what a key stands for is bound; a key that stands for no name is not. -/
def contains (t : Table) (key : Key) : Bool :=
  match key.name? with
  | some name => t.values.contains name
  | none => false

/-- The lines of a listing of the table: name, tab, tagged value. -/
def listing (t : Table) : String :=
  String.join (t.bindings.map fun (name, v) => name ++ "\t" ++ v.tagged ++ "\n")

@[simp] theorem get_empty (name : String) : empty.get name = .nil := rfl

theorem get_bind (t : Table) (name other : String) (v : Value) :
    (t.bind name v).get other = if other = name then v else t.get other := by
  simp only [get, bind, NameMap.find?_insert]
  split <;> rfl

end Table
end SmallLisp
