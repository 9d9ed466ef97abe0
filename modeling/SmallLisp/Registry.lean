import SmallLisp.Builtin.Basic

/-!
# SmallLisp.Registry

The registry of builtins. A name is registered once and for all; a frozen registry takes no more
names. Builtins come in modules.
-/

namespace SmallLisp

inductive Module where
  | arith
  | list
  | env
deriving DecidableEq, Repr

/-- The builtins of a module with their names. `notifies` says whether `exit` notifies a shell. -/
def Module.builtins (notifies : Bool) : Module → List (String × Builtin)
  | .arith => [("+", .add), ("-", .sub), ("*", .mul), ("/", .div)]
  | .list => [("cons", .cons), ("car", .car), ("cdr", .cdr), ("nth", .nth), ("list", .list)]
  | .env => [("set", .set), ("get", .get), ("dump", .dump), ("print", .print),
      ("eval", .eval .own), ("exit", .exit notifies)]

/-- Builtins by name, open to more of them or frozen. -/
structure Registry where
  builtins : NameMap Builtin
  frozen : Bool
deriving DecidableEq

namespace Registry

def empty : Registry :=
  ⟨NameMap.empty, false⟩

instance : Inhabited Registry := ⟨empty⟩

/-- Adds a builtin under a new name to an open registry. -/
def register (r : Registry) (name : String) (b : Builtin) : Except Error Registry :=
  if r.frozen then .error (.frozenRegistry name)
  else if r.builtins.contains name then .error (.nameTaken name)
  else .ok { r with builtins := r.builtins.insert name b }

/-- Adds builtins in order up to the first error, and keeps those added before it. -/
def update (r : Registry) : List (String × Builtin) → Except Error Unit × Registry
  | [] => (.ok (), r)
  | (name, b) :: rest =>
    match r.register name b with
    | .error e => (.error e, r)
    | .ok r => r.update rest

def freeze (r : Registry) : Registry :=
  { r with frozen := true }

def lookup (r : Registry) (name : String) : Except Error Builtin :=
  match r.builtins.find? name with
  | some b => .ok b
  | none => .error (.unknownFunction name)

def contains (r : Registry) (name : String) : Bool :=
  r.builtins.contains name

def names (r : Registry) : List String :=
  r.builtins.names

def size (r : Registry) : Nat :=
  r.builtins.size

def describe (r : Registry) : String :=
  "<BuiltinRegistry " ++ (if r.frozen then "frozen" else "open") ++ " " ++
    String.intercalate " " r.names ++ ">"

def ofModules (notifies : Bool) (modules : List Module) : Registry :=
  (empty.update (modules.flatMap (Module.builtins notifies))).2.freeze

/-- The registry of every module. -/
def standard (notifies : Bool) : Registry :=
  ofModules notifies [.arith, .list, .env]

/-- A builtin of the standard registry as it is registered elsewhere: its `eval` goes on evaluating
in the standard registry. -/
def borrow (name : String) : Except Error Builtin :=
  match (standard false).lookup name with
  | .ok (.eval _) => .ok (.eval .standard)
  | r => r

def inScope (r : Registry) : Scope → Registry
  | .own => r
  | .standard => standard false

end Registry
end SmallLisp
