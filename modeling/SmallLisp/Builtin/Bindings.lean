import SmallLisp.World

/-!
# SmallLisp.Builtin.Bindings

Operations on the table and on the printed text.
-/

namespace SmallLisp
namespace Bindings

/-- The kind of a value that the table does not store, if it is one. -/
def unstorable? : Value → Option Kind
  | .var _ => some .variable
  | .op _ => some .function
  | _ => none

def set (args : List Value) (w : World) : Outcome :=
  match args with
  | [.sym id, v] =>
    match unstorable? v with
    | some kind => .fail (.notStorable kind) w
    | none => .ok v (w.bind id v)
  | [name, _] => .fail (.setName name) w
  | _ => .fail (.wrongCount .set) w

def get (args : List Value) (w : World) : Outcome :=
  match args with
  | [.sym id] => .ok (w.table.get id) w
  | [name] => .fail (.getName name) w
  | _ => .fail (.wrongCount .get) w

def dump (w : World) : Outcome :=
  .ok .nil (w.print w.table.listing)

def print (args : List Value) (w : World) : Outcome :=
  match args with
  | [] => .ok .nil w
  | _ :: _ => .ok .nil (w.print (String.intercalate ", " (args.map Value.render) ++ "\n"))

end Bindings
end SmallLisp
