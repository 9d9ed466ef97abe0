import SmallLisp.Proofs.Registry.Growth

/-!
# SmallLisp.Proofs.Registry.Modules

A registry filled from modules has nothing but what the modules bring: `filledFrom_ofModules`. So
a builtin is found under its own name only, and what it reaches out to is that registry and its
shell: `FilledFrom.native`.
-/

namespace SmallLisp

/-- The name that the modules bring a builtin under. -/
def Builtin.name : Builtin → String
  | .add => "+"
  | .sub => "-"
  | .mul => "*"
  | .div => "/"
  | .cons => "cons"
  | .car => "car"
  | .cdr => "cdr"
  | .nth => "nth"
  | .list => "list"
  | .set => "set"
  | .get => "get"
  | .dump => "dump"
  | .print => "print"
  | .eval _ => "eval"
  | .exit _ => "exit"

/-- An `eval` that goes on in the registry it is called in, or an `exit` that notifies if it should.
Every other builtin reaches out to nothing. -/
def Builtin.Native (notifies : Bool) : Builtin → Prop
  | .eval scope => scope = .own
  | .exit k => k = notifies
  | _ => True

namespace Registry

/-- There is nothing in a registry but what the modules bring; it need not be all of that. -/
def FilledFrom (notifies : Bool) (modules : List Module) (r : Registry) : Prop :=
  ∀ name b, r.lookup name = .ok b → ∃ m ∈ modules, (name, b) ∈ m.builtins notifies

theorem filledFrom_ofModules (notifies : Bool) (modules : List Module) :
    (ofModules notifies modules).FilledFrom notifies modules := by
  intro name b h
  rw [ofModules, lookup_freeze, lookup_update_iff] at h
  rcases h with h | h
  · cases h
  · exact List.mem_flatMap.mp h.mem

theorem FilledFrom.mono {notifies : Bool} {modules more : List Module} {r : Registry}
    (h : r.FilledFrom notifies modules) (hsub : modules ⊆ more) : r.FilledFrom notifies more := by
  intro name b hb
  obtain ⟨m, hm, hentry⟩ := h name b hb
  exact ⟨m, hsub hm, hentry⟩

theorem native_of_mem_builtins (notifies : Bool) (m : Module) :
    ∀ entry ∈ m.builtins notifies, entry.2.name = entry.1 ∧ entry.2.Native notifies := by
  cases m <;> simp [Module.builtins, Builtin.name, Builtin.Native]

theorem FilledFrom.native {notifies : Bool} {modules : List Module} {r : Registry}
    (h : r.FilledFrom notifies modules) {name : String} {b : Builtin}
    (hb : r.lookup name = .ok b) : b.name = name ∧ b.Native notifies := by
  obtain ⟨m, -, hm⟩ := h name b hb
  exact native_of_mem_builtins notifies m (name, b) hm

theorem native_of_lookup_ofModules {notifies : Bool} {modules : List Module} {name : String}
    {b : Builtin} (h : (ofModules notifies modules).lookup name = .ok b) :
    b.name = name ∧ b.Native notifies :=
  (filledFrom_ofModules notifies modules).native h

/-- The standard registry has every builtin, each under its own name. -/
theorem lookup_standard_iff {notifies : Bool} {name : String} {b : Builtin} :
    (standard notifies).lookup name = .ok b ↔ b.name = name ∧ b.Native notifies := by
  constructor
  · exact native_of_lookup_ofModules
  · rintro ⟨rfl, hnative⟩
    cases b with
    | eval scope =>
      obtain rfl : scope = .own := hnative
      cases notifies <;> rfl
    | exit k =>
      obtain rfl : k = notifies := hnative
      cases k <;> rfl
    | _ => cases notifies <;> rfl

end Registry
end SmallLisp
