import SmallLisp.Registry

/-!
# SmallLisp.Proofs.Registry.Growth

What `register`, `update` and `freeze` do to a registry: nothing that was found in it is ever lost,
and a refused entry leaves it as it was.

* `Extends`: a registry with some entries more.
* `register_error_iff`, `register_extends`: an entry is refused by a frozen registry and under a
  name that is taken, and is added otherwise.
* `update_extends`, `update_stopped`: an update adds its entries, or those in front of the first that
  is refused.
* `lookup_update_iff`: what is found after an update, whatever became of it.
-/

namespace SmallLisp
namespace Registry

theorem lookup_eq_ok_iff {r : Registry} {name : String} {b : Builtin} :
    r.lookup name = .ok b ↔ r.builtins.find? name = some b := by
  unfold lookup
  split
  · rename_i c hc; simp [hc]
  · rename_i hc; simp [hc]

theorem eq_unknownFunction_of_lookup {r : Registry} {name : String} {e : Error}
    (h : r.lookup name = .error e) : e = .unknownFunction name := by
  unfold lookup at h
  split at h
  · cases h
  · cases h; rfl

theorem contains_iff {r : Registry} {name : String} :
    r.contains name = true ↔ ∃ b, r.lookup name = .ok b := by
  simp only [contains, NameMap.contains, Option.isSome_iff_exists, lookup_eq_ok_iff]

theorem mem_names_iff {r : Registry} {name : String} :
    name ∈ r.names ↔ ∃ b, r.lookup name = .ok b := by
  rw [← contains_iff, contains, NameMap.contains, names, NameMap.mem_names_iff]

/-- The names are listed in strictly ascending order. -/
theorem pairwise_names (r : Registry) : r.names.Pairwise (· < ·) :=
  r.builtins.pairwise_names

/-- `r'` has what `r` has and some entries more, and takes new ones if `r` does. -/
structure Extends (r : Registry) (entries : List (String × Builtin)) (r' : Registry) : Prop where
  frozen : r'.frozen = r.frozen
  lookup : ∀ name b, r'.lookup name = .ok b ↔ r.lookup name = .ok b ∨ (name, b) ∈ entries

theorem Extends.refl (r : Registry) : r.Extends [] r :=
  ⟨rfl, by simp⟩

theorem Extends.append {r r' r'' : Registry} {entries more : List (String × Builtin)}
    (h : r.Extends entries r') (h' : r'.Extends more r'') : r.Extends (entries ++ more) r'' :=
  ⟨h'.frozen.trans h.frozen, fun name b => by rw [h'.lookup, h.lookup, List.mem_append, or_assoc]⟩

/-! ## One entry -/

theorem register_cases (r : Registry) (name : String) (b : Builtin) :
    ((r.frozen = true ∨ r.contains name = true) ∧
      ∃ e, r.register name b = .error e ∧ e.kind = .registryError) ∨
    (r.frozen = false ∧ r.contains name = false ∧
      r.register name b = .ok { r with builtins := r.builtins.insert name b }) := by
  unfold register
  cases hfrozen : r.frozen with
  | true => exact .inl ⟨.inl rfl, _, rfl, rfl⟩
  | false =>
    cases htaken : r.contains name with
    | true =>
      have htaken : r.builtins.contains name = true := htaken
      exact .inl ⟨.inr rfl, .nameTaken name, by simp [htaken], rfl⟩
    | false =>
      have htaken : r.builtins.contains name = false := htaken
      exact .inr ⟨rfl, rfl, by simp [htaken]⟩

theorem register_error_iff {r : Registry} {name : String} {b : Builtin} :
    (∃ e, r.register name b = .error e) ↔ r.frozen = true ∨ r.contains name = true := by
  rcases r.register_cases name b with ⟨h, e, he, -⟩ | ⟨hfrozen, hfresh, hr⟩
  · exact ⟨fun _ => h, fun _ => ⟨e, he⟩⟩
  · simp [hfrozen, hfresh, hr]

theorem kind_of_register {r : Registry} {name : String} {b : Builtin} {e : Error}
    (h : r.register name b = .error e) : e.kind = .registryError := by
  rcases r.register_cases name b with ⟨-, e', he, hkind⟩ | ⟨-, -, hr⟩
  · rw [he] at h
    cases h
    exact hkind
  · rw [hr] at h
    cases h

theorem register_extends {r r' : Registry} {name : String} {b : Builtin}
    (h : r.register name b = .ok r') : r.Extends [(name, b)] r' := by
  rcases r.register_cases name b with ⟨-, e, he, -⟩ | ⟨-, hfresh, hr⟩
  · rw [he] at h
    cases h
  rw [hr] at h
  cases h
  refine ⟨rfl, fun other c => ?_⟩
  have hnone : ∀ d, r.lookup name ≠ .ok d := fun d hd =>
    absurd (contains_iff.mpr ⟨d, hd⟩) (by simp [hfresh])
  rw [lookup_eq_ok_iff, NameMap.find?_insert]
  split
  · rename_i heq
    subst heq
    simp [hnone, eq_comm]
  · rename_i hne
    simp [lookup_eq_ok_iff, hne]

/-! ## Several entries -/

theorem update_cons_error {r : Registry} {name : String} {b : Builtin} {e : Error}
    (h : r.register name b = .error e) (rest : List (String × Builtin)) :
    r.update ((name, b) :: rest) = (.error e, r) := by
  simp only [update, h]

theorem update_cons_ok {r r' : Registry} {name : String} {b : Builtin}
    (h : r.register name b = .ok r') (rest : List (String × Builtin)) :
    r.update ((name, b) :: rest) = r'.update rest := by
  simp only [update, h]

theorem update_extends {r : Registry} {entries : List (String × Builtin)}
    (h : (r.update entries).1 = .ok ()) : r.Extends entries (r.update entries).2 := by
  induction entries generalizing r with
  | nil => exact .refl r
  | cons entry rest ih =>
    obtain ⟨name, b⟩ := entry
    cases hr : r.register name b with
    | error e =>
      rw [update_cons_error hr] at h
      cases h
    | ok r' =>
      rw [update_cons_ok hr] at h ⊢
      exact (register_extends hr).append (ih h)

theorem update_stopped {r : Registry} {entries : List (String × Builtin)} {e : Error}
    (h : (r.update entries).1 = .error e) :
    ∃ before name b rest, entries = before ++ (name, b) :: rest ∧
      r.update before = (.ok (), (r.update entries).2) ∧
      (r.update entries).2.register name b = .error e := by
  induction entries generalizing r with
  | nil => cases h
  | cons entry rest ih =>
    obtain ⟨name, b⟩ := entry
    cases hr : r.register name b with
    | error e' =>
      rw [update_cons_error hr] at h ⊢
      cases h
      exact ⟨[], name, b, rest, rfl, rfl, hr⟩
    | ok r' =>
      rw [update_cons_ok hr] at h ⊢
      obtain ⟨before, n, c, more, rfl, hbefore, hn⟩ := ih h
      exact ⟨(name, b) :: before, n, c, more, rfl, (update_cons_ok hr before).trans hbefore, hn⟩

/-- An entry of an update is added if all entries up to it are. -/
def Adds (r : Registry) (entries : List (String × Builtin)) (entry : String × Builtin) : Prop :=
  ∃ before rest, entries = before ++ entry :: rest ∧ (r.update (before ++ [entry])).1 = .ok ()

theorem adds_cons_iff {r r' : Registry} {name : String} {b : Builtin}
    (h : r.register name b = .ok r') (rest : List (String × Builtin)) (entry : String × Builtin) :
    r.Adds ((name, b) :: rest) entry ↔ entry = (name, b) ∨ r'.Adds rest entry := by
  constructor
  · rintro ⟨before, more, hsplit, hok⟩
    cases before with
    | nil => cases hsplit; exact .inl rfl
    | cons first before =>
      cases hsplit
      rw [List.cons_append, update_cons_ok h] at hok
      exact .inr ⟨before, more, rfl, hok⟩
  · rintro (rfl | ⟨before, more, rfl, hok⟩)
    · exact ⟨[], rest, rfl, by rw [List.nil_append, update_cons_ok h]; rfl⟩
    · exact ⟨(name, b) :: before, more, rfl, by rwa [List.cons_append, update_cons_ok h]⟩

theorem not_adds_cons {r : Registry} {name : String} {b : Builtin} {e : Error}
    (h : r.register name b = .error e) (rest : List (String × Builtin)) (entry : String × Builtin) :
    ¬r.Adds ((name, b) :: rest) entry := by
  rintro ⟨before, more, hsplit, hok⟩
  cases before with
  | nil =>
    cases hsplit
    rw [List.nil_append, update_cons_error h] at hok
    cases hok
  | cons first before =>
    cases hsplit
    rw [List.cons_append, update_cons_error h] at hok
    cases hok

theorem lookup_update_iff {r : Registry} {entries : List (String × Builtin)} {name : String}
    {b : Builtin} : (r.update entries).2.lookup name = .ok b ↔
      r.lookup name = .ok b ∨ r.Adds entries (name, b) := by
  induction entries generalizing r with
  | nil => simp [update, Adds]
  | cons entry rest ih =>
    obtain ⟨n, c⟩ := entry
    cases hr : r.register n c with
    | error e => simp [update_cons_error hr, not_adds_cons hr]
    | ok r' =>
      rw [update_cons_ok hr, ih, (register_extends hr).lookup, adds_cons_iff hr, or_assoc,
        List.mem_singleton]

theorem Adds.mem {r : Registry} {entries : List (String × Builtin)} {entry : String × Builtin}
    (h : r.Adds entries entry) : entry ∈ entries := by
  obtain ⟨before, rest, rfl, -⟩ := h
  simp

@[simp] theorem frozen_update (r : Registry) (entries : List (String × Builtin)) :
    (r.update entries).2.frozen = r.frozen := by
  induction entries generalizing r with
  | nil => rfl
  | cons entry rest ih =>
    obtain ⟨name, b⟩ := entry
    cases hr : r.register name b with
    | error e => rw [update_cons_error hr]
    | ok r' => rw [update_cons_ok hr, ih, (register_extends hr).frozen]

/-- A frozen registry takes no entries. -/
theorem update_of_frozen {r : Registry} (h : r.frozen = true) (entries : List (String × Builtin)) :
    (r.update entries).2 = r := by
  cases entries with
  | nil => rfl
  | cons entry rest =>
    obtain ⟨name, b⟩ := entry
    obtain ⟨e, he⟩ := register_error_iff.mpr (.inl h)
    rw [update_cons_error he]

@[simp] theorem lookup_freeze (r : Registry) (name : String) :
    r.freeze.lookup name = r.lookup name := rfl

end Registry
end SmallLisp
