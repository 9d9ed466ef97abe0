import SmallLisp.Proofs.Evaluator.Calls
import SmallLisp.Proofs.Registry.Growth

/-!
# SmallLisp.Proofs.Registry.Course

The course of a registry that serves any requests, whichever of them fail. What is in it is what was
registered, under every name the builtin that came first, and from `freeze` on it stays as it is.

* `Host`: a registry with the world that calls act on; `Host.serve` is one request.
* `lookup_serve_iff`, `frozen_serve_iff`: what one request does; `lookup_final_iff` and
  `frozen_final_iff`: what any requests have done.
* `WriteOnce`: what holds of a registry at any moment.
* `final_course`: a registry that was empty and open at the beginning.
-/

namespace SmallLisp
namespace Registry

/-- A registry, and the world that its builtins act on when they are called. -/
structure Host where
  registry : Registry
  world : World

/-- What a registry is asked for. Calls and evaluations come with a bound on the nesting of
`eval`. -/
inductive Request where
  | register (name : String) (b : Builtin)
  | update (entries : List (String × Builtin))
  | freeze
  | lookup (name : String)
  | call (nesting : Nat) (name : String) (args : List Value)
  | evaluate (nesting : Nat) (code : Value)
  | text (nesting : Nat) (text : String)

/-- The entries that a request is about to add. -/
def Request.entries : Request → List (String × Builtin)
  | .register name b => [(name, b)]
  | .update entries => entries
  | _ => []

namespace Host

/-- The host after a request. What is refused leaves the registry as it was by then. -/
def serve (h : Host) : Request → Host
  | .register name b =>
    match h.registry.register name b with
    | .ok r => { h with registry := r }
    | .error _ => h
  | .update entries => { h with registry := (h.registry.update entries).2 }
  | .freeze => { h with registry := h.registry.freeze }
  | .lookup _ => h
  | .call nesting name args =>
    { h with world := (callNamed nesting h.registry name args h.world).world }
  | .evaluate nesting code =>
    { h with world := (SmallLisp.evaluate nesting h.registry code h.world).world }
  | .text nesting text =>
    { h with world := (evaluateText nesting h.registry text h.world).world }

/-- The host after some requests, in order. -/
def final (h : Host) (requests : List Request) : Host :=
  requests.foldl serve h

@[simp] theorem final_nil (h : Host) : h.final [] = h := rfl

@[simp] theorem final_cons (h : Host) (q : Request) (rest : List Request) :
    h.final (q :: rest) = (h.serve q).final rest := rfl

/-! ## One request -/

theorem serve_register_error {h : Host} {name : String} {b : Builtin} {e : Error}
    (he : h.registry.register name b = .error e) : h.serve (.register name b) = h := by
  simp only [serve, he]

theorem serve_register_ok {h : Host} {name : String} {b : Builtin} {r : Registry}
    (hr : h.registry.register name b = .ok r) :
    h.serve (.register name b) = { h with registry := r } := by
  simp only [serve, hr]

/-- To register is to update by one entry, and no other request but `freeze` touches the
registry. -/
theorem registry_serve (h : Host) {q : Request} (hq : q ≠ .freeze) :
    (h.serve q).registry = (h.registry.update q.entries).2 := by
  cases q with
  | register name b =>
    cases hr : h.registry.register name b with
    | error e => rw [serve_register_error hr, Request.entries, update_cons_error hr]
    | ok r => rw [serve_register_ok hr, Request.entries, update_cons_ok hr]; rfl
  | freeze => exact absurd rfl hq
  | _ => rfl

theorem lookup_serve_iff {h : Host} {q : Request} {name : String} {b : Builtin} :
    (h.serve q).registry.lookup name = .ok b ↔
      h.registry.lookup name = .ok b ∨ h.registry.Adds q.entries (name, b) := by
  by_cases hq : q = .freeze
  · subst hq
    simp [serve, Request.entries, Adds]
  · rw [h.registry_serve hq, lookup_update_iff]

theorem frozen_serve_iff {h : Host} {q : Request} :
    (h.serve q).registry.frozen = true ↔ h.registry.frozen = true ∨ q = .freeze := by
  by_cases hq : q = .freeze
  · subst hq
    simp [serve, freeze]
  · simp [h.registry_serve hq, hq]

theorem serve_of_frozen {h : Host} (hf : h.registry.frozen = true) (q : Request) :
    (h.serve q).registry = h.registry := by
  by_cases hq : q = .freeze
  · subst hq
    obtain ⟨⟨builtins, frozen⟩, world⟩ := h
    cases hf
    rfl
  · rw [h.registry_serve hq, update_of_frozen hf]

/-! ## Any requests -/

/-- What is found after some requests was there before, or one of them added it. -/
theorem lookup_final_iff {h : Host} {requests : List Request} {name : String} {b : Builtin} :
    (h.final requests).registry.lookup name = .ok b ↔ h.registry.lookup name = .ok b ∨
      ∃ past q rest, requests = past ++ q :: rest ∧
        (h.final past).registry.Adds q.entries (name, b) := by
  induction requests generalizing h with
  | nil => simp
  | cons q rest ih =>
    rw [final_cons, ih, lookup_serve_iff, or_assoc]
    refine or_congr_right ⟨?_, ?_⟩
    · rintro (hq | ⟨past, q', more, rfl, hq'⟩)
      · exact ⟨[], q, rest, rfl, hq⟩
      · exact ⟨q :: past, q', more, rfl, hq'⟩
    · rintro ⟨past, q', more, hsplit, hq'⟩
      cases past with
      | nil => cases hsplit; exact .inl hq'
      | cons first past => cases hsplit; exact .inr ⟨past, q', more, rfl, hq'⟩

theorem frozen_final_iff {h : Host} {requests : List Request} :
    (h.final requests).registry.frozen = true ↔
      h.registry.frozen = true ∨ .freeze ∈ requests := by
  induction requests generalizing h with
  | nil => simp
  | cons q rest ih => rw [final_cons, ih, frozen_serve_iff, List.mem_cons, or_assoc, eq_comm (a := q)]

theorem final_of_frozen {h : Host} (hf : h.registry.frozen = true) (requests : List Request) :
    (h.final requests).registry = h.registry := by
  induction requests generalizing h with
  | nil => rfl
  | cons q rest ih =>
    have hq := serve_of_frozen hf q
    rw [final_cons, ih (by rw [hq]; exact hf), hq]

/-- What holds of a registry at any moment, whatever is asked of it next. -/
structure WriteOnce (now : Host) : Prop where
  /-- A name keeps the builtin that it has. -/
  kept : ∀ requests name b, now.registry.lookup name = .ok b →
    (now.final requests).registry.lookup name = .ok b
  /-- A frozen registry stays as it is. -/
  frozen : now.registry.frozen = true → ∀ requests, (now.final requests).registry = now.registry
  refused_iff : ∀ name b, (∃ e, now.registry.register name b = .error e) ↔
    now.registry.frozen = true ∨ now.registry.contains name = true
  /-- An entry that is refused changes nothing. -/
  refused : ∀ name b e, now.registry.register name b = .error e →
    e.kind = .registryError ∧ now.serve (.register name b) = now
  registered : ∀ name b r, now.registry.register name b = .ok r →
    now.serve (.register name b) = { now with registry := r } ∧ now.registry.Extends [(name, b)] r
  updated : ∀ entries, (now.registry.update entries).1 = .ok () →
    now.registry.Extends entries (now.serve (.update entries)).registry
  /-- An update that fails adds the entries in front of the one that is refused, and no other. -/
  stopped : ∀ entries e, (now.registry.update entries).1 = .error e →
    e.kind = .registryError ∧ ∃ before name b rest, entries = before ++ (name, b) :: rest ∧
      (now.registry.update before).1 = .ok () ∧
      now.registry.Extends before (now.serve (.update entries)).registry ∧
      (now.serve (.update entries)).registry.register name b = .error e
  unknown : ∀ name e, now.registry.lookup name = .error e → e.kind = .nameError
  ascending : now.registry.names.Pairwise (· < ·)
  names : ∀ name, name ∈ now.registry.names ↔ ∃ b, now.registry.lookup name = .ok b
  contains : ∀ name, now.registry.contains name = true ↔ name ∈ now.registry.names
  size : now.registry.size = now.registry.names.length
  /-- `eval` evaluates in this registry as it is now, and calls what is found in it; builtins of the
  standard registry are called only if an `eval` of that one was registered here. -/
  eval : ∀ name, now.registry.lookup name = .ok (.eval .own) → ∀ nesting code w,
    callNamed (nesting + 1) now.registry name [code] w = evaluate nesting now.registry code w ∧
      CallsWithin now.registry.Reaches w (evaluate nesting now.registry code w).world

theorem writeOnce (now : Host) : now.WriteOnce where
  kept := fun requests name b h => lookup_final_iff.mpr (.inl h)
  frozen := final_of_frozen
  refused_iff := fun _ _ => register_error_iff
  refused := fun _ _ _ h => ⟨kind_of_register h, serve_register_error h⟩
  registered := fun _ _ _ h => ⟨serve_register_ok h, register_extends h⟩
  updated := fun _ h => update_extends h
  stopped := by
    intro entries e h
    obtain ⟨before, name, b, rest, hsplit, hbefore, hrefused⟩ := update_stopped h
    have hextends := update_extends (congrArg Prod.fst hbefore)
    rw [hbefore] at hextends
    exact ⟨kind_of_register hrefused, before, name, b, rest, hsplit, congrArg Prod.fst hbefore,
      hextends, hrefused⟩
  unknown := by
    intro name e h
    rw [eq_unknownFunction_of_lookup h]
    rfl
  ascending := pairwise_names _
  names := fun _ => mem_names_iff
  contains := fun _ => contains_iff.trans mem_names_iff.symm
  size := by rw [Registry.size, Registry.names, NameMap.size, NameMap.names, List.length_map]
  eval := fun _ h nesting code w =>
    ⟨Evaluator.callNamed_eval h nesting code w, Evaluator.evaluate_calls nesting _ code w⟩

/-- A registry that starts empty and open, after any requests, whichever of them fail: it has what
was registered and nothing else, and it is frozen if it was asked to be. A request to register, or an
entry of an update, counts if the registry took it. -/
theorem final_course (world : World) (requests : List Request) :
    let host : Host := ⟨Registry.empty, world⟩
    let now := host.final requests
    (∀ name b, now.registry.lookup name = .ok b ↔
      ∃ past q rest, requests = past ++ q :: rest ∧
        (host.final past).registry.Adds q.entries (name, b)) ∧
      (now.registry.frozen = true ↔ .freeze ∈ requests) ∧
      now.WriteOnce := by
  intro host now
  refine ⟨fun name b => ?_, ?_, now.writeOnce⟩
  · have hempty : ¬host.registry.lookup name = .ok b := nofun
    exact lookup_final_iff.trans (or_iff_right hempty)
  · have hopen : ¬host.registry.frozen = true := nofun
    exact frozen_final_iff.trans (or_iff_right hopen)

end Host
end Registry
end SmallLisp
