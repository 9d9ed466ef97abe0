import Mathlib.Data.List.Forall2
import SmallLisp.Proofs.Evaluator.Calls
import SmallLisp.Proofs.Evaluator.Direct

/-!
# SmallLisp.Proofs.Evaluator.Log

The log of an evaluation is a traversal of the code: a list is on record before its head, its head
before the rest, and the call of an operator comes behind all of that, with the arguments that its
builtin is called with. These are taken from direct evaluation, which keeps no record and collects
nothing. A failure cuts the traversal short.

* `World.records`: the steps and calls that have a line in the log, and `logLines_forall₂`: a line
  for each of them.
* `Direct.records`: the traversal of a chain; `Value.outline` is all of it but the arguments.
* `Evaluator.Cut`: where a failure stops, so that a call of an unknown operator is not on record
  and a call that fails is.
* `Outcome.Logs`: what an outcome has put on record is a traversal or the beginning of one.
* `walk_logs`, `evaluateStep_log`: a walk that starts with nothing collected, and evaluation.
-/

namespace SmallLisp

/-- The steps of the walk on a list and the calls. -/
def Event.isRecord : Event → Bool
  | .visit _ code => code.isList
  | .call _ _ _ => true
  | _ => false

def World.records (w : World) : List Event :=
  w.trace.filter Event.isRecord

/-- A step or a call without the arguments. -/
def Event.outline : Event → Event
  | .call depth name _ => .call depth name []
  | e => e

/-- The traversal of code at a depth, without the arguments of its calls. -/
def Value.outline : Value → Nat → List Event
  | .pair head rest, depth =>
    .visit depth (.pair head rest) ::
      if head = .op "quote" then []
      else head.outline (depth + 1) ++ (rest.outline (depth + 1) ++ callOutline head depth)
  | .last head, depth =>
    .visit depth (.last head) ::
      if head = .op "quote" then [] else head.outline (depth + 1) ++ callOutline head depth
  | _, _ => []
where
  callOutline (head : Value) (depth : Nat) : List Event :=
    match head with
    | .op name => [.call depth name []]
    | _ => []

namespace Direct

/-- The arguments that a chain has for the operator in front of it. -/
def Yield.arguments (y : Yield) : List Value :=
  match y.result with
  | .ok (v, later) => if v = .nil then later else v :: later
  | .error _ => []

/-- The record of a call, if the head of a list is an operator: the builtin is called with what the
arguments stand for by then. -/
def callRecord (head : Value) (depth : Nat) (args : List Value) (w : World) : List Event :=
  match head with
  | .op name => [.call depth name (args.map (Evaluator.resolve w.table))]
  | _ => []

/-- The traversal of code at a depth, as direct evaluation goes through it. Only lists are on
record: atoms, `nil` and the ends of chains are not. -/
def records (call : Caller) : Value → Nat → World → List Event
  | .pair head rest, depth, w =>
    .visit depth (.pair head rest) ::
      if head = .op "quote" then []
      else
        let between := (headOutcome call head w).world
        let y := chain call rest between
        records call head (depth + 1) w ++
          (records call rest (depth + 1) between ++ callRecord head depth y.arguments y.world)
  | .last head, depth, w =>
    .visit depth (.last head) ::
      if head = .op "quote" then []
      else records call head (depth + 1) w ++
        callRecord head depth [] (headOutcome call head w).world
  | _, _, _ => []

theorem records_of_not_isList {code : Value} (h : code.isList = false) (call : Caller)
    (depth : Nat) (w : World) : records call code depth w = [] := by
  cases code with
  | pair head rest => cases h
  | last head => cases h
  | _ => rfl

theorem outline_callRecord (head : Value) (depth : Nat) (args : List Value) (w : World) :
    (callRecord head depth args w).map Event.outline = Value.outline.callOutline head depth := by
  cases head <;> rfl

/-- Whatever a run comes to, its traversal is that of the code. -/
theorem outline_records (call : Caller) (code : Value) : ∀ depth w,
    (records call code depth w).map Event.outline = code.outline depth := by
  induction code with
  | pair head rest ihhead ihrest =>
    intro depth w
    rw [records, Value.outline, List.map_cons]
    split
    · rfl
    · dsimp only
      rw [List.map_append, List.map_append, ihhead, ihrest, outline_callRecord]
      rfl
  | last head ihhead =>
    intro depth w
    rw [records, Value.outline, List.map_cons]
    split
    · rfl
    · rw [List.map_append, ihhead, outline_callRecord]
      rfl
  | _ => intro depth w; rfl

end Direct

/-! ## Records of an outcome -/

namespace World

theorem records_visit_list (w : World) (depth : Nat) {code : Value} (h : code.isList = true) :
    (w.record (.visit depth code)).records = w.records ++ [.visit depth code] := by
  simp [records, record, Event.isRecord, h]

theorem records_visit_other (w : World) (depth : Nat) {code : Value} (h : code.isList = false) :
    (w.record (.visit depth code)).records = w.records := by
  simp [records, record, Event.isRecord, h]

theorem records_call (w : World) (depth : Nat) (name : String) (args : List Value) :
    (w.record (.call depth name args)).records = w.records ++ [.call depth name args] := by
  simp [records, record, Event.isRecord]

theorem records_eq_of_trace {w w' : World} {e : Event} (he : e.isRecord = false)
    (h : w'.trace = w.trace ∨ w'.trace = w.trace ++ [e]) : w'.records = w.records := by
  rcases h with h | h
  · rw [records, records, h]
  · simp [records, h, he]

end World

theorem logLines_forall₂ {reads : Event → String → Prop} {events : List Event}
    (h : ∀ e ∈ events, ∃ line, e.line? = some line ∧ reads e line) :
    List.Forall₂ reads events (logLines events) := by
  induction events with
  | nil => exact .nil
  | cons e events ih =>
    obtain ⟨line, hline, hreads⟩ := h e (.head _)
    rw [logLines, List.filterMap_cons_some hline]
    exact .cons hreads (ih fun e he => h e (.tail _ he))

/-- Where a failure cuts a traversal into what is on record and what is not. -/
inductive Evaluator.Cut (r : Registry) : Failure → List Event → List Event → Prop
  /-- A chain ends in what is no code. -/
  | notCode (v : Value) (done rest : List Event) : Cut r (.error (.notCode v)) done rest
  /-- A quotation of anything but one element is the last on record. -/
  | quotation (depth : Nat) {code : Value} (h : code.car = .ok (.op "quote"))
      (done rest : List Event) :
      Cut r (.error (.wrongCount .quote)) (done ++ [.visit depth code]) rest
  /-- A call whose operator is unknown is the first not on record. -/
  | unknown (depth : Nat) {name : String} (args : List Value) {e : Error}
      (h : r.lookup name = .error e) (done rest : List Event) :
      Cut r (.error e) done (.call depth name args :: rest)
  /-- A call whose builtin fails is the last on record. -/
  | raised (depth : Nat) {name : String} {args : List Value} {b : Builtin}
      {reenter : Builtin.Reentry} {w : World} {f : Failure} (h : r.lookup name = .ok b)
      (hrun : (b.run reenter args (w.record (.call depth name args))).result = .error f)
      (done rest : List Event) : Cut r f (done ++ [.call depth name args]) rest

namespace Evaluator.Cut

variable {r : Registry} {f : Failure} {done rest : List Event}

theorem prepend (h : Cut r f done rest) (before : List Event) : Cut r f (before ++ done) rest := by
  cases h with
  | notCode v => exact .notCode v _ _
  | quotation depth h done => rw [← List.append_assoc]; exact .quotation depth h _ _
  | unknown depth args h _ rest => exact .unknown depth args h _ _
  | raised depth h hrun done => rw [← List.append_assoc]; exact .raised depth h hrun _ _

theorem append (h : Cut r f done rest) (after : List Event) : Cut r f done (rest ++ after) := by
  cases h with
  | notCode v => exact .notCode v _ _
  | quotation depth h done => exact .quotation depth h _ _
  | unknown depth args h _ rest => exact .unknown depth args h _ _
  | raised depth h hrun done => exact .raised depth h hrun _ _

end Evaluator.Cut

/-- What was put on record since `w` is a traversal, or the beginning of one that the failure cuts
short. Every call on record is that of a known operator. -/
def Outcome.Logs (r : Registry) (traversal : List Event) (w : World) (o : Outcome) : Prop :=
  ∃ done rest, traversal = done ++ rest ∧ o.world.records = w.records ++ done ∧
    (∀ v, o.result = .ok v → rest = []) ∧
    (∀ f, o.result = .error f → Evaluator.Cut r f done rest) ∧
    ∀ depth name args, .call depth name args ∈ done → r.contains name = true

namespace Outcome.Logs

variable {r : Registry} {traversal traversal' : List Event} {w : World} {o o' : Outcome}

theorem silent {v : Value} (hv : o.result = .ok v) (h : o.world.records = w.records) :
    o.Logs r [] w :=
  ⟨[], [], rfl, by rw [h, List.append_nil], fun _ _ => rfl, by rw [hv]; nofun, nofun⟩

theorem visit (depth : Nat) (code : Value) (h : code.isList = true) (w : World) (v : Value) :
    Outcome.Logs r [.visit depth code] w ⟨.ok v, w.record (.visit depth code)⟩ :=
  ⟨[.visit depth code], [], rfl, w.records_visit_list depth h, fun _ _ => rfl, nofun, by simp⟩

theorem stop (h : o.Logs r traversal w) {f : Failure} (hf : o.result = .error f)
    (more : List Event) : Outcome.Logs r (traversal ++ more) w ⟨.error f, o.world⟩ := by
  obtain ⟨done, rest, rfl, hrecords, -, hcut, hknown⟩ := h
  refine ⟨done, rest ++ more, List.append_assoc _ _ _, hrecords, nofun, ?_, hknown⟩
  rintro _ ⟨⟩
  exact (hcut f hf).append more

theorem andThen (h : o.Logs r traversal w) {v : Value} (hv : o.result = .ok v)
    (h' : o'.Logs r traversal' o.world) : o'.Logs r (traversal ++ traversal') w := by
  obtain ⟨done, rest, rfl, hrecords, hall, -, hknown⟩ := h
  obtain rfl := hall v hv
  obtain ⟨done', rest', rfl, hrecords', hall', hcut', hknown'⟩ := h'
  refine ⟨done ++ done', rest', by simp, ?_, hall', fun f hf => (hcut' f hf).prepend _, ?_⟩
  · rw [hrecords', hrecords, List.append_assoc]
  · intro depth name args hmem
    rcases List.mem_append.mp hmem with hmem | hmem
    · exact hknown depth name args hmem
    · exact hknown' depth name args hmem

end Outcome.Logs

namespace Evaluator

variable {r : Registry} {call : Caller} {direct : Direct.Caller}

theorem quote_logs (depth : Nat) (code : Value) (hlist : code.isList = true)
    (hquote : code.car = .ok (.op "quote")) (rest : Value) (w : World) :
    Outcome.Logs r [.visit depth code] w ⟨quote rest, w.record (.visit depth code)⟩ := by
  refine ⟨[.visit depth code], [], rfl, w.records_visit_list depth hlist, fun _ _ => rfl, ?_,
    by simp⟩
  intro f hf
  have hcount : f = .error (.wrongCount .quote) := by
    simp only [quote] at hf
    split at hf <;> cases hf
    rfl
  rw [hcount]
  exact .quotation depth hquote [] []

/-- What a walk has collected are the arguments that direct evaluation has, in reverse. -/
theorem collect_of_matches {s : Step} {y : Direct.Yield} (h : Direct.Matches s y) {v : Value}
    (hv : s.result = .ok v) : collect s.collected v = y.arguments.reverse := by
  have hresult : s.result = y.result.map Prod.fst := h.outcome.result
  cases hy : y.result with
  | error f =>
    rw [hv, hy] at hresult
    cases hresult
  | ok yielded =>
    obtain ⟨u, later⟩ := yielded
    rw [hv, hy] at hresult
    cases hresult
    rw [h.collected hy, Direct.collect_reverse, Direct.Yield.arguments, hy]

theorem headOutcome_logs {head : Value}
    (ih : ∀ depth w w', Direct.Traceless w w' →
      (walk call head depth [] w).outcome.Logs r (Direct.records direct head depth w') w)
    (depth : Nat) {w w' : World} (hw : Direct.Traceless w w') :
    (headOutcome call head depth w).Logs r (Direct.records direct head (depth + 1) w') w := by
  cases hl : head.isList with
  | true =>
    rw [headOutcome_of_isList hl]
    exact ih (depth + 1) w w' hw
  | false =>
    rw [headOutcome_of_not_isList hl, Direct.records_of_not_isList hl]
    exact .silent rfl rfl

theorem finish_logs {head : Value} {depth : Nat} (args : List Value) {w w' : World}
    (hw : Direct.Traceless w w')
    (hcall : ∀ name, Value.Occurs (.op name) head → (call name depth args.reverse w).Logs r
      [.call depth name (args.map (resolve w.table))] w) (value : Value) :
    (finish call head value depth args.reverse w).outcome.Logs r
      (Direct.callRecord head depth args w') w := by
  cases head with
  | op name =>
    rw [Direct.callRecord, ← hw.table]
    exact hcall name rfl
  | _ => exact .silent rfl rfl

/-- A walk that starts with nothing collected logs the traversal that direct evaluation goes
through, if each call in it logs itself. -/
theorem walk_logs {code : Value}
    (halike : ∀ name depth (args : List Value) w w', Direct.Traceless w w' →
      Direct.Alike (call name depth args.reverse w) (direct name args w'))
    (hcall : ∀ name, Value.Occurs (.op name) code → ∀ depth (args : List Value) w,
      (call name depth args.reverse w).Logs r [.call depth name (args.map (resolve w.table))] w) :
    ∀ depth w w', Direct.Traceless w w' →
      (walk call code depth [] w).outcome.Logs r (Direct.records direct code depth w') w := by
  induction code with
  | nil => intro depth w w' _; exact .silent rfl (w.records_visit_other depth rfl)
  | pair head rest ihhead ihrest =>
    intro depth w w' hw
    rw [Direct.records]
    by_cases hq : head = .op "quote"
    · subst hq
      rw [walk_pair_quote, if_pos rfl]
      exact quote_logs depth (.pair (.op "quote") rest) rfl rfl rest w
    rw [walk_pair hq, if_neg hq, ← List.singleton_append]
    have hvisit := hw.record (.visit depth (.pair head rest))
    have hhead := headOutcome_logs (ihhead fun name h => hcall name (.inl h)) depth hvisit
    have hbetween := Direct.headOutcome_alike (Direct.chain_matches halike head) depth hvisit
    have hsofar := Outcome.Logs.visit (r := r) depth (.pair head rest) rfl w .nil
    dsimp only
    split
    · rename_i f hf
      exact hsofar.andThen rfl (hhead.stop hf _)
    · rename_i value hvalue
      -- the rest starts with nothing collected, so what it ends with are the arguments
      have hrest := ihrest (fun name h => hcall name (.inr h)) (depth + 1) _ _ hbetween.world
      have hmatches := Direct.chain_matches halike rest (depth + 1) _ _ hbetween.world
      refine hsofar.andThen rfl (hhead.andThen hvalue ?_)
      split
      · rename_i f hf
        exact hrest.stop hf _
      · rename_i v hv
        rw [collect_of_matches hmatches hv]
        refine hrest.andThen hv ?_
        refine finish_logs _ hmatches.outcome.world (fun name h => ?_) value
        exact hcall name (.inl h) depth _ _
  | last head ihhead =>
    intro depth w w' hw
    rw [Direct.records]
    by_cases hq : head = .op "quote"
    · subst hq
      rw [walk_last_quote, if_pos rfl]
      exact quote_logs depth (.last (.op "quote")) rfl rfl .nil w
    rw [walk_last hq, if_neg hq, ← List.singleton_append]
    have hvisit := hw.record (.visit depth (.last head))
    have hhead := headOutcome_logs (ihhead hcall) depth hvisit
    have hbetween := Direct.headOutcome_alike (Direct.chain_matches halike head) depth hvisit
    have hsofar := Outcome.Logs.visit (r := r) depth (.last head) rfl w .nil
    dsimp only
    split
    · rename_i f hf
      exact hsofar.andThen rfl (hhead.stop hf _)
    · rename_i value hvalue
      refine hsofar.andThen rfl (hhead.andThen hvalue ?_)
      refine finish_logs [] hbetween.world (fun name h => ?_) value
      exact hcall name h depth [] _
  | _ =>
    intro depth w w' _
    refine ⟨[], [], rfl, ?_, nofun, ?_, nofun⟩
    · exact (w.records_visit_other depth rfl).trans (List.append_nil _).symm
    · rintro _ ⟨⟩
      exact .notCode _ _ _

/-! ## Evaluation -/

section Registries

variable {notifies : Bool} {modules : List Module} (hr : r.FilledFrom notifies modules)

include hr

/-- A call of anything but `eval` logs itself, if its operator is known. -/
theorem apply_logs {name : String} (hname : name ≠ "eval") (reenter : Builtin.Reentry)
    (depth : Nat) (args : List Value) (w : World) :
    (apply reenter r name depth args.reverse w).Logs r
      [.call depth name (args.map (resolve w.table))] w := by
  have hargs : arguments w.table args.reverse = args.map (resolve w.table) := by
    rw [arguments, List.reverse_reverse]
  unfold apply
  rw [hargs]
  dsimp only
  split
  · rename_i e he
    refine ⟨[], _, rfl, (List.append_nil _).symm, ?_, ?_, ?_⟩
    · rintro _ ⟨⟩
    · rintro _ ⟨⟩
      exact .unknown depth _ he [] []
    · rintro _ _ _ ⟨⟩
  · rename_i b hb
    have heval : ∀ scope, b ≠ .eval scope := by
      rintro scope rfl
      exact hname (hr.native hb).1.symm
    have hrun := trace_run reenter heval (args.map (resolve w.table))
      (w.record (.call depth name (args.map (resolve w.table))))
    refine ⟨[_], [], rfl, ?_, fun _ _ => rfl, fun f hf => .raised depth hb hf [] [], ?_⟩
    · exact (World.records_eq_of_trace rfl hrun).trans (w.records_call depth name _)
    · intro _ _ _ hmem
      cases List.mem_singleton.mp hmem
      exact Registry.contains_iff.mpr ⟨b, hb⟩

theorem evaluateStep_logs {code : Value} (hcode : ¬Value.Occurs (.op "eval") code)
    (nesting depth : Nat) (w : World) :
    (evaluateStep nesting r code depth [] w).outcome.Logs r
      (Direct.records (Direct.invoke (reentry (Direct.nested nesting) r) r) code depth w) w := by
  refine walk_logs (fun name depth args w w' hw => ?_) (fun name hname depth args w => ?_) depth
    w w rfl
  · refine Direct.invoke_alike (fun scope code w w' _ hw => ?_) r name depth args hw
    exact Direct.nested_alike nesting (r.inScope scope) code w w' hw
  · refine apply_logs hr ?_ (reentry (nested nesting) r) depth args w
    rintro rfl
    exact hcode hname

/-- What a step of evaluation that has nothing collected yet puts on record is the traversal of the
code at its depth, if it ends in a value; if it fails, it is the beginning of one, up to where the
failure cuts it. This is so for code without `eval` in a registry filled from modules. Whatever the
calls come to, the traversal is that of the code but for their arguments, and these are what direct
evaluation calls the builtins with. Every call on record has a known operator. The log has one line
for each record, with two blanks for each level in front: of a step it is the list as text, of a
call the name of the operator and the texts of its arguments. -/
theorem evaluateStep_log {code : Value} (hcode : ¬Value.Occurs (.op "eval") code)
    (nesting depth : Nat) (w : World) :
    let s := evaluateStep nesting r code depth [] w
    let direct := Direct.invoke (reentry (Direct.nested nesting) r) r
    let traversal := Direct.records direct code depth w
    traversal.map Event.outline = code.outline depth ∧
    ∃ done rest, traversal = done ++ rest ∧
      s.world.records = w.records ++ done ∧
      logLines s.world.records = logLines w.records ++ logLines done ∧
      List.Forall₂ (fun record line =>
        (∃ d list, record = .visit d list ∧ list.isList = true ∧
          line = "mylisp.evaluation.evaluator: " ++ String.ofList (List.replicate (2 * d) ' ') ++
            "eval: " ++ list.render) ∨
        ∃ d name args, record = .call d name args ∧
          line = "mylisp.evaluation.apply: " ++ String.ofList (List.replicate (2 * d) ' ') ++
            "call: (" ++ String.intercalate " " (name :: args.map Value.render) ++ ")")
        done (logLines done) ∧
      (∀ v, s.result = .ok v → rest = []) ∧
      (∀ f, s.result = .error f → Cut r f done rest) ∧
      ∀ depth name args, .call depth name args ∈ done → r.contains name = true := by
  intro s direct traversal
  obtain ⟨done, rest, hplan, hrecords, hends⟩ := evaluateStep_logs hr hcode nesting depth w
  have hlines : logLines s.outcome.world.records = logLines w.records ++ logLines done := by
    rw [hrecords]
    exact List.filterMap_append
  refine ⟨Direct.outline_records direct code depth w, done, rest, hplan, hrecords, hlines,
    logLines_forall₂ fun e he => ?_, hends⟩
  have hmem : e ∈ s.outcome.world.records := hrecords ▸ List.mem_append_right _ he
  have hrecord : e.isRecord = true := (List.mem_filter.mp hmem).2
  cases e with
  | visit d list =>
    have hlist : list.isList = true := hrecord
    exact ⟨_, if_pos hlist, .inl ⟨d, list, rfl, hlist, rfl⟩⟩
  | call d name args => exact ⟨_, rfl, .inr ⟨d, name, args, rfl, rfl⟩⟩
  | ignored rest => cases hrecord
  | exitRequested => cases hrecord

end Registries

/-- With an unknown operator in the last argument, neither it nor the list is called, and what is
called before has in its line what its variable stands for. -/
theorem evaluateStep_log_unknown :
    let r := Registry.standard false
    let code := Value.ofList [.op "list", .ofList [.op "car", .var "x"], .ofList [.op "f"]]
    let w := World.start (Table.empty.bind "x" (.ofList [.sym "a"]))
    let s := evaluateStep 0 r code 2 [] w
    r.FilledFrom false [.arith, .list, .env] ∧ ¬Value.Occurs (.op "eval") code ∧
      s.result = .error (.error (.unknownFunction "f")) ∧
      logLines s.world.records =
        ["mylisp.evaluation.evaluator:     eval: (list (car x) (f))",
          "mylisp.evaluation.evaluator:       eval: ((car x) (f))",
          "mylisp.evaluation.evaluator:         eval: (car x)",
          "mylisp.evaluation.evaluator:           eval: (x)",
          "mylisp.evaluation.apply:         call: (car ('a))",
          "mylisp.evaluation.evaluator:         eval: ((f))",
          "mylisp.evaluation.evaluator:           eval: (f)"] ∧
      code.outline 2 = s.world.records.map Event.outline ++ [.call 5 "f" [], .call 2 "list" []] ∧
      ∀ depth args, .call depth "f" args ∉ s.world.records := by
  intro r code w s
  have hr : r.FilledFrom false [.arith, .list, .env] := Registry.filledFrom_ofModules false _
  have hcode : ¬Value.Occurs (.op "eval") code := by simp [code, Value.ofList, Value.Occurs]
  obtain ⟨hshape, done, rest, hplan, hrecords, -, -, -, -, hknown⟩ :=
    evaluateStep_log hr hcode 0 2 w
  have hdone : s.world.records = done := hrecords
  have houtline : code.outline 2 = s.world.records.map Event.outline ++ rest.map Event.outline := by
    rw [← hshape, hplan, List.map_append, hdone]
  have hrest : rest.map Event.outline = [.call 5 "f" [], .call 2 "list" []] :=
    List.append_cancel_left (houtline.symm.trans rfl)
  refine ⟨hr, hcode, rfl, ?_, houtline.trans (congrArg _ hrest), fun depth args hmem => ?_⟩
  · rfl
  · cases hknown depth "f" args (hdone ▸ hmem)

end Evaluator
end SmallLisp
