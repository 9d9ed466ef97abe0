import SmallLisp.Proofs.Evaluator.Interruption
import SmallLisp.Proofs.Session.Course

/-!
# SmallLisp.Proofs.Session.Interruption

A text that is served with an interrupt behind so many calls. If serving it makes fewer calls, the
interrupt comes too late. Otherwise the result is given up and nothing is remembered, but what the
calls before the interrupt have done to the session stays.

* `requestUntil_of_lt`, `requestUntil_cases`: an interrupt that comes too late, and one that does
  not.
* `cutOff`: the answer that a record of events tells of.
* `requestUntil_of_le`, `requestUntil_eq_cutOff`: what is left of an interrupted text.
-/

namespace SmallLisp
namespace Session

variable {s : Session} {moment : Nat} {events : List Event} {code : Value} {text : String}

theorem callCount_of_ofReading (h : OfReading events) : callCount events = 0 := by
  refine List.countP_eq_zero.mpr fun e he => ?_
  obtain ⟨rest, rfl⟩ := h e he
  exact Bool.false_ne_true

/-! ## Evaluations -/

theorem evaluateAfterUntil_of_lt (h : callCount (s.evaluateAfter events code).trace < moment) :
    s.evaluateAfterUntil moment events code = s.evaluateAfter events code := by
  have hsame : evaluateUntil moment s.nesting s.registry code
      { World.start s.table with trace := events } =
      SmallLisp.evaluate s.nesting s.registry code { World.start s.table with trace := events } :=
    Evaluator.nestedUntil_of_lt h
  simp only [evaluateAfterUntil, evaluateAfter, hsame]

theorem evaluateAfterUntil_of_le (hevents : OfReading events)
    (h : moment ≤ callCount (s.evaluateAfter events code).trace) :
    callCount (s.evaluateAfterUntil moment events code).trace = moment ∧
      (s.evaluateAfterUntil moment events code).trace <+:
        (s.evaluateAfter events code).trace := by
  refine Evaluator.nestedUntil_of_le ?_ h
  show callCount events ≤ moment
  rw [callCount_of_ofReading hevents]
  exact Nat.zero_le _

/-- What an interrupted evaluation does to a session is on record in its answer. -/
theorem evaluateAfterUntil_history {notifies : Bool} {modules : List Module} (moment : Nat)
    (hs : s.registry = Registry.ofModules notifies modules) (hevents : OfReading events)
    (code : Value) :
    let a := s.evaluateAfterUntil moment events code
    ∃ w, History notifies (World.start s.table) a.trace w ∧ a.output = w.output ∧
      a.session = s.after w := by
  intro a
  let o := evaluateUntil moment s.nesting s.registry code
    { World.start s.table with trace := events }
  obtain ⟨es, hes⟩ : ∃ es,
      History notifies { World.start s.table with trace := events } es o.world := by
    simp only [o, hs]
    exact Evaluator.nestedUntil_history _ code _
  have htrace : a.trace = events ++ es := by
    show o.world.trace = events ++ es
    rw [hes.world, World.trace_replay]
  exact ⟨o.world, htrace ▸ (hevents.history notifies (World.start s.table)).append hes, rfl, rfl⟩

/-! ## Texts -/

theorem Answer.heed_of_lt {a : Answer} (h : callCount a.trace < moment) : a.heed moment = a :=
  if_pos h

theorem Answer.heed_of_le {a : Answer} (h : moment ≤ callCount a.trace) :
    a.heed moment = { a with result := .error .interrupted } :=
  if_neg (Nat.not_lt.mpr h)

theorem requestUntil_of_lt (h : callCount (s.request text).trace < moment) :
    s.requestUntil moment text = s.request text := by
  obtain ⟨hrep, hr⟩ | ⟨e, hrep, hparse, hr⟩ | ⟨r, hrep, hread, -, hr⟩ := s.request_cases text
  · rw [hr] at h
    rw [hr, requestUntil, if_pos ((s.isRepeat_iff text).mpr hrep), Answer.heed_of_lt h]
  · rw [hr] at h
    rw [hr, requestUntil, if_neg (by simpa [isRepeat] using hrep), Reader.read_of_parse hparse]
    exact Answer.heed_of_lt h
  · rw [hr, trace_remember] at h
    have hsame := evaluateAfterUntil_of_lt h
    rw [hr, requestUntil, if_neg (by simpa [isRepeat] using hrep), hread]
    dsimp only
    rw [hsame, Answer.heed_of_lt h]

/-- An interrupt meets a text before anything is done, or it meets its evaluation. -/
theorem requestUntil_cases (h : moment ≤ callCount (s.request text).trace) :
    (moment = 0 ∧ s.requestUntil moment text = ⟨.error .interrupted, "", [], s⟩) ∨
    ∃ r, Reader.read text = .ok r ∧
      (s.request text).trace = (s.evaluateAfter r.events r.form).trace ∧
      s.requestUntil moment text =
        { s.evaluateAfterUntil moment r.events r.form with result := .error .interrupted } := by
  obtain ⟨hrep, hr⟩ | ⟨e, hrep, hparse, hr⟩ | ⟨r, hrep, hread, -, hr⟩ := s.request_cases text
  · rw [hr] at h
    refine .inl ⟨Nat.le_zero.mp h, ?_⟩
    rw [requestUntil, if_pos ((s.isRepeat_iff text).mpr hrep), Answer.heed_of_le h]
  · rw [hr] at h
    refine .inl ⟨Nat.le_zero.mp h, ?_⟩
    rw [requestUntil, if_neg (by simpa [isRepeat] using hrep), Reader.read_of_parse hparse]
    exact Answer.heed_of_le h
  · rw [hr, trace_remember] at h
    refine .inr ⟨r, hread, by rw [hr, trace_remember], ?_⟩
    have hmet : moment ≤ callCount (s.evaluateAfterUntil moment r.events r.form).trace :=
      Nat.le_of_eq (evaluateAfterUntil_of_le (ofReading_events r) h).1.symm
    rw [requestUntil, if_neg (by simpa [isRepeat] using hrep), hread]
    dsimp only
    rw [Answer.heed_of_le hmet]
    rfl

/-- No text is interrupted by itself. -/
theorem request_ne_interrupted (s : Session) (text : String) :
    (s.request text).result ≠ .error .interrupted := by
  obtain ⟨-, hr⟩ | ⟨e, -, -, hr⟩ | ⟨r, -, -, -, hr⟩ := s.request_cases text
  · rw [hr]; nofun
  · rw [hr]; nofun
  · rw [hr, result_remember]
    intro h
    exact Evaluator.nested_ne_interrupted (s.nesting + 1) s.registry r.form
      { World.start s.table with trace := r.events } _ h rfl

/-- The answer to a text that an interrupt cuts off when these events are on record. -/
def cutOff (s : Session) (past : List Event) : Answer :=
  let w := (World.start s.table).replay past
  ⟨.error .interrupted, w.output, past, s.after w⟩

/-- An interrupted text has made exactly so many calls, as if there were no interrupt, and its value
is not remembered. -/
theorem requestUntil_of_le (h : moment ≤ callCount (s.request text).trace) :
    let a := s.requestUntil moment text
    a.result = .error .interrupted ∧ callCount a.trace = moment ∧
      a.trace <+: (s.request text).trace ∧
      a.session.lastCode = s.lastCode ∧ a.session.lastResult = s.lastResult := by
  intro a
  obtain ⟨rfl, ha⟩ | ⟨r, -, htrace, ha⟩ := requestUntil_cases h
  · rw [show a = _ from ha]
    exact ⟨rfl, rfl, List.nil_prefix, rfl, rfl⟩
  · rw [htrace] at h ⊢
    obtain ⟨hcount, hprefix⟩ := evaluateAfterUntil_of_le (ofReading_events r) h
    rw [show a = _ from ha]
    exact ⟨rfl, hcount, hprefix, rfl, rfl⟩

theorem requestUntil_eq_cutOff {notifies : Bool} {modules : List Module}
    (hs : s.registry = Registry.ofModules notifies modules)
    (h : moment ≤ callCount (s.request text).trace) :
    s.requestUntil moment text = cutOff s (s.requestUntil moment text).trace := by
  obtain ⟨rfl, ha⟩ | ⟨r, -, -, ha⟩ := requestUntil_cases h
  · rw [ha]
    simp [cutOff, after, World.start]
  · obtain ⟨w, hw, houtput, hafter⟩ :=
      evaluateAfterUntil_history moment hs (ofReading_events r) r.form
    rw [ha, cutOff, ← hw.world, ← houtput, ← hafter]

end Session
end SmallLisp
