import SmallLisp.Proofs.Session.Interruption
import SmallLisp.Shell

/-!
# SmallLisp.Proofs.Shell.Dialogue

The shell over a session. It serves the first lines of its input, and what it has become and printed
then is told by the session alone: the lines that are not blank are its requests, one after the
other, and each line is answered behind a prompt of its own. Only the end of the input makes the
shell prompt once more.

* `requests`, `shown`, `dialogue`: what lines ask of the session and what is printed for them.
* `Interrupted`: an interrupt arrives while a line is evaluated.
* `Served`, `Ends`: the lines that are served, and how a run ends behind them.
* `run_ends`: every run is of that kind; `run_refines_session` adds what an interrupted line leaves.
-/

namespace SmallLisp
namespace Shell

def isBlankLine (line : Line) : Bool :=
  Text.allBlank line.text.toList

/-- What lines ask of the session: a blank one asks for nothing. -/
def requests (lines : List Line) : List Session.Request :=
  (lines.filter fun line => !isBlankLine line).map fun line => .text line.text

/-- What is printed behind the output of a line, according to its result. -/
def closing : Except Failure Value → String
  | .ok v => v.tagged ++ "\n"
  | .error (.error e) => "Error: " ++ e.message ++ "\n"
  | .error _ => ""

/-- What is printed for a line: for a blank one the last result. -/
def shown (s : Session) (line : Line) : String :=
  if isBlankLine line then s.lastResult.tagged ++ "\n"
  else (s.request line.text).output ++ closing (s.request line.text).result

/-- What is printed while lines are served, each with its prompt in front. -/
def dialogue (prompt : String) : Session → List Line → String
  | _, [] => ""
  | s, line :: rest =>
    prompt ++ shown s line ++ dialogue prompt (s.final (requests [line])) rest

/-- What the session has recorded while lines were served. -/
def recorded (s : Session) (lines : List Line) : List Event :=
  (s.steps (requests lines)).flatMap fun step => step.2.trace

/-- An interrupt arrives behind so many calls while the line is evaluated: there are as many. -/
def Interrupted (s : Session) (line : Line) (moment : Nat) : Prop :=
  isBlankLine line = false ∧ line.interrupt? = some moment ∧
    moment ≤ callCount (s.request line.text).trace

/-- The evaluation of the line nests too deeply for the session. -/
def Exhausted (s : Session) (line : Line) : Prop :=
  isBlankLine line = false ∧ (s.request line.text).result = .error .exhausted

theorem requests_cons (line : Line) (rest : List Line) :
    requests (line :: rest) = requests [line] ++ requests rest := by
  simp only [requests, List.filter_cons]
  split <;> simp

theorem final_requests_cons (s : Session) (line : Line) (rest : List Line) :
    s.final (requests (line :: rest)) = (s.final (requests [line])).final (requests rest) := by
  rw [requests_cons, Session.final_append]

theorem recorded_cons (s : Session) (line : Line) (rest : List Line) :
    recorded s (line :: rest) =
      recorded s [line] ++ recorded (s.final (requests [line])) rest := by
  rw [recorded, requests_cons, Session.steps_append, List.flatMap_append]
  rfl

/-! ## One line -/

section Line

variable {s : Session} {line : Line}

theorem requests_of_blank (h : isBlankLine line = true) : requests [line] = [] := by
  simp [requests, h]

theorem requests_of_text (h : isBlankLine line = false) : requests [line] = [.text line.text] := by
  simp [requests, h]

/-- An interrupt that comes too late changes nothing. -/
theorem answer_eq (hblank : isBlankLine line = false) (h : ∀ moment, ¬Interrupted s line moment) :
    answer s line = s.request line.text := by
  unfold answer
  split
  · rfl
  · rename_i moment hmoment
    refine Session.requestUntil_of_lt (Nat.lt_of_not_le fun hle => ?_)
    exact h moment ⟨hblank, hmoment, hle⟩

theorem reply_eq {result : Except Failure Value} (h : result ≠ .error .interrupted) :
    (reply result).1 = closing result ∧
      ((reply result).2 = .readsOn ↔ result ≠ .error .exhausted) ∧
      ((reply result).2 = .breaksOff ↔ result = .error .exhausted) := by
  rcases result with (_ | _ | _) | v <;> simp [reply, closing, resultLine, errorLine] at h ⊢

/-- A line is answered by what it asks of the session. -/
theorem respond_eq (h : ∀ moment, ¬Interrupted s line moment) :
    respond s line = ⟨s.final (requests [line]), shown s line, recorded s [line],
      (respond s line).fate⟩ ∧
      ((respond s line).fate = .readsOn ↔ ¬Exhausted s line) ∧
      ((respond s line).fate = .breaksOff ↔ Exhausted s line) := by
  cases hblank : isBlankLine line with
  | true =>
    have htext : Text.allBlank line.text.toList = true := hblank
    simp [respond, htext, requests_of_blank hblank, recorded, hblank, shown, Exhausted, resultLine]
  | false =>
    have htext : Text.allBlank line.text.toList = false := hblank
    obtain ⟨hclosing, hreads, hbreaks⟩ :=
      reply_eq (s.request_ne_interrupted line.text)
    simp [respond, htext, requests_of_text hblank, recorded, hblank, shown, Exhausted,
      answer_eq hblank h, hclosing, hreads, hbreaks, Session.perform]

theorem respond_interrupted {moment : Nat} (h : Interrupted s line moment) :
    respond s line = ⟨(s.requestUntil moment line.text).session,
      (s.requestUntil moment line.text).output ++ "\nGot SIGINT. Shutdown gracefully\n",
      (s.requestUntil moment line.text).trace, .shutsDown⟩ := by
  obtain ⟨hblank, hmoment, harrived⟩ := h
  have htext : Text.allBlank line.text.toList = false := hblank
  obtain ⟨hresult, -⟩ := Session.requestUntil_of_le harrived
  simp [respond, htext, answer, hmoment, hresult, reply, farewell]

end Line

/-! ## A run -/

/-- The shell reads all of these lines: each finds the session running, and none is interrupted or
nests too deeply. -/
def Served (s : Session) (read : List Line) : Prop :=
  ∀ before line after, read = before ++ line :: after →
    let now := s.final (requests before)
    now.running = true ∧ (∀ moment, ¬Interrupted now line moment) ∧ ¬Exhausted now line

theorem served_nil (s : Session) : Served s [] := by
  intro before line after h
  simp at h

theorem served_cons {s : Session} {line : Line} {rest : List Line} (hrun : s.running = true)
    (hline : ∀ moment, ¬Interrupted s line moment) (hdeep : ¬Exhausted s line)
    (hrest : Served (s.final (requests [line])) rest) : Served s (line :: rest) := by
  intro before next after h
  cases before with
  | nil => cases h; exact ⟨hrun, hline, hdeep⟩
  | cons first before =>
    cases h
    rw [final_requests_cons]
    exact hrest before next after rfl

section Run

variable {prompt : String} {ending : Ending} {s : Session} {line : Line} {rest : List Line}

theorem run_stopped {lines : List Line} (hrun : s.running = false) :
    run prompt ending s lines = ⟨s, "", [], false⟩ := by
  cases lines <;> simp [run, hrun]

theorem run_nil (hrun : s.running = true) :
    run prompt ending s [] = ⟨s, prompt ++ ending.text, [], false⟩ := by
  rw [run, if_pos hrun]

theorem run_interrupted {moment : Nat} (hrun : s.running = true)
    (hline : Interrupted s line moment) :
    run prompt ending s (line :: rest) = ⟨(s.requestUntil moment line.text).session,
      prompt ++ ((s.requestUntil moment line.text).output ++
        "\nGot SIGINT. Shutdown gracefully\n"),
      (s.requestUntil moment line.text).trace, false⟩ := by
  rw [run, if_pos hrun, respond_interrupted hline]
  rfl

theorem run_exhausted (hrun : s.running = true) (hline : ∀ moment, ¬Interrupted s line moment)
    (hdeep : Exhausted s line) :
    run prompt ending s (line :: rest) =
      ⟨s.final (requests [line]), prompt ++ shown s line, recorded s [line], true⟩ := by
  obtain ⟨hturn, -, hbreaks⟩ := respond_eq hline
  rw [hbreaks.mpr hdeep] at hturn
  rw [run, if_pos hrun, hturn]
  rfl

theorem run_served (hrun : s.running = true) (hline : ∀ moment, ¬Interrupted s line moment)
    (hdeep : ¬Exhausted s line) :
    run prompt ending s (line :: rest) =
      let t := run prompt ending (s.final (requests [line])) rest
      ⟨t.session, prompt ++ shown s line ++ t.output, recorded s [line] ++ t.trace,
        t.brokeOff⟩ := by
  obtain ⟨hturn, hreads, -⟩ := respond_eq hline
  rw [hreads.mpr hdeep] at hturn
  rw [run, if_pos hrun, hturn]

end Run

/-- How a run ends behind the lines it has served, with other lines left. -/
inductive Ends (prompt : String) (s : Session) (read : List Line) :
    Ending → List Line → Transcript → Prop
  /-- No line is left, and the input is closed where one more is prompted for. -/
  | closed : (s.final (requests read)).running = true →
      Ends prompt s read .closed [] ⟨s.final (requests read),
        dialogue prompt s read ++ (prompt ++ "\n"), recorded s read, false⟩
  /-- No line is left, and an interrupt arrives where one more is prompted for. -/
  | interrupted : (s.final (requests read)).running = true →
      Ends prompt s read .interrupted [] ⟨s.final (requests read),
        dialogue prompt s read ++ (prompt ++ "\nGot SIGINT. Shutdown gracefully\n"),
        recorded s read, false⟩
  /-- An exit was requested, and no line is prompted for any more. -/
  | exit {ending : Ending} {unread : List Line} : (s.final (requests read)).running = false →
      Ends prompt s read ending unread ⟨s.final (requests read), dialogue prompt s read,
        recorded s read, false⟩
  /-- An interrupt arrives while the next line is evaluated. -/
  | cutOff {ending : Ending} {line : Line} {rest : List Line} {moment : Nat} :
      (s.final (requests read)).running = true →
      Interrupted (s.final (requests read)) line moment →
      Ends prompt s read ending (line :: rest)
        ⟨((s.final (requests read)).requestUntil moment line.text).session,
          dialogue prompt s read ++
            (prompt ++ (((s.final (requests read)).requestUntil moment line.text).output ++
              "\nGot SIGINT. Shutdown gracefully\n")),
          recorded s read ++ ((s.final (requests read)).requestUntil moment line.text).trace,
          false⟩
  /-- The evaluation of the next line nests too deeply, and the shell breaks off. -/
  | exhausted {ending : Ending} {line : Line} {rest : List Line} :
      (s.final (requests read)).running = true →
      (∀ moment, ¬Interrupted (s.final (requests read)) line moment) →
      Exhausted (s.final (requests read)) line →
      Ends prompt s read ending (line :: rest) ⟨s.final (requests (read ++ [line])),
        dialogue prompt s (read ++ [line]), recorded s (read ++ [line]), true⟩

/-- One more line in front of those served is answered first, and then all goes as before. -/
theorem Ends.cons {prompt : String} {ending : Ending} {s : Session} {line : Line}
    {read unread : List Line} {t : Transcript}
    (h : Ends prompt (s.final (requests [line])) read ending unread t) :
    Ends prompt s (line :: read) ending unread
      ⟨t.session, prompt ++ shown s line ++ t.output, recorded s [line] ++ t.trace,
        t.brokeOff⟩ := by
  have hdialogue : ∀ text : String,
      prompt ++ shown s line ++ (dialogue prompt (s.final (requests [line])) read ++ text) =
        dialogue prompt s (line :: read) ++ text := fun text => (String.append_assoc ..).symm
  cases h with
  | closed hrun =>
    rw [← final_requests_cons] at hrun ⊢
    rw [hdialogue, ← recorded_cons]
    exact .closed hrun
  | interrupted hrun =>
    rw [← final_requests_cons] at hrun ⊢
    rw [hdialogue, ← recorded_cons]
    exact .interrupted hrun
  | exit hrun =>
    rw [← final_requests_cons] at hrun ⊢
    rw [← recorded_cons]
    exact .exit hrun
  | cutOff hrun hline =>
    rw [← final_requests_cons] at hrun hline ⊢
    rw [hdialogue, ← List.append_assoc, ← recorded_cons]
    exact .cutOff hrun hline
  | exhausted hrun hline hdeep =>
    rw [← final_requests_cons] at hrun hline hdeep ⊢
    rw [← recorded_cons]
    exact .exhausted hrun hline hdeep

/-- A run serves the first lines of its input, and then it ends in one of these ways. -/
theorem run_ends (prompt : String) (ending : Ending) (s : Session) (lines : List Line) :
    ∃ read unread, lines = read ++ unread ∧ Served s read ∧
      Ends prompt s read ending unread (run prompt ending s lines) := by
  induction lines generalizing s with
  | nil =>
    refine ⟨[], [], rfl, served_nil s, ?_⟩
    cases hrun : s.running with
    | true =>
      rw [run_nil hrun, ← @String.empty_append (prompt ++ ending.text)]
      cases ending with
      | closed => exact .closed hrun
      | interrupted => exact .interrupted hrun
    | false =>
      rw [run_stopped hrun]
      exact .exit hrun
  | cons line rest ih =>
    cases hrun : s.running with
    | false =>
      refine ⟨[], line :: rest, rfl, served_nil s, ?_⟩
      rw [run_stopped hrun]
      exact .exit hrun
    | true =>
      by_cases hline : ∃ moment, Interrupted s line moment
      · obtain ⟨moment, hline⟩ := hline
        refine ⟨[], line :: rest, rfl, served_nil s, ?_⟩
        rw [run_interrupted hrun hline, ← @String.empty_append (prompt ++ _)]
        exact .cutOff hrun hline
      have hline : ∀ moment, ¬Interrupted s line moment := not_exists.mp hline
      by_cases hdeep : Exhausted s line
      · refine ⟨[], line :: rest, rfl, served_nil s, ?_⟩
        rw [run_exhausted hrun hline hdeep, ← @String.append_empty (prompt ++ shown s line)]
        exact .exhausted hrun hline hdeep
      · obtain ⟨read, unread, hlines, hserved, hends⟩ := ih (s.final (requests [line]))
        refine ⟨line :: read, unread, by rw [hlines]; rfl,
          served_cons hrun hline hdeep hserved, ?_⟩
        rw [run_served hrun hline hdeep]
        exact hends.cons

/-- A shell over a session, from any state and whatever becomes of the lines.

* It reads the first lines of its input, as long as the session runs, no evaluation is interrupted
  and none nests too deeply. What it prints, records and becomes is that of the session that serves
  these lines.
* Behind them the input has ended, an exit was requested, the next line is interrupted or its
  evaluation nests too deeply.
* Whatever the next line is, and behind how many of the calls in its evaluation an interrupt
  arrives: there is no result, the last code and result are left alone, and so many calls are on
  record, as without the interrupt. Over a registry of modules what is left is what that record
  tells. -/
theorem run_refines_session (prompt : String) (ending : Ending) (s : Session)
    (lines : List Line) :
    ∃ read unread, lines = read ++ unread ∧ Served s read ∧
      Ends prompt s read ending unread (run prompt ending s lines) ∧
      let now := s.final (requests read)
      ∀ text moment, moment ≤ callCount (now.request text).trace →
        let a := now.requestUntil moment text
        a.result = .error .interrupted ∧ callCount a.trace = moment ∧
          a.trace <+: (now.request text).trace ∧
          a.session.lastCode = now.lastCode ∧ a.session.lastResult = now.lastResult ∧
          ∀ notifies modules, now.registry = Registry.ofModules notifies modules →
            a = now.cutOff a.trace := by
  obtain ⟨read, unread, hlines, hserved, hends⟩ := run_ends prompt ending s lines
  refine ⟨read, unread, hlines, hserved, hends, ?_⟩
  intro now text moment harrived
  obtain ⟨hresult, hcount, hprefix, hcode, hvalue⟩ := Session.requestUntil_of_le harrived
  exact ⟨hresult, hcount, hprefix, hcode, hvalue, fun notifies modules hregistry =>
    Session.requestUntil_eq_cutOff hregistry harrived⟩

/-- What the interrupted line has stored stays, and the line behind it is not read. -/
example :
    let s := Session.start Table.empty (Registry.standard true) "!!"
    let t := run ">> " .closed s [.ofText "(print 'a)", .ofText " ",
      ⟨"(print (set 'x 'b) (get 'x))", some 2⟩, .ofText "(set 'x 'c)"]
    t.output = ">> 'a\nnil\n>> nil\n>> \nGot SIGINT. Shutdown gracefully\n" ∧
      t.session.table.get "x" = .sym "b" := by
  decide +kernel

end Shell
end SmallLisp
