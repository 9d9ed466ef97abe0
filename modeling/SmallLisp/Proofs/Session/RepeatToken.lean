import Mathlib.Data.List.DropRight
import SmallLisp.Proofs.Evaluator.Quotation
import SmallLisp.Proofs.Session.Course

/-!
# SmallLisp.Proofs.Session.RepeatToken

The two ways to say which text repeats the last result. A text is trimmed before it is compared
with the repeat token. The token of the environment is trimmed as well, a token that is given is
not, so that the two agree just on tokens without blanks at their ends. What is different otherwise
shows in any session: a text that should repeat the last result is evaluated.

* `Text.trim_append_blanks`, `Text.trim_trim`: trimming.
* `request_quotation`, `request_forget`: a quoted value as a request, and what a request makes of
  the last result.
* `results_ne_of_padded`: two values that are not both repeated.
* `configured_repeats`: where the two agree, and which texts repeat.
-/

namespace SmallLisp

/-! ## Trimmed texts -/

namespace Text

theorem trimChars_eq (cs : List Char) :
    trimChars cs = (cs.dropWhile isBlank).rdropWhile isBlank := rfl

theorem trimChars_append_blanks {front back : List Char} (hfront : allBlank front = true)
    (hback : allBlank back = true) (cs : List Char) :
    trimChars (front ++ cs ++ back) = trimChars cs := by
  have hfront : ∀ c ∈ front, isBlank c = true := List.all_eq_true.mp hfront
  have hback : ∀ c ∈ back, isBlank c = true := List.all_eq_true.mp hback
  have hnone : back.dropWhile isBlank = [] := List.dropWhile_eq_nil_iff.mpr hback
  rw [trimChars_eq, trimChars_eq, List.append_assoc, List.dropWhile_append_of_pos hfront,
    List.dropWhile_append]
  split
  · rename_i hempty
    rw [hnone, List.isEmpty_iff.mp hempty]
  · rw [List.rdropWhile, List.reverse_append,
      List.dropWhile_append_of_pos fun c hc => hback c (List.mem_reverse.mp hc)]
    rfl

theorem exists_trimChars (cs : List Char) : ∃ front back, cs = front ++ trimChars cs ++ back ∧
    allBlank front = true ∧ allBlank back = true := by
  refine ⟨cs.takeWhile isBlank, (cs.dropWhile isBlank).rtakeWhile isBlank, ?_, ?_, ?_⟩
  · rw [trimChars_eq, List.append_assoc, List.rdropWhile_append_rtakeWhile,
      List.takeWhile_append_dropWhile]
  · exact List.all_takeWhile
  · exact List.all_eq_true.mpr fun c hc => List.mem_rtakeWhile_imp hc

theorem trim_append_blanks {front back : String} (hfront : allBlank front.toList = true)
    (hback : allBlank back.toList = true) (s : String) : trim (front ++ s ++ back) = trim s := by
  rw [trim, trim, String.toList_append, String.toList_append,
    trimChars_append_blanks hfront hback]

theorem trim_trim (s : String) : trim (trim s) = trim s := by
  obtain ⟨front, back, hsplit, hfront, hback⟩ := exists_trimChars s.toList
  have htrim := trimChars_append_blanks hfront hback (trimChars s.toList)
  rw [← hsplit] at htrim
  rw [trim, trim, String.toList_ofList, ← htrim]

end Text

namespace Session

/-! ## Requests that quote a value -/

/-- What the texts come to, one after the other. -/
def results (s : Session) (texts : List String) : List (Except Failure Value) :=
  (s.performAll (texts.map .text)).1.map Answer.result

theorem results_cons (s : Session) (text : String) (rest : List String) :
    s.results (text :: rest) =
      (s.request text).result :: (s.request text).session.results rest := rfl

theorem evaluate_quotation (nesting : Nat) (r : Registry) (v : Value) (w : World) :
    SmallLisp.evaluate nesting r v.quotation w = .ok v (w.record (.visit 0 v.quotation)) := by
  rw [SmallLisp.evaluate, evaluateStep, Evaluator.stepWith, Value.quotation, Value.ofList,
    Evaluator.walk_pair_quote]
  rfl

theorem request_quotation {s : Session} {text : String} (h : Text.trim text ≠ s.repeatToken)
    {v : Value} (hv : Reader.parse text = .ok v.quotation) :
    (s.request text).result = .ok v ∧
      (s.request text).session = { s with lastCode := v.quotation, lastResult := v } := by
  obtain ⟨hrep, -⟩ | ⟨e, -, hparse, -⟩ | ⟨r, -, -, hparse, hr⟩ := s.request_cases text
  · exact absurd hrep h
  · rw [hv] at hparse
    cases hparse
  · have hform : r.form = v.quotation := Except.ok.inj (hparse.symm.trans hv)
    have hresult : (s.evaluateAfter r.events v.quotation).result = .ok v := by
      simp only [evaluateAfter, evaluate_quotation]
      rfl
    have hsession : (s.evaluateAfter r.events v.quotation).session = s := by
      simp only [evaluateAfter, evaluate_quotation]
      simp [after, Outcome.ok, World.record, World.start]
    rw [hr, hform, result_remember, session_remember, hresult, hsession]
    exact ⟨rfl, rfl⟩

/-- Only the repeat token brings the last result back. -/
theorem request_forget {s : Session} {text : String} (h : Text.trim text ≠ s.repeatToken)
    (code v : Value) : ({ s with lastCode := code, lastResult := v }.request text).result =
      (s.request text).result := by
  let forgetful : Session := { s with lastCode := code, lastResult := v }
  have hforgetful : forgetful.isRepeat text = false := by simpa [isRepeat] using h
  have hs : s.isRepeat text = false := by simpa [isRepeat] using h
  show (forgetful.request text).result = _
  rw [request, request, hforgetful, hs]
  simp only [Bool.false_eq_true, if_false]
  cases Reader.read text with
  | error e => rfl
  | ok r => rw [result_remember, result_remember]; rfl

/-! ## Tokens with blanks at their ends -/

/-- Texts that quote different values. -/
def quotations : List (String × Value) :=
  [("(quote a)", .var "a"), ("(quote b)", .var "b"), ("(quote c)", .var "c")]

theorem parse_quotations : ∀ q ∈ quotations,
    Text.trim q.1 = q.1 ∧ Reader.parse q.1 = .ok q.2.quotation := by
  decide +kernel

/-- Whatever the token is, it leaves two of the quotations to be evaluated. -/
theorem exists_quotations (token : String) : ∃ p ∈ quotations, ∃ q ∈ quotations,
    p.2 ≠ q.2 ∧ p.1 ≠ token ∧ q.1 ≠ token := by
  by_cases ha : "(quote a)" = token
  · refine ⟨("(quote b)", .var "b"), by simp [quotations], ("(quote c)", .var "c"),
      by simp [quotations], by simp, ?_, ?_⟩ <;> rw [← ha] <;> decide
  · by_cases hb : "(quote b)" = token
    · exact ⟨("(quote a)", .var "a"), by simp [quotations], ("(quote c)", .var "c"),
        by simp [quotations], by simp, ha, by rw [← hb]; decide⟩
    · exact ⟨("(quote a)", .var "a"), by simp [quotations], ("(quote b)", .var "b"),
        by simp [quotations], by simp, ha, hb⟩

/-- A new session with a bound on the nesting of `eval`, for any token. -/
def withToken (registry : Registry) (table : Table) (nesting : Nat) (token : String) : Session :=
  { start table registry token with nesting }

section Padded

variable {t : String} (ht : Text.trim t ≠ t) (registry : Registry) (table : Table) (nesting : Nat)

include ht

theorem trim_ne_of_padded (text : String) : Text.trim text ≠ t := by
  rintro rfl
  exact ht (Text.trim_trim text)

theorem results_padded {q : String × Value} (hq : q ∈ quotations) (hne : q.1 ≠ Text.trim t) :
    (withToken registry table nesting t).results [q.1, t] =
      [.ok q.2, ((withToken registry table nesting t).request t).result] ∧
    (withToken registry table nesting (Text.trim t)).results [q.1, t] = [.ok q.2, .ok q.2] := by
  obtain ⟨htrim, hparse⟩ := parse_quotations q hq
  constructor
  · obtain ⟨hresult, hsession⟩ :=
      request_quotation (s := withToken registry table nesting t) (trim_ne_of_padded ht q.1) hparse
    rw [results_cons, results_cons, hresult, hsession,
      request_forget (s := withToken registry table nesting t) ht]
    rfl
  · obtain ⟨hresult, hsession⟩ :=
      request_quotation (s := withToken registry table nesting (Text.trim t)) (by rwa [htrim]) hparse
    rw [results_cons, results_cons, hresult, hsession, request_repeat rfl]
    rfl

theorem results_ne_of_padded :
    ∃ texts, (withToken registry table nesting t).results texts ≠
      (withToken registry table nesting (Text.trim t)).results texts := by
  obtain ⟨p, hp, q, hq, hne, hpt, hqt⟩ := exists_quotations (Text.trim t)
  obtain ⟨hgiven, hfound⟩ := results_padded ht registry table nesting hp hpt
  obtain ⟨hgiven', hfound'⟩ := results_padded ht registry table nesting hq hqt
  by_contra hsame
  simp only [not_exists, ne_eq, not_not] at hsame
  have hfirst := hsame [p.1, t]
  have hsecond := hsame [q.1, t]
  rw [hgiven, hfound] at hfirst
  rw [hgiven', hfound'] at hsecond
  simp only [List.cons.injEq, and_true, true_and] at hfirst hsecond
  exact hne (Except.ok.inj (hfirst.symm.trans hsecond))

end Padded

/-! ## The token of the environment and a token that is given -/

/-- A session with a token of the environment and one with the same token given to it, whatever the
environment says then and with any bound on the nesting of `eval`. They have the same answers to the
same requests if the token has no blanks at its ends, and only then. In the one the token with any
blanks around it repeats the last result, at any time; in the other it does under the same
condition, and no other text does without it. -/
theorem configured_repeats {environ : Environ} {t : String}
    (h : environ "MYLISP_REPEAT_TOKEN" = some t) (environ' : Environ) (registry : Registry)
    (table : Table) (nesting : Nat) :
    let given : Session := { configured environ' (some t) registry table with nesting }
    let found : Session := { configured environ none registry table with nesting }
    (Text.trim t = t → ∀ requests, given.performAll requests = found.performAll requests) ∧
    ((∀ texts, given.results texts = found.results texts) ↔ Text.trim t = t) ∧
    (∀ requests front back, Text.allBlank front.toList = true → Text.allBlank back.toList = true →
      let now := found.final requests
      now.request (front ++ t ++ back) = ⟨.ok now.lastResult, "", [], now⟩) ∧
    (∀ requests front back, Text.allBlank front.toList = true → Text.allBlank back.toList = true →
      Text.trim t = t → let now := given.final requests
      now.request (front ++ t ++ back) = ⟨.ok now.lastResult, "", [], now⟩) ∧
    (Text.trim t ≠ t → ∀ requests text, (given.final requests).isRepeat text = false) := by
  intro given found
  have hgiven : given = withToken registry table nesting t := rfl
  have hfound : found = withToken registry table nesting (Text.trim t) := by
    simp only [found, withToken, configured, Settings.ofEnviron, Environ.text, h, Option.getD_none,
      Option.getD_some]
  have hagree : Text.trim t = t → given = found := fun ht => by rw [hgiven, hfound, ht]
  have hrepeats : ∀ requests front back, Text.allBlank front.toList = true →
      Text.allBlank back.toList = true → (found.final requests).request (front ++ t ++ back) =
        ⟨.ok (found.final requests).lastResult, "", [], found.final requests⟩ := by
    intro requests front back hfront hback
    refine request_repeat ?_
    rw [Text.trim_append_blanks hfront hback, (found.final_setting requests).2, hfound]
    rfl
  refine ⟨fun ht requests => by rw [hagree ht], ⟨fun hsame => ?_, fun ht => ?_⟩, hrepeats,
    fun requests front back hfront hback ht => ?_, fun ht requests text => ?_⟩
  · by_contra ht
    obtain ⟨texts, hne⟩ := results_ne_of_padded ht registry table nesting
    exact hne (by rw [← hgiven, ← hfound, hsame])
  · rw [hagree ht]
    exact fun _ => rfl
  · rw [hagree ht]
    exact hrepeats requests front back hfront hback
  · have htoken : (given.final requests).repeatToken = t := (given.final_setting requests).2
    simpa [isRepeat, htoken] using trim_ne_of_padded ht text

/-- A token with blanks at both ends: in the environment it repeats, with more blanks as well, and
given it never does, so that the two sessions differ. -/
theorem configured_repeats_padded :
    let environ : Environ := fun name => if name = "MYLISP_REPEAT_TOKEN" then " again " else none
    let given := configured environ (some " again ") (Registry.standard true) Table.empty
    let found := configured environ none (Registry.standard true) Table.empty
    environ "MYLISP_REPEAT_TOKEN" = some " again " ∧ Text.trim " again " ≠ " again " ∧
      (¬∀ texts, given.results texts = found.results texts) ∧
      (∀ requests text, (given.final requests).isRepeat text = false) ∧
      let now := found.final [.text "(list 1 2)", .exit]
      now.request ("\n" ++ " again " ++ "\t") = ⟨.ok now.lastResult, "", [], now⟩ := by
  intro environ given found
  have htoken : environ "MYLISP_REPEAT_TOKEN" = some " again " := rfl
  have hpadded : Text.trim " again " ≠ " again " := by decide
  obtain ⟨-, hagree, hfound, -, hgiven⟩ :=
    configured_repeats htoken environ (Registry.standard true) Table.empty defaultNesting
  exact ⟨htoken, hpadded, fun hsame => hpadded (hagree.mp hsame), hgiven hpadded,
    hfound _ _ _ (by decide) (by decide)⟩

/-- The token is refused as a text where it should repeat the last result. -/
theorem configured_repeats_given :
    let environ : Environ := fun name => if name = "MYLISP_REPEAT_TOKEN" then " again " else none
    let given := configured environ (some " again ") (Registry.standard true) Table.empty
    let found := configured environ none (Registry.standard true) Table.empty
    given.results ["(+ 1 1)", " again "] =
        [.ok (.num 2), .error (.error (.strayToken "again" 6))] ∧
      found.results ["(+ 1 1)", " again "] = [.ok (.num 2), .ok (.num 2)] := by
  decide +kernel

end Session
end SmallLisp
