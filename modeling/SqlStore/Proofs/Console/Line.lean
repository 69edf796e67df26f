import SqlStore.Console.Shell
import SqlStore.Proofs.Console.Alignment
import SqlStore.Proofs.Session.Numerals
import SqlStore.Proofs.Session.RoundTrip

/-! # A line of statements prints what its text is answered

A line is carried out statement by statement with each answer printed as it comes, and a text is carried out
and answered as a whole:

* **`Session.successes`** and **`Session.textSuccesses`** — the statements before the first that fails, with
  their results, by the answers to all of them;
* **`runStatements_eq`** and **`runLine_eq`** — statements and lines of which every result can be printed
  print these results and then the error, if there is one;
* **`runStatements_aborted`** and **`runLine_aborted`** — all others end at the first result that cannot be
  printed;
* **`runLine_agrees`** — so a line succeeds exactly if its text does, leaves the same session, and prints
  the same results and the same error, unless it has a result with too wide a column;
* **`Session.holding`** and **`Report.tooWide`** — a session with a text in a table, and a text that can be
  stored and selected there and not printed. -/

namespace SqlStore

namespace Session

/-! ## What succeeds -/

/-- The statements before the first that fails, each with its result. -/
def successes (s : Session) (statements : List Statement) : List (Statement × ResultSet) :=
  let answered := (statements.zip (s.answers statements)).takeWhile (·.2.toBool)
  answered.filterMap fun (statement, answer) => answer.toOption.map (statement, ·)

/-- The statements of a text before the first that fails, each with its result. A text that is not read has
none. -/
def textSuccesses (s : Session) (text : String) : List (Statement × ResultSet) :=
  match parseText text with
  | .error _ => []
  | .ok statements => s.successes statements

variable {s : Session} {statement : Statement}

/-- Only the statements themselves are among those that succeed. -/
theorem mem_of_mem_successes {statements : List Statement} {p : Statement × ResultSet}
    (h : p ∈ s.successes statements) : p.1 ∈ statements := by
  obtain ⟨⟨statement, answer⟩, hanswered, hp⟩ := List.mem_filterMap.1 h
  obtain ⟨result, -, rfl⟩ := Option.map_eq_some_iff.1 hp
  exact (List.of_mem_zip (List.takeWhile_subset _ hanswered)).1

/-- Nothing succeeds before a first statement that fails. -/
theorem successes_of_error {e : Error} (h : (s.execute statement).answer = .error e)
    (rest : List Statement) :
    s.successes (statement :: rest) = [] := by
  simp [successes, answers, h, Except.toBool]

/-- A first statement that succeeds comes before those that do after it. -/
theorem successes_of_ok {result : ResultSet} (h : (s.execute statement).answer = .ok result)
    (rest : List Statement) :
    s.successes (statement :: rest)
      = (statement, result) :: (s.after (s.execute statement)).successes rest := by
  simp [successes, answers, h, Except.toBool, Except.toOption]

/-- Statements one after the other end with a first one that fails. -/
theorem executeAll_of_error {e : Error} (h : (s.execute statement).answer = .error e)
    (rest : List Statement) :
    (executeAll s.policy s.store (statement :: rest)).answer = .error e ∧
      (executeAll s.policy s.store (statement :: rest)).store = (s.execute statement).store := by
  have hfirst : (SqlStore.execute s.policy s.store statement).answer = .error e := h
  rw [executeAll, Outcome.andThen, hfirst]
  exact ⟨rfl, rfl⟩

/-- Behind a first statement that succeeds the others are carried out from where it leaves the session. -/
theorem executeAll_of_ok {result : ResultSet} (h : (s.execute statement).answer = .ok result)
    (rest : List Statement) :
    let later := executeAll s.policy (s.after (s.execute statement)).store rest
    (executeAll s.policy s.store (statement :: rest)).answer = later.answer.map (result :: ·) ∧
      (executeAll s.policy s.store (statement :: rest)).store = later.store := by
  have hfirst : (SqlStore.execute s.policy s.store statement).answer = .ok result := h
  rw [executeAll, Outcome.andThen, hfirst]
  exact ⟨rfl, rfl⟩

/-- The results of statements that all succeed are those before the first failure. -/
theorem executeAll_results {statements : List Statement} {results : List ResultSet}
    (h : (executeAll s.policy s.store statements).answer = .ok results) :
    results = (s.successes statements).map (·.2) := by
  induction statements generalizing s results with
  | nil => exact (Except.ok.inj h).symm
  | cons statement rest ih =>
    cases hanswer : (s.execute statement).answer with
    | error e =>
      rw [(executeAll_of_error hanswer rest).1] at h
      cases h
    | ok result =>
      rw [(executeAll_of_ok hanswer rest).1] at h
      cases hlater : (executeAll s.policy (s.after (s.execute statement)).store rest).answer with
      | error e =>
        rw [hlater] at h
        cases h
      | ok others =>
        rw [hlater] at h
        rw [successes_of_ok hanswer, List.map_cons, ← ih hlater]
        exact (Except.ok.inj h).symm

end Session

/-! ## Statements one by one -/

/-- How a line ends whose text has this answer, if it can print all results. -/
def LineEnd.ofAnswer {α : Type} : Except Error α → LineEnd
  | .ok _ => .succeeded
  | .error _ => .failed

/-- Another result changes nothing about whether there is an error. -/
@[simp] theorem LineEnd.ofAnswer_map {α β : Type} (f : α → β) (answer : Except Error α) :
    ofAnswer (answer.map f) = ofAnswer answer := by
  cases answer <;> rfl

/-- The line that tells of the error of an answer, if it has one. -/
def Report.ofFault {α : Type} : Except Error α → String
  | .ok _ => ""
  | .error e => ofError e

/-- Another result changes nothing about an error. -/
@[simp] theorem Report.ofFault_map {α β : Type} (f : α → β) (answer : Except Error α) :
    ofFault (answer.map f) = ofFault answer := by
  cases answer <;> rfl

/-- If every result before the first error can be printed, statements print them and then the error, and apart
from that they are carried out as all at once. -/
theorem runStatements_eq (s : Session) (statements : List Statement)
    (h : ∀ p ∈ s.successes statements, Report.Printable p.2) :
    let outcome := executeAll s.policy s.store statements
    ∃ printed, ((s.successes statements).map (·.2)).mapM Report.ofResult = .ok printed ∧
      runStatements s statements = ⟨.ofAnswer outcome.answer,
        String.join printed ++ Report.ofFault outcome.answer, s.after outcome⟩ := by
  induction statements generalizing s with
  | nil => exact ⟨[], rfl, rfl⟩
  | cons statement rest ih =>
    intro outcome
    cases hanswer : (s.execute statement).answer with
    | error e =>
      obtain ⟨herror, hstore⟩ := Session.executeAll_of_error hanswer rest
      rw [Session.successes_of_error hanswer]
      refine ⟨[], rfl, ?_⟩
      simp only [runStatements, hanswer, outcome, herror, Session.after, hstore]
      rfl
    | ok result =>
      obtain ⟨hlater, hstore⟩ := Session.executeAll_of_ok hanswer rest
      rw [Session.successes_of_ok hanswer, List.forall_mem_cons] at h
      obtain ⟨text, htext⟩ := Report.exists_ofResult_iff.2 h.1
      obtain ⟨printed, hprinted, hrun⟩ := ih (s.after (s.execute statement)) h.2
      rw [Session.successes_of_ok hanswer, List.map_cons]
      refine ⟨text :: printed, mapM_cons_eq_ok_iff.2 ⟨_, _, htext, hprinted, rfl⟩, ?_⟩
      simp only [runStatements, hanswer, htext, outcome, hlater, LineEnd.ofAnswer_map,
        Report.ofFault_map, String.join_cons, String.append_assoc, hrun]
      simp only [Session.after, hstore]

/-- If some result before the first error cannot be printed, statements print those in front of the first such
one, and nothing is done after that: no statement behind the one of that result is carried out. -/
theorem runStatements_aborted (s : Session) (statements : List Statement)
    (h : ∃ p ∈ s.successes statements, ¬ Report.Printable p.2) :
    ∃ front result back printed fault,
      (s.successes statements).map (·.2) = front ++ result :: back ∧
      front.mapM Report.ofResult = .ok printed ∧ Report.ofResult result = .error fault ∧
      (runStatements s statements).ending = .aborted fault ∧
      (runStatements s statements).printed = String.join printed ∧
      (runStatements s statements).session
        = s.after (executeAll s.policy s.store (statements.take (front.length + 1))) := by
  induction statements generalizing s with
  | nil =>
    obtain ⟨p, hp, -⟩ := h
    cases hp
  | cons statement rest ih =>
    obtain ⟨p, hp, hwide⟩ := h
    cases hanswer : (s.execute statement).answer with
    | error e =>
      rw [Session.successes_of_error hanswer] at hp
      cases hp
    | ok result =>
      rw [Session.successes_of_ok hanswer] at hp ⊢
      cases hresult : Report.ofResult result with
      | error fault =>
        refine ⟨[], result, _, [], fault, rfl, rfl, hresult, ?_, ?_, ?_⟩
        · simp only [runStatements, hanswer, hresult]
        · simp only [runStatements, hanswer, hresult]
          rfl
        · simp only [runStatements, hanswer, hresult]
          exact congrArg (Session.mk s.policy) (Session.executeAll_of_ok hanswer []).2.symm
      | ok text =>
        have hlater : p ∈ (s.after (s.execute statement)).successes rest := by
          refine (List.mem_cons.1 hp).resolve_left ?_
          rintro rfl
          exact hwide (Report.exists_ofResult_iff.1 ⟨text, hresult⟩)
        obtain ⟨front, wide, back, printed, fault, hsplit, hprinted, hfault, hending, hrun, hsession⟩ :=
          ih (s.after (s.execute statement)) ⟨p, hlater, hwide⟩
        refine ⟨result :: front, wide, back, text :: printed, fault, ?_,
          mapM_cons_eq_ok_iff.2 ⟨_, _, hresult, hprinted, rfl⟩, hfault, ?_, ?_, ?_⟩
        · rw [List.map_cons, hsplit, List.cons_append]
        · simp only [runStatements, hanswer, hresult, hending]
        · simp only [runStatements, hanswer, hresult, hrun, String.join_cons]
        · have hstore := (Session.executeAll_of_ok hanswer (rest.take (front.length + 1))).2
          simp only [runStatements, hanswer, hresult, hsession]
          exact congrArg (Session.mk s.policy) hstore.symm

/-! ## Whole lines -/

/-- If every result before the first error can be printed, a line prints them and then the error, and apart
from that it is carried out as its text. -/
theorem runLine_eq {s : Session} {text : String}
    (h : ∀ p ∈ s.textSuccesses text, Report.Printable p.2) :
    let outcome := s.executeText text
    ∃ printed, ((s.textSuccesses text).map (·.2)).mapM Report.ofResult = .ok printed ∧
      runLine s text = ⟨.ofAnswer outcome.answer,
        String.join printed ++ Report.ofFault outcome.answer, s.after outcome⟩ := by
  unfold Session.textSuccesses at h ⊢
  simp only [runLine, Session.executeText]
  cases hparse : parseText text with
  | error e => exact ⟨[], rfl, rfl⟩
  | ok statements =>
    rw [hparse] at h
    exact runStatements_eq s statements h

/-- If some result before the first error cannot be printed, a line prints those in front of the first such
one, and nothing is done after that. -/
theorem runLine_aborted {s : Session} {text : String}
    (h : ∃ p ∈ s.textSuccesses text, ¬ Report.Printable p.2) :
    ∃ statements front result back printed fault, parseText text = .ok statements ∧
      (s.textSuccesses text).map (·.2) = front ++ result :: back ∧
      front.mapM Report.ofResult = .ok printed ∧ Report.ofResult result = .error fault ∧
      (runLine s text).ending = .aborted fault ∧ (runLine s text).printed = String.join printed ∧
      (runLine s text).session
        = s.after (executeAll s.policy s.store (statements.take (front.length + 1))) := by
  unfold Session.textSuccesses at h ⊢
  cases hparse : parseText text with
  | error e =>
    obtain ⟨p, hp, -⟩ := h
    rw [hparse] at hp
    cases hp
  | ok statements =>
    rw [hparse] at h
    simp only [runLine, hparse]
    obtain ⟨front, result, back, printed, fault, hrun⟩ := runStatements_aborted s statements h
    exact ⟨statements, front, result, back, printed, fault, rfl, hrun⟩

/-- The results that a text is answered with are those of its statements before the first failure. -/
theorem Session.executeText_results {s : Session} {text : String} {results : List ResultSet}
    (h : (s.executeText text).answer = .ok results) :
    results = (s.textSuccesses text).map (·.2) := by
  unfold Session.executeText at h
  unfold Session.textSuccesses
  cases hparse : parseText text with
  | error e => simp [hparse, Outcome.unchanged] at h
  | ok statements =>
    rw [hparse] at h
    exact executeAll_results h

/-- So what holds of all results of a text that succeeds holds of all of its statements. -/
theorem Session.forall_textSuccesses {s : Session} {text : String} {results : List ResultSet}
    {P : ResultSet → Prop} (h : (s.executeText text).answer = .ok results) :
    (∀ p ∈ s.textSuccesses text, P p.2) ↔ ∀ result ∈ results, P result := by
  rw [executeText_results h, List.forall_mem_map]

/-! ## Too wide a column -/

/-- A table with one column of texts. -/
def Table.ofTexts : Table := ⟨"t", [⟨"a", .text⟩]⟩

/-- The session behind the texts that define this table and insert a text into it. -/
def Session.holding (text : String) : Session :=
  [Table.ofTexts.createText, Table.ofTexts.insertText [.text text]].foldl
    (fun s text => s.after (s.executeText text)) {}

/-- The table is defined, the text is inserted, and it is selected again. -/
theorem Session.answers_holding {text : String} (h : Text.Fits text) :
    let created := ({} : Session).after (executeText {} Table.ofTexts.createText)
    (executeText {} Table.ofTexts.createText).answer = .ok [.created "t"] ∧
      (created.executeText (Table.ofTexts.insertText [.text text])).answer = .ok [.inserted 1] ∧
      ((holding text).executeText Table.ofTexts.selectText).answer
        = .ok [.selected [⟨"a", .text⟩] [[.text text]]] := by
  have ht : Table.ofTexts.Fits := by decide
  have hne : Table.ofTexts.columns ≠ [] := List.cons_ne_nil _ _
  have hrow : Table.ofTexts.CanHold [.text text] := .cons ⟨rfl, trivial, h⟩ .nil
  obtain ⟨hcreated, hstores⟩ :=
    executeText_runs (s := {}) .empty (Database.runs_createText .replace ht hne)
  obtain ⟨hinserted, hstores⟩ := executeText_runs (s := ({} : Session).after _) hstores
    (Database.runs_insertText .replace ht hne (Function.update_self ..) hrow (by decide))
  obtain ⟨hselected, -⟩ := executeText_runs (s := holding text) hstores
    (Database.runs_selectText .replace ht hne (Function.update_self ..)
      (List.forall_mem_singleton.2 hrow) (by simp))
  refine ⟨hcreated, hinserted, ?_⟩
  rw [hselected]
  rfl

/-- The selection can be printed if two dashes more than the text has bytes can be. -/
theorem Report.printable_text_iff {text : String} :
    Printable (.selected [⟨"a", .text⟩] [[.text text]]) ↔ byteLength text + 2 ≤ maxWidth := by
  have hname : max minWidth (byteLength "a") = 3 := rfl
  simp only [Printable, widths, List.map_cons, List.map_nil, List.foldl_cons, List.foldl_nil, widen,
    hname, Value.written, List.forall_mem_singleton, maxWidth]
  omega

/-- A text of one letter over and over has a byte for each. -/
theorem Report.byteLength_replicate (n : Nat) :
    byteLength (String.ofList (List.replicate n 'x')) = n := by
  have hascii : ∀ c ∈ List.replicate n 'x', c.toNat < 128 := by
    intro c hc
    rw [List.eq_of_mem_replicate hc]
    decide
  rw [byteLength, Utf8.length_encode_of_lt hascii, List.length_replicate]

/-- A text with so many bytes that no dashes can be printed under it. -/
def Report.tooWide : String := String.ofList (List.replicate 65534 'x')

/-- It can be stored in full, but its selection cannot be printed. -/
theorem Report.fits_tooWide : Text.Fits tooWide ∧
    ¬ Printable (.selected [⟨"a", .text⟩] [[.text tooWide]]) := by
  have hlength : byteLength tooWide = 65534 := byteLength_replicate 65534
  refine ⟨?_, ?_⟩
  · show byteLength tooWide < 2 ^ 64
    rw [hlength]
    decide
  · rw [printable_text_iff, hlength]
    decide

/-! ## What a line and its text have in common -/

/-- Whatever a session has stored, a line succeeds exactly if its text is answered with results, and it
leaves the session as the text does. It prints the results of the statements before the first that fails,
which are all that the text is answered with if none does. Only if there is an error, the line of the error
comes behind them, and it is the one that the text is answered with. All this holds exactly if these results
have no column that is too wide. Otherwise the line ends where it would print the first of them that has one:
it neither succeeds nor fails, and only the statements up to that one have been carried out. No numeral in a
text makes either of them give up. -/
theorem runLine_agrees (s : Session) (text : String) :
    let line := runLine s text
    let outcome := s.executeText text
    let results := (s.textSuccesses text).map (·.2)
    ((∀ result ∈ results, Report.Printable result) → ∃ printed,
      results.mapM Report.ofResult = .ok printed ∧
      (line.succeeded = true ↔ ∃ all, outcome.answer = .ok all) ∧
      line.session = s.after outcome ∧
      (∀ all, outcome.answer = .ok all → all = results ∧ line.printed = String.join printed) ∧
      (∀ e, outcome.answer = .error e → line.ending = .failed ∧
        line.printed = String.join printed ++ ("Error: " ++ e.message ++ "\n"))) ∧
    ((∃ result ∈ results, ¬ Report.Printable result) → ∃ statements front wide back printed fault,
      parseText text = .ok statements ∧
      results = front ++ wide :: back ∧ front.mapM Report.ofResult = .ok printed ∧
      Report.ofResult wide = .error fault ∧ line.ending = .aborted fault ∧
      line.printed = String.join printed ∧
      line.session = s.after (executeAll s.policy s.store (statements.take (front.length + 1)))) ∧
    NumeralsRead outcome.answer := by
  intro line outcome results
  refine ⟨fun h => ?_, fun h => ?_, s.executeText_numeralsRead text⟩
  · obtain ⟨printed, hprinted, hrun⟩ := runLine_eq fun p hp => h p.2 (List.mem_map_of_mem hp)
    have hline : line = ⟨.ofAnswer outcome.answer, String.join printed ++ Report.ofFault outcome.answer,
      s.after outcome⟩ := hrun
    refine ⟨printed, hprinted, ?_, ?_, fun all hok => ⟨Session.executeText_results hok, ?_⟩,
      fun e herror => ?_⟩
    · rw [hline]
      cases outcome.answer <;> simp [LineResult.succeeded, LineEnd.ofAnswer]
    · rw [hline]
    · rw [hline, hok]
      exact String.append_empty
    · rw [hline, herror]
      exact ⟨rfl, rfl⟩
  · obtain ⟨result, hresult, hwide⟩ := h
    obtain ⟨p, hp, rfl⟩ := List.mem_map.1 hresult
    exact runLine_aborted ⟨p, hp, hwide⟩

/-- A line of three statements, the last of which fails, prints two results and the error, and keeps the
table. A line that selects too wide a text prints nothing and ends there. -/
theorem runLine_agrees_failing :
    let text := "create table t (a int);insert into t;select a from u"
    let outcome := ({} : Session).executeText text
    (outcome.answer = .error (.tableNotFound "u") ∧
      (runLine {} text).printed = "ok\nok\nError: table u does not exist\n" ∧
      (runLine {} text).ending = .failed ∧
      (runLine {} text).session = Session.after {} outcome) ∧
    ∃ fault, (runLine (.holding Report.tooWide) Table.ofTexts.selectText).ending = .aborted fault ∧
      (runLine (.holding Report.tooWide) Table.ofTexts.selectText).printed = "" := by
  intro text outcome
  constructor
  · have hparse : parseText text = .ok [
        .createTable ⟨.identifier, "t", ⟨0, 13⟩⟩
          (some [⟨⟨.identifier, "a", ⟨0, 16⟩⟩, ⟨.keyword, "int", ⟨0, 18⟩⟩⟩]),
        .insert ⟨.identifier, "t", ⟨0, 35⟩⟩ none,
        .select [.literal ⟨.identifier, "a", ⟨0, 44⟩⟩] ⟨.identifier, "u", ⟨0, 51⟩⟩] := by
      rw [parseText, TokenStream.ofText, TokenStream.ofLexer_eq_upTo (n := 60) (by decide)]
      decide +kernel
    have herror : outcome.answer = .error (.tableNotFound "u") := by
      simp only [outcome, Session.executeText, hparse]
      decide +kernel
    have hresults : (Session.textSuccesses {} text).map (·.2) = [.created "t", .inserted 0] := by
      simp only [Session.textSuccesses, hparse]
      decide +kernel
    have hprintable : ∀ result ∈ (Session.textSuccesses {} text).map (·.2), Report.Printable result := by
      rw [hresults]
      exact List.forall_mem_cons.2 ⟨trivial, List.forall_mem_singleton.2 trivial⟩
    obtain ⟨printed, hprinted, -, hsession, -, hfails⟩ := (runLine_agrees {} text).1 hprintable
    rw [hresults] at hprinted
    obtain rfl : ["ok\n", "ok\n"] = printed := Except.ok.inj hprinted
    obtain ⟨hending, hline⟩ := hfails _ herror
    exact ⟨herror, hline, hending, hsession⟩
  · obtain ⟨hfits, hwide⟩ := Report.fits_tooWide
    have hresults := Session.executeText_results (Session.answers_holding hfits).2.2
    obtain ⟨_, front, wide, back, printed, fault, -, hsplit, hprinted, -, hending, hline, -⟩ :=
      (runLine_agrees (.holding Report.tooWide) Table.ofTexts.selectText).2.1
        ⟨_, hresults ▸ List.mem_singleton_self _, hwide⟩
    rw [← hresults] at hsplit
    cases front with
    | nil =>
      obtain rfl : [] = printed := Except.ok.inj hprinted
      exact ⟨fault, hending, hline⟩
    | cons first front => cases front <;> cases hsplit

/-- A text that is answered with a selection whose line does not succeed. -/
theorem runLine_aborts_tooWide :
    let s := Session.holding Report.tooWide
    (∃ fault, (runLine s Table.ofTexts.selectText).ending = .aborted fault) ∧
      ¬ ((runLine s Table.ofTexts.selectText).succeeded = true
        ↔ ∃ results, (s.executeText Table.ofTexts.selectText).answer = .ok results) := by
  intro s
  obtain ⟨hfits, hwide⟩ := Report.fits_tooWide
  have hselected := (Session.answers_holding hfits).2.2
  have hresults := Session.executeText_results hselected
  obtain ⟨p, hp, hresult⟩ := List.mem_map.1 (hresults ▸ List.mem_singleton_self _)
  obtain ⟨-, -, -, -, -, fault, -, -, -, -, hending, -⟩ := runLine_aborted ⟨p, hp, hresult ▸ hwide⟩
  refine ⟨⟨fault, hending⟩, fun h => ?_⟩
  have hsucceeded := h.2 ⟨_, hselected⟩
  rw [LineResult.succeeded, hending] at hsucceeded
  cases hsucceeded

end SqlStore
