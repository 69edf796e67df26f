import SqlStore.Proofs.Console.Line
import SqlStore.Proofs.Session.Atomicity

/-! # Lines that change nothing are not seen by others

What the lines of a shell have to do with each other:

* **`Shell.Input.Leaves`** and **`Shell.Prints`** — an interrupt or a line to leave, and an input whose
  answers can all be printed. `Shell.next_eq_leaves_iff` and `Shell.next_eq_goesOn_iff` say that nothing
  else decides what becomes of the shell;
* **`Shell.GoesOn`** and **`Shell.sessionAfter`** — whether the shell goes on behind every one of some
  inputs, and the session that they leave behind, up to the one that ends the shell;
* **`Shell.Quiet`** — an input in which no statement succeeds that could change a table.
  `Shell.step_of_quiet` says that it leaves the session as it was;
* **`Shell.run_eraseIdx_of_quiet`** — so every other input prints the same if such an input is left out
  behind which the shell goes on;
* **`Shell.run_eraseIdx_tooWide`** — but not if it selects too wide a text, since the shell ends there. -/

namespace SqlStore

/-! ## Statements that only ask -/

namespace Session

/-- A statement that fails or only asks leaves the tables as they were. -/
theorem execute_store_of_onlyAsks {s : Session} {statement : Statement}
    (h : ∀ result, (s.execute statement).answer = .ok result → statement.OnlyAsks) :
    (s.execute statement).store = s.store := by
  have hrun : (Procedure.execute s.policy statement).run s.store.bytes = (s.execute statement).result :=
    Procedure.run_execute s.policy s.store statement
  rw [Outcome.result] at hrun
  cases hanswer : (s.execute statement).answer with
  | error e =>
    -- the bytes are those from before, since all reads come before the first write
    rw [hanswer] at hrun
    exact congrArg TableStore.mk (Procedure.atomic_execute s.policy statement _ _ _ hrun)
  | ok result =>
    rw [hanswer] at hrun
    obtain ⟨a, hok⟩ | ⟨e, herror⟩ := Procedure.reads_execute s.policy (h result hanswer) s.store.bytes
    · exact congrArg TableStore.mk (EStateM.Result.ok.inj (hrun.symm.trans hok)).2
    · cases hrun.symm.trans herror

/-- Statements of which none succeeds but those that only ask leave the tables as they were. -/
theorem executeAll_store_of_onlyAsks {s : Session} {statements : List Statement}
    (h : ∀ p ∈ s.successes statements, p.1.OnlyAsks) :
    (executeAll s.policy s.store statements).store = s.store := by
  -- induction on the statements; each of them fails or only asks
  induction statements with
  | nil => rfl
  | cons statement rest ih =>
    have hfirst : ∀ result, (s.execute statement).answer = .ok result → statement.OnlyAsks := by
      intro result hanswer
      rw [successes_of_ok hanswer] at h
      exact h _ List.mem_cons_self
    have hsame := execute_store_of_onlyAsks hfirst
    cases hanswer : (s.execute statement).answer with
    | error e => rw [(executeAll_of_error hanswer rest).2, hsame]
    | ok result =>
      have hafter : s.after (s.execute statement) = s := by rw [after, hsame]
      rw [successes_of_ok hanswer, hafter, List.forall_mem_cons] at h
      rw [(executeAll_of_ok hanswer rest).2, hafter, ih h.2]

/-- A text of which no statement succeeds but those that only ask leaves the session as it was. -/
theorem after_executeText_of_onlyAsks {s : Session} {text : String}
    (h : ∀ p ∈ s.textSuccesses text, p.1.OnlyAsks) : s.after (s.executeText text) = s := by
  have hstore : (s.executeText text).store = s.store := by
    simp only [textSuccesses, executeText] at h ⊢
    split
    · rfl
    · next statements hparse =>
      rw [hparse] at h
      exact executeAll_store_of_onlyAsks h
  rw [after, hstore]

end Session

namespace Shell

/-! ## Leaving the shell -/

/-- Whether an input asks to leave: an interrupt, or one of two words with blanks around it, upper and lower
case alike. -/
def Input.Leaves : Input → Prop
  | .interrupt => True
  | .line text =>
    Text.lowercase (Text.trim text) = "exit" ∨ Text.lowercase (Text.trim text) = "quit"

instance : DecidablePred Input.Leaves
  | .interrupt => .isTrue trivial
  | .line text => inferInstanceAs (Decidable
      (Text.lowercase (Text.trim text) = "exit" ∨ Text.lowercase (Text.trim text) = "quit"))

/-- A line is taken for one of these words and nothing else. -/
theorem Command.ofLine_eq_leave_iff (text : String) :
    Command.ofLine text = .leave ↔ (Input.line text).Leaves := by
  have hempty : Text.lowercase "" = "" := rfl
  simp only [Command.ofLine, Input.Leaves]
  split
  · next hblank => simp [hblank, hempty]
  · split
    · next hword => exact iff_of_true rfl hword
    · next hword =>
      refine iff_of_false (fun hleave => ?_) hword
      split at hleave
      · cases hleave
      · split at hleave <;> cases hleave

/-- An input that asks to leave leaves the session as it was. -/
theorem step_of_leaves (s : Session) {input : Input} (h : input.Leaves) :
    (step s input).session = s := by
  cases input with
  | interrupt => rfl
  | line text => rw [step, (Command.ofLine_eq_leave_iff text).2 h]

/-! ## Going on -/

/-- The statements of an input before the first that fails, each with its result. Only a line of statements has
any. -/
def successesIn (s : Session) : Input → List (Statement × ResultSet)
  | .interrupt => []
  | .line text =>
    match Command.ofLine text with
    | .statements text => s.textSuccesses text
    | _ => []

/-- Whether every answer can be printed that an input has before its first error. -/
def Prints (s : Session) (input : Input) : Prop :=
  ∀ p ∈ successesIn s input, Report.Printable p.2

/-- The shell goes on behind a line whose answers can be printed, and behind no other. -/
theorem next_ofLine_iff {s : Session} {text : String} :
    Next.ofLine (runLine s text).ending = .goesOn ↔
      ∀ p ∈ s.textSuccesses text, Report.Printable p.2 := by
  constructor
  · intro hnext p hp
    by_contra hwide
    obtain ⟨-, -, -, -, -, fault, -, -, -, -, hending, -⟩ := runLine_aborted ⟨p, hp, hwide⟩
    rw [hending] at hnext
    cases hnext
  · intro h
    obtain ⟨_, -, hrun⟩ := runLine_eq h
    rw [hrun]
    cases (s.executeText text).answer <;> rfl

/-- The shell is left at an input that asks to leave and at no other, whatever comes of it. -/
theorem next_eq_leaves_iff (s : Session) (input : Input) :
    (step s input).next = .leaves ↔ input.Leaves := by
  cases input with
  | interrupt => exact iff_of_true rfl trivial
  | line text =>
    rw [← Command.ofLine_eq_leave_iff, step]
    cases Command.ofLine text with
    | leave => exact iff_of_true rfl rfl
    | statements text =>
      refine iff_of_false (fun hnext => ?_) (by simp)
      cases hending : (runLine s text).ending <;> simp [hending, Next.ofLine] at hnext
    | _ => simp

/-- The shell goes on behind any other input whose answers can be printed. -/
theorem next_eq_goesOn_iff (s : Session) (input : Input) :
    (step s input).next = .goesOn ↔ ¬ input.Leaves ∧ Prints s input := by
  cases input with
  | interrupt => simp [step, Input.Leaves]
  | line text =>
    rw [← Command.ofLine_eq_leave_iff, step, Prints, successesIn]
    cases Command.ofLine text with
    | statements text => exact next_ofLine_iff.trans (and_iff_right (by simp)).symm
    | _ => simp

/-- So the shell ends with a fault behind an input that does not ask to leave and has an answer that cannot be
printed. -/
theorem exists_next_eq_aborts {s : Session} {input : Input} (hstays : ¬ input.Leaves)
    (hwide : ¬ Prints s input) : ∃ fault, (step s input).next = .aborts fault := by
  cases hnext : (step s input).next with
  | goesOn => exact absurd ((next_eq_goesOn_iff s input).1 hnext).2 hwide
  | leaves => exact absurd ((next_eq_leaves_iff s input).1 hnext) hstays
  | aborts fault => exact ⟨fault, rfl⟩

/-- A line of statements whose answers can be printed is carried out as its text. -/
theorem step_line {s : Session} {line text : String} (hcommand : Command.ofLine line = .statements text)
    (h : ∀ p ∈ s.textSuccesses text, Report.Printable p.2) :
    (step s (.line line)).next = .goesOn ∧
      (step s (.line line)).session = s.after (s.executeText text) := by
  obtain ⟨_, -, hrun⟩ := runLine_eq h
  simp only [step, hcommand]
  exact ⟨next_ofLine_iff.2 h, by rw [hrun]⟩

/-! ## Runs of inputs -/

/-- Whether the shell goes on behind every one of these inputs. -/
def GoesOn (s : Session) : List Input → Prop
  | [] => True
  | input :: rest => (step s input).next = .goesOn ∧ GoesOn (step s input).session rest

/-- The session that inputs leave behind, up to the one that ends the shell. -/
def sessionAfter (s : Session) : List Input → Session
  | [] => s
  | input :: rest =>
    if (step s input).next = .goesOn then sessionAfter (step s input).session rest
    else (step s input).session

/-- Inputs behind which the shell goes on are followed by others, from where they leave the session. -/
theorem run_append_of_goesOn {s : Session} {before : List Input} (h : GoesOn s before)
    (after : List Input) :
    run s (before ++ after) = run s before ++ run (sessionAfter s before) after ∧
      sessionAfter s (before ++ after) = sessionAfter (sessionAfter s before) after := by
  induction before generalizing s with
  | nil => exact ⟨rfl, rfl⟩
  | cons input before ih =>
    obtain ⟨hnext, hrest⟩ := h
    obtain ⟨hrun, hsession⟩ := ih hrest
    simp only [List.cons_append, run, sessionAfter, if_pos hnext, hrun, hsession, and_self]

/-- The shell goes on behind inputs and others if it does so behind the former and then behind the latter. -/
theorem goesOn_append_iff {s : Session} {before after : List Input} :
    GoesOn s (before ++ after) ↔ GoesOn s before ∧ GoesOn (sessionAfter s before) after := by
  induction before generalizing s with
  | nil => simp [GoesOn, sessionAfter]
  | cons input before ih =>
    by_cases hnext : (step s input).next = .goesOn
    · simp only [List.cons_append, GoesOn, sessionAfter, hnext, if_true, true_and, ih]
    · simp only [List.cons_append, GoesOn, hnext, false_and]

/-- Behind such inputs a fault is one of those that follow. -/
theorem fault?_append_of_goesOn {s : Session} {before : List Input} (h : GoesOn s before)
    (after : List Input) : fault? s (before ++ after) = fault? (sessionAfter s before) after := by
  induction before generalizing s with
  | nil => rfl
  | cons input before ih =>
    obtain ⟨hnext, hrest⟩ := h
    simp only [List.cons_append, fault?, sessionAfter, hnext, if_true, ih hrest]

/-- With one among them behind which the shell does not go on, nothing that follows is read. -/
theorem run_append_of_not_goesOn {s : Session} {before : List Input} (h : ¬ GoesOn s before)
    (after : List Input) :
    run s (before ++ after) = run s before ∧
      sessionAfter s (before ++ after) = sessionAfter s before := by
  induction before generalizing s with
  | nil => exact absurd trivial h
  | cons input before ih =>
    by_cases hnext : (step s input).next = .goesOn
    · obtain ⟨hrun, hsession⟩ := ih fun hrest => h ⟨hnext, hrest⟩
      simp only [List.cons_append, run, sessionAfter, if_pos hnext, hrun, hsession, and_self]
    · simp only [List.cons_append, run, sessionAfter, if_neg hnext, and_self]

/-- Behind an input at which the shell ends nothing is read. -/
theorem run_cons_of_ends {s : Session} {input : Input} (h : (step s input).next ≠ .goesOn)
    (rest : List Input) :
    run s (input :: rest) = [(step s input).printed] ∧
      sessionAfter s (input :: rest) = (step s input).session := by
  rw [run, sessionAfter, if_neg h, if_neg h]
  exact ⟨rfl, rfl⟩

/-- Not more than one text is printed for each input. -/
theorem length_run_le (s : Session) (inputs : List Input) : (run s inputs).length ≤ inputs.length := by
  induction inputs generalizing s with
  | nil => exact Nat.le_refl 0
  | cons input rest ih =>
    rw [run, List.length_cons, List.length_cons]
    split
    · exact Nat.succ_le_succ (ih _)
    · exact Nat.succ_le_succ (Nat.zero_le _)

/-- One text is printed for each input if the shell goes on behind all of them. -/
theorem length_run {s : Session} {inputs : List Input} (h : GoesOn s inputs) :
    (run s inputs).length = inputs.length := by
  induction inputs generalizing s with
  | nil => rfl
  | cons input rest ih =>
    rw [run, if_pos h.1, List.length_cons, List.length_cons, ih h.2]

/-! ## Inputs that change nothing -/

/-- Whether no statement succeeds in an input but selections and insertions without values. -/
def Quiet (s : Session) (input : Input) : Prop :=
  ∀ p ∈ successesIn s input, p.1.OnlyAsks

/-- A quiet input leaves the session as it was, if its answers can be printed. -/
theorem step_of_quiet {s : Session} {input : Input} (hprints : Prints s input) (h : Quiet s input) :
    (step s input).session = s := by
  cases input with
  | interrupt => rfl
  | line text =>
    simp only [Prints, Quiet, successesIn] at hprints h
    cases hcommand : Command.ofLine text with
    | statements text =>
      simp only [hcommand] at hprints h
      rw [(step_line hcommand hprints).2, Session.after_executeText_of_onlyAsks h]
    | _ => simp only [step, hcommand]

/-- If a quiet input is left out behind which the shell goes on, every other input prints what it did. The
shell is left at an input that asks to leave and at no other, and it goes on behind all others whose answers
can be printed, the lines that fail among them; no numeral makes it give up. An answer that cannot be printed
is the fault at which it ends. Behind an input at which it ends nothing is read and nothing is carried out, and
one that asks to leave changes nothing itself. -/
theorem run_eraseIdx_of_quiet (s : Session) (before after : List Input) (input : Input) :
    let reached := sessionAfter s before
    let next := (step reached input).next
    ((GoesOn s before → ¬ input.Leaves ∧ Prints reached input ∧ Quiet reached input) →
      run s (before ++ after) = (run s (before ++ input :: after)).eraseIdx before.length) ∧
      (next = .leaves ↔ input.Leaves) ∧
      (next = .goesOn ↔ ¬ input.Leaves ∧ Prints reached input) ∧
      (∀ text, NumeralsRead (reached.executeText text).answer) ∧
      (GoesOn s before → ¬ input.Leaves → ¬ Prints reached input → ∃ fault,
        next = .aborts fault ∧ fault? s (before ++ input :: after) = some fault) ∧
      (next ≠ .goesOn → run s (before ++ input :: after) = run s (before ++ [input]) ∧
        sessionAfter s (before ++ input :: after) = sessionAfter s (before ++ [input])) ∧
      (input.Leaves → sessionAfter s (before ++ input :: after) = reached) := by
  intro reached next
  refine ⟨fun hquiet => ?_, next_eq_leaves_iff _ input, next_eq_goesOn_iff _ input,
    reached.executeText_numeralsRead, fun hreached hstays hwide => ?_, fun hends => ?_,
    fun hleaves => ?_⟩
  · by_cases hreached : GoesOn s before
    · obtain ⟨hstays, hprints, hasks⟩ := hquiet hreached
      -- what is printed for the input is all that it comes to
      have hinput : run reached (input :: after)
          = (step reached input).printed :: run reached after := by
        rw [run, if_pos ((next_eq_goesOn_iff _ _).2 ⟨hstays, hprints⟩), step_of_quiet hprints hasks]
      rw [(run_append_of_goesOn hreached _).1, (run_append_of_goesOn hreached _).1, hinput,
        ← length_run hreached, List.eraseIdx_append_of_length_le (Nat.le_refl _), Nat.sub_self,
        List.eraseIdx_cons_zero]
    · -- the input is not read
      rw [(run_append_of_not_goesOn hreached _).1, (run_append_of_not_goesOn hreached _).1,
        List.eraseIdx_of_length_le (length_run_le s before)]
  · obtain ⟨fault, hfault⟩ := exists_next_eq_aborts hstays hwide
    refine ⟨fault, hfault, ?_⟩
    rw [fault?_append_of_goesOn hreached, fault?, hfault]
  · have hended : ¬ GoesOn s (before ++ [input]) :=
      fun hgoes => hends (goesOn_append_iff.1 hgoes).2.1
    have hbehind := run_append_of_not_goesOn hended after
    rwa [List.append_assoc] at hbehind
  · by_cases hreached : GoesOn s before
    · have hends : (step reached input).next ≠ .goesOn :=
        fun hnext => ((next_eq_goesOn_iff _ _).1 hnext).1 hleaves
      rw [(run_append_of_goesOn hreached _).2, (run_cons_of_ends hends _).2, step_of_leaves _ hleaves]
    · exact (run_append_of_not_goesOn hreached _).2

/-- A line whose first statement fails is left out between the definition of a table and the list of
tables, and nothing is read behind the line to leave. -/
theorem run_eraseIdx_of_quiet_failing :
    let before : List Shell.Input := [.line "create table t"]
    let input : Shell.Input := .line "insert into u;create table v"
    let after : List Shell.Input := [.line "tables", .line " Exit", .line "help"]
    (Prints (sessionAfter {} before) input ∧ Quiet (sessionAfter {} before) input) ∧
      run {} (before ++ input :: after)
        = ["ok\n", "Error: table u does not exist\n", "t ()\n", ""] ∧
      run {} (before ++ after) = ["ok\n", "t ()\n", ""] := by
  intro before input after
  have hcreate : parseText "create table t" = .ok [.createTable ⟨.identifier, "t", ⟨0, 13⟩⟩ none] := by
    rw [parseText, TokenStream.ofText, TokenStream.ofLexer_eq_upTo (n := 30) (by decide)]
    decide +kernel
  have hinsert : parseText "insert into u;create table v" = .ok [
      .insert ⟨.identifier, "u", ⟨0, 12⟩⟩ none, .createTable ⟨.identifier, "v", ⟨0, 27⟩⟩ none] := by
    rw [parseText, TokenStream.ofText, TokenStream.ofLexer_eq_upTo (n := 30) (by decide)]
    decide +kernel
  have hfirst : Command.ofLine "create table t" = .statements "create table t" := by decide +kernel
  have hsecond : Command.ofLine "insert into u;create table v"
      = .statements "insert into u;create table v" := by decide +kernel
  have hsession : sessionAfter {} before = (runStatements {} [.createTable ⟨.identifier, "t", ⟨0, 13⟩⟩
      none]).session := by
    simp only [before, sessionAfter, step, hfirst, runLine, hcreate, ite_self]
  have hfails : ((sessionAfter {} before).execute (.insert ⟨.identifier, "u", ⟨0, 12⟩⟩ none)).answer
      = .error (.tableNotFound "u") := by
    rw [hsession]
    decide +kernel
  have hquiet : Prints (sessionAfter {} before) input ∧ Quiet (sessionAfter {} before) input := by
    simp only [Prints, Quiet, successesIn, input, hsecond, Session.textSuccesses, hinsert,
      Session.successes_of_error hfails]
    exact ⟨List.forall_mem_nil _, List.forall_mem_nil _⟩
  have hrun : run {} (before ++ input :: after)
      = ["ok\n", "Error: table u does not exist\n", "t ()\n", ""] := by
    simp only [before, input, after, List.cons_append, List.nil_append, run, step, hfirst, hsecond,
      runLine, hcreate, hinsert]
    decide +kernel
  refine ⟨hquiet, hrun, ?_⟩
  have hstays : ¬ input.Leaves := by decide +kernel
  rw [(run_eraseIdx_of_quiet {} before after input).1 fun _ => ⟨hstays, hquiet⟩, hrun]
  rfl

/-! ## Too wide a column -/

/-- A line without blanks at its ends is for its statements if no other command begins with its first
letter. -/
theorem Command.ofLine_eq_statements {line : String} {first last : Char} {middle : List Char}
    (hline : line.toList = first :: (middle ++ [last])) (hfirst : Text.isBlank first = false)
    (hlast : Text.isBlank last = false)
    (hletter : (Text.lowercase line).toList.head? ∉ [some 'e', some 'q', some 'h', some 't']) :
    ofLine line = .statements line := by
  have htrim : Text.trim line = line := by
    rw [Text.trim, Text.trimChars, hline, List.dropWhile_cons_of_neg (by simp [hfirst]),
      ← List.cons_append, List.reverse_append, List.reverse_singleton, List.singleton_append,
      List.dropWhile_cons_of_neg (by simp [hlast]), List.reverse_cons, List.reverse_reverse,
      List.cons_append, ← hline, String.ofList_toList]
  have hempty : line ≠ "" := by
    rintro rfl
    cases hline
  have hother : ∀ word : String, word.toList.head? ∈ [some 'e', some 'q', some 'h', some 't'] →
      Text.lowercase line ≠ word := by
    rintro word hword rfl
    exact hletter hword
  simp only [ofLine, htrim, hempty, hother "exit" (by decide), hother "quit" (by decide),
    hother "help" (by decide), hother "tables" (by decide), or_self, if_false]

/-- The lines that a session with a text is made by. -/
def Input.holding (text : String) : List Input :=
  [.line Table.ofTexts.createText, .line (Table.ofTexts.insertText [.text text])]

/-- The second of them is for its statements, as the text stands within it. -/
theorem Command.ofLine_insertText (text : String) :
    ofLine (Table.ofTexts.insertText [.text text])
      = .statements (Table.ofTexts.insertText [.text text]) := by
  have hline : (Table.ofTexts.insertText [.text text]).toList =
      'I' :: ("NSERT INTO ".toList ++ (quoteName "t").toList ++ " VALUES (".toList ++
        (", ".intercalate [(Value.text text).literal]).toList ++ [')']) := by
    simp only [Table.insertText, Table.ofTexts, String.toList_append, String.reduceToList,
      List.cons_append, List.map_cons, List.map_nil]
  have hletter : (Text.lowercase (Table.ofTexts.insertText [.text text])).toList.head? = some 'i' := by
    rw [Text.lowercase, String.toList_ofList, hline]
    rfl
  refine ofLine_eq_statements hline rfl rfl ?_
  rw [hletter]
  decide

/-- The shell goes on behind these lines, with such a session. -/
theorem sessionAfter_holding {text : String} (h : Text.Fits text) :
    GoesOn {} (Input.holding text) ∧ sessionAfter {} (Input.holding text) = .holding text := by
  obtain ⟨hcreated, hinserted, -⟩ := Session.answers_holding h
  have hfirst : Command.ofLine Table.ofTexts.createText = .statements Table.ofTexts.createText := by
    decide +kernel
  obtain ⟨hnext, hsession⟩ := step_line hfirst
    ((Session.forall_textSuccesses hcreated).2 (List.forall_mem_singleton.2 trivial))
  obtain ⟨hnext', hsession'⟩ := step_line (Command.ofLine_insertText text)
    ((Session.forall_textSuccesses hinserted).2 (List.forall_mem_singleton.2 trivial))
  simp only [Input.holding, GoesOn, sessionAfter, hnext, hsession, hnext', hsession', if_true,
    and_self, true_and]
  rw [Session.holding, List.foldl_cons, List.foldl_cons, List.foldl_nil]

/-- A line that is neither to leave nor changes a table, and without which another line prints more. -/
theorem run_eraseIdx_tooWide :
    let before := Input.holding Report.tooWide
    let input : Input := .line Table.ofTexts.selectText
    ¬ input.Leaves ∧ Quiet (sessionAfter {} before) input ∧
      run {} (before ++ [.line "tables"])
        ≠ (run {} (before ++ [input, .line "tables"])).eraseIdx before.length := by
  intro before input
  obtain ⟨hfits, hwide⟩ := Report.fits_tooWide
  obtain ⟨hreached, hsession⟩ := sessionAfter_holding hfits
  have hcommand : Command.ofLine Table.ofTexts.selectText = .statements Table.ofTexts.selectText := by
    decide +kernel
  have hends : (step (sessionAfter {} before) input).next ≠ .goesOn := by
    intro hnext
    have hprints := ((next_eq_goesOn_iff _ _).1 hnext).2
    rw [hsession] at hprints
    simp only [Prints, successesIn, input, hcommand] at hprints
    rw [Session.forall_textSuccesses (Session.answers_holding hfits).2.2] at hprints
    exact hwide (hprints _ (List.mem_singleton_self _))
  have hquiet : Quiet (sessionAfter {} before) input := by
    obtain ⟨statement, hparse, hselects⟩ :=
      Table.parseText_selectText (t := Table.ofTexts) (List.cons_ne_nil _ _)
    simp only [Quiet, successesIn, input, hcommand, Session.textSuccesses, hparse]
    intro p hp
    rw [List.mem_singleton.1 (Session.mem_of_mem_successes hp)]
    cases statement with
    | select items table => trivial
    | _ => exact hselects.elim
  have hstays : ¬ input.Leaves := by
    rw [← Command.ofLine_eq_leave_iff, hcommand]
    simp
  refine ⟨hstays, hquiet, fun hsame => ?_⟩
  -- the list of tables is what is printed more
  rw [(run_append_of_goesOn hreached _).1, (run_append_of_goesOn hreached _).1,
    (run_cons_of_ends hends _).1, ← length_run hreached, List.eraseIdx_append_of_length_le (Nat.le_refl _),
    Nat.sub_self, List.eraseIdx_cons_zero] at hsame
  exact List.cons_ne_nil _ _ (List.append_cancel_left hsame)

end Shell

end SqlStore
