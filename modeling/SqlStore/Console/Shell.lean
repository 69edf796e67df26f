import SqlStore.Console.Report
import SqlStore.Session
import SqlStore.Text.Blank

/-! # The shell

Lines are read and answered one after the other, without any input or output of its own.

* **`runLine`** — carries out the statements of a line and prints each answer as it comes. It ends at once
  where an answer cannot be printed;
* **`Shell.Input`** — a line, or an interrupt in place of one;
* **`Shell.Command`** — what a line asks for, with upper and lower case alike and blanks around it
  ignored;
* **`Shell.step`** — what one input prints, what becomes of the session, and whether the shell goes on;
* **`Shell.run`** and **`Shell.fault?`** — what each input prints, up to the one that ends the shell, and
  the fault at which it ends if that one could not be printed. -/

namespace SqlStore

/-! ## A line of statements -/

/-- How a line comes to its end. -/
inductive LineEnd where
  | succeeded
  /-- The text is no list of statements, or one of them failed. -/
  | failed
  /-- An answer could not be printed. Nothing is done after that. -/
  | aborted (fault : Report.WidthFault)
  deriving DecidableEq, Repr

/-- What running a line comes to. -/
structure LineResult where
  ending : LineEnd
  printed : String
  session : Session

/-- Whether every statement succeeded and every answer was printed. -/
def LineResult.succeeded (r : LineResult) : Bool := r.ending = .succeeded

/-- Carries out statements and prints the answers, up to the first error, which is printed too, or to the
first answer that cannot be printed. -/
def runStatements (session : Session) : List Statement → LineResult
  | [] => ⟨.succeeded, "", session⟩
  | s :: rest =>
    let outcome := session.execute s
    match outcome.answer with
    | .error e => ⟨.failed, Report.ofError e, session.after outcome⟩
    | .ok result =>
      match Report.ofResult result with
      | .error fault => ⟨.aborted fault, "", session.after outcome⟩
      | .ok printed =>
        let later := runStatements (session.after outcome) rest
        { later with printed := printed ++ later.printed }

/-- Carries out the statements of a line. A line with a fault anywhere does nothing. -/
def runLine (session : Session) (line : String) : LineResult :=
  match parseText line with
  | .error e => ⟨.failed, Report.ofError (.parse e), session⟩
  | .ok statements => runStatements session statements

namespace Shell

/-! ## One input -/

/-- What the shell is given. -/
inductive Input where
  | line (text : String)
  | interrupt
  deriving DecidableEq, Repr

/-- What a line asks for. -/
inductive Command where
  | nothing
  | leave
  | help
  | tables
  | statements (text : String)
  deriving DecidableEq, Repr

/-- What a line asks for, once the blanks around it are gone. -/
def Command.ofLine (line : String) : Command :=
  let text := Text.trim line
  if text = "" then .nothing
  else
    let word := Text.lowercase text
    if word = "exit" ∨ word = "quit" then .leave
    else if word = "help" then .help
    else if word = "tables" then .tables
    else .statements text

/-- What is printed before the first line is read. -/
def greeting : String := "Welcome to minisql. Type 'help' for assistance or 'exit' to quit.\n"

/-- The lines that explain the shell. -/
def helpLines : List String := [
  "Available commands:",
  "  CREATE TABLE <name> (<col> int|text, ...)  - Create or redefine a table",
  "  INSERT INTO <table> VALUES (<v>, ...)      - Append a row to a table",
  "  SELECT <col>, ... FROM <table>             - Read columns of every row",
  "",
  "Other commands:",
  "  tables                                     - List tables and their columns",
  "  help                                       - Display this help message",
  "  exit                                       - Exit the shell"]

/-- Lines as they are printed, every one of them ended. -/
def ended (lines : List String) : String := String.join (lines.map (· ++ "\n"))

/-- The list of tables as it is printed, a line for each. -/
def tableList (store : TableStore) : String :=
  match store.tables with
  | .ok tables => ended (tables.map Report.ofTable)
  | .error e => Report.ofError e

/-- What becomes of the shell behind an input. -/
inductive Next where
  | goesOn
  | leaves
  /-- An answer could not be printed. -/
  | aborts (fault : Report.WidthFault)
  deriving DecidableEq, Repr

/-- What becomes of the shell behind a line of statements: it goes on whether they succeed or fail. -/
def Next.ofLine : LineEnd → Next
  | .succeeded => .goesOn
  | .failed => .goesOn
  | .aborted fault => .aborts fault

/-- What an input comes to. -/
structure Reply where
  printed : String
  session : Session
  next : Next := .goesOn

/-- Answers one input. -/
def step (session : Session) : Input → Reply
  | .interrupt => { printed := "", session, next := .leaves }
  | .line text =>
    match Command.ofLine text with
    | .nothing => { printed := "", session }
    | .leave => { printed := "", session, next := .leaves }
    | .help => { printed := ended helpLines, session }
    | .tables => { printed := tableList session.store, session }
    | .statements text =>
      let result := runLine session text
      { printed := result.printed, session := result.session, next := .ofLine result.ending }

/-! ## All inputs -/

/-- What is printed for each input, up to the one that ends the shell. -/
def run (session : Session) : List Input → List String
  | [] => []
  | input :: rest =>
    let reply := step session input
    reply.printed :: if reply.next = .goesOn then run reply.session rest else []

/-- The fault that ends the shell, if it does not go on and is not left either. -/
def fault? (session : Session) : List Input → Option Report.WidthFault
  | [] => none
  | input :: rest =>
    let reply := step session input
    match reply.next with
    | .goesOn => fault? reply.session rest
    | .leaves => none
    | .aborts fault => some fault

end Shell

end SqlStore
