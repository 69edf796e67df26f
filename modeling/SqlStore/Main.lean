import SqlStore.Console.Arguments
import SqlStore.Console.Shell

/-! # The program

Reads the command line, and then either runs one text or answers the lines of standard input. -/

namespace SqlStore

/-- What stands in front of every line that is typed. -/
def prompt : String := "# "

/-- The exit code of a program that had to stop. -/
def abortCode : UInt32 := 101

/-- Tells of a fault that stops the program. -/
def tellFault (fault : Report.WidthFault) : IO UInt32 := do
  (← IO.getStderr).putStrLn fault.message
  return abortCode

/-- Answers lines until the input or the shell ends. The answer is the exit code. -/
partial def shellLoop (input output : IO.FS.Stream) (session : Session) : IO UInt32 := do
  output.putStr prompt
  output.flush
  let line ← input.getLine
  if line.isEmpty then return 0
  let reply := Shell.step session (.line line)
  output.putStr reply.printed
  match reply.next with
  | .goesOn => shellLoop input output reply.session
  | .leaves => return 0
  | .aborts fault => tellFault fault

/-- Runs what the command line asks for. The answer is the exit code. -/
def run (arguments : List String) : IO UInt32 := do
  match Invocation.ofArguments arguments with
  | .error message =>
    (← IO.getStderr).putStr message
    return 2
  | .ok asked =>
    let session : Session := { policy := asked.policy }
    let output ← IO.getStdout
    match asked.command with
    | .query text =>
      let result := runLine session text
      output.putStr result.printed
      match result.ending with
      | .succeeded => return 0
      | .failed => return 1
      | .aborted fault => tellFault fault
    | .shell =>
      output.putStr Shell.greeting
      shellLoop (← IO.getStdin) output session

end SqlStore

/-- The command line. -/
def main (arguments : List String) : IO UInt32 := SqlStore.run arguments
