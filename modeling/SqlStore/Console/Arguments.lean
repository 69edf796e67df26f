import SqlStore.Session.Policy

/-! # Command-line arguments

* **`Invocation`** — what a command line asks for: the policy for taken table names, and a shell or a
  single text;
* **`Invocation.ofArguments`** — reads the arguments, options before the command. -/

namespace SqlStore

/-- What a command line runs. -/
inductive Command where
  | shell
  | query (text : String)
  deriving DecidableEq, Repr

/-- What a command line asks for. -/
structure Invocation where
  policy : DuplicatePolicy := default
  command : Command := .shell
  deriving DecidableEq, Repr

namespace Invocation

/-- How the program is called. -/
def usage : String :=
  "Usage: sqlstore [--on-duplicate-table <replace|error>] [shell | query <QUERY>]\n"

/-- Reads the arguments into what has been asked for so far. -/
def readArguments (asked : Invocation) : List String → Except String Invocation
  | [] => .ok asked
  | ["shell"] => .ok { asked with command := .shell }
  | ["query", text] => .ok { asked with command := .query text }
  | "--on-duplicate-table" :: name :: rest =>
    match DuplicatePolicy.ofText name with
    | .ok policy => readArguments { asked with policy } rest
    | .error e => .error (e.message ++ "\n")
  | _ => .error usage

/-- What the arguments ask for, or what to tell the caller about them. -/
def ofArguments (arguments : List String) : Except String Invocation :=
  readArguments {} arguments

end Invocation

end SqlStore
