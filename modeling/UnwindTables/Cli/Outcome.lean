/-
UnwindTables.Cli.Outcome — how a run of a tool ends.

* `Failure` — what a tool could not do and the causes behind it; `Failure.report` is what the user
  is shown.
* `Outcome` — the exit code and everything that is printed.
-/

namespace UnwindTables

/-- What a tool could not do. -/
structure Failure where
  /-- What was to be done. -/
  text : String
  /-- Why it could not be done, the nearest cause first. -/
  causes : List String
deriving DecidableEq, Repr

namespace Failure

/-- The lines of several causes, numbered. -/
def numbered (causes : List String) : String :=
  String.join (causes.zipIdx.map fun (cause, index) => s!"    {index}: {cause}\n")

/-- What the user is shown. A single cause has no number. -/
def report (failure : Failure) : String :=
  let head := s!"Error: {failure.text}\n"
  match failure.causes with
  | [] => head
  | [cause] => head ++ s!"\nCaused by:\n    {cause}\n"
  | causes => head ++ "\nCaused by:\n" ++ numbered causes

/-- The failure on one line. -/
def line (failure : Failure) : String := ": ".intercalate (failure.text :: failure.causes)

end Failure

/-- How a run of a tool ends. -/
structure Outcome where
  /-- The exit code. -/
  code : Nat
  /-- What is printed to standard output. -/
  stdout : String
  /-- What is printed to standard error. -/
  stderr : String
deriving DecidableEq, Repr

namespace Outcome

/-- A run that prints its result. -/
def success (stdout : String) : Outcome := ⟨0, stdout, ""⟩

/-- A run that fails after the given messages. -/
def failure (messages : String) (failure : Failure) : Outcome := ⟨1, "", messages ++ failure.report⟩

/-- A run that was asked for something that is not understood. -/
def usage (text : String) : Outcome := ⟨2, "", text⟩

end Outcome

end UnwindTables
