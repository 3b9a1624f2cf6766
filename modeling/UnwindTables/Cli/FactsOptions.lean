/-
UnwindTables.Cli.FactsOptions — the command line of the tool that writes facts.

* `FactsOptions` — what is to be done.
* `FactsRequest` — what a command line asks for; `FactsRequest.ofArguments`.

Arguments are followed one after the other, so a request for help counts only if nothing before it
is wrong. An option takes its value from the same argument or from the next one, which must not
look like an option itself. Nothing may be given twice, and no path may be empty.
-/
import UnwindTables.Decoded

namespace UnwindTables

/-- What the tool that writes facts is to do. -/
structure FactsOptions where
  /-- The path of the object file. -/
  input : String
  /-- The directory of the files of facts. -/
  output : String
  /-- Whether to print what was recovered from. -/
  warnings : Bool
  /-- What is checked. -/
  decode : DecodeOptions
deriving DecidableEq, Repr

/-- What a command line asks for. -/
inductive FactsRequest where
  /-- How the tool is used. -/
  | help
  /-- Something that is not understood. -/
  | invalid
  /-- Facts. -/
  | run (options : FactsOptions)
deriving DecidableEq, Repr

namespace FactsRequest

/-- What has been said so far. -/
structure Seen where
  /-- The path of the object file. -/
  input : Option String
  /-- The directory of the files of facts. -/
  output : Option String
  /-- Print what was recovered from. -/
  warnings : Bool
  /-- Do not check the search table. -/
  noHdrCheck : Bool
  /-- Do not check start addresses. -/
  noImageCheck : Bool

/-- Nothing. -/
def Seen.nothing : Seen := ⟨none, none, false, false, false⟩

/-- What is asked for when nothing more is said. -/
def Seen.request (seen : Seen) : FactsRequest :=
  match seen.input, seen.output with
  | some input, some output =>
    .run ⟨input, output, seen.warnings, ⟨!seen.noHdrCheck, !seen.noImageCheck⟩⟩
  | _, _ => .invalid

/-- The path of the object file is said. -/
def Seen.withInput (seen : Seen) (path : String) : Option Seen :=
  if path = "" ∨ seen.input.isSome then none else some { seen with input := path }

/-- The directory of the files of facts is said. -/
def Seen.withOutput (seen : Seen) (path : String) : Option Seen :=
  if path = "" ∨ seen.output.isSome then none else some { seen with output := path }

/-- A switch is said. -/
def Seen.withSwitch (seen : Seen) (name : List Char) : Option Seen :=
  if name = "warnings".toList then
    if seen.warnings then none else some { seen with warnings := true }
  else if name = "no-hdr-check".toList then
    if seen.noHdrCheck then none else some { seen with noHdrCheck := true }
  else if name = "no-image-check".toList then
    if seen.noImageCheck then none else some { seen with noImageCheck := true }
  else
    none

/-- What one argument says. -/
inductive Step where
  /-- How the tool is used is asked for. -/
  | help
  /-- It is not understood. -/
  | invalid
  /-- It is complete. -/
  | done (seen : Seen)
  /-- The next argument is the directory of the files of facts. -/
  | awaitOutput
  /-- All that follows are paths. -/
  | pathsOnly

/-- A step that is complete, or not understood. -/
def Step.ofOption : Option Seen → Step
  | some seen => .done seen
  | none => .invalid

/-- What an argument after two dashes says, with the value that is given in it. -/
def long (seen : Seen) (name : List Char) (value : Option (List Char)) : Step :=
  if name = "output".toList then
    match value with
    | some value => .ofOption (seen.withOutput (String.ofList value))
    | none => .awaitOutput
  else if value.isSome then .invalid
  else if name = "help".toList then .help
  else .ofOption (seen.withSwitch name)

/-- What an argument after one dash says. A value may be set off by an equals sign. -/
def short (seen : Seen) : List Char → Step
  | ['o'] => .awaitOutput
  | 'o' :: '=' :: value => .ofOption (seen.withOutput (String.ofList value))
  | 'o' :: value => .ofOption (seen.withOutput (String.ofList value))
  | 'h' :: _ => .help
  | _ => .invalid

/-- What an argument says. -/
def step (seen : Seen) (argument : String) : Step :=
  match argument.toList with
  | ['-', '-'] => .pathsOnly
  | '-' :: '-' :: rest =>
    let name := rest.takeWhile (· != '=')
    match rest.dropWhile (· != '=') with
    | [] => long seen name none
    | _ :: value => long seen name (some value)
  | '-' :: c :: rest => short seen (c :: rest)
  | _ => .ofOption (seen.withInput argument)

/-- Whether an argument looks like an option. A single dash does not. -/
def looksLikeOption (argument : String) : Bool :=
  match argument.toList with
  | '-' :: _ :: _ => true
  | _ => false

/-- What some arguments ask for that can only be paths. -/
def followPaths : Seen → List String → FactsRequest
  | seen, [] => seen.request
  | seen, argument :: arguments =>
    match seen.withInput argument with
    | some seen => followPaths seen arguments
    | none => .invalid

/-- What some arguments ask for, after what has been said before them. -/
def follow : Seen → List String → FactsRequest
  | seen, [] => seen.request
  | seen, argument :: arguments =>
    match step seen argument with
    | .help => .help
    | .invalid => .invalid
    | .done seen => follow seen arguments
    | .pathsOnly => followPaths seen arguments
    | .awaitOutput =>
      match arguments with
      | [] => .invalid
      | value :: arguments =>
        if looksLikeOption value then
          .invalid
        else
          match seen.withOutput value with
          | some seen => follow seen arguments
          | none => .invalid

/-- What a command line asks for. -/
def ofArguments (arguments : List String) : FactsRequest := follow .nothing arguments

end FactsRequest

end UnwindTables
