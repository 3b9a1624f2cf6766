/-
UnwindTables.Cli.DumpOptions — the command line of the tool that prints a listing.

* `DumpOptions` — which options are given, and the other arguments.
* `DumpOptions.ofArguments` — the options of a command line, or the first thing that is wrong with
  it. An option that is given twice is found last.

An option has a long name and a short one. A long name of a single character is a short one, and
short names may share an argument. Options may come after other arguments, up to two dashes alone.
-/

namespace UnwindTables

/-- An option of the tool. -/
inductive DumpOption where
  /-- Print how the tool is used. -/
  | help
  /-- Print the search table, too. -/
  | hdr
deriving DecidableEq, Repr

/-- What is wrong with a command line. -/
inductive OptionFault where
  /-- There is no option with that name. -/
  | unrecognized (name : String)
  /-- The option takes no value. -/
  | unexpectedValue (name : String)
  /-- The option is given more than once. -/
  | duplicated (name : String)
deriving DecidableEq, Repr

/-- The text of a fault. -/
def OptionFault.message : OptionFault → String
  | unrecognized name => s!"Unrecognized option: \x27{name}\x27"
  | unexpectedValue name => s!"Option \x27{name}\x27 does not take an argument"
  | duplicated name => s!"Option \x27{name}\x27 given more than once"

namespace DumpOption

/-- The long name of an option. -/
def name : DumpOption → String
  | help => "help"
  | hdr => "hdr"

/-- The option with a name. -/
def ofName? (name : List Char) : Option DumpOption :=
  if name = ['h'] ∨ name = "help".toList then some help
  else if name = ['x'] ∨ name = "hdr".toList then some hdr
  else none

end DumpOption

/-- The options of a command line. -/
structure DumpOptions where
  /-- The options, in the order in which they are given. -/
  given : List DumpOption
  /-- The other arguments. -/
  free : List String
deriving DecidableEq, Repr

namespace DumpOptions

/-- The option with a name that stands alone. -/
def find (name : List Char) : Except OptionFault DumpOption :=
  match DumpOption.ofName? name with
  | some option => .ok option
  | none => .error (.unrecognized (String.ofList name))

/-- The options that an argument after its first dash gives. -/
def ofArgument (argument : List Char) : Except OptionFault (List DumpOption) :=
  match argument with
  | '-' :: rest => do
    let name := rest.takeWhile (· != '=')
    let option ← find name
    if rest.contains '=' then throw (.unexpectedValue (String.ofList name)) else return [option]
  | names => names.mapM fun name => find [name]

/-- The options of some arguments. -/
def follow : List String → Except OptionFault DumpOptions
  | [] => .ok ⟨[], []⟩
  | argument :: arguments =>
    match argument.toList with
    | ['-', '-'] => .ok ⟨[], arguments⟩
    | '-' :: c :: rest => do
      let given ← ofArgument (c :: rest)
      let options ← follow arguments
      return { options with given := given ++ options.given }
    | _ => do
      let options ← follow arguments
      return { options with free := argument :: options.free }

/-- Whether an option is given. -/
def has (options : DumpOptions) (option : DumpOption) : Bool := options.given.contains option

/-- The options of a command line. -/
def ofArguments (arguments : List String) : Except OptionFault DumpOptions := do
  let options ← follow arguments
  match [DumpOption.help, .hdr].find? fun option => options.given.count option > 1 with
  | some option => throw (.duplicated option.name)
  | none => return options

end DumpOptions

end UnwindTables
