import MapStyle.Number.Scalar
import MapStyle.Number.Text

/-!
# Command lines

The program evaluates a function or an expression that is given in a file.  Options stand before or
after the command; each may be given once in either place, and the later place counts.  Asking for
help or for the version ends the program with that text; everything that is not understood ends it
without any.

A value that stands apart from its option is looked at only when the next option of its place
starts, or else when all arguments are read.  So a help command, and help that is asked for after a
command, come before the last value in front of the command is found wrong.
-/

set_option autoImplicit false

namespace MapStyle

structure Exit where
  code : Nat
  stdout : String
  stderr : String
deriving DecidableEq, Repr, Inhabited

def Exit.usage : Exit := ⟨2, "", ""⟩

def Exit.shown (text : String) : Exit := ⟨0, text, ""⟩

namespace CommandLine

inductive Command where
  | function
  | expression
deriving DecidableEq, Repr, Inhabited

/-- The options that are given at one place. -/
structure Options (ν : Type) where
  zoom : Option ν
  feature : Option String
  spec : Option String
  params : Option String
  expr : Option String
  fallback : Bool
deriving Inhabited

inductive Request where
  | function (params : String)
  | expression (expr : String) (fallback : Bool)
deriving DecidableEq, Repr, Inhabited

structure Invocation (ν : Type) where
  zoom : Option ν
  feature : Option String
  spec : Option String
  request : Request
deriving Inhabited

def versionText : String := "style-expr 0.1.0\n"

def zoomLine : String := "      --zoom <ZOOM>        Map zoom to evaluate at\n"

def featureLine : String :=
  "      --feature <FEATURE>  Feature JSON (`\x7b\"properties\": \x7b...\x7d\x7d`) to " ++
    "evaluate against\n"

def specLine : String := "      --spec <SPEC>        Property specification JSON\n"

def helpLine : String := "  -h, --help               Print help\n"

def helpText : String :=
  "Usage: style-expr [OPTIONS] <COMMAND>\n\nCommands:\n" ++
    "  function    Evaluate a legacy stop function\n" ++
    "  expression  Compile and evaluate an expression\n" ++
    "  help        Print this message or the help of the given subcommand(s)\n\nOptions:\n" ++
    zoomLine ++ featureLine ++ specLine ++ helpLine ++
    "  -V, --version            Print version\n"

def Command.helpText : Command → String
  | .function =>
    "Evaluate a legacy stop function\n\n" ++
      "Usage: style-expr function [OPTIONS] --params <PARAMS>\n\nOptions:\n" ++
      "      --params <PARAMS>    Function definition JSON\n" ++
      zoomLine ++ featureLine ++ specLine ++ helpLine
  | .expression =>
    "Compile and evaluate an expression\n\n" ++
      "Usage: style-expr expression [OPTIONS] --expr <EXPR>\n\nOptions:\n" ++
      "      --expr <EXPR>        Expression JSON\n" ++ zoomLine ++
      "      --fallback           Substitute the property default instead of failing on " ++
      "runtime errors\n" ++
      featureLine ++ specLine ++ helpLine

def Command.ofName? : String → Option Command
  | "function" => some .function
  | "expression" => some .expression
  | _ => none

namespace Options

variable {ν : Type} [Scalar ν]

def empty : Options ν := ⟨none, none, none, none, none, false⟩

/-- A path for an option that has none yet; a path is not empty. -/
def path? (old : Option String) (value : String) : Option (Option String) :=
  if old.isSome || value.isEmpty then none else some (some value)

/-- The options with a value for one more; none if the option is not known after the command, is
there already, or does not take the value. -/
def set? (o : Options ν) (command : Option Command) (name value : String) : Option (Options ν) :=
  match name, command with
  | "zoom", _ =>
    if o.zoom.isSome then none
    else (Numeral.ofText? value).map fun n => { o with zoom := some (Scalar.ofNumeral n) }
  | "feature", _ => (path? o.feature value).map fun p => { o with feature := p }
  | "spec", _ => (path? o.spec value).map fun p => { o with spec := p }
  | "params", some .function => (path? o.params value).map fun p => { o with params := p }
  | "expr", some .expression => (path? o.expr value).map fun p => { o with expr := p }
  | _, _ => none

def takesValue (command : Option Command) (name : String) : Bool :=
  name = "zoom" || name = "feature" || name = "spec" ||
    (name = "params" && command = some .function) || (name = "expr" && command = some .expression)

end Options

inductive Argument where
  /-- `--name` -/
  | long (name : String)
  /-- `--name=value` -/
  | assigned (name value : String)
  /-- `-x` and what follows the letter -/
  | short (letter : Char)
  | word (text : String)
deriving DecidableEq, Repr, Inhabited

/-- How an argument looks; a lone hyphen is a word. -/
def Argument.ofText (s : String) : Argument :=
  match s.toList with
  | '-' :: '-' :: cs =>
    if cs.contains '=' then
      .assigned (String.ofList (cs.takeWhile (· != '=')))
        (String.ofList ((cs.dropWhile (· != '=')).drop 1))
    else .long (String.ofList cs)
  | '-' :: c :: _ => .short c
  | _ => .word s

variable {ν : Type} [Scalar ν]

def helpAt : Option Command → String
  | none => helpText
  | some c => c.helpText

/-- The options of one place so far, and the last one with its value if that is still to be looked
at. -/
structure Place (ν : Type) where
  options : Options ν
  pending : Option (String × String)

def Place.empty : Place ν := ⟨.empty, none⟩

def Place.settle? (command : Option Command) (p : Place ν) : Option (Options ν) :=
  match p.pending with
  | none => some p.options
  | some (name, value) => p.options.set? command name value

/-- What an option without a value does to the options of a place, or the end of the run. -/
def flag (command : Option Command) (o : Options ν) (name : String) : Except Exit (Options ν) :=
  if name = "help" then .error (.shown (helpAt command))
  else if name = "version" && command.isNone then .error (.shown versionText)
  else if name = "fallback" && command = some .expression && !o.fallback then
    .ok { o with fallback := true }
  else .error .usage

def longName (letter : Char) : String :=
  if letter = 'h' then "help" else if letter = 'V' then "version" else ""

/-- Reads the arguments of one place up to a word that is no value, which it also yields with what
follows it; or ends the run.  Two hyphens end the options, and nothing may follow them. -/
def readPlace (command : Option Command) :
    Place ν → List String → Except Exit (Place ν × Option (String × List String))
  | p, [] => .ok (p, none)
  | p, arg :: rest =>
    match Argument.ofText arg, p.settle? command with
    | .word text, _ => .ok (p, some (text, rest))
    | .long "", _ => if rest.isEmpty then .ok (p, none) else .error .usage
    | _, none => .error .usage
    | .short letter, some o =>
      match flag command o (longName letter) with
      | .ok o => readPlace command ⟨o, none⟩ rest
      | .error e => .error e
    | .assigned name value, some o =>
      match o.set? command name value with
      | some o => readPlace command ⟨o, none⟩ rest
      | none => .error .usage
    | .long name, some o =>
      if Options.takesValue command name then
        match rest with
        | [] => .error .usage
        | value :: rest =>
          match Argument.ofText value with
          | .word text => readPlace command ⟨o, some (name, text)⟩ rest
          | _ => .error .usage
      else
        match flag command o name with
        | .ok o => readPlace command ⟨o, none⟩ rest
        | .error e => .error e

def helpOnHelp : String :=
  "Print this message or the help of the given subcommand(s)\n\n" ++
    "Usage: style-expr help [COMMAND]...\n\nArguments:\n" ++
    "  [COMMAND]...  Print help for the subcommand(s)\n"

def request? (command : Command) (o : Options ν) : Option Request :=
  match command with
  | .function => o.params.map .function
  | .expression => o.expr.map fun e => .expression e o.fallback

def helpFor : List String → Exit
  | [] => .shown helpText
  | ["help"] => .shown helpOnHelp
  | [name] => (Command.ofName? name).elim .usage fun c => .shown c.helpText
  | _ => .usage

def invocation? (command : Command) (before after : Place ν) : Option (Invocation ν) :=
  match after.settle? (some command), before.settle? none with
  | some after, some before =>
    (request? command after).map fun request =>
      ⟨after.zoom.or before.zoom, after.feature.or before.feature, after.spec.or before.spec,
        request⟩
  | _, _ => none

def parse (args : List String) : Except Exit (Invocation ν) :=
  match readPlace none (Place.empty : Place ν) args with
  | .error e => .error e
  | .ok (_, none) => .error .usage
  | .ok (before, some (name, rest)) =>
    if name = "help" then .error (helpFor rest)
    else
      match Command.ofName? name with
      | none => .error .usage
      | some command =>
        match readPlace (some command) (Place.empty : Place ν) rest with
        | .error e => .error e
        | .ok (_, some _) => .error .usage
        | .ok (after, none) =>
          match invocation? command before after with
          | some i => .ok i
          | none => .error .usage

end CommandLine

end MapStyle
