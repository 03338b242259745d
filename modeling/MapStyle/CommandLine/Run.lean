import MapStyle.Collation.Engine
import MapStyle.CommandLine.Arguments
import MapStyle.Context.Written
import MapStyle.Json.Reader
import MapStyle.StopFunction.Compiled
import MapStyle.StyleError
import MapStyle.StyleExpression

/-!
# Running the program

A run goes from a command line and the files that it names to what the program writes and how it
ends.  The files are read in a fixed order, and the first thing that goes wrong ends the run.
-/

set_option autoImplicit false

namespace MapStyle

namespace CommandLine

/-- A file: its text, or the reason why it cannot be opened or read. -/
inductive File where
  | text (s : String)
  /-- cannot be opened -/
  | unavailable (reason : String)
  /-- can be opened, but not read -/
  | unreadable (reason : String)
deriving DecidableEq, Repr, Inhabited

def notFound : String := "No such file or directory (os error 2)"

/-- An error and what it was caused by, as the program writes them. -/
def report (message : String) (cause : Option String) : String :=
  "Error: " ++ message ++
    cause.elim "" (fun c => "\n\nCaused by:\n    " ++ c.replace "\n" "\n    ") ++ "\n"

def failure (message : String) (cause : Option String) : Exit := ⟨1, "", report message cause⟩

variable {ν : Type} [Platform ν]

def parseFailure (purpose reason : String) : Exit :=
  failure ("parse " ++ purpose ++ " JSON") (some reason)

def openFile (files : String → File) (path purpose : String) : Except Exit String :=
  match files path with
  | .text s => .ok s
  | .unavailable reason =>
    .error (failure ("open " ++ purpose ++ " '" ++ path ++ "'") (some reason))
  | .unreadable reason => .error (parseFailure purpose reason)

def readDocument (files : String → File) (path purpose : String) : Except Exit (Json ν) :=
  match openFile files path purpose with
  | .error e => .error e
  | .ok s =>
    match Json.read? s with
    | some j => .ok j
    | none => .error (parseFailure purpose "not a document")

def described {α : Type} (a : Option α) : Except Exit α :=
  match a with
  | some a => .ok a
  | none => .error (failure (StyleError.serialization "not as described").message none)

def readFeature (files : String → File) (path : String) : Except Exit (Feature ν) :=
  match openFile files path "feature" with
  | .error e => .error e
  | .ok s =>
    match (Written.ofText? s).bind Feature.ofWritten? with
    | some f => .ok f
    | none => .error (parseFailure "feature" "not a feature")

def readSpec (files : String → File) (path : String) : Except Exit (PropertySpec ν) :=
  match readDocument files path "property spec" with
  | .error e => .error e
  | .ok j => described (PropertySpec.ofJson? j)

def readOptional {α : Type} (read : String → Except Exit α) : Option String →
    Except Exit (Option α)
  | none => .ok none
  | some path => (read path).map some

def runFunction (files : String → File) (env : Env ν) (spec : Option (PropertySpec ν))
    (path : String) : Except Exit (Value ν) :=
  match readDocument files path "function" with
  | .error e => .error e
  | .ok j =>
    match described (FunctionParameters.ofJson? j) with
    | .error e => .error e
    | .ok p =>
      match CompiledFunction.compile p (spec.getD (.ofType "number")) with
      | .error e => .error (failure e.message none)
      | .ok f => .ok ((f.evaluate env).getD .null)

def compileFailure (ds : List Diagnostic) : Exit :=
  ⟨1, "", String.join (ds.map fun d => d.text ++ "\n") ++
    report ("expression failed to compile (" ++ toString ds.length ++ " errors)") none⟩

def runExpression (files : String → File) (env : Env ν) (spec : Option (PropertySpec ν))
    (path : String) (fallback : Bool) : Except Exit (Value ν) :=
  match readDocument files path "expression" with
  | .error e => .error e
  | .ok j =>
    match StyleExpression.compile j spec with
    | .error ds => .error (compileFailure ds)
    | .ok e =>
      if fallback then .ok (e.evaluateWithDefault env.globals env.feature)
      else
        match e.evaluate env.globals env.feature with
        | .ok v => .ok v
        | .error err => .error (failure "evaluate expression" (some err.message))

def evaluate (files : String → File) (i : Invocation ν) : Except Exit (Value ν) :=
  match readOptional (readFeature files) i.feature with
  | .error e => .error e
  | .ok feature =>
    match readOptional (readSpec files) i.spec with
    | .error e => .error e
    | .ok spec =>
      let env : Env ν := ⟨⟨i.zoom, none⟩, feature⟩
      match i.request with
      | .function path => runFunction files env spec path
      | .expression path fallback => runExpression files env spec path fallback

def Invocation.paths (i : Invocation ν) : List String :=
  i.feature.toList ++ i.spec.toList ++
    match i.request with
    | .function path => [path]
    | .expression path _ => [path]

def Invocation.run (i : Invocation ν) (files : String → File) : Exit :=
  match evaluate files i with
  | .ok v => .shown (v.toJson.render ++ "\n")
  | .error e => e

end CommandLine

end MapStyle
