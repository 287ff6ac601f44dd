import Userscript.Command.Render

/-! The arguments of the command line. -/

namespace Userscript

inductive Command where
  /-- writes the header to a file, or prints it -/
  | generate (request : HeaderRequest) (out : Option String)
  /-- checks that a script begins with the header -/
  | check (request : HeaderRequest) (script : String)
  deriving DecidableEq, Repr

structure CommandOptions where
  record : Option String := none
  config : Option String := none
  style : Option CommentStyle := none
  noBlock : Bool := false
  out : Option String := none
  script : Option String := none

namespace CommandOptions

def once? {α : Type} (before : Option α) (value : Option α) : Option (Option α) :=
  if before.isSome then none else value.map some

def path? (value : String) : Option String :=
  if value.isEmpty then none else some value

/-- Gives an option its value; no option is given twice. -/
def set? (options : CommandOptions) (name value : String) : Option CommandOptions :=
  match name with
  | "--meta" => (once? options.record (path? value)).map fun v => { options with record := v }
  | "--config" => (once? options.config (path? value)).map fun v => { options with config := v }
  | "--comment-style" =>
    (once? options.style (CommentStyle.ofLabel? value)).map fun v => { options with style := v }
  | "--out" => (once? options.out (path? value)).map fun v => { options with out := v }
  | "--script" => (once? options.script (path? value)).map fun v => { options with script := v }
  | _ => none

def isValue (argument : String) : Bool :=
  argument = "-" || argument.toList.head? ≠ some '-'

/-- Takes in the arguments. A value follows its option, or stands in one
argument with it after an equals sign. Two hyphens may come last. -/
def parse? (options : CommandOptions) : List String → Option CommandOptions
  | [] => some options
  | ["--"] => some options
  | "--no-block" :: rest =>
    if options.noBlock then none else { options with noBlock := true }.parse? rest
  | argument :: rest =>
    let name := argument.toList.takeWhile (· ≠ '=')
    match argument.toList.drop name.length with
    | _ :: value =>
      match options.set? (String.ofList name) (String.ofList value) with
      | some options => options.parse? rest
      | none => none
    | [] =>
      match rest with
      | value :: rest =>
        match isValue value, options.set? argument value with
        | true, some options => options.parse? rest
        | _, _ => none
      | [] => none

def request? (options : CommandOptions) : Option HeaderRequest :=
  options.record.map fun record => ⟨record, options.config, ⟨options.style, options.noBlock⟩⟩

end CommandOptions

/-- The command that arguments ask for; none if they ask for none. -/
def Command.parse? : List String → Option Command
  | "generate" :: rest => do
    let options ← CommandOptions.parse? {} rest
    if options.script.isSome then none else return .generate (← options.request?) options.out
  | "check" :: rest => do
    let options ← CommandOptions.parse? {} rest
    if options.out.isSome then none else return .check (← options.request?) (← options.script)
  | _ => none

end Userscript
