/-
The commands and their arguments.
-/
import CodeCache.CommandLine.Arguments

namespace CodeCache

open Arguments

/-- compiles one file -/
structure CompileCommand where
  file : Text
  output : Option Text
  asModule : Bool
  electron : Bool
  electronPath : Option Text
  createLoader : Bool
  loaderName : Option Text
  extension : Option Text
deriving DecidableEq, Repr

/-- writes a loader on its own -/
structure LoaderCommand where
  directory : Text
  loaderName : Option Text
  extension : Option Text
deriving DecidableEq, Repr

inductive Command where
  | compile (c : CompileCommand)
  /-- compiles the configured targets, or those whose file name contains the filter -/
  | build (filter : Option Text)
  | loader (c : LoaderCommand)
  /-- shows the header of a cache -/
  | inspect (cache : Text) (asJson : Bool)
  /-- runs a cache and shows its value -/
  | run (cache : Text) (asModule : Bool)
deriving DecidableEq, Repr

/-- a command with what holds for all commands -/
structure CommandLine where
  command : Command
  verbose : Bool
  /-- the configuration file, instead of the one found -/
  config : Option Text
deriving DecidableEq, Repr

namespace CommandLine

def switch (name : String) : OptionSpec := ⟨name, none, .switch⟩

def textOption (name : String) : OptionSpec := ⟨name, none, .text⟩

def pathOption (name : String) : OptionSpec := ⟨name, none, .path⟩

/-- options that stand in front of a command or behind it -/
def shared : List OptionSpec := [⟨"verbose", some 'v', .switch⟩, pathOption "config"]

/-- the options in front of a command -/
def top : Level := ⟨shared, true⟩

/-- options of one command -/
def level (options : List OptionSpec) : Level := ⟨options ++ shared, false⟩

def compileLevel : Level :=
  level [⟨"output", some 'o', .path⟩, switch "module", switch "electron",
    pathOption "electron-path", switch "loader", textOption "loader-filename", textOption "extname"]

def buildLevel : Level := level [textOption "filter"]

def loaderLevel : Level := level [pathOption "dir", textOption "filename", textOption "extname"]

def inspectLevel : Level := level [switch "json"]

def runLevel : Level := level [switch "module"]

/-- the one operand of a command, a path -/
def onlyOperand : List Text → Except Stop Text
  | [path] => if path.isEmpty then .error .usage else .ok path
  | _ => .error .usage

/-- a command that takes no operand -/
def noOperand : List Text → Except Stop Unit
  | [] => .ok ()
  | _ => .error .usage

/-- what may be asked for help on -/
def topics : List String := ["compile", "build", "loader", "inspect", "run", "help"]

/-- help, in general or on one topic -/
def helpOn : List Text → Stop
  | [] => .help
  | [topic] => if topic ∈ topics.map String.toList then .help else .usage
  | _ => .usage

/-- the command of a name with its arguments, and what was found among them -/
def readCommand (name : Text) (arguments : List Text) : Except Stop (Command × Found) :=
  if name = "compile".toList then do
    let (found, operands) ← compileLevel.readAll .start [] arguments
    let file ← onlyOperand operands
    .ok (.compile ⟨file, found.value? "output", found.has "module", found.has "electron",
      found.value? "electron-path", found.has "loader", found.value? "loader-filename",
      found.value? "extname"⟩, found)
  else if name = "build".toList then do
    let (found, operands) ← buildLevel.readAll .start [] arguments
    noOperand operands
    .ok (.build (found.value? "filter"), found)
  else if name = "loader".toList then do
    let (found, operands) ← loaderLevel.readAll .start [] arguments
    noOperand operands
    .ok (.loader ⟨(found.value? "dir").getD ['.'], found.value? "filename", found.value? "extname"⟩,
      found)
  else if name = "inspect".toList then do
    let (found, operands) ← inspectLevel.readAll .start [] arguments
    let cache ← onlyOperand operands
    .ok (.inspect cache (found.has "json"), found)
  else if name = "run".toList then do
    let (found, operands) ← runLevel.readAll .start [] arguments
    let cache ← onlyOperand operands
    .ok (.run cache (found.has "module"), found)
  else if name = "help".toList then .error (helpOn arguments)
  else .error .usage

/-- the whole command line; a shared option given on both sides of the command counts as it stands
behind it -/
def read (arguments : List Text) : Except Stop CommandLine := do
  let (before, name, rest) ← top.readToOperand .start arguments
  let (command, behind) ← readCommand name rest
  .ok ⟨command, before.has "verbose" || behind.has "verbose",
    (behind.value? "config").or (before.value? "config")⟩

end CommandLine

end CodeCache
