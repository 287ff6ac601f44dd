import Userscript.Config.Decode

/-! Loading a configuration from a file. The file is the one that is asked for,
else the one that the environment names, else the one of the default name; only
the last may be missing. -/

namespace Userscript

def configVariable : String := "USERSCRIPT_META_CONFIG"

def defaultConfigPath : String := "userscript-meta.toml"

def maxConfigSize : Nat := 1048576

namespace Config

/-- The path of the file; a path from the environment must fit the limits. -/
def choosePath (argument environment : Option String) : Except ConfigError String :=
  match argument, environment with
  | some path, _ => .ok path
  | none, some path =>
    match checkPathSize configVariable path with
    | .ok () => .ok path
    | .error p => .error (.invalid p)
  | none, none => .ok defaultConfigPath

def ofBytes (bytes : ByteArray) : Except ConfigError Config :=
  if maxConfigSize < bytes.size then .error (.invalid .fileTooLarge)
  else
    match String.fromUTF8? bytes with
    | some text => ofText text
    | none => .error (.invalid .invalidText)

def loadFile (t : FileTree) (path : String) : Except ConfigError Config :=
  match checkPathSize "config file path" path with
  | .error p => .error (.invalid p)
  | .ok () =>
    match t.read path with
    | .error e => .error (.file e)
    | .ok bytes => ofBytes bytes

def load (t : FileTree) (argument environment : Option String) : Except ConfigError Config := do
  loadFile t (← choosePath argument environment)

/-- Without a file of the default name, and where none is named, the
configuration is the default one. -/
def loadOptional (t : FileTree) (argument environment : Option String) :
    Except ConfigError Config :=
  if argument.isNone && environment.isNone && !t.contains defaultConfigPath then .ok {}
  else load t argument environment

end Config

end Userscript
