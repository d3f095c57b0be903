/-
# Command lines

A command line names a command, between options that every command takes and the options of
its own:

| command | file | options |
| --- | --- | --- |
| `resolve` | yes | `--catalog`, `--export` |
| `status` | yes | `--catalog` |
| `apply` | yes | `--catalog`, `--body` (any number), `--dry-run`, `--restore-point` |
| `restore` | yes | `--restore-point` (required) |
| `catalog` | no | `--catalog`, `--output` |
| every command | | `-c`, `--config`, `-v`, `--verbose` |

The value of an option follows as the next argument, or in the same one behind `=`; that of
a short option also directly. An argument that starts with a dash is no value of the option
before it. Behind `--` every argument is a file. Options may not be repeated, except
`--body`, and only the values of `--body` may be empty.
-/

import BinaryPatch.Platform
import BinaryPatch.Text.Blank

namespace BinaryPatch

/-! ## Bodies -/

/-- A body that is asked for: the target, the platform it was compiled for, and its file. -/
structure BodyRequest where
  id : String
  platform : Option Platform
  path : String
  deriving DecidableEq

/-- Why an argument asks for no body. -/
inductive BodyRequestFault where
  | malformed (text : String)
  | unknownPlatform (platform text : String)
  deriving DecidableEq

namespace BodyRequestFault

/-- The wording of each fault. -/
def message : BodyRequestFault → String
  | malformed text => s!"Invalid body argument '{text}': expected ID[@PLATFORM]=PATH"
  | unknownPlatform platform text =>
    s!"Unknown platform '{platform}' in body argument '{text}'"

end BodyRequestFault

namespace BodyRequest

/-- The parts of a text before and behind the first occurrence of a character. -/
def splitOnce (mark : Char) (s : List Char) : Option (List Char × List Char) :=
  match s.span (· != mark) with
  | (before, _ :: behind) => some (before, behind)
  | (_, []) => none

/-- Read `ID=PATH` or `ID@PLATFORM=PATH`. White space around the id and the platform does not
count. -/
def parse (text : String) : Except BodyRequestFault BodyRequest :=
  match splitOnce '=' text.toList with
  | none => .error (.malformed text)
  | some (key, path) =>
    let request := fun (id : List Char) (platform : Option Platform) =>
      let id := Text.trim id
      if id.isEmpty ∨ path.isEmpty then .error (.malformed text)
      else .ok ⟨.ofList id, platform, .ofList path⟩
    match splitOnce '@' key with
    | none => request key none
    | some (id, platform) =>
      match Platform.ofName? (.ofList (Text.trim platform)) with
      | none => .error (.unknownPlatform (.ofList platform) text)
      | some p => request id (some p)

end BodyRequest

/-! ## Commands -/

/-- A command with its arguments. -/
inductive Command where
  | resolve (file : String) (catalog exportTo : Option String)
  | status (file : String) (catalog : Option String)
  | apply (file : String) (catalog : Option String) (bodies : List String) (dryRun : Bool)
    (restorePoint : Option String)
  | restore (file restorePoint : String)
  | catalog (catalog output : Option String)
  deriving DecidableEq

/-- A whole command line. -/
structure Invocation where
  config : String
  command : Command
  deriving DecidableEq

/-- Why a command line is not carried out. -/
inductive Refusal where
  /-- It breaks the rules of command lines. -/
  | usage
  /-- It asks how the program is used, or which version it is. -/
  | info
  deriving DecidableEq

namespace Arguments

/-- What the arguments at one level of a command line may be. -/
structure Shape where
  /-- Options with a value. -/
  values : List String
  /-- Options with a value that may be repeated, and whose value may be empty. -/
  lists : List String := []
  flags : List String := []
  /-- The number of files. -/
  files : Nat := 0
  /-- Whether a command is named at this level, and the version may be asked for. -/
  outer : Bool := false

/-- The level in front of the command. -/
def outerShape : Shape where
  values := ["config"]
  flags := ["verbose"]
  outer := true

/-- The level of each command. -/
def shape? (command : String) : Option Shape :=
  if command = "resolve" then
    some { values := ["config", "catalog", "export"], flags := ["verbose"], files := 1 }
  else if command = "status" then
    some { values := ["config", "catalog"], flags := ["verbose"], files := 1 }
  else if command = "apply" then
    some {
      values := ["config", "catalog", "restore-point"]
      lists := ["body"]
      flags := ["verbose", "dry-run"]
      files := 1 }
  else if command = "restore" then
    some { values := ["config", "restore-point"], flags := ["verbose"], files := 1 }
  else if command = "catalog" then
    some { values := ["config", "catalog", "output"], flags := ["verbose"] }
  else none

/-- The arguments taken in so far. -/
structure Parsed where
  values : List (String × String) := []
  flags : List String := []
  files : List String := []

namespace Parsed

/-- The value of an option. -/
def value? (p : Parsed) (name : String) : Option String := List.lookup name p.values

/-- The values of an option that may be repeated. -/
def list (p : Parsed) (name : String) : List String :=
  (p.values.filter fun v => v.1 == name).map Prod.snd

end Parsed

/-- Take in the value of an option. -/
def addValue (shape : Shape) (p : Parsed) (name value : String) : Except Refusal Parsed :=
  if shape.lists.contains name then .ok { p with values := p.values ++ [(name, value)] }
  else if value.isEmpty ∨ (p.value? name).isSome then .error .usage
  else .ok { p with values := p.values ++ [(name, value)] }

/-- Take in a flag. -/
def addFlag (p : Parsed) (name : String) : Except Refusal Parsed :=
  if p.flags.contains name then .error .usage else .ok { p with flags := name :: p.flags }

/-- Take in a file. -/
def addFile (shape : Shape) (p : Parsed) (path : String) : Except Refusal Parsed :=
  if path.isEmpty ∨ shape.files ≤ p.files.length then .error .usage
  else .ok { p with files := p.files ++ [path] }

/-- Whether an argument starts like an option. -/
def looksLikeOption (arg : String) : Bool := arg.startsWith "-" && arg != "-"

/-- What an argument asks for. -/
inductive Meaning where
  | value (name value : String)
  /-- An option whose value is the next argument. -/
  | expects (name : String) (flags : List String)
  | flags (names : List String)

/-- Read the letters of an argument with one dash. -/
def readLetters (shape : Shape) (flags : List String) : List Char → Except Refusal Meaning
  | [] => .ok (.flags flags.reverse)
  | 'v' :: rest => readLetters shape ("verbose" :: flags) rest
  | 'c' :: rest =>
    match rest with
    | [] => .ok (.expects "config" flags.reverse)
    | '=' :: value | value => .ok (.value "config" (.ofList value))
  | 'h' :: _ => .error .info
  | c :: _ => .error (if c = 'V' ∧ shape.outer then .info else .usage)

/-- Read an argument that starts like an option. -/
def readOption (shape : Shape) (arg : String) : Except Refusal Meaning :=
  match arg.toList with
  | '-' :: '-' :: long =>
    let (name, value) :=
      match BodyRequest.splitOnce '=' long with
      | some (name, value) => (String.ofList name, some (String.ofList value))
      | none => (String.ofList long, none)
    if shape.values.contains name ∨ shape.lists.contains name then
      match value with
      | some value => .ok (.value name value)
      | none => .ok (.expects name [])
    else if value.isSome then .error .usage
    else if shape.flags.contains name then .ok (.flags [name])
    else if name = "help" ∨ (name = "version" ∧ shape.outer) then .error .info
    else .error .usage
  | '-' :: letters => readLetters shape [] letters
  | _ => .error .usage

/-- Take in the arguments of one level. In front of a command this ends at its name; the
rest is left. -/
def scan (shape : Shape) (p : Parsed) (onlyFiles : Bool) :
    List String → Except Refusal (Parsed × List String)
  | [] => .ok (p, [])
  | arg :: rest =>
    if !onlyFiles && arg == "--" then scan shape p true rest
    else if !onlyFiles && looksLikeOption arg then
      match readOption shape arg with
      | .error refusal => .error refusal
      | .ok (.value name value) =>
        match addValue shape p name value with
        | .error refusal => .error refusal
        | .ok p => scan shape p onlyFiles rest
      | .ok (.flags names) =>
        match names.foldlM addFlag p with
        | .error refusal => .error refusal
        | .ok p => scan shape p onlyFiles rest
      | .ok (.expects name names) =>
        match names.foldlM addFlag p, rest with
        | .error refusal, _ => .error refusal
        | .ok _, [] => .error .usage
        | .ok p, value :: rest =>
          if looksLikeOption value then .error .usage
          else
            match addValue shape p name value with
            | .error refusal => .error refusal
            | .ok p => scan shape p onlyFiles rest
    else if shape.outer then if onlyFiles then .error .usage else .ok (p, arg :: rest)
    else
      match addFile shape p arg with
      | .error refusal => .error refusal
      | .ok p => scan shape p onlyFiles rest

/-- The command that the arguments of its level make. -/
def command (name : String) (p : Parsed) : Except Refusal Command :=
  match name, p.files with
  | "resolve", [file] => .ok (.resolve file (p.value? "catalog") (p.value? "export"))
  | "status", [file] => .ok (.status file (p.value? "catalog"))
  | "apply", [file] =>
    .ok (.apply file (p.value? "catalog") (p.list "body") (p.flags.contains "dry-run")
      (p.value? "restore-point"))
  | "restore", [file] =>
    match p.value? "restore-point" with
    | some point => .ok (.restore file point)
    | none => .error .usage
  | "catalog", [] => .ok (.catalog (p.value? "catalog") (p.value? "output"))
  | _, _ => .error .usage

/-- Where the configuration is looked for. -/
def defaultConfig : String := "voxpatch.toml"

/-- Read a command line. -/
def parse (args : List String) : Except Refusal Invocation :=
  match scan outerShape {} false args with
  | .error refusal => .error refusal
  | .ok (_, []) => .error .usage
  | .ok (outer, name :: rest) =>
    match shape? name with
    | none => .error (if name = "help" then .info else .usage)
    | some shape =>
      match scan shape {} false rest with
      | .error refusal => .error refusal
      | .ok (inner, _) =>
        match command name inner with
        | .error refusal => .error refusal
        | .ok command =>
          .ok ⟨((inner.value? "config").or (outer.value? "config")).getD defaultConfig, command⟩

end Arguments
end BinaryPatch
