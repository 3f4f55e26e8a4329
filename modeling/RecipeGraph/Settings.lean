import RecipeGraph.Event
import RecipeGraph.Text.Digit

/-!
Settings of the service, from arguments, the environment and defaults.

Arguments win over the environment and the environment over the defaults. A
flag may be followed by its value as an argument of its own. Such a pair is
held back, and it is checked when the next known flag comes or the arguments
end, so an unknown argument is found before a fault of the pair.
-/

namespace RecipeGraph

structure Settings where
  bindAddr : String := "0.0.0.0:8080"
  allowedOrigin : String := "http://localhost:3000"
  scaffold : Bool := true
  eventCapacity : Nat := Event.defaultCapacity
deriving DecidableEq, Repr

inductive Setting where
  | bindAddr
  | allowedOrigin
  | scaffold
  | eventCapacity
deriving DecidableEq, Repr

inductive SettingsFault where
  | missingValue (setting : Setting)
  | notABoolean (setting : Setting)
  | notACount (setting : Setting)
  | repeated (setting : Setting)
  | unknownArgument
  | surplusValue
  | helpRequested
deriving DecidableEq, Repr

/-- Forms of an argument. A lone dash and everything without a dash in front
are plain. -/
inductive Argument where
  /-- Everything behind it is plain. -/
  | escape
  | long (name : String) (value : Option String)
  | short (first : Char)
  | plain (text : String)
deriving DecidableEq, Repr

namespace Argument

/-- Text before and behind the first equals sign. -/
def cut : List Char → List Char × Option (List Char)
  | [] => ([], none)
  | c :: cs =>
    if c = '=' then ([], some cs)
    else
      let (before, behind) := cut cs
      (c :: before, behind)

def ofText (text : String) : Argument :=
  match text.toList with
  | ['-', '-'] => .escape
  | '-' :: '-' :: cs =>
    let (name, value) := cut cs
    .long (String.ofList name) (value.map String.ofList)
  | '-' :: c :: _ => .short c
  | _ => .plain text

end Argument

namespace Setting

def all : List Setting :=
  [.bindAddr, .allowedOrigin, .scaffold, .eventCapacity]

def flag : Setting → String
  | .bindAddr => "bind-addr"
  | .allowedOrigin => "allowed-origin"
  | .scaffold => "scaffold"
  | .eventCapacity => "event-capacity"

/-- Name of the variable in the environment. -/
def variableName : Setting → String
  | .bindAddr => "NODEFLOW_BIND_ADDR"
  | .allowedOrigin => "NODEFLOW_ALLOWED_ORIGIN"
  | .scaffold => "NODEFLOW_SCAFFOLD"
  | .eventCapacity => "NODEFLOW_EVENT_CAPACITY"

def ofFlag? (name : String) : Option Setting :=
  all.find? fun setting => setting.flag = name

def bool? (text : String) : Option Bool :=
  if text = "true" then some true
  else if text = "false" then some false
  else none

def digits? (cs : List Char) : Option Nat :=
  cs.foldlM (fun n c => (Text.digit? c).map (10 * n + ·)) 0

/-- A whole number below `2 ^ 64`. A plus sign may stand in front. -/
def count? (text : String) : Option Nat :=
  let cs := match text.toList with
    | '+' :: cs => cs
    | cs => cs
  match cs, digits? cs with
  | [], _ => none
  | _, some n => if n < Nat.pow 2 64 then some n else none
  | _, none => none

/-- The settings with one of them read from a text. -/
def write (setting : Setting) (text : String) (settings : Settings) :
    Except SettingsFault Settings :=
  match setting with
  | .bindAddr => .ok { settings with bindAddr := text }
  | .allowedOrigin => .ok { settings with allowedOrigin := text }
  | .scaffold =>
    match bool? text with
    | some value => .ok { settings with scaffold := value }
    | none => .error (.notABoolean setting)
  | .eventCapacity =>
    match count? text with
    | some value => .ok { settings with eventCapacity := value }
    | none => .error (.notACount setting)

end Setting

namespace Settings

/-- How far the arguments are read. `held` is the pair of a flag and the value
found for it so far. -/
structure Progress where
  settings : Settings := {}
  given : List Setting := []
  held : Option (Setting × Option String) := none

namespace Progress

def accept (progress : Progress) (setting : Setting) (text : String) :
    Except SettingsFault Progress :=
  if progress.given.contains setting then .error (.repeated setting)
  else do
    let settings ← setting.write text progress.settings
    return { progress with settings, given := setting :: progress.given }

/-- Checks the pair that was held back. -/
def settle (progress : Progress) : Except SettingsFault Progress :=
  match progress.held with
  | none => .ok progress
  | some (setting, none) => .error (.missingValue setting)
  | some (setting, some text) => { progress with held := none }.accept setting text

def help (progress : Progress) : SettingsFault :=
  match progress.settle with
  | .ok _ => .helpRequested
  | .error fault => fault

/-- A flag with its value, if it brings one along. -/
def flagged (progress : Progress) (name : String) (value : Option String) :
    Except SettingsFault Progress :=
  match Setting.ofFlag? name, value with
  | some setting, some text => do
    let settled ← progress.settle
    settled.accept setting text
  | some setting, none => do
    let settled ← progress.settle
    return { settled with held := some (setting, none) }
  | none, some _ =>
    .error (if name = "help" then .surplusValue else .unknownArgument)
  | none, none =>
    .error (if name = "help" then progress.help else .unknownArgument)

/-- Only a flag that waits for its value can take a plain argument. -/
def plain (progress : Progress) (text : String) : Except SettingsFault Progress :=
  match progress.held with
  | some (setting, none) => .ok { progress with held := some (setting, some text) }
  | _ => .error .unknownArgument

def readArguments : Progress → List String → Except SettingsFault Progress
  | progress, [] => progress.settle
  | progress, argument :: rest =>
    match Argument.ofText argument with
    | .escape => if rest.isEmpty then progress.settle else .error .unknownArgument
    | .long name value => do
      let next ← progress.flagged name value
      next.readArguments rest
    | .short first => .error (if first = 'h' then progress.help else .unknownArgument)
    | .plain text => do
      let next ← progress.plain text
      next.readArguments rest

/-- Takes from the environment what the arguments have not given. -/
def readEnvironment (environment : String → Option String) :
    Progress → List Setting → Except SettingsFault Progress
  | progress, [] => .ok progress
  | progress, setting :: rest =>
    match environment setting.variableName with
    | some text =>
      if progress.given.contains setting then readEnvironment environment progress rest
      else do
        let next ← progress.accept setting text
        readEnvironment environment next rest
    | none => readEnvironment environment progress rest

end Progress

def read (arguments : List String) (environment : String → Option String) :
    Except SettingsFault Settings := do
  let progress ← Progress.readArguments {} arguments
  let progress ← progress.readEnvironment environment Setting.all
  return progress.settings

end Settings

end RecipeGraph
