import RecipeGraph.Json.Value
import RecipeGraph.Number.Written
import RecipeGraph.Text.Quoted

/-!
Compact text of JSON values. Strings escape quotes, backslashes and control
characters only.
-/

namespace RecipeGraph.Json

def escaped (c : Char) : List Char :=
  if c = '"' then ['\\', '"']
  else if c = '\\' then ['\\', '\\']
  else if c = '\n' then ['\\', 'n']
  else if c = '\r' then ['\\', 'r']
  else if c = '\t' then ['\\', 't']
  else if c.toNat = 8 then ['\\', 'b']
  else if c.toNat = 12 then ['\\', 'f']
  else if c.toNat < 32 then
    ['\\', 'u', '0', '0', Text.hexDigit (c.toNat / 16), Text.hexDigit (c.toNat % 16)]
  else [c]

def printString (out : String) (text : String) : String :=
  (text.toList.foldl (fun out c => (escaped c).foldl String.push out) (out.push '"')).push '"'

def printNumeral : Number.Numeral → String
  | .int i => toString i
  | .float x => Number.written x

mutual

/-- Appends the text of a value. -/
def printOnto (out : String) : Json → String
  | .null => out ++ "null"
  | .bool true => out ++ "true"
  | .bool false => out ++ "false"
  | .num n => out ++ printNumeral n
  | .str s => printString out s
  | .arr [] => out ++ "[]"
  | .arr (first :: rest) => (printItems (printOnto (out.push '[') first) rest).push ']'
  | .obj [] => out ++ "\x7b\x7d"
  | .obj ((key, value) :: rest) =>
    let opened := (printString (out.push '\x7b') key).push ':'
    (printEntries (printOnto opened value) rest).push '\x7d'

def printItems (out : String) : List Json → String
  | [] => out
  | item :: rest => printItems (printOnto (out.push ',') item) rest

def printEntries (out : String) : List (String × Json) → String
  | [] => out
  | (key, value) :: rest =>
    printEntries (printOnto ((printString (out.push ',') key).push ':') value) rest

end

def print (value : Json) : String :=
  printOnto "" value

end RecipeGraph.Json
