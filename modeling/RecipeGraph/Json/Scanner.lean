import RecipeGraph.Json.Draft
import RecipeGraph.Text.Digit

/-!
Scanning JSON text.

The scanner settles what the grammar alone decides and leaves faults in the
draft. A bracket takes two steps and a further item one, so twice the length of
the text bounds the steps.
-/

namespace RecipeGraph.Draft

/-- Deepest nesting of brackets that can still be read. -/
def maxDepth : Nat := 127

def isBlank (c : Char) : Bool :=
  c = ' ' || c = '\n' || c = '\t' || c = '\r'

def skipBlanks (cs : List Char) : List Char :=
  cs.dropWhile isBlank

/-- Digits at the beginning and the rest. -/
def digits : List Char → List Nat × List Char
  | [] => ([], [])
  | c :: cs =>
    match Text.digit? c with
    | none => ([], c :: cs)
    | some d =>
      let (ds, rest) := digits cs
      (d :: ds, rest)

def ofDigits (ds : List Nat) : Nat :=
  ds.foldl (fun n d => 10 * n + d) 0

/-- Digits before the point: one zero alone, or digits that start with another. -/
def scanWhole (cs : List Char) : Option (List Nat × List Char) :=
  match digits cs with
  | ([], _) => none
  | (0 :: _ :: _, _) => none
  | found => some found

def scanFraction : List Char → Option (Option (List Nat) × List Char)
  | '.' :: cs =>
    match digits cs with
    | ([], _) => none
    | (ds, rest) => some (some ds, rest)
  | cs => some (none, cs)

def scanPower (isNegative : Bool) (cs : List Char) : Option (Option Int × List Char) :=
  match digits cs with
  | ([], _) => none
  | (ds, rest) =>
    let n : Int := ofDigits ds
    some (some (if isNegative then -n else n), rest)

def scanExponent : List Char → Option (Option Int × List Char)
  | [] => some (none, [])
  | c :: cs =>
    if c = 'e' || c = 'E' then
      match cs with
      | '-' :: rest => scanPower true rest
      | '+' :: rest => scanPower false rest
      | rest => scanPower false rest
    else some (none, c :: cs)

def scanUnsigned (isNegative : Bool) (cs : List Char) :
    Option (Number.Literal × List Char) := do
  let (whole, cs) ← scanWhole cs
  let (fraction, cs) ← scanFraction cs
  let (exponent, cs) ← scanExponent cs
  return (⟨isNegative, whole, fraction, exponent⟩, cs)

def scanNumber : List Char → Draft × List Char
  | cs =>
    let scanned := match cs with
      | '-' :: rest => scanUnsigned true rest
      | rest => scanUnsigned false rest
    match scanned with
    | none => (.broken, [])
    | some (literal, rest) =>
      match literal.numeral? with
      | some n => (.num n, rest)
      | none => (.unreadable, rest)

def scanUnit : List Char → Option (Nat × List Char)
  | a :: b :: c :: d :: rest => do
    let a ← Text.hexDigit? a
    let b ← Text.hexDigit? b
    let c ← Text.hexDigit? c
    let d ← Text.hexDigit? d
    return (((a * 16 + b) * 16 + c) * 16 + d, rest)
  | _ => none

/-- The character behind a backslash followed by one letter. -/
def unescaped (c : Char) : Option Char :=
  if c = '"' || c = '\\' || c = '/' then some c
  else if c = 'b' then some (Char.ofNat 8)
  else if c = 'f' then some (Char.ofNat 12)
  else if c = 'n' then some '\n'
  else if c = 'r' then some '\r'
  else if c = 't' then some '\t'
  else none

def isHighHalf (unit : Nat) : Bool :=
  0xd800 ≤ unit && unit < 0xdc00

def isLowHalf (unit : Nat) : Bool :=
  0xdc00 ≤ unit && unit < 0xe000

/-- The characters of a string from behind the opening quote on, collected in
reverse; `none` in place of the collection once half a surrogate pair has
occurred. The whole is `none` if the string is not JSON. -/
def scanChars : Nat → List Char → Option (List Char) →
    Option (Option (List Char) × List Char)
  | 0, _, _ => none
  | _ + 1, [], _ => none
  | fuel + 1, c :: cs, done =>
    if c = '"' then some (done, cs)
    else if c.toNat < 32 then none
    else if c ≠ '\\' then scanChars fuel cs (done.map (c :: ·))
    else
      match cs with
      | [] => none
      | 'u' :: cs =>
        match scanUnit cs with
        | none => none
        | some (unit, cs) =>
          if isHighHalf unit then
            match cs with
            | '\\' :: 'u' :: more =>
              match scanUnit more with
              | none => none
              | some (next, after) =>
                if isLowHalf next then
                  let code := 0x10000 + (unit - 0xd800) * 0x400 + (next - 0xdc00)
                  scanChars fuel after (done.map (Char.ofNat code :: ·))
                else scanChars fuel cs none
            | _ => scanChars fuel cs none
          else if isLowHalf unit then scanChars fuel cs none
          else scanChars fuel cs (done.map (Char.ofNat unit :: ·))
      | c :: cs =>
        match unescaped c with
        | none => none
        | some c => scanChars fuel cs (done.map (c :: ·))

def scanString (cs : List Char) : Option (Option String × List Char) :=
  (scanChars (cs.length + 1) cs (some [])).map fun (done, rest) =>
    (done.map fun reversed => String.ofList reversed.reverse, rest)

/-- Text behind a word, if the text begins with it. -/
def afterWord : List Char → List Char → Option (List Char)
  | [], cs => some cs
  | _ :: _, [] => none
  | w :: ws, c :: cs => if w = c then afterWord ws cs else none

def scanWord (word : String) (value : Draft) (cs : List Char) : Draft × List Char :=
  match afterWord word.toList cs with
  | some rest => (value, rest)
  | none => (.broken, [])

/-- Brackets beyond the deepest level have no value. -/
def atDepth (depth : Nat) (draft : Draft) : Draft :=
  if depth < maxDepth then draft
  else if draft.isWhole then .unreadable
  else .broken

mutual

/-- The draft of the value at the beginning and the text behind it. Behind a
fault of the text nothing is left. -/
def scanValue : Nat → Nat → List Char → Draft × List Char
  | 0, _, _ => (.broken, [])
  | fuel + 1, depth, cs =>
    match skipBlanks cs with
    | [] => (.broken, [])
    | 'n' :: rest => scanWord "ull" .null rest
    | 't' :: rest => scanWord "rue" (.bool true) rest
    | 'f' :: rest => scanWord "alse" (.bool false) rest
    | '"' :: rest =>
      match scanString rest with
      | none => (.broken, [])
      | some (some text, rest) => (.str text, rest)
      | some (none, rest) => (.unreadable, rest)
    | '[' :: rest =>
      match skipBlanks rest with
      | ']' :: rest => (atDepth depth (.arr []), rest)
      | rest =>
        let (items, rest) := scanItems fuel (depth + 1) rest
        (atDepth depth (.arr items), rest)
    | '\x7b' :: rest =>
      match skipBlanks rest with
      | '\x7d' :: rest => (atDepth depth (.obj []), rest)
      | rest =>
        let (entries, rest) := scanEntries fuel (depth + 1) rest
        (atDepth depth (.obj entries), rest)
    | rest => scanNumber rest

/-- The items of an array up to its closing bracket. -/
def scanItems : Nat → Nat → List Char → List Draft × List Char
  | 0, _, _ => ([.broken], [])
  | fuel + 1, depth, cs =>
    match scanValue fuel depth cs with
    | (item, rest) =>
      if item.isWhole then
        match skipBlanks rest with
        | ']' :: rest => ([item], rest)
        | ',' :: rest =>
          let (items, rest) := scanItems fuel depth rest
          (item :: items, rest)
        | _ => ([item, .broken], [])
      else ([item], [])

/-- The entries of an object up to its closing bracket. -/
def scanEntries : Nat → Nat → List Char → List (Option String × Draft) × List Char
  | 0, _, _ => ([(none, .broken)], [])
  | fuel + 1, depth, cs =>
    match skipBlanks cs with
    | '"' :: rest =>
      match scanString rest with
      | none => ([(none, .broken)], [])
      | some (key, rest) =>
        match skipBlanks rest with
        | ':' :: rest =>
          match scanValue fuel depth rest with
          | (value, rest) =>
            if value.isWhole then
              match skipBlanks rest with
              | '\x7d' :: rest => ([(key, value)], rest)
              | ',' :: rest =>
                let (entries, rest) := scanEntries fuel depth rest
                ((key, value) :: entries, rest)
              | _ => ([(key, value), (none, .broken)], [])
            else ([(key, value)], [])
        | _ => ([(key, .broken)], [])
    | _ => ([(none, .broken)], [])

end

/-- Scans one value and looks for anything behind it. -/
def scan (text : String) : Document :=
  let cs := text.toList
  let (root, rest) := scanValue (2 * cs.length + 2) 0 cs
  ⟨root, !(skipBlanks rest).isEmpty⟩

end RecipeGraph.Draft
