/-!
Targets of requests.

A target is a path, a host, or a scheme with a host and a path. Behind a path
there may be a query and then a fragment. Only the path matters here, but a
target that is malformed anywhere else is none.
-/

namespace RecipeGraph

/-- The path is empty if the target is only a host. -/
structure Target where
  path : String
deriving DecidableEq, Repr

namespace Target

/-- Longest target in bytes. -/
def maxBytes : Nat := 65534

/-- Longest scheme in characters. -/
def maxScheme : Nat := 64

def isSchemeChar (c : Char) : Bool :=
  c.isAlphanum || "+-.~".toList.contains c

/-- Characters of a host, of a name with a password in front of it and of the
number behind it, apart from those that set the three off. -/
def isHostChar (c : Char) : Bool :=
  c.isAlphanum || "!$&'()*+,-.;=_~".toList.contains c

/-- Blanks, controls and a few others have to be escaped. -/
def isPathChar (c : Char) : Bool :=
  32 < c.toNat && c.toNat ≠ 127 && !"#<>?`".toList.contains c

def isQueryChar (c : Char) : Bool :=
  32 < c.toNat && c.toNat ≠ 127 && !"\"#<>".toList.contains c

def endsHost (c : Char) : Bool :=
  c = '/' || c = '?' || c = '#'

/-- What has been seen of a host. Colons and percent signs count from the last
at sign or closing bracket on. -/
structure HostScan where
  colons : Nat := 0
  opened : Bool := false
  closed : Bool := false
  hasPercent : Bool := false
  endsAtSign : Bool := false
deriving DecidableEq, Repr

namespace HostScan

/-- An address in brackets has at most eight colons. -/
def step (scan : HostScan) (c : Char) : Option HostScan :=
  let scan := { scan with endsAtSign := c = '@' }
  if c = ':' then
    if scan.colons < 8 then some { scan with colons := scan.colons + 1 } else none
  else if c = '[' then
    if scan.opened || scan.hasPercent then none else some { scan with opened := true }
  else if c = ']' then
    if scan.opened && !scan.closed then
      some { scan with closed := true, colons := 0, hasPercent := false }
    else none
  else if c = '@' then some { scan with colons := 0, hasPercent := false }
  else if c = '%' then some { scan with hasPercent := true }
  else if isHostChar c then some scan
  else none

def mayEnd (scan : HostScan) : Bool :=
  scan.opened = scan.closed && scan.colons ≤ 1 && !scan.hasPercent && !scan.endsAtSign

end HostScan

def isHost (cs : List Char) : Bool :=
  match cs.foldlM HostScan.step {} with
  | some scan => !cs.isEmpty && scan.mayEnd
  | none => false

/-- A path with what follows it. The fragment may hold anything. -/
def ofPath? (cs : List Char) : Option Target :=
  let cs := cs.takeWhile (· ≠ '#')
  let path := cs.takeWhile (· ≠ '?')
  let query := (cs.dropWhile (· ≠ '?')).drop 1
  if path.all isPathChar && query.all isQueryChar then some ⟨String.ofList path⟩ else none

/-- The scheme and what is behind it, if a target begins with one. The scheme
may be empty. -/
def splitScheme (cs : List Char) : Option (List Char × List Char) :=
  match cs.dropWhile isSchemeChar with
  | ':' :: '/' :: '/' :: rest => some (cs.takeWhile isSchemeChar, rest)
  | _ => none

def parse? (text : String) : Option Target :=
  let cs := text.toList
  if maxBytes < text.utf8ByteSize then none
  else if text = "*" then some ⟨text⟩
  else if cs.head? = some '/' then ofPath? cs
  else
    match splitScheme cs with
    | none => if isHost cs then some ⟨""⟩ else none
    | some (scheme, rest) =>
      if scheme.length ≤ maxScheme && isHost (rest.takeWhile (!endsHost ·)) then
        ofPath? (rest.dropWhile (!endsHost ·))
      else none

end Target

end RecipeGraph
