import RecipeGraph.Json.Printer
import RecipeGraph.Json.Scanner
import Mathlib.Data.String.Basic

/-!
# Texts of values

The characters that the printer writes, with what stands behind an item and behind an
entry as a text of its own. Strings are read back by the scanner as they were.
-/

namespace RecipeGraph.Json

/-- A string with its quotes. -/
def stringChars (text : String) : List Char :=
  '"' :: text.toList.flatMap escaped ++ ['"']

mutual

/-- The text of a value. -/
def chars : Json → List Char
  | .null => ['n', 'u', 'l', 'l']
  | .bool true => ['t', 'r', 'u', 'e']
  | .bool false => ['f', 'a', 'l', 's', 'e']
  | .num n => (printNumeral n).toList
  | .str s => stringChars s
  | .arr [] => ['[', ']']
  | .arr (first :: rest) => '[' :: (first.chars ++ itemChars rest)
  | .obj [] => ['\x7b', '\x7d']
  | .obj ((key, value) :: rest) =>
    '\x7b' :: (stringChars key ++ ':' :: (value.chars ++ entryChars rest))

/-- What stands behind an item, up to the closing bracket. -/
def itemChars : List Json → List Char
  | [] => [']']
  | item :: rest => ',' :: (item.chars ++ itemChars rest)

/-- What stands behind an entry, up to the closing bracket. -/
def entryChars : List (String × Json) → List Char
  | [] => ['\x7d']
  | (key, value) :: rest =>
    ',' :: (stringChars key ++ ':' :: (value.chars ++ entryChars rest))

end

@[simp] theorem toList_foldl_push (out : String) (cs : List Char) :
    (cs.foldl String.push out).toList = out.toList ++ cs := by
  induction cs generalizing out with
  | nil => simp
  | cons c rest ih => rw [List.foldl_cons, ih, String.toList_push, List.append_assoc]; rfl

@[simp] theorem toList_printString (out text : String) :
    (printString out text).toList = out.toList ++ stringChars text := by
  have inner : ∀ cs : List Char, ∀ out : String,
      (cs.foldl (fun out c => (escaped c).foldl String.push out) out).toList =
        out.toList ++ cs.flatMap escaped := by
    intro cs
    induction cs with
    | nil => simp
    | cons c rest ih =>
      intro out
      rw [List.foldl_cons, ih, toList_foldl_push, List.append_assoc, List.flatMap_cons]
  rw [printString, String.toList_push, inner, String.toList_push]
  simp [stringChars]

mutual

@[simp] theorem toList_printOnto (out : String) (value : Json) :
    (printOnto out value).toList = out.toList ++ value.chars := by
  cases value with
  | null => simp [printOnto, chars]
  | bool b => cases b <;> simp [printOnto, chars]
  | num n => simp [printOnto, chars]
  | str s => simp [printOnto, chars]
  | arr items =>
    cases items with
    | nil => simp [printOnto, chars]
    | cons first rest =>
      have behind := toList_printItems (printOnto (out.push '[') first) rest
      rw [String.toList_push] at behind
      simp [printOnto, chars, behind, toList_printOnto]
  | obj entries =>
    cases entries with
    | nil => simp [printOnto, chars]
    | cons entry rest =>
      obtain ⟨key, value⟩ := entry
      have behind := toList_printEntries
        (printOnto ((printString (out.push '\x7b') key).push ':') value) rest
      rw [String.toList_push] at behind
      simp [printOnto, chars, behind, toList_printOnto]

@[simp] theorem toList_printItems (out : String) (items : List Json) :
    ((printItems out items).push ']').toList = out.toList ++ itemChars items := by
  cases items with
  | nil => simp [printItems, itemChars]
  | cons item rest =>
    have behind := toList_printItems (printOnto (out.push ',') item) rest
    simp [printItems, itemChars, behind, toList_printOnto]

@[simp] theorem toList_printEntries (out : String) (entries : List (String × Json)) :
    ((printEntries out entries).push '\x7d').toList = out.toList ++ entryChars entries := by
  cases entries with
  | nil => simp [printEntries, entryChars]
  | cons entry rest =>
    obtain ⟨key, value⟩ := entry
    have behind := toList_printEntries
      (printOnto ((printString (out.push ',') key).push ':') value) rest
    simp [printEntries, entryChars, behind, toList_printOnto]

end

@[simp] theorem toList_print (value : Json) : value.print.toList = value.chars := by
  simp [print]

@[simp] theorem utf8ByteSize_print (value : Json) :
    value.print.utf8ByteSize = String.utf8Len value.chars := by
  rw [← toList_print, ← String.utf8ByteSize_ofList, String.ofList_toList]

end RecipeGraph.Json

namespace RecipeGraph.Draft

open Json (escaped stringChars)

/-- The four digits of a control character. -/
theorem scanUnit_control {n : Nat} (small : n < 32) (cs : List Char) :
    scanUnit ('0' :: '0' :: Text.hexDigit (n / 16) :: Text.hexDigit (n % 16) :: cs) =
      some (n, cs) := by
  have high : ∀ n < 32, Text.hexDigit? (Text.hexDigit (n / 16)) = some (n / 16) := by decide
  have low : ∀ n < 16, Text.hexDigit? (Text.hexDigit n) = some n := by decide
  have zero : Text.hexDigit? '0' = some 0 := by decide
  simp only [scanUnit, zero, high n small, low (n % 16) (Nat.mod_lt _ (by decide))]
  change some (((0 * 16 + 0) * 16 + n / 16) * 16 + n % 16, cs) = _
  congr 2
  omega

/-- Each character takes one step. -/
@[simp] theorem scanChars_escaped (c : Char) (fuel : Nat) (cs done : List Char) :
    scanChars (fuel + 1) (escaped c ++ cs) (some done) = scanChars fuel cs (some (c :: done)) := by
  unfold escaped
  split
  · next same => subst same; rfl
  split
  · next same => subst same; rfl
  split
  · next same => subst same; rfl
  split
  · next same => subst same; rfl
  split
  · next same => subst same; rfl
  split
  · next same =>
    have letter : c = Char.ofNat 8 := Char.toNat_inj.mp same
    subst letter
    rfl
  split
  · next same =>
    have letter : c = Char.ofNat 12 := Char.toNat_inj.mp same
    subst letter
    rfl
  split
  · next small =>
    have high : isHighHalf c.toNat = false := by simp [isHighHalf]; omega
    have low : isLowHalf c.toNat = false := by simp [isLowHalf]; omega
    simp only [List.cons_append, List.nil_append, scanChars, scanUnit_control small, high, low]
    simp [Char.ofNat_toNat]
  · next plain quote _ _ _ _ _ large =>
    simp only [List.cons_append, List.nil_append, scanChars]
    simp [plain, quote, large]

theorem scanChars_flatMap (text : List Char) {fuel : Nat} (enough : text.length < fuel)
    (more done : List Char) :
    scanChars fuel (text.flatMap escaped ++ '"' :: more) (some done) =
      some (some (text.reverse ++ done), more) := by
  induction text generalizing fuel done with
  | nil =>
    obtain ⟨rest, rfl⟩ := Nat.exists_eq_succ_of_ne_zero (Nat.ne_of_gt enough)
    rfl
  | cons c text ih =>
    obtain ⟨rest, rfl⟩ := Nat.exists_eq_succ_of_ne_zero (Nat.ne_of_gt (Nat.zero_lt_of_lt enough))
    rw [List.flatMap_cons, List.append_assoc, scanChars_escaped, ih (by simpa using enough)]
    simp

theorem length_le_flatMap_escaped (text : List Char) :
    text.length ≤ (text.flatMap escaped).length := by
  have some : ∀ c, 1 ≤ (escaped c).length := by
    intro c
    unfold escaped
    repeat' split
    all_goals simp
  induction text with
  | nil => exact Nat.zero_le _
  | cons c text ih =>
    have here := some c
    simp only [List.flatMap_cons, List.length_append, List.length_cons]
    omega

/-- A written string is read as it was. -/
@[simp] theorem scanString_stringChars (text : String) (more : List Char) :
    scanString (text.toList.flatMap escaped ++ '"' :: more) = some (some text, more) := by
  have length := length_le_flatMap_escaped text.toList
  have enough : text.toList.length <
      (text.toList.flatMap escaped ++ '"' :: more).length + 1 := by
    rw [List.length_append]
    omega
  rw [scanString, scanChars_flatMap _ enough]
  simp

end RecipeGraph.Draft
