/-!
# Blank characters and words

Texts are lists of characters. Blanks are the white-space characters of every script, not of ASCII
alone; trimming and splitting go by them.
-/

namespace RobotScript.Text

def isBlank (c : Char) : Bool :=
  let n := c.toNat
  (0x9 ≤ n && n ≤ 0xD) || n == 0x20 || n == 0x85 || n == 0xA0 || n == 0x1680 ||
    (0x2000 ≤ n && n ≤ 0x200A) || n == 0x2028 || n == 0x2029 || n == 0x202F || n == 0x205F ||
    n == 0x3000

def allBlank (cs : List Char) : Bool := cs.all isBlank

def trimStart (cs : List Char) : List Char := cs.dropWhile isBlank

def trimEnd (cs : List Char) : List Char := (cs.reverse.dropWhile isBlank).reverse

def trim (cs : List Char) : List Char := trimEnd (trimStart cs)

/-- The maximal runs of characters that are not blank. -/
def words (cs : List Char) : List String :=
  match cs with
  | [] => []
  | c :: rest =>
    if isBlank c then words rest
    else
      String.ofList (c :: rest.takeWhile (!isBlank ·)) :: words (rest.dropWhile (!isBlank ·))
termination_by cs.length
decreasing_by
  · simp
  · have := (List.dropWhile_sublist (fun x => !isBlank x) (l := rest)).length_le
    simp; omega

/-! ### Words in either case -/

/-- Equality of texts that ignores the case of the letters `a` to `z`. -/
def sameWord (a b : String) : Bool :=
  a.toList.map Char.toLower == b.toList.map Char.toLower

/-- What follows `word` at the start of `cs`, ignoring the case of letters. -/
def afterWord? : List Char → List Char → Option (List Char)
  | cs, [] => some cs
  | [], _ :: _ => none
  | c :: cs, w :: word => if c.toLower == w.toLower then afterWord? cs word else none

end RobotScript.Text
