namespace ExtentVolume.Text

def isBlank (c : Char) : Bool :=
  let n := c.toNat
  (0x9 ≤ n && n ≤ 0xd) || n == 0x20 || n == 0x85 || n == 0xa0 || n == 0x1680 ||
    (0x2000 ≤ n && n ≤ 0x200a) || n == 0x2028 || n == 0x2029 || n == 0x202f || n == 0x205f ||
    n == 0x3000

def isSeparator (c : Char) : Bool :=
  c == ' ' || c == '\t' || c == '\n' || c == '\x0c' || c == '\r'

def trim (cs : List Char) : List Char :=
  ((cs.dropWhile isBlank).reverse.dropWhile isBlank).reverse

def pieces : List Char → List (List Char)
  | [] => [[]]
  | c :: rest => match pieces rest with
    | [] => []
    | w :: ws => if isSeparator c then [] :: w :: ws else (c :: w) :: ws

/-- The words of a line: it is trimmed first and then split at every run of separators. -/
def words (line : String) : List String :=
  ((pieces (trim line.toList)).filter (!·.isEmpty)).map String.ofList

end ExtentVolume.Text
