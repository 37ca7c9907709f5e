/-! # Texts and lines

A text is read without the blanks around it, and cut apart at blanks into words. Bytes are cut into
lines after each line feed. A carriage return right before a line feed belongs to the line end; bytes
after the last line feed are a line if there are any. A line is text only if it is valid UTF-8.
-/
namespace StackJournal.Text

def utf8Length : List Char → Nat
  | [] => 0
  | c :: rest => c.utf8Size + utf8Length rest

/-- The Unicode property `White_Space`. -/
def isBlank (c : Char) : Bool :=
  let n := c.toNat
  (0x09 ≤ n && n ≤ 0x0D) || n == 0x20 || n == 0x85 || n == 0xA0 || n == 0x1680 ||
    (0x2000 ≤ n && n ≤ 0x200A) || n == 0x2028 || n == 0x2029 || n == 0x202F || n == 0x205F ||
    n == 0x3000

def trimStart (s : List Char) : List Char := s.dropWhile isBlank

def trimEnd (s : List Char) : List Char := (s.reverse.dropWhile isBlank).reverse

def trim (s : List Char) : List Char := trimEnd (trimStart s)

/-- The longest pieces without a blank, in order. -/
def words : List Char → List (List Char)
  | [] => []
  | c :: rest =>
    if isBlank c then words rest
    else
      match rest with
      | [] => [[c]]
      | d :: _ =>
        if isBlank d then [c] :: words rest
        else
          match words rest with
          | [] => [[c]]
          | word :: others => (c :: word) :: others

def lineFeed : UInt8 := 10

def carriageReturn : UInt8 := 13

/-- A line from its bytes in reverse, without a carriage return at its end. -/
def endLine : List UInt8 → List UInt8
  | [] => []
  | b :: line => if b = carriageReturn then line.reverse else (b :: line).reverse

/-- The lines of `line`, which holds the bytes of a line begun, in reverse, and of the bytes that
follow. -/
def linesFrom (line : List UInt8) : List UInt8 → List (List UInt8)
  | [] => if line = [] then [] else [line.reverse]
  | b :: rest =>
    if b = lineFeed then endLine line :: linesFrom [] rest else linesFrom (b :: line) rest

def lines (bytes : ByteArray) : List (List UInt8) := linesFrom [] bytes.data.toList

def decodeLine (line : List UInt8) : Option String := String.fromUTF8? line.toByteArray

end StackJournal.Text
