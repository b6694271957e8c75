import Recurrence.Text.Ranges

namespace Recurrence.Text

/-! Blanks, and the words between them. A text is blank exactly where its
characters are; every other run of characters is one word. -/

def blankRanges : List CodeRange := [
  (9, 13), (28, 32), (133, 133), (160, 160), (5760, 5760), (8192, 8202),
  (8232, 8233), (8239, 8239), (8287, 8287), (12288, 12288)]

def isBlank (c : Char) : Bool :=
  inRanges blankRanges c.toNat

/-- The maximal runs of characters that are not blank, in order. -/
def words : List Char → List (List Char)
  | [] => []
  | c :: rest =>
      if isBlank c then words rest
      else match rest with
        | [] => [[c]]
        | next :: _ =>
            if isBlank next then [c] :: words rest
            else match words rest with
              | [] => [[c]]
              | word :: others => (c :: word) :: others

def unwords (parts : List (List Char)) : List Char :=
  [' '].intercalate parts

/-- What remains when characters of a class are taken away at both ends. -/
def strip (isOuter : Char → Bool) (text : List Char) : List Char :=
  ((text.dropWhile isOuter).reverse.dropWhile isOuter).reverse

def trimLeft (text : List Char) : List Char :=
  text.dropWhile isBlank

def trim (text : List Char) : List Char :=
  (trimLeft (trimLeft text).reverse).reverse

end Recurrence.Text
