namespace Recurrence.Text

/-! Cutting texts at a character and replacing fixed pieces of them. -/

/-- The pieces between the occurrences of `separator`; a text without one is its only piece. -/
def splitAt (separator : Char) : List Char → List (List Char)
  | [] => [[]]
  | c :: rest =>
      if c == separator then [] :: splitAt separator rest
      else match splitAt separator rest with
        | [] => [[c]]
        | piece :: others => (c :: piece) :: others

def splitFirst? (separator : Char) : List Char → Option (List Char × List Char)
  | [] => none
  | c :: rest =>
      if c == separator then some ([], rest)
      else (splitFirst? separator rest).map fun (before, behind) => (c :: before, behind)

def joinWith (separator : String) (pieces : List (List Char)) : List Char :=
  separator.toList.intercalate pieces

def replaceAfter (old new : List Char) : Nat → List Char → List Char
  | _, [] => []
  | covered + 1, _ :: rest => replaceAfter old new covered rest
  | 0, c :: rest =>
      if old.isPrefixOf (c :: rest) then new ++ replaceAfter old new (old.length - 1) rest
      else c :: replaceAfter old new 0 rest

/-- Replaces the occurrences of `old`, which is not empty, from left to right; what a
replacement puts in is not searched again. -/
def replaceAll (old new : String) (text : List Char) : List Char :=
  replaceAfter old.toList new.toList 0 text

def replaceFirst (old new : List Char) : List Char → List Char
  | [] => []
  | c :: rest =>
      if old.isPrefixOf (c :: rest) then new ++ (c :: rest).drop old.length
      else c :: replaceFirst old new rest

def hasPiece (piece : List Char) : List Char → Bool
  | [] => piece.isEmpty
  | c :: rest => piece.isPrefixOf (c :: rest) || hasPiece piece rest

end Recurrence.Text
