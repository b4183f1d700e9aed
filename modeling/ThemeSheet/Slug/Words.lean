import ThemeSheet.Slug.Letter
import ThemeSheet.Text.Chars
import ThemeSheet.Text.Digit
import ThemeSheet.Text.WordCharacter

/-!
# The words of a slug

A text is cut into words where its writing changes: `sansSerif` has two words and `white2nd` has
`white` and `2nd`. `wordLength` says how long the word at the beginning of a text is, and `words`
collects the words from left to right, passing over every character at which none begins.

At a beginning there are three cases, told apart by the first character.

* **A small letter, or a capital before a small letter:** the word takes all small letters that
  follow. A contraction (`’s`, `’ll`, …) belongs to it if the word then ends there: at a break, a
  capital or the end of the text.
* **Any other capital:** the word takes all capitals that follow, and a contraction in capitals if
  the word then ends: at a break, the end of the text, or a capital that begins a word of the first
  kind. If a small letter follows the capitals, the last of them begins the next word.
* **A digit:** the word takes all digits that follow, of any script, and the letters of an English
  ordinal (`1st`, `2nd`, `3rd`, `4th`) if they end a word.

A break is any character that is neither a letter nor an ASCII digit.

## Main definitions

* `wordLength`, `words`, `ofText`, `ofValue`.
-/

namespace ThemeSheet.Slug

/-! ### Where words end -/

/-- Whether a character is neither a letter nor an ASCII digit. -/
def isBreak (c : Char) : Bool := !isLetter c && !Text.isAsciiDigit c

/-- Whether a word in small letters may end before a text. -/
def smallWordEnds : List Char → Bool
  | [] => true
  | c :: _ => isBreak c || isCapital c

/-- Whether a word in capitals may end before a text. -/
def capitalWordEnds : List Char → Bool
  | [] => true
  | c :: rest => isBreak c || (isCapital c && match rest with
    | [] => false
    | d :: _ => isSmall d)

/-! ### Contractions -/

/-- The curly apostrophe of a contraction. -/
def apostrophe : Char := '’'

/-- What may follow the apostrophe of a contraction. -/
def contractions : List (List Char) :=
  [['d'], ['l', 'l'], ['m'], ['r', 'e'], ['s'], ['t'], ['v', 'e']]

/-- The same in capitals. -/
def capitalContractions : List (List Char) :=
  [['D'], ['L', 'L'], ['M'], ['R', 'E'], ['S'], ['T'], ['V', 'E']]

/-- The length of a contraction with its apostrophe, if the text begins with one after which a word
may end; zero otherwise. -/
def contractionLength (endings : List (List Char)) (ends : List Char → Bool) : List Char → Nat
  | [] => 0
  | c :: rest =>
    if c = apostrophe then
      match endings.find? fun e => e.isPrefixOf rest && ends (rest.drop e.length) with
      | some e => e.length + 1
      | none => 0
    else 0

/-! ### Ordinals -/

/-- Whether no word boundary stands between a letter and what follows, and whether what follows is
not of the given class of letters either. -/
def continuesWord (otherCase : Char → Bool) : List Char → Bool
  | [] => false
  | c :: _ => Text.isWordCharacter c && !(otherCase c || c == '_')

/-- The ordinal ending of a number by its last digit, with the letters in small. -/
def ordinalEnding (last : Char) : List Char :=
  if last = '1' then ['s', 't']
  else if last = '2' then ['n', 'd']
  else if last = '3' then ['r', 'd']
  else ['t', 'h']

/-- How many letters of an ordinal follow a number: two, or none. The letters are all small or all
capitals, and a letter of the other case may follow them. -/
def ordinalLength (last : Char) (rest : List Char) : Nat :=
  let ending := ordinalEnding last
  let after := rest.drop 2
  if (ending.map Char.toUpper).isPrefixOf rest && !continuesWord Char.isLower after then 2
  else if ending.isPrefixOf rest && !continuesWord Char.isUpper after then 2
  else 0

/-! ### Words -/

/-- The length of the longest beginning of a class. -/
def runLength (p : Char → Bool) (cs : List Char) : Nat := (cs.takeWhile p).length

/-- The length of a word of small letters, the first of which may be a capital not in `cs`. -/
def smallWordLength (cs : List Char) : Nat :=
  let run := runLength isSmall cs
  run + contractionLength contractions smallWordEnds (cs.drop run)

/-- The length of a word of capitals. -/
def capitalWordLength (cs : List Char) : Nat :=
  let run := runLength isCapital cs
  match cs.drop run with
  | [] => run
  | c :: rest =>
    if isSmall c then run - 1
    else run + contractionLength capitalContractions capitalWordEnds (c :: rest)

/-- The length of a word that begins with a digit. -/
def numberLength (cs : List Char) : Nat :=
  let digits := cs.takeWhile Text.isDecimalDigit
  digits.length + match digits.getLast? with
    | some last => ordinalLength last (cs.drop digits.length)
    | none => 0

/-- The length of the word a text begins with; zero if no word begins there. -/
def wordLength : List Char → Nat
  | [] => 0
  | c :: rest =>
    if isSmall c then smallWordLength (c :: rest)
    else if isCapital c then
      match rest with
      | d :: _ => if isSmall d then smallWordLength rest + 1 else capitalWordLength (c :: rest)
      | [] => 1
    else if Text.isDecimalDigit c then numberLength (c :: rest)
    else 0

/-- The words of a text, from left to right. -/
def words (cs : List Char) : List (List Char) :=
  match cs with
  | [] => []
  | c :: rest =>
    match wordLength (c :: rest) with
    | 0 => words rest
    | n + 1 => (c :: rest.take n) :: words (rest.drop n)
termination_by cs.length
decreasing_by
  · simp
  · simp only [List.length_cons, List.length_drop]
    omega

end ThemeSheet.Slug
