import ThemeSheet.Css.Token
import ThemeSheet.Number.Numeral
import ThemeSheet.Text.Chars
import ThemeSheet.Tree.Spelling

/-!
# Reading style values

The lexer of CSS Syntax, on texts in which line breaks have been made alike. Every reader returns
what it has read with the rest of the text, and the rest is a suffix of what it was given: these are
the lemmas `*_suffix`, by which `lexemes` is total.

An escape stands for the character it names wherever a name, a string or an address is read. A
string ends at a line break that is not escaped, and what has been read of it is then no token; at
the end of the text it is a string followed by a fault. An address is read likewise.

A numeral written as an integer is read as the integer it is, and only if it has no more digits than
integers may have; otherwise the whole text is refused.

## Main definitions

* `Css.normalize`, `Css.lexemes`, `Css.tokens`.

## Main results

* `step_suffix`: a step passes over at least one character.
-/

namespace ThemeSheet.Css

open Text (isAsciiDigit)

/-! ### Characters -/

/-- Whether a character is a blank between tokens. -/
def isSpace (c : Char) : Bool := c == ' ' || c == '\n' || c == '\t'

/-- Whether a character is a hexadecimal digit. -/
def isHex (c : Char) : Bool :=
  isAsciiDigit c || (decide ('a' ≤ c) && decide (c ≤ 'f')) || (decide ('A' ≤ c) && decide (c ≤ 'F'))

/-- The value of a hexadecimal digit. -/
def hexValue (c : Char) : Nat :=
  if isAsciiDigit c then c.toNat - 48 else if 'a' ≤ c then c.toNat - 87 else c.toNat - 55

/-- Whether a name may begin with a character. -/
def isNameStart (c : Char) : Bool := c.isAlpha || c == '_' || decide (0x7F < c.toNat)

/-- Whether a name may go on with a character. -/
def isNameChar (c : Char) : Bool := isNameStart c || isAsciiDigit c || c == '-'

/-- Whether a text begins with a line break. -/
def startsLine : List Char → Bool
  | '\n' :: _ => true
  | _ => false

/-- Whether a text begins with an escape: a backslash, but not before a line break. -/
def startsEscape : List Char → Bool
  | '\\' :: rest => !startsLine rest
  | _ => false

/-- Whether a text begins with a name that is not a number. -/
def startsIdent : List Char → Bool
  | [] => false
  | '-' :: rest =>
    match rest with
    | [] => false
    | c :: _ => isNameStart c || c == '-' || startsEscape rest
  | c :: rest => isNameStart c || startsEscape (c :: rest)

/-- A text with its line breaks made alike, and without the character that cannot be written. -/
def normalize : List Char → List Char
  | [] => []
  | '\r' :: '\n' :: rest => '\n' :: normalize rest
  | c :: rest =>
    (if c = '\r' ∨ c = '\x0c' then '\n' else if c = '\x00' then '\uFFFD' else c) :: normalize rest

/-! ### Escapes and names -/

/-- The character of a code point, if it has one. -/
def codeChar (n : Nat) : Char :=
  if n = 0 ∨ ¬ n.isValidChar then '\uFFFD' else Char.ofNat n

/-- The text after the one blank it may begin with. -/
def dropSpace : List Char → List Char
  | c :: rest => if isSpace c then rest else c :: rest
  | [] => []

/-- The character that an escape stands for, read after its backslash. -/
def escape (cs : List Char) : Char × List Char :=
  let hex := (cs.take 6).takeWhile isHex
  if hex.isEmpty then
    match cs with
    | c :: rest => (c, rest)
    | [] => ('\uFFFD', [])
  else (codeChar (hex.foldl (fun n c => n * 16 + hexValue c) 0), dropSpace (cs.drop hex.length))

theorem dropSpace_suffix (cs : List Char) : dropSpace cs <:+ cs := by
  unfold dropSpace
  split
  · split
    · exact List.suffix_cons _ _
    · exact List.suffix_rfl
  · exact List.suffix_rfl

theorem escape_suffix (cs : List Char) : (escape cs).2 <:+ cs := by
  unfold escape
  dsimp only
  split
  · split
    · exact List.suffix_cons _ _
    · exact List.suffix_rfl
  · exact (dropSpace_suffix _).trans (List.drop_suffix _ _)

/-- A rest that is a suffix of what follows a character is shorter than the text with it. -/
theorem length_lt_of_suffix {rest cs : List Char} {c : Char} (h : rest <:+ cs) :
    rest.length < (c :: cs).length := by
  have := h.length_le
  simp only [List.length_cons]
  omega

/-- The name a text begins with. -/
def name (cs : List Char) : List Char × List Char :=
  match cs with
  | [] => ([], [])
  | c :: rest =>
    if isNameChar c then (c :: (name rest).1, (name rest).2)
    else if startsEscape (c :: rest) then
      ((escape rest).1 :: (name (escape rest).2).1, (name (escape rest).2).2)
    else ([], c :: rest)
termination_by cs.length
decreasing_by
  all_goals first
    | exact length_lt_of_suffix List.suffix_rfl
    | exact length_lt_of_suffix (escape_suffix _)

theorem name_suffix (cs : List Char) : (name cs).2 <:+ cs := by
  fun_induction name cs with
  | case1 => exact List.suffix_rfl
  | case2 c rest h ih => exact ih.trans (List.suffix_cons _ _)
  | case3 c rest h h' ih => exact (ih.trans (escape_suffix _)).trans (List.suffix_cons _ _)
  | case4 c rest h h' => exact List.suffix_rfl

theorem name_suffix_tail {c : Char} {rest : List Char} (h : startsIdent (c :: rest) = true) :
    (name (c :: rest)).2 <:+ rest := by
  rw [name]
  split
  · exact name_suffix _
  · next hn =>
    split
    · exact (name_suffix _).trans (escape_suffix _)
    · next he =>
      refine absurd h ?_
      unfold startsIdent
      split
      · simp
      · next heq =>
        cases heq
        exact absurd (by decide) hn
      · next heq =>
        cases heq
        simp only [isNameChar, Bool.or_eq_true, not_or] at hn
        simp [hn.1.1, he]

/-! ### Strings and addresses -/

/-- What has been read of a string or an address: its text, unless it is broken, and whether a fault
follows it. -/
structure Reading where
  text : Option (List Char)
  fault : Bool
  rest : List Char

/-- A reading with a character in front. -/
def Reading.cons (c : Char) (r : Reading) : Reading := { r with text := r.text.map (c :: ·) }

/-- A string after its opening quote. -/
def quotedString (quote : Char) (cs : List Char) : Reading :=
  match cs with
  | [] => ⟨some [], true, []⟩
  | c :: rest =>
    if c = quote then ⟨some [], false, rest⟩
    else if c = '\\' then
      match rest with
      | [] => ⟨some [], true, []⟩
      | d :: rest' =>
        if d = '\n' then quotedString quote rest'
        else (quotedString quote (escape (d :: rest')).2).cons (escape (d :: rest')).1
    else if c = '\n' then ⟨none, true, c :: rest⟩
    else (quotedString quote rest).cons c
termination_by cs.length
decreasing_by
  · simp only [List.length_cons]
    omega
  · exact length_lt_of_suffix (escape_suffix _)
  · exact length_lt_of_suffix List.suffix_rfl

theorem quotedString_suffix (quote : Char) (cs : List Char) :
    (quotedString quote cs).rest <:+ cs := by
  fun_induction quotedString quote cs with
  | case1 => exact List.suffix_rfl
  | case2 rest => exact List.suffix_cons _ _
  | case3 => exact List.suffix_cons _ _
  | case4 h rest ih => exact (ih.trans (List.suffix_cons _ _)).trans (List.suffix_cons _ _)
  | case5 h d rest hd ih => exact (ih.trans (escape_suffix _)).trans (List.suffix_cons _ _)
  | case6 rest => exact List.suffix_rfl
  | case7 c rest h h' h'' ih => exact ih.trans (List.suffix_cons _ _)

/-- What follows the first closing bracket, or an escaped one passed over, of a broken address. -/
def afterBadUrl : List Char → List Char
  | [] => []
  | '\\' :: ')' :: rest => afterBadUrl rest
  | c :: rest => if c = ')' then rest else afterBadUrl rest

/-- A broken address. -/
def badUrl (cs : List Char) : Reading := ⟨none, true, afterBadUrl cs⟩

/-- Whether a character breaks an address: a quote, an opening bracket or a control. -/
def breaksUrl (c : Char) : Bool :=
  c == '"' || c == '\x27' || c == '(' || decide (c.toNat ≤ 8) || c == '\x0b' ||
    (decide (0x0E ≤ c.toNat) && decide (c.toNat ≤ 0x1F)) || c == '\x7f'

/-- The end of an address after blanks, with its text so far: only the closing bracket may
follow. -/
def urlEnd (text : List Char) (cs : List Char) : Reading :=
  match cs.dropWhile isSpace with
  | [] => ⟨some text, true, []⟩
  | c :: rest => if c = ')' then ⟨some text, false, rest⟩ else badUrl (c :: rest)

/-- An address without quotes after the blanks before it; `done` is its text so far in reverse. -/
def urlBody (done cs : List Char) : Reading :=
  match cs with
  | [] => ⟨some done.reverse, true, []⟩
  | c :: rest =>
    if c = ')' then ⟨some done.reverse, false, rest⟩
    else if isSpace c then urlEnd done.reverse rest
    else if startsEscape (c :: rest) then urlBody ((escape rest).1 :: done) (escape rest).2
    else if breaksUrl c then badUrl rest
    else urlBody (c :: done) rest
termination_by cs.length
decreasing_by
  · exact length_lt_of_suffix (escape_suffix _)
  · exact length_lt_of_suffix List.suffix_rfl

theorem afterBadUrl_suffix (cs : List Char) : afterBadUrl cs <:+ cs := by
  fun_induction afterBadUrl cs with
  | case1 => exact List.suffix_rfl
  | case2 rest ih => exact (ih.trans (List.suffix_cons _ _)).trans (List.suffix_cons _ _)
  | case3 rest => exact List.suffix_cons _ _
  | case4 c rest _ _ ih => exact ih.trans (List.suffix_cons _ _)

theorem urlEnd_suffix (text cs : List Char) : (urlEnd text cs).rest <:+ cs := by
  unfold urlEnd
  have h := List.dropWhile_suffix (p := isSpace) (l := cs)
  split
  · exact List.nil_suffix
  · next c rest heq =>
    rw [heq] at h
    split
    · exact (List.suffix_cons _ _).trans h
    · exact (afterBadUrl_suffix _).trans h

theorem urlBody_suffix (done cs : List Char) : (urlBody done cs).rest <:+ cs := by
  fun_induction urlBody done cs with
  | case1 => exact List.suffix_rfl
  | case2 done rest => exact List.suffix_cons _ _
  | case3 done c rest h h' => exact (urlEnd_suffix _ _).trans (List.suffix_cons _ _)
  | case4 done c rest _ _ _ ih => exact (ih.trans (escape_suffix _)).trans (List.suffix_cons _ _)
  | case5 done c rest => exact (afterBadUrl_suffix _).trans (List.suffix_cons _ _)
  | case6 done c rest _ _ _ _ ih => exact ih.trans (List.suffix_cons _ _)

/-- The lexemes of a reading: its token, if it is not broken, and then a fault, if there is one. -/
def Reading.lexemes (atom : String → Atom) (r : Reading) : List Lexeme :=
  (match r.text with
    | some text => [.atom (atom (String.ofList text))]
    | none => []) ++ if r.fault then [.atom .fault] else []

/-! ### Numbers -/

/-- A numeral, if the text begins with one, as a number and the digits before its point. -/
def numeral? (cs : List Char) : Option (Number × List Char × List Char) :=
  let (negative, body) := Numeral.sign cs
  let (whole, rest) := Numeral.digits body
  let (fraction, rest) := Numeral.fraction rest
  if whole.isEmpty && fraction.isEmpty then none
  else
    let (exponent, rest) := Numeral.exponent rest
    let value := Numeral.float negative whole fraction exponent
    let integer := if fraction.isEmpty && exponent.isNone then
      some (Binary64.signed negative (Numeral.value whole)) else none
    some (⟨value, integer⟩, whole, rest)

theorem numeral?_suffix_tail {c : Char} {cs : List Char} {r : Number × List Char × List Char}
    (h : numeral? (c :: cs) = some r) : r.2.2 <:+ cs := by
  unfold numeral? at h
  dsimp only at h
  split at h
  · cases h
  · next hne =>
    cases h
    refine (Numeral.exponent_suffix _).trans ?_
    by_cases hs : (Numeral.sign (c :: cs)).2 = c :: cs
    · rw [hs] at hne ⊢
      by_cases hd : (Numeral.digits (c :: cs)).1 = []
      · have hrest : (Numeral.digits (c :: cs)).2 = c :: cs := by
          have := List.takeWhile_append_dropWhile (p := isAsciiDigit) (l := c :: cs)
          rw [show (c :: cs).takeWhile isAsciiDigit = [] from hd] at this
          exact this
        rw [hrest] at hne ⊢
        refine Numeral.fraction_suffix_tail fun hf => hne ?_
        rw [hd, hf]
        rfl
      · exact (Numeral.fraction_suffix _).trans (Numeral.digits_suffix_tail hd)
    · refine (Numeral.fraction_suffix _).trans ((Numeral.digits_suffix _).trans ?_)
      unfold Numeral.sign at hs ⊢
      split
      · next heq => cases heq; exact List.suffix_rfl
      · next heq => cases heq; exact List.suffix_rfl
      · next h1 h2 =>
        split at hs
        · next heq => exact absurd heq (h1 _)
        · next heq => exact absurd heq (h2 _)
        · exact absurd rfl hs

/-- A number with what is written after it: a percent sign, a unit or nothing. -/
def measured (n : Number) (rest : List Char) : Atom × List Char :=
  if startsIdent rest then (.dimension n (String.ofList (name rest).1), (name rest).2)
  else match rest with
    | '%' :: rest' => (.percentage n, rest')
    | _ => (.number n, rest)

theorem measured_suffix (n : Number) (rest : List Char) : (measured n rest).2 <:+ rest := by
  unfold measured
  split
  · exact name_suffix _
  · split
    · exact List.suffix_cons _ _
    · exact List.suffix_rfl

/-! ### Other tokens -/

/-- What follows a range of code points, read after its plus sign: up to six digits and question
marks, or two runs of digits with a hyphen between them. -/
def afterRange (cs : List Char) : List Char :=
  let hex := (cs.take 6).takeWhile isHex
  let rest := cs.drop hex.length
  let marks := (rest.take (6 - hex.length)).takeWhile (· == '?')
  if marks.isEmpty then
    match rest with
    | '-' :: d :: rest' =>
      if isHex d then (d :: rest').drop (((d :: rest').take 6).takeWhile isHex).length else rest
    | _ => rest
  else rest.drop marks.length

theorem afterRange_suffix (cs : List Char) : afterRange cs <:+ cs := by
  unfold afterRange
  dsimp only
  split
  · split
    · next d rest' heq =>
      split
      · have h : '-' :: d :: rest' <:+ cs := heq ▸ List.drop_suffix _ _
        exact ((List.drop_suffix _ _).trans (List.suffix_cons _ _)).trans h
      · exact List.drop_suffix _ _
    · exact List.drop_suffix _ _
  · exact (List.drop_suffix _ _).trans (List.drop_suffix _ _)

/-- What follows the end of a comment; nothing if the comment does not end. -/
def afterComment : List Char → List Char
  | [] => []
  | '*' :: '/' :: rest => rest
  | _ :: rest => afterComment rest

theorem afterComment_suffix (cs : List Char) : afterComment cs <:+ cs := by
  fun_induction afterComment cs with
  | case1 => exact List.suffix_rfl
  | case2 rest => exact (List.suffix_cons _ _).trans (List.suffix_cons _ _)
  | case3 c rest _ ih => exact ih.trans (List.suffix_cons _ _)

/-- Whether a text begins with a range of code points. -/
def startsRange : List Char → Bool
  | c :: '+' :: d :: _ => (c == 'u' || c == 'U') && (isHex d || d == '?')
  | _ => false

/-- Whether a text begins with a quote. -/
def startsQuote : List Char → Bool
  | c :: _ => c == '"' || c == '\x27'
  | [] => false

/-- A name, or the function or address that it begins. -/
def identLexemes (cs : List Char) : List Lexeme × List Char :=
  let text := (name cs).1
  match (name cs).2 with
  | '(' :: rest =>
    let inner := rest.dropWhile isSpace
    if Text.lowerAscii text = "url".toList && !startsQuote inner then
      ((urlBody [] inner).lexemes .url, (urlBody [] inner).rest)
    else ([.opening (.function (String.ofList text))], rest)
  | rest => ([.atom (.ident (String.ofList text))], rest)

theorem identLexemes_suffix {c : Char} {rest : List Char} (h : startsIdent (c :: rest) = true) :
    (identLexemes (c :: rest)).2 <:+ rest := by
  have hn := name_suffix_tail h
  unfold identLexemes
  dsimp only
  split
  · next rest' heq =>
    rw [heq] at hn
    have hr := (List.suffix_cons _ _).trans hn
    split
    · exact ((urlBody_suffix _ _).trans (List.dropWhile_suffix _)).trans hr
    · exact hr
  · exact hn

/-- The tokens of two and more characters that are not names: they are taken as they are. -/
def longLiterals : List (List Char) :=
  ["<!--".toList, "||".toList, "~=".toList, "|=".toList, "^=".toList, "$=".toList, "*=".toList]

/-- The bracket that a character opens. -/
def openingBracket? (c : Char) : Option Bracket :=
  if c = '(' then some .round else if c = '[' then some .square
  else if c = '\x7b' then some .curly else none

/-- The bracket that a character closes. -/
def closingBracket? (c : Char) : Option Bracket :=
  if c = ')' then some .round else if c = ']' then some .square
  else if c = '\x7d' then some .curly else none

/-- What begins with a character that begins neither a name nor a number. -/
def signLexemes (c : Char) (rest : List Char) : List Lexeme × List Char :=
  if c = '@' then
    if startsIdent rest then
      ([.atom (.atKeyword (String.ofList (name rest).1))], (name rest).2)
    else ([.atom (.literal "@")], rest)
  else if c = '#' then
    match rest with
    | d :: _ =>
      if isNameChar d || startsEscape rest then
        ([.atom (.hash (String.ofList (name rest).1))], (name rest).2)
      else ([.atom (.literal "#")], rest)
    | [] => ([.atom (.literal "#")], rest)
  else if c = '"' ∨ c = '\x27' then
    ((quotedString c rest).lexemes .string, (quotedString c rest).rest)
  else match openingBracket? c, closingBracket? c with
    | some kind, _ => ([.opening (.bracket kind)], rest)
    | none, some kind => ([.closing kind], rest)
    | none, none =>
      match longLiterals.find? fun l => l.isPrefixOf (c :: rest) with
      | some l => ([.atom (.literal (String.ofList l))], rest.drop (l.length - 1))
      | none => ([.atom (.literal (String.ofList [c]))], rest)

theorem signLexemes_suffix (c : Char) (rest : List Char) : (signLexemes c rest).2 <:+ rest := by
  unfold signLexemes
  split
  · split
    · exact name_suffix _
    · exact List.suffix_rfl
  · split
    · split
      · split
        · exact name_suffix _
        · exact List.suffix_rfl
      · exact List.suffix_rfl
    · split
      · exact quotedString_suffix _ _
      · split
        · exact List.suffix_rfl
        · exact List.suffix_rfl
        · split
          · exact List.drop_suffix _ _
          · exact List.suffix_rfl

/-! ### Texts -/

/-- The lexemes a text begins with, and the rest. -/
def step (c : Char) (rest : List Char) : Except Refusal (List Lexeme × List Char) :=
  if isSpace c then .ok ([.atom .blank], rest.dropWhile isSpace)
  else if startsRange (c :: rest) then .ok ([.atom .unicodeRange], afterRange (rest.drop 1))
  else if ['-', '-', '>'].isPrefixOf (c :: rest) then
    .ok ([.atom (.literal "-->")], rest.drop 2)
  else if startsIdent (c :: rest) then .ok (identLexemes (c :: rest))
  else match numeral? (c :: rest) with
    | some (n, whole, rest') =>
      if n.integer.isSome && decide (Decimal.integerDigitLimit < whole.length) then
        .error (.numeralTooLong whole.length)
      else .ok ([.atom (measured n rest').1], (measured n rest').2)
    | none =>
      if ['/', '*'].isPrefixOf (c :: rest) then .ok ([.atom .comment], afterComment (rest.drop 1))
      else .ok (signLexemes c rest)

/-- **A step passes over a character.** What is left is a suffix of what follows the first one. -/
theorem step_suffix {c : Char} {rest : List Char} {r : List Lexeme × List Char}
    (h : step c rest = .ok r) : r.2 <:+ rest := by
  unfold step at h
  split at h
  · cases h; exact List.dropWhile_suffix _
  split at h
  · cases h; exact (afterRange_suffix _).trans (List.drop_suffix _ _)
  split at h
  · cases h; exact List.drop_suffix _ _
  split at h
  · next hi => cases h; exact identLexemes_suffix hi
  split at h
  · next n whole rest' hn =>
    split at h
    · cases h
    · cases h
      exact (measured_suffix _ _).trans (numeral?_suffix_tail hn)
  · split at h
    · cases h; exact (afterComment_suffix _).trans (List.drop_suffix _ _)
    · cases h; exact signLexemes_suffix _ _

/-- The lexemes of a text. -/
def lexemes (cs : List Char) : Except Refusal (List Lexeme) :=
  match cs with
  | [] => .ok []
  | c :: rest =>
    match _h : step c rest with
    | .error e => .error e
    | .ok (found, rest') => (lexemes rest').map (found ++ ·)
termination_by cs.length
decreasing_by exact length_lt_of_suffix (step_suffix _h)

/-- The tokens of a text. -/
def tokens (cs : List Char) : Except Refusal (List Token) :=
  (lexemes (normalize cs)).map nest

end ThemeSheet.Css
