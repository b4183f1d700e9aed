/-!
# Control sequences of terminals

A terminal takes certain sequences of characters as instructions: the escape character and an
opening bracket, then parameters, which are digits, semicolons and question marks, then a letter
that says what is to be done. A text that is shown and not written to a file goes without them, as
it may be read by something that is no terminal.

## Main definitions

* `plain`, a text without control sequences.

## Main results

* `plain_eq_self`: a text without the escape character stays as it is.
-/

namespace ThemeSheet.Text

/-- The escape character, with which every control sequence begins. -/
def escapeChar : Char := '\x1b'

/-- Whether a character belongs to the parameters of a control sequence. -/
def isParameterChar (c : Char) : Bool := c.isDigit || c == ';' || c == '?'

/-- The length of the parameters and the letter after them, if a letter comes after them. -/
def instructionLength? : List Char → Option Nat
  | [] => none
  | c :: rest =>
    if isParameterChar c then (instructionLength? rest).map (· + 1)
    else if c.isAlpha then some 1
    else none

/-- The length of the control sequence that a text begins with, without its escape character. -/
def controlLength? : List Char → Option Nat
  | c :: '[' :: rest => if c = escapeChar then (instructionLength? rest).map (· + 1) else none
  | _ => none

/-- Drops the control sequences after passing over the first `skip` characters, which belong to a
sequence that is dropped. -/
def plainFrom : Nat → List Char → List Char
  | _, [] => []
  | skip + 1, _ :: rest => plainFrom skip rest
  | 0, c :: rest =>
    match controlLength? (c :: rest) with
    | some length => plainFrom length rest
    | none => c :: plainFrom 0 rest

/-- A text without control sequences. -/
def plain (cs : List Char) : List Char := plainFrom 0 cs

theorem controlLength?_eq_none {c : Char} (h : c ≠ escapeChar) (rest : List Char) :
    controlLength? (c :: rest) = none := by
  unfold controlLength?
  split
  · next heq => simp only [List.cons.injEq] at heq; simp [← heq.1, h]
  · rfl

/-- **A text without the escape character stays as it is.** -/
theorem plain_eq_self {cs : List Char} (h : escapeChar ∉ cs) : plain cs = cs := by
  unfold plain
  induction cs with
  | nil => rfl
  | cons c rest ih =>
    simp only [List.mem_cons, not_or] at h
    rw [plainFrom, controlLength?_eq_none (Ne.symm h.1), ih h.2]

end ThemeSheet.Text
