import ThemeSheet.Tree.Moment

/-!
# Tokens of a YAML text

The structure of a YAML text is partly in its indentation. The tokens make all of it explicit: a
block collection has a token where it starts and one where it ends, and a key has a token in front
of it, even if nothing marks the key in the text. The end of the text is the end of the tokens.

A text can fail in two ways. It can be refused, which is reported as a fault of the text. Or it can
ask for something that the reader is not prepared for: that is a mishap, and stops the reader where
it is found. Which of a fault and a mishap comes first can depend on how far the structure has been
read, so a mishap among the tokens is a token itself.

## Main definitions

* `Fault`, the reasons for which a text is refused, and `Fault.wording`;
* `Mishap`, what the reader is not prepared for; `Error`, either of them;
* `Token`, `Directive`.
-/

namespace ThemeSheet.Yaml

/-- Why a text is refused. -/
inductive Fault where
  | unprintable
  | strangeCharacter
  | itemNotAllowed
  | keyNotAllowed
  | valueNotAllowed
  | missingColon
  | badDirective
  | badName
  | badTag
  | badBlockHeader
  | badEscape
  | unexpectedEnd
  | separatorInQuotes
  | unexpectedToken
  | severalDocuments
  | undefinedAlias
  | duplicateAnchor
  | undefinedTagHandle
  | unknownTag
  | notMergeable
  | keyNotScalar
deriving DecidableEq, Repr

namespace Fault

/-- The wording of a fault. -/
def wording : Fault → String
  | .unprintable => "a character is not printable"
  | .strangeCharacter => "no token starts with this character"
  | .itemNotAllowed => "an item is not allowed here"
  | .keyNotAllowed => "a key is not allowed here"
  | .valueNotAllowed => "a value is not allowed here"
  | .missingColon => "a key is not followed by a colon"
  | .badDirective => "a directive is malformed"
  | .badName => "a name is malformed"
  | .badTag => "a tag is malformed"
  | .badBlockHeader => "the header of a block scalar is malformed"
  | .badEscape => "an escape is unknown"
  | .unexpectedEnd => "the text ends inside quotes"
  | .separatorInQuotes => "a document ends inside quotes"
  | .unexpectedToken => "the structure is not that of a document"
  | .severalDocuments => "there is more than one document"
  | .undefinedAlias => "an alias has no anchor"
  | .duplicateAnchor => "an anchor is set twice"
  | .undefinedTagHandle => "a tag handle is not defined"
  | .unknownTag => "a tag is not known"
  | .notMergeable => "what is merged is no mapping"
  | .keyNotScalar => "a key is a collection"

end Fault

/-- What the reader is not prepared for. -/
inductive Mishap where
  /-- An integer has too many digits to be read. -/
  | numeralTooLong (digits : Nat)
  /-- A number has no digits in its base. -/
  | noDigits (base : Nat)
  /-- An escape gives a number that no character has. -/
  | noCharacter (code : Nat)
  /-- There is no such day, or no such time. -/
  | noMoment (fault : MomentFault)
  /-- A number has too many parts below sixty for a binary64 number. -/
  | powerTooLarge
deriving DecidableEq, Repr

/-- Why a text has no value. -/
inductive Error where
  | malformed (fault : Fault)
  | unprepared (mishap : Mishap)
deriving DecidableEq, Repr

/-- A line with instructions for the reader. -/
inductive Directive where
  /-- The version of the format that the document is written in. -/
  | version (major : Nat)
  /-- A short form of tags: the handle stands for the beginning of a tag. -/
  | tagHandle (handle beginning : String)
  /-- An instruction for someone else. -/
  | other
deriving DecidableEq, Repr

/-- A token. -/
inductive Token where
  | directive (directive : Directive)
  | documentStart
  | documentEnd
  | blockSequenceStart
  | blockMappingStart
  | blockEnd
  | flowSequenceStart
  | flowSequenceEnd
  | flowMappingStart
  | flowMappingEnd
  /-- The dash before an item of a block sequence. -/
  | item
  /-- The comma between the parts of a flow collection. -/
  | comma
  | key
  | value
  | alias (name : String)
  | anchor (name : String)
  | tag (handle : Option String) (suffix : String)
  | scalar (plain : Bool) (text : String)
  /-- The place at which reading tokens came to a mishap. -/
  | broken (mishap : Mishap)
deriving DecidableEq, Repr

end ThemeSheet.Yaml
