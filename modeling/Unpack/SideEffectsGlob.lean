import Unpack.Lib.Sequence
import Unpack.PackageSideEffects

/-! The patterns of a package's `sideEffects` field and their translation to a regular expression. A regular
expression is the sequence of its parts, with what each part matches; patterns are those of the glob syntax with
globstar and extended syntax, and denote paths on their own. -/

namespace Unpack.SideEffectsFlagPlugin

/-- The parts of the expression: `(?:\./)?`, `(?:.*/)?`, `.*`, `[^/]*`, `[^/]` and an escaped character. -/
inductive Token where
  | currentDirectory
  | directories
  | everything
  | segment
  | segmentCharacter
  | character (character : Char)
  deriving DecidableEq

/-- A dot matches any character but a line feed. -/
def Token.accepts : Token → List Char → List Char → Prop
  | currentDirectory, taken, _ => taken = [] ∨ taken = ['.', '/']
  | directories, taken, _ => taken = [] ∨ '\n' ∉ taken ∧ taken.getLast? = some '/'
  | everything, taken, _ => '\n' ∉ taken
  | segment, taken, _ => '/' ∉ taken
  | segmentCharacter, taken, _ => taken.length = 1 ∧ '/' ∉ taken
  | character expected, taken, _ => taken = [expected]

instance : ∀ (token : Token) (taken rest : List Char), Decidable (token.accepts taken rest)
  | .currentDirectory, _, _ => inferInstanceAs (Decidable (_ ∨ _))
  | .directories, _, _ => inferInstanceAs (Decidable (_ ∨ _ ∧ _))
  | .everything, _, _ => inferInstanceAs (Decidable (¬ _))
  | .segment, _, _ => inferInstanceAs (Decidable (¬ _))
  | .segmentCharacter, _, _ => inferInstanceAs (Decidable (_ ∧ _))
  | .character _, _, _ => inferInstanceAs (Decidable (_ = _))

/-- What the loop over the characters of a pattern appends to the expression. -/
def tokens : List Char → List Token
  | '*' :: '*' :: '/' :: rest => .directories :: tokens rest
  | '*' :: '*' :: rest => .everything :: tokens rest
  | '*' :: rest => .segment :: tokens rest
  | '?' :: rest => .segmentCharacter :: tokens rest
  | character :: rest => .character character :: tokens rest
  | [] => []

def globMatches (moduleName pattern : String) : Bool :=
  let pattern := if '/' ∈ pattern.toList then pattern.toList else '*' :: '*' :: '/' :: pattern.toList
  decide (Sequence.Matches Token.accepts (.currentDirectory :: tokens pattern) moduleName.toList)

mutual

def moduleHasSideEffects (moduleName : String) : SerdeJson.Value → Bool
  | .bool value => value
  | .string pattern => globMatches moduleName pattern
  | .array patterns => anyHasSideEffects moduleName patterns
  | _ => true

def anyHasSideEffects (moduleName : String) : List SerdeJson.Value → Bool
  | [] => false
  | pattern :: patterns => moduleHasSideEffects moduleName pattern || anyHasSideEffects moduleName patterns

end

/-- What stands between slashes or around them: a character, `*`, a `**` with its slash, a `**` that ends the
pattern, `?` and a class of characters and character ranges. -/
inductive Piece where
  | literal (character : Char)
  | star
  | globstar
  | deep
  | any
  | characterClass (ranges : List (Char × Option Char))

/-- Brace alternatives do not nest. -/
inductive Item where
  | single (piece : Piece)
  | braces (alternatives : List (List Piece))

namespace Piece

def rangeText (range : Char × Option Char) : List Char :=
  match range.2 with
  | none => [range.1]
  | some last => [range.1, '-', last]

def text : Piece → List Char
  | literal character => [character]
  | star => ['*']
  | globstar => ['*', '*', '/']
  | deep => ['*', '*']
  | any => ['?']
  | characterClass ranges => '[' :: ranges.flatMap rangeText ++ [']']

/-- Characters that do not stand for themselves, and the line feed. -/
def special : List Char := ['*', '?', '[', ']', '{', '}', '\\', '\n']

def opensStar : Piece → Bool
  | star | globstar | deep => true
  | _ => false

/-- Whether a segment starts behind the piece. -/
def opensSegment : Piece → Bool
  | literal character => character = '/'
  | globstar => true
  | _ => false

/-- Whether the piece can stand where it is and be read as it is meant. -/
def Fits (segmentStart : Bool) : Piece → Prop
  | literal character => character ∉ special
  | star | any => True
  | globstar | deep => segmentStart = true
  | characterClass ranges => ranges ≠ [] ∧ ∀ range ∈ ranges, range.1 ∉ '-' :: ',' :: special ∧
      ∀ last ∈ range.2, range.1 ≤ last ∧ last ∉ '-' :: ',' :: special

def Readable : Bool → List Piece → Prop
  | _, [] => True
  | segmentStart, piece :: pieces => piece.Fits segmentStart ∧
      (piece = star → ∀ next ∈ pieces.head?, next.opensStar = false) ∧ (piece = deep → pieces = []) ∧
      Readable piece.opensSegment pieces

/-- What a piece stands for: `?` for any character but a line terminator, `**/` for whole segments, the last of
which needs no slash where the path ends. -/
def accepts : Piece → List Char → List Char → Prop
  | literal character, taken, _ => taken = [character]
  | star, taken, _ => '/' ∉ taken
  | globstar, taken, rest => taken = [] ∨ taken.getLast? = some '/' ∨ rest = []
  | deep, _, _ => True
  | any, taken, _ => ∃ character, taken = [character] ∧
      character ∉ ['\n', '\r', Char.ofNat 0x2028, Char.ofNat 0x2029]
  | characterClass ranges, taken, _ => ∃ character, taken = [character] ∧
      ∃ range ∈ ranges, range.1 ≤ character ∧ character ≤ range.2.getD range.1

end Piece

namespace Item

def text : Item → List Char
  | single piece => piece.text
  | braces alternatives =>
      '{' :: List.intercalate [','] (alternatives.map fun alternative => alternative.flatMap Piece.text) ++ ['}']

def Readable : Bool → List Item → Prop
  | _, [] => True
  | segmentStart, single first :: items => first.Fits segmentStart ∧
      (first = .star → ∀ next, items.head? = some (single next) → next.opensStar = false) ∧
      (first = .deep → items = []) ∧ Readable first.opensSegment items
  | _, braces alternatives :: items => alternatives ≠ [] ∧
      (∀ alternative ∈ alternatives, Piece.Readable false alternative ∧
        ∀ piece ∈ alternative, piece ≠ .deep ∧ piece ≠ .literal ',') ∧ Readable false items

/-- The sequences without alternatives that the items stand for. -/
def expansions : List Item → List (List Piece)
  | [] => [[]]
  | single first :: items => (expansions items).map (first :: ·)
  | braces alternatives :: items =>
      alternatives.flatMap fun alternative => (expansions items).map (alternative ++ ·)

end Item

structure Pattern where
  items : List Item
  readable : Item.Readable true items

namespace Pattern

def text (pattern : Pattern) : List Char := pattern.items.flatMap Item.text

/-- A pattern without a slash matches in any directory. -/
def rooted (pattern : Pattern) : List Item :=
  if '/' ∈ pattern.text then pattern.items else .single .globstar :: pattern.items

def Denotes (pattern : Pattern) (path : List Char) : Prop :=
  ∃ word, (path = word ∨ path = '.' :: '/' :: word) ∧
    ∃ pieces ∈ Item.expansions pattern.rooted, Sequence.Matches Piece.accepts pieces word

end Pattern

end Unpack.SideEffectsFlagPlugin
