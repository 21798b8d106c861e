import Stencil.Template.Tag

/-!
# Tokens

A template as a sequence of tags and the plain text between them, each with its byte positions.

* `Token.ofSource`: the tokens of a template, cut by the scan for tags.
-/

namespace Stencil

/-- What a token is: plain text, or a tag. -/
inductive Lexeme where
  | plain (text : String)
  | tag (tag : Tag)
  deriving DecidableEq

/-- A part of a source. -/
structure Token where
  lexeme : Lexeme
  /-- Byte position of the first character. -/
  start : Nat
  /-- Byte position behind the last character. -/
  stop : Nat
  deriving DecidableEq

namespace Token

/-- The token of a piece between two byte positions. -/
def ofPiece : Text.Piece Tag × Nat × Nat → Token
  | (.plain text, start, stop) => ⟨.plain (.ofList text), start, stop⟩
  | (.found tag _, start, stop) => ⟨.tag tag, start, stop⟩

/-- The tokens of a source in order. -/
def ofSource (source : String) : List Token :=
  (Text.Piece.located 0 (Tag.recogniser.pieces source.toList)).map ofPiece

end Token

end Stencil
