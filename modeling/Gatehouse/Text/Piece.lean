/-!
# Pieces of a text

A language is read by taking one piece after another off the head of its text.  A piece is a token
or trivia; either way it says which characters it took, so that a reader can be held to the law
that nothing is lost: lexeme and rest together are the text.
-/

namespace Gatehouse.Text

/-- One piece of a text: the token that it is, if it is not trivia, its characters, and what
follows it. -/
structure Piece (κ : Type) where
  kind : Option κ
  lexeme : List Char
  rest : List Char

end Gatehouse.Text
