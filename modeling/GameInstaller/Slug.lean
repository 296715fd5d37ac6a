/-! # Game slugs

A slug names a directory and a file under several roots, so it has to be a single path component
that never hides and never climbs: ASCII letters, digits, `-`, `_` and `.`, not starting with a
dot. -/

namespace GameInstaller

/-- Whether a slug may hold this character. -/
def isSlugChar (c : Char) : Bool :=
  c.isAlphanum || c == '-' || c == '_' || c == '.'

/-- Whether a list of characters spells a slug. -/
def isSlugChars : List Char → Bool
  | [] => false
  | c :: r => c != '.' && (c :: r).all isSlugChar

/-- Whether a text is a slug. -/
def isSlug (s : String) : Bool :=
  isSlugChars s.toList

end GameInstaller
