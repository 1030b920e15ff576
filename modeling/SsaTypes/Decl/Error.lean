/-
SsaTypes/Decl/Error.lean

Why the text of a type declaration is refused.
-/

namespace SsaTypes

/-- A fault in the text of a type declaration. -/
inductive DeclError
  /-- Nothing stands where a type is expected. -/
  | empty
  /-- The text is no name of a class. -/
  | invalidIdentifier (text : String)
  /-- A parenthesis has no partner. -/
  | unmatchedParens (text : String)
  /-- A combinator has no left side, or a group is followed by something else
  than a combinator. -/
  | danglingCombinator (text : String)
  /-- Parentheses stand in a text that has no combinator outside of them. -/
  | missingCombinator (text : String)
deriving DecidableEq, Repr

/-- The message for the author of the declaration. -/
def DeclError.message : DeclError → String
  | .empty => "empty type declaration"
  | .invalidIdentifier text => "unknown type declaration found: " ++ text
  | .unmatchedParens text => "unmatched parentheses in type declaration: " ++ text
  | .danglingCombinator text => "unknown position of combinator: " ++ text
  | .missingCombinator text => "no combinator found: " ++ text

end SsaTypes
