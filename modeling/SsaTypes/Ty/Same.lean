/-
SsaTypes/Ty/Same.lean

When two types count as the same.  Class names are compared up to the case of
ASCII letters, all arrays are the same, and the members of a union or an
intersection are compared as multisets: each member on the left takes one
member of the right that is the same and not yet taken.
-/
import SsaTypes.Ty.Basic
import SsaTypes.Text.Ascii

namespace SsaTypes.Ty

open Text

/-- The list without its first element that passes the test; `none` if there
is no such element. -/
def takeOut {α : Type} (test : α → Bool) : List α → Option (List α)
  | [] => none
  | x :: xs => if test x then some xs else (takeOut test xs).map (x :: ·)

mutual

/-- Whether two types count as the same. -/
def same : Ty → Ty → Bool
  | .unknown, .unknown => true
  | .null, .null => true
  | .bool, .bool => true
  | .int, .int => true
  | .float, .float => true
  | .string, .string => true
  | .callable, .callable => true
  | .object, .object => true
  | .named c, .named d => sameName c d
  | .array, b => b.isArray
  | .arrayOf _, b => b.isArray
  | .comb k ms, .comb l ns => k == l && matchAll ms ns
  | _, _ => false

/-- Whether the members on the left can be paired off, first come first
served, with those on the right. -/
def matchAll : List Ty → List Ty → Bool
  | [], ns => ns.isEmpty
  | m :: ms, ns =>
    match takeOut (same m) ns with
    | some rest => matchAll ms rest
    | none => false

end

end SsaTypes.Ty
