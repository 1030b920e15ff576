/-
SsaTypes/Ty/Combine.lean

Flattening, subtracting and merging types.

* `simplify` dissolves a union in a union and an intersection in an
  intersection; repeated members stay, and array elements are left as written;
* `remove?` takes a type away from another;
* `merge?` joins the candidates gathered for one operand.
-/
import SsaTypes.Ty.Same

namespace SsaTypes.Ty

mutual

/-- The type with unions in unions and intersections in intersections dissolved. -/
def simplify : Ty → Ty
  | .comb k ms => .comb k (flatten k ms)
  | t => t

/-- The simplified members, with the members of those of kind `k` in their place. -/
def flatten (k : Comb) : List Ty → List Ty
  | [] => []
  | m :: ms =>
    match simplify m with
    | .comb l inner => if l = k then inner ++ flatten k ms else .comb l inner :: flatten k ms
    | t => t :: flatten k ms

end

/-- The first type without the second.  A union or an intersection loses the
members that are the same as `t` and is dissolved when one is left; `none`
when no member is left.  Any other type that is the same as `t` leaves null. -/
def remove? (whole t : Ty) : Option Ty :=
  match whole with
  | .comb k ms =>
    match ms.filter fun m => !same m t with
    | [] => none
    | [m] => some m
    | kept => some (.comb k kept)
  | _ => if same whole t then some .null else some whole

/-- The type of an operand with the given candidates: `none` without
candidates, or if one of several is unknown.  Candidates that are all the same
give the first of them, others their flattened union. -/
def merge? : List Ty → Option Ty
  | [] => none
  | [t] => some t
  | t :: ts =>
    if (t :: ts).any isUnknown then none
    else if ts.all fun u => same u t then some t
    else some (simplify (.union (t :: ts)))

end SsaTypes.Ty
