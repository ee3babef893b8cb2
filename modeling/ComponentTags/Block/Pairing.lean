import ComponentTags.Tag
import ComponentTags.Error

/-!
# Pairing of tags

Every end tag closes the latest start tag of its name that is still open, and no other tag opened
after that one may still be open. Pairs are pairs of positions in the list of tags, in the order of
their end tags.
-/

namespace ComponentTags

namespace Pairing

/-- Walks backward through tags with their positions, the latest first, past `pending` start tags
that other end tags close. -/
def openerBefore (finish : Tag) (pending : Nat) : List (Tag × Nat) → Option Nat
  | [] => none
  | (tag, i) :: earlier =>
    if !tag.sameName finish || tag.isSelfClosing then openerBefore finish pending earlier
    else if tag.isClosing then openerBefore finish (pending + 1) earlier
    else
      match pending with
      | 0 => some i
      | pending + 1 => openerBefore finish pending earlier

/-- The position of the start tag that `finish` closes after the tags `preceding`. -/
def opener? (finish : Tag) (preceding : List Tag) : Option Nat :=
  openerBefore finish 0 preceding.zipIdx.reverse

/-- The first start tag at or after position `first` that is no part of `pairs`. -/
def firstOpen? (pairs : List (Nat × Nat)) (first : Nat) (tags : List Tag) : Option Tag :=
  ((tags.zipIdx.drop first).find? fun (tag, i) =>
    tag.isOpening && !pairs.any (·.1 == i)).map Prod.fst

/-- Adds the pair that the end tag `finish` makes after the tags `preceding`. -/
def close (preceding : List Tag) (finish : Tag) (pairs : List (Nat × Nat)) :
    Except Error (List (Nat × Nat)) :=
  match opener? finish preceding with
  | none => .error (.unmatchedClosingTag finish.name finish.line)
  | some start =>
    match firstOpen? pairs (start + 1) preceding with
    | some tag => .error (.mismatchedClosingTag tag.name finish.name finish.line)
    | none => .ok (pairs ++ [(start, preceding.length)])

/-- Pairs the tags of `rest`, which come after `preceding` with its `pairs`. -/
def pairsFrom (preceding : List Tag) (pairs : List (Nat × Nat)) :
    List Tag → Except Error (List (Nat × Nat))
  | [] =>
    match firstOpen? pairs 0 preceding with
    | some tag => .error (.missingClosingTag tag.name tag.line)
    | none => .ok pairs
  | tag :: rest =>
    if tag.isClosing then
      (close preceding tag pairs).bind fun pairs => pairsFrom (preceding ++ [tag]) pairs rest
    else pairsFrom (preceding ++ [tag]) pairs rest

end Pairing

/-- Pairs every end tag with its start tag. -/
def Tag.pairs (tags : List Tag) : Except Error (List (Nat × Nat)) :=
  Pairing.pairsFrom [] [] tags

end ComponentTags
