/-
Sets of bytes given by spans. A set keeps the spans it was made from, sorted
and without repetition, and covers them with spans that neither overlap nor
touch.
-/
import Mdx.Text.Span

namespace Mdx

/-- A set of bytes, as spans in ascending order of start, then of stop. -/
structure RangeSet where
  ranges : List Span
  deriving DecidableEq, Repr, Inhabited

namespace RangeSet

/-- The set of the bytes of some spans. -/
def ofList (spans : List Span) : RangeSet := ⟨(spans.mergeSort Span.le).eraseReps⟩

/-- The set without any byte. -/
def empty : RangeSet := ⟨[]⟩

/-- Grows `last` by the spans that overlap or touch it, and goes on with the first that does not.
The spans come in ascending order. -/
def mergeFrom (last : Span) : List Span → List Span
  | [] => [last]
  | s :: spans =>
    if s.start ≤ last.stop then mergeFrom ⟨last.start, max last.stop s.stop⟩ spans
    else last :: mergeFrom s spans

/-- The shortest list of spans with the bytes of the set, in ascending order. -/
def merged (set : RangeSet) : List Span :=
  match set.ranges.filter fun s => !s.isEmpty with
  | [] => []
  | s :: spans => mergeFrom s spans

/-- No span is in the set, not even an empty one. -/
def isEmpty (set : RangeSet) : Bool := set.ranges.isEmpty

/-- The byte at `offset` is in the set. -/
def contains (set : RangeSet) (offset : Nat) : Bool := set.merged.any (·.contains offset)

/-- The bytes of either set. -/
def union (a b : RangeSet) : RangeSet := ofList (a.ranges ++ b.ranges)

/-- Whether two ascending lists of spans have a byte in common: the spans are looked at in pairs,
and of a pair without a common byte the one that stops first is passed over. -/
def overlap : List Span → List Span → Bool
  | [], _ => false
  | _, [] => false
  | a :: as, b :: bs =>
    if a.start < b.stop && b.start < a.stop then true
    else if a.stop ≤ b.stop then overlap as (b :: bs)
    else overlap (a :: as) bs
  termination_by as bs => as.length + bs.length

/-- Some byte is in both sets. -/
def intersects (a b : RangeSet) : Bool := overlap a.merged b.merged

end RangeSet

end Mdx
