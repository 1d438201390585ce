import Metering.Error

/-!
# Histograms

A histogram counts measurements by the interval in which they lie. Its boundaries, in increasing
order and without NaN, cut the number line into one more bucket than there are boundaries; a
bucket holds its lower boundary. Counts stop at the largest 64-bit number.
-/

namespace Metering

abbrev Count := Nat

def Count.top : Count := 0xffffffffffffffff

/-- The sum of two counts, up to the largest one. -/
def Count.plus (a b : Count) : Count := min (a + b) Count.top

namespace Boundaries

/-- Inserts a boundary into an ordered list before the first larger one. -/
def insert (b : Binary64) : List Binary64 → List Binary64
  | [] => [b]
  | c :: cs => if b.totalRank < c.totalRank then b :: c :: cs else c :: insert b cs

/-- An ordered list without the neighbours that are numerically equal to what precedes them. -/
def distinct : List Binary64 → List Binary64
  | [] => []
  | b :: bs => b :: distinctFrom b bs
where
  distinctFrom (last : Binary64) : List Binary64 → List Binary64
    | [] => []
    | b :: bs => if last.numericEq b then distinctFrom last bs else b :: distinctFrom b bs

/-- The boundaries that a list gives: NaNs do not count, nor repetitions. -/
def ofList (bs : List Binary64) : List Binary64 :=
  distinct ((bs.filter (!·.isNaN)).foldl (fun acc b => insert b acc) [])

/-- The bucket of a value: the number of boundaries that do not exceed it. -/
def bucket (boundaries : List Binary64) (x : Binary64) : Nat :=
  (boundaries.takeWhile (·.le x)).length

/-- Whether two lists of boundaries are the same numbers. -/
def agree : List Binary64 → List Binary64 → Bool
  | [], [] => true
  | x :: xs, y :: ys => x.numericEq y && agree xs ys
  | _, _ => false

end Boundaries

/-- The measurements counted so far: by bucket, all of them, and their sum. -/
structure Distribution where
  buckets : List Count
  count : Count
  sum : Number
  deriving DecidableEq

namespace Distribution

def empty (kind : NumberKind) (boundaries : Nat) : Distribution :=
  ⟨List.replicate (boundaries + 1) 0, 0, kind.zero⟩

def record (kind : NumberKind) (bucket : Nat) (n : Number) (s : Distribution) : Distribution :=
  ⟨s.buckets.modify bucket (Count.plus · 1), Count.plus s.count 1, s.sum.add kind n⟩

def merge (kind : NumberKind) (s t : Distribution) : Distribution :=
  ⟨List.zipWith Count.plus s.buckets t.buckets, Count.plus s.count t.count, s.sum.add kind t.sum⟩

end Distribution
end Metering
