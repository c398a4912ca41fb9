import SketchLisp.Text.BreakClass

/-!
Clusters: the characters that a reader sees, each made of one or more characters
of the text. They are the extended grapheme clusters of Unicode.

* `joinsCluster`: whether a character belongs to the cluster before it;
* `clusters`: the clusters of a text.
-/

namespace SketchLisp.Text

/-- Whether a cluster, given with its last character first, ends with a pictograph
and a joiner, with nothing but extending marks between them. -/
def endsJoined : List Char → Bool
  | [] => false
  | last :: earlier =>
    BreakClass.ofChar last == .joiner &&
      match earlier.dropWhile fun c => BreakClass.ofChar c == .extending with
      | [] => false
      | c :: _ => BreakClass.ofChar c == .pictograph

/-- Whether a character may stand between a consonant and its linker or behind the
linker. The non-joiner U+200C may not. -/
def continuesConjunct (c : Char) : Bool :=
  c.toNat != 0x200C && (BreakClass.ofChar c matches .extending | .joiner)

/-- Whether a cluster, given with its last character first, ends with a consonant
and a linker, with nothing but marks around the linker. -/
def endsLinked (cluster : List Char) : Bool :=
  (cluster.takeWhile continuesConjunct).any isConjunctLinker &&
    match cluster.dropWhile continuesConjunct with
    | [] => false
    | c :: _ => BreakClass.ofChar c == .consonant

/-- Whether a cluster, given with its last character first, ends with a regional
indicator that is the first of its pair. -/
def endsUnpaired (cluster : List Char) : Bool :=
  (cluster.takeWhile fun c => BreakClass.ofChar c == .regional).length % 2 == 1

/-- Whether a character of the class `after` belongs to a cluster, given with its
last character first. -/
def joinsClass (cluster : List Char) (after : BreakClass) : Bool :=
  match cluster with
  | [] => true
  | last :: _ =>
    let before := BreakClass.ofChar last
    if before.isApart || after.isApart then before == .carriageReturn && after == .lineFeed
    else
      before == .prepended || before.hangulJoins after ||
        match after with
        | .extending | .joiner | .spacing => true
        | .consonant => endsLinked cluster
        | .pictograph => endsJoined cluster
        | .regional => endsUnpaired cluster
        | _ => false

/-- Whether a character belongs to a cluster, given with its last character
first. -/
def joinsCluster (cluster : List Char) (c : Char) : Bool :=
  joinsClass cluster (BreakClass.ofChar c)

/-- The clusters of a text, the first of which has begun with the characters of
`begun`, the latest first. -/
def clustersFrom (begun : List Char) : List Char → List (List Char)
  | [] => [begun.reverse]
  | c :: rest =>
    if joinsCluster begun c then clustersFrom (c :: begun) rest
    else begun.reverse :: clustersFrom [c] rest

/-- The clusters of a text. -/
def clusters : List Char → List (List Char)
  | [] => []
  | c :: rest => clustersFrom [c] rest

end SketchLisp.Text
