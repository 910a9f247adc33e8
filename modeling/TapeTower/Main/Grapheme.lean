import TapeTower.Main.Grapheme.Class

/-!
# Grapheme clusters

What a reader takes for one character may be several in the text: a letter with its
accents, a syllable, a flag, a family of pictographs. These are the extended grapheme
clusters of Unicode. Whether a character continues the cluster before it depends on no
more than that cluster, so a text is cut into clusters from its beginning to its end.
-/

namespace TapeTower.Text

/-! ### Clusters that go on

A cluster under construction is given by its characters, the latest first. -/

/-- Whether `c` may stand between the consonants of a conjunct. -/
def linksConjunct (c : Char) : Bool :=
  match GraphemeClass.ofChar c with
  | .extend => c ≠ zeroWidthNonJoiner
  | .joiner => true
  | _ => false

/-- Whether a cluster waits for the next consonant of a conjunct: it has a consonant, and
after it a linker, with nothing but links around. -/
def awaitsConsonant (cluster : List Char) : Bool :=
  (cluster.takeWhile linksConjunct).any (inRanges conjunctLinkerRanges) &&
    (cluster.dropWhile linksConjunct).head?.any
      fun c => GraphemeClass.ofChar c = .conjunctConsonant

/-- Whether a cluster waits for another pictograph: it ends in a joiner, and in front of
that in a pictograph that may have been extended. -/
def awaitsPictograph : (cluster : List Char) → Bool
  | [] => false
  | last :: earlier =>
    GraphemeClass.ofChar last = .joiner &&
      (earlier.dropWhile fun c => GraphemeClass.ofChar c = .extend).head?.any
        fun c => GraphemeClass.ofChar c = .pictographic

/-- Whether a cluster waits for the second half of a flag: the number of regional
indicators at its end is odd. -/
def awaitsFlag (cluster : List Char) : Bool :=
  (cluster.takeWhile fun c => GraphemeClass.ofChar c = .regionalIndicator).length % 2 = 1

/-- Whether `c` continues a cluster. -/
def continuesCluster (c : Char) (cluster : List Char) : Bool :=
  match cluster with
  | [] => false
  | last :: _ =>
    let before := GraphemeClass.ofChar last
    let after := GraphemeClass.ofChar c
    if before.standsAlone || after.standsAlone then
      before = .carriageReturn && after = .lineFeed
    else if after.continues || before = .prepend then
      true
    else
      match after with
      | .conjunctConsonant => awaitsConsonant cluster
      | .pictographic => awaitsPictograph cluster
      | .regionalIndicator => awaitsFlag cluster
      | _ => before.formSyllable after

/-! ### Cutting a text -/

/-- Adds a character to the clusters before it. Both the clusters and the characters in
each of them are given latest first. -/
def addToClusters (clusters : List (List Char)) (c : Char) : List (List Char) :=
  match clusters with
  | [] => [[c]]
  | cluster :: earlier =>
    if continuesCluster c cluster then (c :: cluster) :: earlier else [c] :: clusters

/-- The clusters in the order of the text, from their latest-first form. -/
def inTextOrder (clusters : List (List Char)) : List (List Char) :=
  (clusters.map List.reverse).reverse

/-- The grapheme clusters of a text. -/
def clusters (text : List Char) : List (List Char) :=
  inTextOrder (text.foldl addToClusters [])

end TapeTower.Text
