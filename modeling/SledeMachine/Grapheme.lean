import SledeMachine.Grapheme.Kind
import SledeMachine.Text

/-!
Grapheme clusters: the characters of a text as a reader counts them, in the extended form of the
Unicode rules. A base and its marks, a syllable, a flag, a conjunct and a chain of joined
pictographs are one cluster each. Whether a character joins the cluster before it depends on the
characters of that cluster alone. The texts that are divided are lines, so a line feed is a
control like any other.
-/

namespace SledeMachine
namespace Grapheme

/-- Whether the kinds of a cluster, last first, end in a consonant and marks of which one is a
linker. -/
def awaitsConsonant (cluster : List Kind) : Bool :=
  let marks := cluster.takeWhile fun k => k = .extend || k = .linker || k = .joiner
  marks.contains .linker && (cluster.drop marks.length).head? = some .consonant

/-- Whether the kinds of a cluster, last first, end in a pictograph, marks and a joiner. -/
def awaitsPictograph : List Kind → Bool
  | .joiner :: rest => (rest.dropWhile Kind.isMark).head? = some .pictograph
  | _ => false

/-- Whether a flag is half done, the kinds of the cluster being given last first. -/
def awaitsRegional (cluster : List Kind) : Bool :=
  (cluster.takeWhile (· = .regional)).length % 2 = 1

/-- Whether two kinds of Hangul letters stand in one syllable. -/
def inSyllable : Kind → Kind → Bool
  | .leading, .leading | .leading, .vowel | .leading, .openSyllable
  | .leading, .closedSyllable => true
  | .openSyllable, .vowel | .openSyllable, .trailing | .vowel, .vowel | .vowel, .trailing => true
  | .closedSyllable, .trailing | .trailing, .trailing => true
  | _, _ => false

/-- Whether a character of kind `next` belongs to the cluster of the given kinds, last first. -/
def joins (cluster : List Kind) (next : Kind) : Bool :=
  match cluster.head?, next with
  | none, _ | some .control, _ | _, .control => false
  | _, .joiner | _, .spacing | _, .extend | _, .linker | _, .nonJoiner => true
  | some .before, _ => true
  | _, .regional => awaitsRegional cluster
  | _, .pictograph => awaitsPictograph cluster
  | _, .consonant => awaitsConsonant cluster
  | some last, _ => inSyllable last next

/-- The clusters of a text that continues a cluster, whose characters and kinds are given last
first. -/
def clustersAfter (cluster : List Char) (kinds : List Kind) : Text → List Text
  | [] => [cluster.reverse]
  | c :: rest =>
      let kind := Kind.ofChar c
      if joins kinds kind then clustersAfter (c :: cluster) (kind :: kinds) rest
      else cluster.reverse :: clustersAfter [c] [kind] rest

def clusters : Text → List Text
  | [] => []
  | c :: rest => clustersAfter [c] [Kind.ofChar c] rest

theorem flatten_clustersAfter (cluster : List Char) (kinds : List Kind) (t : Text) :
    (clustersAfter cluster kinds t).flatten = cluster.reverse ++ t := by
  induction t generalizing cluster kinds with
  | nil => simp [clustersAfter]
  | cons c rest ih =>
      simp only [clustersAfter]
      split
      · simp [ih]
      · simp [ih]

/-- Nothing of a text is lost or moved by dividing it. -/
theorem flatten_clusters (t : Text) : (clusters t).flatten = t := by
  cases t with
  | nil => rfl
  | cons c rest => exact flatten_clustersAfter [c] _ rest

end Grapheme
end SledeMachine
