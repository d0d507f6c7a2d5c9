import NodeInventory.Cluster.Basic

/-!
# Names of nodes

Which of some names have no live node, and which names can be asked for by label. A value of a label
has 1 to 63 ASCII letters, digits, hyphens, underscores and points, and starts and ends with a
letter or digit.
-/

namespace NodeInventory.Node

/-- The names to which none of the nodes answers, in the order given. -/
def missingNames (names : List String) (live : List Node) : List String :=
  names.filter fun n ↦ !live.any fun node ↦ node.aliases.contains n

/-- The greatest length of a value of a label. -/
def maxLabelLength : Nat := 63

/-- Whether a character may stand at the ends of a value of a label: an ASCII letter or digit. -/
def isLabelEnd (c : Char) : Bool := c.isAlphanum

/-- Whether a character may stand in a value of a label. -/
def isLabelChar (c : Char) : Bool := isLabelEnd c || c == '-' || c == '_' || c == '.'

/-- Whether a text can be the value of a label. Its characters are ASCII, so its length in bytes is
the number of its characters. -/
def isLabelValue (s : String) : Bool :=
  match s.toList with
  | [] => false
  | c :: cs =>
    cs.length + 1 ≤ maxLabelLength && isLabelEnd c && isLabelEnd ((c :: cs).getLast (by simp)) &&
      (c :: cs).all isLabelChar

/-- The names that can be asked for by label, and those that cannot. -/
def partitionNames (names : List String) : List String × List String := names.partition isLabelValue

theorem mem_missingNames {names : List String} {live : List Node} {n : String} :
    n ∈ missingNames names live ↔ n ∈ names ∧ ∀ node ∈ live, n ∉ node.aliases := by
  simp [missingNames]

theorem partitionNames_eq (names : List String) :
    partitionNames names = (names.filter isLabelValue, names.filter fun n ↦ !isLabelValue n) := by
  simp only [partitionNames, List.partition_eq_filter_filter]
  rfl

end NodeInventory.Node
