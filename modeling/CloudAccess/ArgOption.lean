/-!
# Options of an argument

The values that an argument of an access request can take, each with the
label under which it is offered, and the set of them that an enumeration
returns.

`ResultSet.sorted` puts the options in the order of their labels, and of
their values where labels agree; `sorted_perm` says that it keeps them all.
-/

namespace CloudAccess

/-- A value and the label under which it is offered. -/
structure ArgOption where
  label : String
  value : String
  deriving DecidableEq, Repr

namespace ArgOption

/-- Options are ordered by label, then by value, code point by code point. -/
def le (a b : ArgOption) : Bool :=
  decide (a.label < b.label) ||
    (a.label == b.label && decide (a.value ≤ b.value))

end ArgOption

/-- The options that an enumeration returns, in the order in which they were
found. -/
structure ResultSet where
  options : List ArgOption
  deriving DecidableEq, Repr

namespace ResultSet

/-- The set without options. -/
def empty : ResultSet := ⟨[]⟩

/-- The number of options. -/
def size (s : ResultSet) : Nat := s.options.length

/-- Whether there is no option. -/
def isEmpty (s : ResultSet) : Bool := s.options.isEmpty

/-- The labels of the options. -/
def labels (s : ResultSet) : List String := s.options.map (·.label)

/-- The values of the options. -/
def values (s : ResultSet) : List String := s.options.map (·.value)

/-- The options in their order by label and value. -/
def sorted (s : ResultSet) : List ArgOption := s.options.mergeSort ArgOption.le

theorem sorted_perm (s : ResultSet) : s.sorted.Perm s.options :=
  List.mergeSort_perm _ _

end ResultSet

end CloudAccess
