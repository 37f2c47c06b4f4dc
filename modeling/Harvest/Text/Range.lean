/-!
# Code point ranges

A property of characters is given as a list of closed ranges of code points.  Membership is a
linear search: the lists are short and only characters outside ASCII reach them.
-/

namespace Harvest.Text

/-- Whether a closed range of the list holds the code point. -/
def covers (ranges : List (Nat × Nat)) (n : Nat) : Bool :=
  ranges.any fun r => Nat.ble r.1 n && Nat.ble n r.2

end Harvest.Text
