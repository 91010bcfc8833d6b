import Catalog.Label
import Catalog.Rank

/-!
# Items and families

An item is one entry of the catalog: a graph with its files, its texts and the keywords and labels
by which it is found. Items are grouped in families, which form a tree.

* `Item` is an item with its settled fields, and `PendingItem` holds the values of a record that are
  not settled yet;
* `Family` is what is known about one family, its items included, and `PendingFamily` holds the
  values of a families file that are not settled yet.
-/

namespace Catalog

/-! ### Items -/

/-- The values of an item record that still have any type. A field is absent when the record does
not mention it or when it has been settled. -/
structure PendingItem where
  title : Option Value := none
  text : Option Value := none
  pretext : Option Value := none
  index : Option Value := none
  labels : Option Value := none
  deriving Inhabited

/-- An entry of the catalog. The three locators are relative to the data root. -/
structure Item where
  /-- Where the graph itself is. -/
  name : Option String := none
  /-- Where the file behind the graph is. -/
  file : Option String := none
  /-- Where the graph is in a form to be exported. -/
  exportFile : Option String := none
  title : String := "No *title* provided"
  pretext : String := ""
  text : String := ""
  /-- The keywords of the item. -/
  index : SortedSet String := ∅
  rank : Option Rank := none
  showTitle : Bool := false
  labels : SortedSet Label := ∅
  other : Option Value := none
  /-- The place of the item in its family, counted from one, once items are in order. -/
  number : Option Nat := none
  pending : PendingItem := {}
  deriving Inhabited

/-! ### Families -/

/-- The values of a family record that still have any type. A field is absent when no record
mentions it or when it has been settled. -/
structure PendingFamily where
  text : Option Value := none
  aliasName : Option Value := none
  labels : Option Value := none
  deriving Inhabited

/-- What is known about one family. -/
structure Family where
  text : String := ""
  rank : Option Rank := none
  /-- The name under which the family is shown. -/
  aliasName : Option String := none
  /-- The labels of the family, those from other families included once they have spread. -/
  labels : SortedSet Label := ∅
  /-- The labels given to the family itself, noted when labels spread. -/
  ownLabels : Option (SortedSet Label) := none
  items : List Item := []
  pending : PendingFamily := {}
  deriving Inhabited

/-- The alias of a family, or the empty text. -/
def Family.aliasText (f : Family) : String := f.aliasName.getD ""

end Catalog
