import Catalog.Proofs.Query.Union
import Catalog.Proofs.Search.Shown

/-!
# Searching for two queries at once

Of any tree, the union of two queries returns the items that both return, whether their words are
wanted or not. As two texts put together with a space are read as a union, so do they, unless a
quote or a backslash is left open.

* `Tree.ReturnsBoth` says that a query returns what two others both return;
* `Tree.returnsBoth_union` says so of the union, and `Tree.returnsBoth_append_space` of texts put
  together.
-/

namespace Catalog

open Text (IsClosed)

namespace Tree

/-- A query returns the items that two others both return. -/
structure ReturnsBoth (t : Tree) (q r both : Query) : Prop where
  left : t.Returns q (t.isMatch q)
  right : t.Returns r (t.isMatch r)
  both : t.Returns both fun id item => t.isMatch q id item && t.isMatch r id item

theorem returnsBoth_union (t : Tree) (q r : Query) : t.ReturnsBoth q r (q.union r) := by
  refine ⟨t.returns_isMatch q, t.returns_isMatch r, ?_⟩
  apply returns_of_fits
  intro id item _
  exact Query.fits_union q r (t.itemTexts id item)

/-- Two closed texts put together with a space are read as the union of what they are read as, the
union of two queries returns of every tree what both of them return, and so do closed texts put
together. -/
theorem returnsBoth_append_space :
    (∀ a b : String, IsClosed a → IsClosed b →
      Query.parse (a ++ " " ++ b) = (Query.parse a).union (Query.parse b)) ∧
    (∀ (t : Tree) (q r : Query), t.ReturnsBoth q r (q.union r)) ∧
    ∀ (t : Tree) (a b : String), IsClosed a → IsClosed b →
      t.ReturnsBoth (Query.parse a) (Query.parse b) (Query.parse (a ++ " " ++ b)) := by
  refine ⟨?_, returnsBoth_union, ?_⟩
  · intro a b ha hb
    exact Query.parse_append_space ha hb
  · intro t a b ha hb
    rw [Query.parse_append_space ha hb]
    exact t.returnsBoth_union _ _

/-- One of two items has the word that the one text asks for, and neither has the word that the
other text excludes. -/
theorem returnsBoth_of_excluded_phrase :
    let t := ((∅ : Tree).create ["Sales", "North"]).1.modify 2 fun f =>
      { f with items := [{ title := "Revenue" }, { title := "Costs" }] }
    let a := "Rev"
    let b := "-\x27year end\x27"
    (IsClosed a ∧ IsClosed b) ∧
      Query.parse (a ++ " " ++ b) = (Query.parse a).union (Query.parse b) ∧
      t.ReturnsBoth (Query.parse a) (Query.parse b) (Query.parse (a ++ " " ++ b)) ∧
      (t.search (Query.parse (a ++ " " ++ b)) false).shownAt "Sales/North" =
        [Item.toMatched { title := "Revenue" }] := by
  intro t a b
  have ha : IsClosed a := by
    show (Text.tokens? a.toList).isSome = true
    decide +kernel
  have hb : IsClosed b := by
    show (Text.tokens? b.toList).isSome = true
    decide +kernel
  obtain ⟨hparse, _, hreturns⟩ := returnsBoth_append_space
  exact ⟨⟨ha, hb⟩, hparse a b ha hb, hreturns t a b ha hb, by decide +kernel⟩

end Tree

end Catalog
