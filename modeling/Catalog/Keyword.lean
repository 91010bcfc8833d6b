import Catalog.Text.Pieces
import Catalog.Warning

/-!
# Keywords

A keyword is a text that starts with `#` and has no space. Keywords are what items are found by.

* `Keyword.ofText` makes any text a keyword, noting a warning when spaces have to give way;
* `startsWith_ofText` and `not_space_mem_ofText` say that the result is one;
* `Keyword.bare` is the keyword without its `#`, and `Keyword.sortedForDisplay` puts short ones
  first.
-/

namespace Catalog

namespace Text

/-- Exchanges a character that a name must not hold. A warning tells of it. -/
def exchange (old new : Char) (name : String) : Logged String :=
  if name.toList.contains old then do
    Logged.warn (.illegalCharacter name old new)
    return replaceChar old new name
  else pure name

@[simp] theorem value_exchange (old new : Char) (name : String) :
    (exchange old new name).value = replaceChar old new name := by
  unfold exchange
  split
  · rfl
  · next h =>
    have same : (name.toList.map fun c => if c = old then new else c) = name.toList := by
      have : ∀ c ∈ name.toList, (if c = old then new else c) = c := by
        intro c hc
        by_cases e : c = old
        · exact absurd (by simpa using e ▸ hc) h
        · simp [e]
      simpa using List.map_congr_left this
    simp [replaceChar, same]

/-- The exchanged character is gone, unless it is exchanged for itself. -/
theorem not_mem_replaceChar {old new : Char} (h : new ≠ old) (name : String) :
    old ∉ (replaceChar old new name).toList := by
  simp only [replaceChar, String.toList_ofList, List.mem_map, not_exists, not_and]
  intro c _
  by_cases e : c = old <;> simp [e, h]

end Text

namespace Keyword

/-- Puts `#` in front of a text that does not start with it. -/
def withHash (s : String) : String := if Text.startsWith '#' s then s else "#" ++ s

/-- The keyword for a text: a space becomes `_`, and `#` stands in front. -/
def ofText (s : String) : Logged String := withHash <$> Text.exchange ' ' '_' s

theorem startsWith_withHash (s : String) : Text.startsWith '#' (withHash s) = true := by
  unfold withHash
  split
  · assumption
  · simp [Text.startsWith, String.toList_append]

theorem startsWith_ofText (s : String) : Text.startsWith '#' (ofText s).value = true :=
  startsWith_withHash _

theorem not_space_mem_ofText (s : String) : ' ' ∉ (ofText s).value.toList := by
  have h := Text.not_mem_replaceChar (show '_' ≠ ' ' by decide) s
  simp only [ofText, Logged.value_map, Text.value_exchange, withHash]
  split
  · exact h
  · simpa [String.toList_append] using h

/-- A keyword without the `#` in front. -/
def bare (keyword : String) : String := (Text.afterLeading '#' keyword).getD keyword

theorem bare_hash (s : String) : bare ("#" ++ s) = s := by
  have hchars : ("#" ++ s).toList = '#' :: s.toList := by simp [String.toList_append]
  rw [bare, Text.afterLeading, hchars]
  exact String.ofList_toList

/-- A keyword is `#` and what it is without. -/
theorem eq_hash_append {s : String} (h : Text.startsWith '#' s = true) : s = "#" ++ bare s := by
  obtain ⟨rest, hrest⟩ := List.head?_eq_some_iff.mp (beq_iff_eq.mp h)
  have hs : s = "#" ++ String.ofList rest := by
    rw [← String.toList_inj, hrest]
    simp [String.toList_append]
  rw [hs, bare_hash]

/-- Whether the first keyword is not shown after the second: fewer bytes come first, then the order
of texts decides. -/
def displayedBefore (a b : String) : Bool :=
  match compare (Text.byteLength a) (Text.byteLength b) with
  | .lt => true
  | .gt => false
  | .eq => (compare a b).isLE

/-- Keywords as they are shown, the shortest first. -/
def sortedForDisplay (keywords : List String) : List String := keywords.mergeSort displayedBefore

end Keyword

end Catalog
