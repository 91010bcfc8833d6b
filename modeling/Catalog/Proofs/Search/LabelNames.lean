import Catalog.Proofs.Load.Keywords
import Catalog.Proofs.Search.Keywords
import Catalog.Proofs.Search.Share
import Catalog.Proofs.Text.SingleToken

/-!
# Finding by the names of labels

The tooltip of a label tells to search for its name. The name is a keyword of every item that bears
the label, but as a query it is split into words, and quotes and backslashes are taken out of them.
So there may be other words than the name, which the items need not have.

* `QueryWord.ofKeyword` is the one word that a keyword should be read as;
* `Query.asked_subset_iff` says for which keywords there is no other word;
* `Tree.finds_labelName_iff` says that the name of a label finds an item that bears it exactly if
  the other words fit the item too, and `not_finds_labelName_of_quotes` is a name that does not.
-/

namespace Catalog

/-! ### Keywords as words -/

theorem Text.lower_hash_append (s : String) : lower ("#" ++ s) = "#" ++ lower s := by
  apply String.toList_inj.mp
  rw [toList_hash_append, lower, lower, String.toList_ofList, String.toList_ofList,
    toList_hash_append]
  exact lowerFrom_cons_separator (isSeparator_of_mem (by decide)) false s.toList

namespace QueryWord

/-- The word that asks for a keyword, whatever the case of its letters. -/
def ofKeyword (keyword : String) : QueryWord := ⟨false, true, Text.lower (Keyword.bare keyword)⟩

/-- A token asks for a keyword if it is that keyword. -/
theorem ofToken_eq_iff {token word : String} :
    ofToken token = ⟨false, true, word⟩ ↔ token = "#" ++ word := by
  constructor
  · intro h
    have hwanted : Text.startsWith '-' token = false := by rw [← isUnwanted_ofToken, h]
    rw [ofToken, Text.dropLeading_of_not_startsWith hwanted] at h
    split at h
    · next keyword hkeyword =>
      rw [QueryWord.mk.injEq] at h
      obtain ⟨_, _, rfl⟩ := h
      rw [← String.toList_inj, Text.toList_hash_append]
      exact Text.afterLeading_eq_some_iff.mp hkeyword
    · rw [QueryWord.mk.injEq] at h
      exact absurd h.2.1 Bool.false_ne_true
  · rintro rfl
    have hchars := Text.toList_hash_append word
    have hwanted : Text.startsWith '-' ("#" ++ word) = false := by
      rw [Text.startsWith, hchars]
      rfl
    rw [ofToken, Text.dropLeading_of_not_startsWith hwanted,
      Text.afterLeading_eq_some_iff.mpr hchars, hwanted]

end QueryWord

namespace Query

/-- A keyword is read as no other word than itself exactly if nothing is asked for at all, or if in
lower case it holds no blank, and no quote or backslash either unless one is left open. -/
theorem asked_subset_iff {keyword : String} (h : Text.startsWith '#' keyword = true) :
    (∀ w ∈ (parse keyword).asked, w = .ofKeyword keyword) ↔
      (parse keyword).asked = [] ∨ Text.IsSingleToken (Text.lower keyword) := by
  have hlower : Text.lower keyword = "#" ++ Text.lower (Keyword.bare keyword) := by
    rw [← Text.lower_hash_append, ← Keyword.eq_hash_append h]
  have hne : Text.lower keyword ≠ "" := by
    rw [hlower]
    intro hempty
    have hchars := congrArg String.toList hempty
    rw [Text.toList_hash_append] at hchars
    cases hchars
  constructor
  · intro hall
    rcases List.eq_nil_or_concat (parse keyword).asked with hnone | ⟨front, w, hsome⟩
    · exact Or.inl hnone
    · have hw : w ∈ (parse keyword).asked := by
        rw [hsome]
        simp
      obtain ⟨_, token, htoken, hof⟩ := mem_asked_ofTokens.mp hw
      rw [hall w hw] at hof
      have hself : token = Text.lower keyword := by
        rw [hlower]
        exact QueryWord.ofToken_eq_iff.mp hof
      rw [hself] at htoken
      exact Or.inr (Text.isSingleToken_of_mem htoken)
  · rintro (hnone | hsingle) w hw
    · rw [hnone] at hw
      cases hw
    · obtain ⟨_, token, htoken, rfl⟩ := mem_asked_ofTokens.mp hw
      rw [hsingle.splitTokens_eq hne, List.mem_singleton] at htoken
      rw [htoken, hlower]
      exact QueryWord.ofToken_eq_iff.mpr rfl

end Query

namespace Tree

/-! ### Labels of loaded trees -/

/-- Take a loaded tree that is described by any documents and made normal, an item of it and a label
that the item bears. The name of the label finds the item exactly if every word fits the item that
the name is read as besides the keyword. There is no such word exactly if nothing is asked for, or
if the name in lower case holds no blank, and no quote or backslash either unless one is left
open. -/
theorem finds_labelName_iff (fs : FileSystem) (dir : String) (mode : LoadMode)
    (documents : List Value) :
    let shown := ((fs.buildTree dir mode).value.describe documents).normalize.value
    ∀ id < shown.size, ∀ item ∈ shown.items id, ∀ l ∈ item.labels,
      (shown.Finds (Query.parse l.name) id item ↔
        ∀ w ∈ (Query.parse l.name).asked, w ≠ .ofKeyword l.name →
          w.fits (shown.itemTexts id item) = true) ∧
      ((∀ w ∈ (Query.parse l.name).asked, w = .ofKeyword l.name) ↔
        (Query.parse l.name).asked = [] ∨ Text.IsSingleToken (Text.lower l.name)) := by
  intro shown id hid item hitem l hl
  have hfresh := fs.isFresh_load dir mode
  have h := (hfresh.describes_describe documents).links.wellFormed hfresh.wellFormed
  have hproper : shown.IsMarkedProperly :=
    hfresh.isMarkedProperly_normalize_describe (isUnmarked_load fs dir mode) documents
  obtain ⟨hkeyword, hname⟩ := hproper.itemLabels id hid item hitem l hl
  refine ⟨?_, Query.asked_subset_iff hkeyword.hash⟩
  -- the keyword itself always fits
  have hfits : (QueryWord.ofKeyword l.name).fits (shown.itemTexts id item) = true := by
    have hborne : Text.lower (Keyword.bare l.name) ∈ item.searchKeywords :=
      Item.mem_searchKeywords_iff.mpr ⟨l.name, hname, rfl⟩
    show (decide (Text.lower (Keyword.bare l.name) ∈ item.searchKeywords) != false) = true
    rw [decide_eq_true hborne]
    rfl
  have hplain : shown.IsPlain := hfresh.isPlain_normalize_describe documents
  rw [h.isNormal_normalize.finds_iff hplain hid hitem, Query.fits_iff_asked]
  constructor
  · intro hall w hw _
    exact hall w hw
  · intro hothers w hw
    by_cases heq : w = .ofKeyword l.name
    · rw [heq]
      exact hfits
    · exact hothers w hw heq

/-- The tree of one record in a family that has a label. -/
def opsLabelled (label : String) : Tree :=
  ((opsFiles.buildTree "data" .records).value.describe
    [.list [.map [(.text "family", .text "Ops"), (.text "labels", .text label)]]]).normalize.value

theorem opsLabelled_eq (label : String) :
    opsLabelled label = (((∅ : Tree).addRecord opsRecord "data/ops.txt" "data").value.describe
      [.list [.map [(.text "family", .text "Ops"),
        (.text "labels", .text label)]]]).normalize.value := by
  rw [opsLabelled, buildTree_opsFiles]

/-- A name without blanks, quotes and backslashes finds its item. -/
theorem finds_labelName_of_plain_name :
    ∃ item ∈ (opsLabelled "x").items 1, ∃ l ∈ item.labels, l.name = "#x" ∧
      (opsLabelled "x").Finds (Query.parse l.name) 1 item := by
  have hid : 1 < (opsLabelled "x").size := by
    rw [opsLabelled_eq]
    decide +kernel
  obtain ⟨item, hitem, l, hl, hname⟩ :
      ∃ item ∈ (opsLabelled "x").items 1, ∃ l ∈ item.labels, l.name = "#x" := by
    rw [opsLabelled_eq]
    decide +kernel
  have hwords : ∀ w ∈ (Query.parse l.name).asked, w = .ofKeyword l.name := by
    rw [hname]
    decide +kernel
  have hfinds := (finds_labelName_iff opsFiles "data" .records _ 1 hid item hitem l hl).1.mpr
    fun w hw hother => absurd (hwords w hw) hother
  exact ⟨item, hitem, l, hl, hname, hfinds⟩

/-- Quotes are part of the name of a label, but the word that the name is read as has none, and no
item has that word as a keyword. -/
theorem not_finds_labelName_of_quotes :
    ∃ item ∈ (opsLabelled "\x27x\x27").items 1, ∃ l ∈ item.labels, l.name = "#\x27x\x27" ∧
      l.tooltip = "Use #\x27x\x27 to search for this label." ∧
      ¬ (opsLabelled "\x27x\x27").Finds (Query.parse l.name) 1 item := by
  obtain ⟨item, hitem, l, hl, hname, htooltip⟩ :
      ∃ item ∈ (opsLabelled "\x27x\x27").items 1, ∃ l ∈ item.labels,
      l.name = "#\x27x\x27" ∧ l.tooltip = "Use #\x27x\x27 to search for this label." := by
    rw [opsLabelled_eq]
    decide +kernel
  have hnothing : ((opsLabelled "\x27x\x27").search (Query.parse l.name) false).found.get?
      ((opsLabelled "\x27x\x27").pathText 1) = none := by
    rw [hname, opsLabelled_eq]
    decide +kernel
  refine ⟨item, hitem, l, hl, hname, htooltip, ?_⟩
  rintro ⟨matched, hfound, _⟩
  rw [hnothing] at hfound
  cases hfound

end Tree

end Catalog
