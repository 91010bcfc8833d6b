import Catalog.Proofs.Decimal.Rounding
import Catalog.Proofs.Rank.Order
import Catalog.Proofs.Tags.Table
import Catalog.Proofs.Tree.Preorder
import Catalog.Tags.Ranking

/-!
# Which tags are offered

The tags are all keywords and the most frequent words, in the order of the tags in lower case
without leading `#`. Words with equal counts may be kept or dropped, but no word that is dropped is
more frequent than one that is kept.

* `WordCounter.KeepsMostFrequent` says so of some words of a list, and
  `keepsMostFrequent_mostFrequent` that it holds of those that a counter keeps;
* `Tree.TagBefore` is the order of tags, and `compareTags_eq_lt_iff` says that tags are sorted by
  it;
* `Tree.RanksTags` says what the tags with a number of words are, and `Tree.WellFormed.ranks_tags`
  that the tags of a tree are these.
-/

namespace Catalog

open Std

/-- What a fold collects whose steps add to a set what their entry has. -/
theorem SortedSet.mem_foldl_iff {α β : Type} [Ord β] {b : β} {adds : α → Prop}
    {step : SortedSet β → α → SortedSet β}
    (hstep : ∀ known x, b ∈ step known x ↔ b ∈ known ∨ adds x) (xs : List α) (known : SortedSet β) :
    b ∈ xs.foldl step known ↔ b ∈ known ∨ ∃ x ∈ xs, adds x := by
  induction xs generalizing known with
  | nil => simp
  | cons x xs ih =>
    rw [List.foldl_cons, ih, hstep, or_assoc]
    simp

/-! ### The most frequent words -/

namespace WordCounter

/-- Some words of a list, each in its first spelling and none twice, of which none is rarer than a
word left out. -/
structure KeepsMostFrequent (words : List String) (n : Nat) (kept : List String) : Prop where
  length : kept.length = n
  distinct : kept.Pairwise fun v w => sameWord v w = false
  counted : kept ⊆ spellings words
  frequent : ∀ w ∈ kept, ∀ v ∈ spellings words, v ∉ kept → frequency words v ≤ frequency words w

variable {c : WordCounter} {words kept : List String} {m n : Nat}

theorem KeepsMostFrequent.nodup (h : KeepsMostFrequent words n kept) : kept.Nodup :=
  nodup_of_pairwise h.distinct

/-- The entries in the order of their counts. -/
def byCount (c : WordCounter) : List (String × Nat) := c.words.mergeSort fun a b => a.2 ≤ b.2

theorem perm_byCount (c : WordCounter) : c.byCount.Perm c.words := List.mergeSort_perm _ _

theorem pairwise_byCount (c : WordCounter) : c.byCount.Pairwise fun a b => a.2 ≤ b.2 := by
  have htrans : ∀ a b d : String × Nat, decide (a.2 ≤ b.2) = true → decide (b.2 ≤ d.2) = true →
      decide (a.2 ≤ d.2) = true := by
    intro a b d hab hbd
    exact decide_eq_true ((of_decide_eq_true hab).trans (of_decide_eq_true hbd))
  have htotal : ∀ a b : String × Nat, (decide (a.2 ≤ b.2) || decide (b.2 ≤ a.2)) = true := by
    intro a b
    rw [Bool.or_eq_true, decide_eq_true_iff, decide_eq_true_iff]
    exact Nat.le_total a.2 b.2
  exact (List.pairwise_mergeSort htrans htotal c.words).imp of_decide_eq_true

theorem mostFrequent_eq (c : WordCounter) (n : Nat) :
    c.mostFrequent n = (c.byCount.drop (c.size - n)).map (·.1) := by
  rw [size, ← c.perm_byCount.length_eq]
  rfl

/-- More than all words are all words. -/
theorem mostFrequent_min (c : WordCounter) (n : Nat) :
    c.mostFrequent (min n c.size) = c.mostFrequent n := by
  have hleft : c.size - min n c.size = c.size - n := by omega
  rw [mostFrequent_eq, mostFrequent_eq, hleft]

theorem mostFrequent_subset (h : m ≤ n) : c.mostFrequent m ⊆ c.mostFrequent n := by
  rw [mostFrequent_eq, mostFrequent_eq]
  exact List.map_subset _ (List.drop_subset_drop_left c.byCount (Nat.sub_le_sub_left h c.size))

section Frequency

variable (hwords : c.words = (spellings words).map fun w => (w, frequency words w))

include hwords

theorem perm_keys_byCount : (c.byCount.map (·.1)).Perm (spellings words) := by
  have hkeys : c.words.map (·.1) = spellings words := by
    rw [hwords, List.map_map]
    exact List.map_id _
  rw [← hkeys]
  exact c.perm_byCount.map _

theorem count_of_mem_byCount {e : String × Nat} (he : e ∈ c.byCount) :
    e.2 = frequency words e.1 := by
  have hmem := c.perm_byCount.subset he
  rw [hwords] at hmem
  obtain ⟨w, -, rfl⟩ := List.mem_map.mp hmem
  rfl

/-- No entry at the end is rarer than one in front of it. -/
theorem keepsMostFrequent_mostFrequent (hn : n ≤ c.size) :
    KeepsMostFrequent words n (c.mostFrequent n) := by
  have hperm := perm_keys_byCount hwords
  have hsub : (c.mostFrequent n).Sublist (c.byCount.map (·.1)) := by
    rw [mostFrequent_eq]
    exact (List.drop_sublist _ _).map _
  refine ⟨?_, ?_, fun w hw => hperm.subset (hsub.subset hw), ?_⟩
  · rw [length_mostFrequent]
    exact Nat.min_eq_left hn
  · refine List.Pairwise.sublist hsub
      ((hperm.pairwise_iff fun h => ?_).mpr (pairwise_spellings words))
    rwa [sameWord_comm]
  · intro w hw v hv hdropped
    rw [mostFrequent_eq] at hw hdropped
    obtain ⟨e, he, rfl⟩ := List.mem_map.mp hw
    obtain ⟨d, hd, rfl⟩ := List.mem_map.mp (hperm.symm.subset hv)
    rw [← count_of_mem_byCount hwords hd, ← count_of_mem_byCount hwords ((List.drop_subset _ _) he)]
    -- the word that is not kept stands in front
    have hsplit := c.pairwise_byCount
    rw [← List.take_append_drop (c.size - n) c.byCount] at hsplit hd
    have hfront : d ∈ c.byCount.take (c.size - n) := by
      refine (List.mem_append.mp hd).resolve_right fun hlate => ?_
      exact hdropped (List.mem_map_of_mem hlate)
    exact (List.pairwise_append.mp hsplit).2.2 d hfront e he

end Frequency

end WordCounter

namespace Tree

open WordCounter

variable {t : Tree} {tag : String} {m n : Nat}

/-- The words that are counted for tags, one after another. -/
def countedWords (t : Tree) : List String := (t.all.flatMap t.countedTexts).flatMap Words.ofText

theorem words_countWords (t : Tree) :
    t.countWords.words = (spellings t.countedWords).map fun w =>
      (w, frequency t.countedWords w) := by
  rw [countWords, WordTable.isInStep_empty.foldl_addText]
  exact words_foldl_addText _

theorem size_countWords (t : Tree) : t.countWords.size = (spellings t.countedWords).length := by
  rw [WordCounter.size, words_countWords, List.length_map]

/-! ### Keywords -/

theorem mem_keywords_iff :
    tag ∈ t.keywords ↔ ∃ id ∈ t.all, ∃ item ∈ t.items id, tag ∈ item.index := by
  have hitems : ∀ (known : SortedSet String) (id : Nat),
      tag ∈ (t.items id).foldl (fun known item => known ∪ item.index) known ↔
        tag ∈ known ∨ ∃ item ∈ t.items id, tag ∈ item.index :=
    fun known id => SortedSet.mem_foldl_iff (fun _ _ => SortedSet.mem_union) (t.items id) known
  rw [keywords, SortedSet.mem_foldl_iff hitems t.all ∅]
  simp

/-! ### The order -/

/-- The order of tags: that in lower case without leading `#`, and of the tags as they are where
these agree. -/
def TagBefore (a b : String) : Prop :=
  compare (Text.lower (Text.dropLeading '#' a)) (Text.lower (Text.dropLeading '#' b)) = .lt ∨
    Text.lower (Text.dropLeading '#' a) = Text.lower (Text.dropLeading '#' b) ∧ compare a b = .lt

/-- How two tags compare. -/
def compareTags (a b : String) : Ordering := compareOn tagKey a b

instance : TransCmp compareTags := inferInstanceAs (TransCmp (compareOn tagKey))

theorem compareTags_eq (a b : String) : compareTags a b =
    (compare (Text.lower (Text.dropLeading '#' a)) (Text.lower (Text.dropLeading '#' b))).then
      (compare a b) := by
  simp [compareTags, compareOn, tagKey]

theorem compareTags_eq_lt_iff {a b : String} : compareTags a b = .lt ↔ TagBefore a b := by
  rw [compareTags_eq, Ordering.then_eq_lt, LawfulEqCmp.compare_eq_iff_eq, TagBefore]

theorem eq_of_compareTags {a b : String} (h : compareTags a b = .eq) : a = b := by
  rw [compareTags_eq, Ordering.then_eq_eq] at h
  exact LawfulEqOrd.eq_of_compare h.2

/-- Tags in order, none of them twice, are strictly in order. -/
theorem pairwise_mergeSort_tagBefore {tags : List String} (h : tags.Nodup) :
    (tags.mergeSort tagBefore).Pairwise TagBefore :=
  (pairwise_mergeSort_lt compareTags (h.imp fun hne heq => hne (eq_of_compareTags heq))).imp
    compareTags_eq_lt_iff.mp

/-! ### Tags -/

theorem mem_tagsKeeping_iff :
    tag ∈ t.tagsKeeping n ↔ tag ∈ t.keywords ∨ tag ∈ t.countWords.mostFrequent n := by
  rw [tagsKeeping, List.mem_mergeSort, List.mem_append, List.mem_filter, SortedSet.mem_toList]
  by_cases hknown : tag ∈ t.keywords <;> simp [hknown]

theorem tagsKeeping_subset (h : m ≤ n) : t.tagsKeeping m ⊆ t.tagsKeeping n := by
  intro tag htag
  rw [mem_tagsKeeping_iff] at htag ⊢
  exact htag.imp_right fun hmem => mostFrequent_subset h hmem

/-- The tags with a number of words: strictly in order, and as a set every keyword of every item and
that number of the most frequent words. -/
structure RanksTags (t : Tree) (n : Nat) (tags : List String) : Prop where
  increasing : tags.Pairwise TagBefore
  nodup : tags.Nodup
  members : ∃ kept, KeepsMostFrequent t.countedWords n kept ∧
    ∀ tag, tag ∈ tags ↔ (∃ id < t.size, ∃ item ∈ t.items id, tag ∈ item.index) ∨ tag ∈ kept

theorem keepsMostFrequent_countWords (hn : n ≤ (spellings t.countedWords).length) :
    KeepsMostFrequent t.countedWords n (t.countWords.mostFrequent n) :=
  keepsMostFrequent_mostFrequent t.words_countWords (by rwa [size_countWords])

/-- A word that is a keyword too is not listed twice. -/
theorem nodup_keywords_append (kept : List String) (h : kept.Nodup) :
    (t.keywords.toList ++ kept.filter fun word => !t.keywords.toList.contains word).Nodup := by
  have hkeywords : t.keywords.toList.Nodup :=
    t.keywords.increasing.imp fun hlt => ne_of_compare_lt hlt
  refine List.nodup_append.mpr ⟨hkeywords, h.filter _, ?_⟩
  rintro a ha b hb rfl
  have hnew := (List.mem_filter.mp hb).2
  rw [List.contains_iff_mem.mpr ha] at hnew
  cases hnew

theorem WellFormed.ranksTags_tagsKeeping (h : t.WellFormed)
    (hn : n ≤ (spellings t.countedWords).length) : t.RanksTags n (t.tagsKeeping n) := by
  have hkept := keepsMostFrequent_countWords hn
  have hnodup := nodup_keywords_append (t := t) (t.countWords.mostFrequent n) hkept.nodup
  refine ⟨pairwise_mergeSort_tagBefore hnodup, ?_, t.countWords.mostFrequent n, hkept,
    fun tag => ?_⟩
  · exact (List.mergeSort_perm _ tagBefore).nodup_iff.mpr hnodup
  · rw [mem_tagsKeeping_iff, mem_keywords_iff]
    simp only [h.mem_all_iff]

/-- The tags of a tree are its keywords and the most frequent words, as many as the share asks for
but never more than there are, and a larger number takes no tag away. The share, cut to the unit
interval, is multiplied by the number of words, and the product is rounded to the nearest
integer. -/
theorem WellFormed.ranks_tags (h : t.WellFormed) :
    let count := (spellings t.countedWords).length
    (∀ n ≤ count, t.RanksTags n (t.tagsKeeping n)) ∧
      (∀ keep, t.tags keep = t.tagsKeeping (min (keep.shareOf count) count) ∧
        keep.shareOf count = (keep.product count).toNearest ∧
        (count < 2 ^ 53 → keep.shareOf count ≤ count)) ∧
      ∀ m n, m ≤ n → t.tagsKeeping m ⊆ t.tagsKeeping n := by
  intro count
  refine ⟨fun n hn => h.ranksTags_tagsKeeping hn,
    fun keep => ⟨?_, keep.shareOf_eq_toNearest count, keep.shareOf_le⟩,
      fun m n => tagsKeeping_subset⟩
  have hcount : count = t.countWords.size := t.size_countWords.symm
  rw [hcount, tags, tagsKeeping, tagsKeeping, mostFrequent_min]

/-- Three items with five words between them, of which two stand more than once. -/
theorem ranks_tags_of_three_items :
    let items : List Item :=
      [{ title := "Revenue by region", index := SortedSet.ofList ["#finance"] },
      { title := "revenue forecast", index := SortedSet.ofList ["#Budget"] }, { title := "Churn" }]
    let t := ((∅ : Tree).create ["Sales"]).1.modify 1 fun f =>
      { f with aliasName := some "Sales", items := items }
    let keep : Binary64 := ⟨0x3FD999999999999A⟩
    t.WellFormed ∧ spellings t.countedWords = ["Sales", "Revenue", "region", "forecast", "Churn"] ∧
      t.tags keep = t.tagsKeeping 2 ∧ t.RanksTags 2 (t.tagsKeeping 2) ∧
      t.tagsKeeping 2 ⊆ t.tagsKeeping 5 := by
  intro items t keep
  have hreachable : t.Reachable := .change 1 _ (.create _ .empty (by decide))
  have h : t.WellFormed := hreachable.wellFormed
  have hwords : spellings t.countedWords =
      ["Sales", "Revenue", "region", "forecast", "Churn"] := by decide +kernel
  have hcount : (spellings t.countedWords).length = 5 := by rw [hwords]; rfl
  have hranks := h.ranks_tags
  simp only [hcount] at hranks
  obtain ⟨hcounted, hshare, hmono⟩ := hranks
  have hkeep : min (keep.shareOf 5) 5 = 2 := by decide +kernel
  refine ⟨h, hwords, ?_, hcounted 2 (by decide), hmono 2 5 (by decide)⟩
  rw [(hshare keep).1, hkeep]

end Tree

end Catalog
