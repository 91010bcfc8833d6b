import Catalog.Proofs.Query.Words
import Catalog.Proofs.Text.LowerCase
import Catalog.Proofs.Text.Pieces

/-!
# Queries that follow from others

One query entails another if every item that it fits is fit by the other too. Whether that is so can
be read off the words, as long as some character is left to keep them apart in a text.

* `ItemTexts.ofTexts` is what an item with given texts is searched by, and `Query.Entails`
  quantifies over it;
* `QueryWord.covers` compares two words and `Query.covers` two queries;
* `Query.entails_of_covers` is one direction, and `Query.covers_of_entails` the other:
  `ItemTexts.bearing` is what bears given words and no others.
-/

namespace Catalog

/-! ### Words that follow from others -/

namespace QueryWord

variable {u v w : QueryWord} {e : ItemTexts}

/-- Where the first word fits, the second does. -/
def covers (v w : QueryWord) : Bool :=
  v.isUnwanted == w.isUnwanted && v.isKeyword == w.isKeyword &&
    if w.isKeyword then v.word == w.word
    else if w.isUnwanted then Text.contains w.word v.word
    else Text.contains v.word w.word

/-- The same word, but wanted. -/
def asWanted (w : QueryWord) : QueryWord := { w with isUnwanted := false }

theorem covers_refl (w : QueryWord) : w.covers w = true := by
  simp [covers, Text.contains_refl]

theorem hasWord_of_contains {long short : String} (h : Text.contains long short = true)
    (hlong : e.hasWord long = true) : e.hasWord short = true := by
  obtain ⟨text, hmem, htext⟩ := List.any_eq_true.mp hlong
  exact List.any_eq_true.mpr ⟨text, hmem, Text.contains_trans htext h⟩

theorem fits_of_covers (h : v.covers w = true) (hv : v.fits e = true) : w.fits e = true := by
  obtain ⟨unwanted, keyword, word⟩ := v
  obtain ⟨unwanted', keyword', word'⟩ := w
  simp only [covers, Bool.and_eq_true, beq_iff_eq] at h
  obtain ⟨⟨rfl, rfl⟩, hword⟩ := h
  cases keyword with
  | true =>
    have heq : word = word' := by simpa using hword
    rw [← heq]
    exact hv
  | false =>
    cases unwanted with
    | false =>
      have hcontains : Text.contains word word' = true := by simpa using hword
      have hhas : e.hasWord word = true := by simpa [fits, isBorne] using hv
      simp [fits, isBorne, hasWord_of_contains hcontains hhas]
    | true =>
      have hcontains : Text.contains word' word = true := by simpa using hword
      have hlacks : e.hasWord word = false := by simpa [fits, isBorne] using hv
      have hlacks' : e.hasWord word' = false := by
        rw [← Bool.not_eq_true] at hlacks ⊢
        exact fun hhas => hlacks (hasWord_of_contains hcontains hhas)
      simp [fits, isBorne, hlacks']

/-- An unwanted word is covered by another one exactly if, both wanted, it covers the other. -/
theorem covers_of_asWanted (hu : u.isUnwanted = true) (hw : w.isUnwanted = true)
    (h : w.asWanted.covers u.asWanted = true) : u.covers w = true := by
  obtain ⟨unwanted, keyword, word⟩ := u
  obtain ⟨unwanted', keyword', word'⟩ := w
  cases hu
  cases hw
  simp only [covers, asWanted, Bool.and_eq_true, beq_iff_eq] at h ⊢
  obtain ⟨⟨_, rfl⟩, hword⟩ := h
  cases keyword' with
  | true => simpa using (by simpa using hword : word' = word).symm
  | false => simpa using hword

end QueryWord

/-! ### Queries that follow from others -/

/-- What an item is searched by, from the path of its family, the aliases along it, its title and
its keywords without `#`. -/
def ItemTexts.ofTexts (path aliases title : String) (keywords : List String) : ItemTexts :=
  ⟨SortedSet.ofList (keywords.map Text.lower),
    [Text.lower path, Text.lower aliases, Text.lower title]⟩

namespace Query

variable {q r : Query}

/-- Every item that the first query fits is fit by the second. -/
def Entails (q r : Query) : Prop :=
  ∀ path aliases title keywords, q.fits (.ofTexts path aliases title keywords) = true →
    r.fits (.ofTexts path aliases title keywords) = true

/-- The query wants a word that brings an unwanted one along. -/
def isContradictory (q : Query) : Bool :=
  q.asked.any fun v => q.asked.any fun u => u.isUnwanted && v.covers u.asWanted

/-- The words of the second query follow from those of the first, or the first fits nothing. -/
def covers (q r : Query) : Bool :=
  q.isContradictory || r.asked.all fun w => q.asked.any fun v => v.covers w

theorem not_fits_of_isContradictory {e : ItemTexts} (h : q.isContradictory = true) :
    q.fits e = false := by
  obtain ⟨v, hv, hany⟩ := List.any_eq_true.mp h
  obtain ⟨u, hu, hboth⟩ := List.any_eq_true.mp hany
  obtain ⟨hunwanted, hcovers⟩ := Bool.and_eq_true_iff.mp hboth
  rw [← Bool.not_eq_true]
  intro hfits
  have hall := fits_iff_asked.mp hfits
  have hwanted : u.asWanted.fits e = true := QueryWord.fits_of_covers hcovers (hall v hv)
  have hself : (u.isBorne e != u.isUnwanted) = true := hall u hu
  have hborne : (u.isBorne e != false) = true := hwanted
  rw [hunwanted] at hself
  cases hb : u.isBorne e <;> simp [hb] at hself hborne

theorem entails_of_covers (h : q.covers r = true) : q.Entails r := by
  intro path aliases title keywords hfits
  rcases Bool.or_eq_true_iff.mp h with hcontra | hcovers
  · rw [not_fits_of_isContradictory hcontra] at hfits
    cases hfits
  · refine fits_iff_asked.mpr fun w hw => ?_
    obtain ⟨v, hv, hvw⟩ := List.any_eq_true.mp (List.all_eq_true.mp hcovers w hw)
    exact QueryWord.fits_of_covers hvw (fits_iff_asked.mp hfits v hv)

theorem covers_of_subset (h : r.asked ⊆ q.asked) : q.covers r = true := by
  refine Bool.or_eq_true_iff.mpr (Or.inr (List.all_eq_true.mpr fun w hw => ?_))
  exact List.any_eq_true.mpr ⟨w, h hw, w.covers_refl⟩

end Query

/-! ### An item that bears given words -/

/-- What an item is searched by that bears given words and no others. -/
def ItemTexts.bearing (separator : Char) (words : List QueryWord) : ItemTexts :=
  .ofTexts "" "" (Text.terminated separator
    ((words.filter fun w => !w.isKeyword).map QueryWord.word))
    ((words.filter QueryWord.isKeyword).map QueryWord.word)

/-- The word is in lower case and not empty, and the separator is not in it. -/
structure QueryWord.IsApart (separator : Char) (w : QueryWord) : Prop where
  nonempty : w.word ≠ ""
  isLower : ∀ c ∈ w.word.toList, Text.IsLower c
  separator : separator ∉ w.word.toList

namespace QueryWord

variable {separator : Char} {words : List QueryWord} {u w : QueryWord}

theorem isBorne_bearing (hsep : Text.IsLower separator) (hwords : ∀ v ∈ words, v.IsApart separator)
    (hwanted : ∀ v ∈ words, v.isUnwanted = false) (hu : u.IsApart separator) :
    u.isBorne (.bearing separator words) = words.any fun v => v.covers u.asWanted := by
  rw [Bool.eq_iff_iff, List.any_eq_true]
  cases hkey : u.isKeyword with
  | true =>
    have hlower : ((words.filter isKeyword).map word).map Text.lower =
        (words.filter isKeyword).map word := by
      rw [List.map_map]
      refine List.map_congr_left fun v hv => ?_
      exact Text.lower_of_isLower (hwords v (List.mem_filter.mp hv).1).isLower
    rw [isBorne, hkey, if_pos rfl, decide_eq_true_iff, ItemTexts.bearing, ItemTexts.ofTexts, hlower,
      SortedSet.mem_ofList, List.mem_map]
    refine exists_congr fun v => ?_
    simp only [List.mem_filter, covers, asWanted, hkey, if_true, Bool.and_eq_true,
      beq_iff_eq, and_assoc]
    refine and_congr_right fun hv => ?_
    simp [hwanted v hv]
  | false =>
    let title := Text.terminated separator ((words.filter fun w => !w.isKeyword).map word)
    have hlower : Text.lower title = title := by
      refine Text.lower_of_isLower fun d hd => ?_
      rcases Text.mem_terminated hd with rfl | ⟨text, htext, hd⟩
      · exact hsep
      · obtain ⟨v, hv, rfl⟩ := List.mem_map.mp htext
        exact (hwords v (List.mem_filter.mp hv).1).isLower d hd
    have hempty : Text.lower "" = "" := rfl
    have hborne : u.isBorne (.bearing separator words) = Text.contains title u.word := by
      show (if u.isKeyword = true then _
        else [Text.lower "", Text.lower "", Text.lower title].any _) = _
      rw [hkey, hlower, hempty]
      simp [Text.not_contains_empty hu.nonempty]
    rw [hborne, Text.contains_terminated hu.separator hu.nonempty, List.any_map, List.any_filter,
      List.any_eq_true]
    refine exists_congr fun v => and_congr_right fun hv => ?_
    simp [covers, asWanted, hkey, hwanted v hv]

end QueryWord

/-! ### The other direction -/

namespace Query

variable {q r : Query} {separator : Char} {v w : QueryWord}

/-- The words that a query wants, and another word if that one is unwanted: what is to be borne by
an item that the query fits and the other word does not. -/
def rivals (q : Query) (w : QueryWord) : List QueryWord :=
  q.asked.filter (fun v => !v.isUnwanted) ++ if w.isUnwanted then [w.asWanted] else []

theorem mem_rivals :
    v ∈ q.rivals w ↔ v ∈ q.asked ∧ v.isUnwanted = false ∨ w.isUnwanted = true ∧ v = w.asWanted := by
  cases hw : w.isUnwanted <;> simp [rivals, hw]

theorem isUnwanted_of_mem_rivals (h : v ∈ q.rivals w) : v.isUnwanted = false := by
  rcases mem_rivals.mp h with ⟨_, hv⟩ | ⟨_, rfl⟩
  · exact hv
  · rfl

theorem isApart_of_mem_rivals (hq : ∀ w ∈ q.asked, w.IsApart separator) (hw : w.IsApart separator)
    (h : v ∈ q.rivals w) : v.IsApart separator := by
  rcases mem_rivals.mp h with ⟨hv, _⟩ | ⟨_, rfl⟩
  · exact hq v hv
  · exact ⟨hw.nonempty, hw.isLower, hw.separator⟩

theorem asWanted_of_wanted (h : w.isUnwanted = false) : w.asWanted = w := by
  rw [QueryWord.asWanted, ← h]

variable (hsep : Text.IsLower separator) (hq : ∀ w ∈ q.asked, w.IsApart separator)
  (hw : w.IsApart separator) (hnone : ∀ v ∈ q.asked, v.covers w = false)

include hsep hq hw in
theorem isBorne_rivals {u : QueryWord} (hu : u.IsApart separator) :
    u.isBorne (.bearing separator (q.rivals w)) = (q.rivals w).any fun v => v.covers u.asWanted :=
  QueryWord.isBorne_bearing hsep (fun _ => isApart_of_mem_rivals hq hw)
    (fun _ => isUnwanted_of_mem_rivals) hu

include hsep hq hw hnone in
theorem fits_rivals (hcontra : q.isContradictory = false) :
    q.fits (.bearing separator (q.rivals w)) = true := by
  refine fits_iff_asked.mpr fun u hu => ?_
  rw [QueryWord.fits, isBorne_rivals hsep hq hw (hq u hu)]
  cases hside : u.isUnwanted with
  | false =>
    have hself : u ∈ q.rivals w := mem_rivals.mpr (Or.inl ⟨hu, hside⟩)
    have hany : ((q.rivals w).any fun v => v.covers u) = true :=
      List.any_eq_true.mpr ⟨u, hself, u.covers_refl⟩
    rw [asWanted_of_wanted hside, hany]
    rfl
  | true =>
    have hnot : ((q.rivals w).any fun v => v.covers u.asWanted) = false := by
      rw [List.any_eq_false]
      intro v hv hcovers
      rcases mem_rivals.mp hv with ⟨hv, _⟩ | ⟨hunwanted, rfl⟩
      · -- a wanted word would bring an unwanted one along
        have hopposed : q.isContradictory = true :=
          List.any_eq_true.mpr ⟨v, hv, List.any_eq_true.mpr ⟨u, hu, by rw [hside, hcovers]; rfl⟩⟩
        rw [hcontra] at hopposed
        cases hopposed
      · have hc := QueryWord.covers_of_asWanted hside hunwanted hcovers
        rw [hnone u hu] at hc
        cases hc
    rw [hnot]
    rfl

include hsep hq hw hnone in
theorem not_fits_rivals : w.fits (.bearing separator (q.rivals w)) = false := by
  rw [QueryWord.fits, isBorne_rivals hsep hq hw hw]
  cases hside : w.isUnwanted with
  | false =>
    have hnot : ((q.rivals w).any fun v => v.covers w) = false := by
      rw [List.any_eq_false]
      intro v hv hcovers
      rcases mem_rivals.mp hv with ⟨hv, _⟩ | ⟨hunwanted, _⟩
      · rw [hnone v hv] at hcovers
        cases hcovers
      · rw [hside] at hunwanted
        cases hunwanted
    rw [asWanted_of_wanted hside, hnot]
    rfl
  | true =>
    have hself : w.asWanted ∈ q.rivals w := mem_rivals.mpr (Or.inr ⟨hside, rfl⟩)
    have hany : ((q.rivals w).any fun v => v.covers w.asWanted) = true :=
      List.any_eq_true.mpr ⟨w.asWanted, hself, w.asWanted.covers_refl⟩
    rw [hany]
    rfl

/-- If one query entails another, its words cover those of the other, as long as some character is
left that is in no word. -/
theorem covers_of_entails (hsep : Text.IsLower separator) (hq : ∀ w ∈ q.asked, w.IsApart separator)
    (hr : ∀ w ∈ r.asked, w.IsApart separator) (h : q.Entails r) : q.covers r = true := by
  refine Bool.or_eq_true_iff.mpr ?_
  cases hcontra : q.isContradictory with
  | true => exact Or.inl rfl
  | false =>
    refine Or.inr (List.all_eq_true.mpr fun w hw => Decidable.byContradiction fun hany => ?_)
    have hnone : ∀ v ∈ q.asked, v.covers w = false := by
      intro v hv
      rw [← Bool.not_eq_true]
      exact fun hcovers => hany (List.any_eq_true.mpr ⟨v, hv, hcovers⟩)
    have hfits := h _ _ _ _ (fits_rivals hsep hq (hr w hw) hnone hcontra)
    have hall := fits_iff_asked.mp hfits w hw
    rw [← ItemTexts.bearing, not_fits_rivals hsep hq (hr w hw) hnone] at hall
    cases hall

end Query

end Catalog
