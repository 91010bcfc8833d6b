import Catalog.Proofs.Query.Words
import Catalog.Proofs.Text.Marks

/-!
# Queries put together

A query is its set of words, so the union of two queries asks for the words of both, and fits where
both fit. Two texts put together with a space are read as the union of what they are read as, unless
one of them leaves something open.

* `ext_asked` says that a query is given by its words;
* `mem_asked_union` and `fits_union` are about the union, and `parse_append_space` about texts.
-/

namespace Catalog

theorem WordChoice.ext_mem {v w : WordChoice} (hwanted : ∀ k, k ∈ v.wanted ↔ k ∈ w.wanted)
    (hunwanted : ∀ k, k ∈ v.unwanted ↔ k ∈ w.unwanted) : v = w := by
  have h : (⟨v.wanted, v.unwanted⟩ : WordChoice) = ⟨w.wanted, w.unwanted⟩ := by
    rw [SortedSet.ext_mem hwanted, SortedSet.ext_mem hunwanted]
  exact h

namespace Query

open Text (IsClosed)

variable {q r : Query} {w : QueryWord} {s t : String}

/-- A query is given by its words. -/
theorem ext_asked (h : ∀ w, w ∈ q.asked ↔ w ∈ r.asked) : q = r := by
  have hword : ∀ isUnwanted isKeyword word, (⟨isUnwanted, isKeyword, word⟩ : QueryWord) ∈ q.asked ↔
      (⟨isUnwanted, isKeyword, word⟩ : QueryWord) ∈ r.asked := by
    intro isUnwanted isKeyword word
    exact h _
  simp only [mem_asked_iff] at hword
  obtain ⟨keywords, freetext⟩ := q
  have hkeywords : keywords = r.keywords := by
    apply WordChoice.ext_mem
    · intro k
      simpa using hword false true k
    · intro k
      simpa using hword true true k
  have hfreetext : freetext = r.freetext := by
    apply WordChoice.ext_mem
    · intro k
      simpa using hword false false k
    · intro k
      simpa using hword true false k
  rw [hkeywords, hfreetext]

theorem mem_asked_union : w ∈ (q.union r).asked ↔ w ∈ q.asked ∨ w ∈ r.asked := by
  simp only [mem_asked_iff]
  obtain ⟨isUnwanted, isKeyword, word⟩ := w
  cases isUnwanted <;> cases isKeyword <;> simp [union, WordChoice.union]

/-- The union fits where both fit: also an unwanted word has to be absent for each of them. -/
theorem fits_union (q r : Query) (e : ItemTexts) : (q.union r).fits e = (q.fits e && r.fits e) := by
  rw [Bool.eq_iff_iff, Bool.and_eq_true, fits_iff_asked, fits_iff_asked, fits_iff_asked]
  constructor
  · intro h
    constructor
    · intro w hw
      exact h w (mem_asked_union.mpr (Or.inl hw))
    · intro w hw
      exact h w (mem_asked_union.mpr (Or.inr hw))
  · intro h w hw
    rcases mem_asked_union.mp hw with hw | hw
    · exact h.1 w hw
    · exact h.2 w hw

theorem ofTokens_append (xs ys : List String) :
    ofTokens (xs ++ ys) = (ofTokens xs).union (ofTokens ys) := by
  apply ext_asked
  intro w
  rw [mem_asked_union]
  simp only [mem_asked_ofTokens, List.mem_append]
  constructor
  · rintro ⟨hne, token, hx | hy, heq⟩
    · exact Or.inl ⟨hne, token, hx, heq⟩
    · exact Or.inr ⟨hne, token, hy, heq⟩
  · rintro (⟨hne, token, hx, heq⟩ | ⟨hne, token, hy, heq⟩)
    · exact ⟨hne, token, Or.inl hx, heq⟩
    · exact ⟨hne, token, Or.inr hy, heq⟩

/-- A space puts two texts together without changing what they are read as, unless something is left
open. -/
theorem parse_append_space (hs : IsClosed s) (ht : IsClosed t) :
    parse (s ++ " " ++ t) = (parse s).union (parse t) := by
  have hs' : IsClosed (Text.lower s) := (Text.isClosed_lower_iff s).mpr hs
  have ht' : IsClosed (Text.lower t) := (Text.isClosed_lower_iff t).mpr ht
  rw [parse, parse, parse, Text.lower_append_space, Text.splitTokens_append_space hs' ht',
    ofTokens_append]

end Query

end Catalog
