import Catalog.Proofs.Query.Union
import Catalog.Proofs.Text.Phrases

/-!
# Queries written out

The words of a query that has been read are in lower case and without the marks that tell what they
ask for. So the query can be written out again: every word is a phrase, with `-` in it if the word
is unwanted and `#` after that if it is a keyword, and the phrases may stand in any order.

* `QueryWord.IsCanonical` is what holds of the words of a query, and `isCanonical_of_mem_parse` says
  so;
* `QueryWord.token` writes the token of a word, and `ofToken_token` reads it;
* `Query.write` writes words out, and `parse_write_of_perm` reads them.
-/

namespace Catalog

namespace QueryWord

variable {w : QueryWord} {c : Char}

/-- What a word is like that has been read. -/
structure IsCanonical (w : QueryWord) : Prop where
  filled : w.word ≠ ""
  /-- Only a keyword may start with a mark, as in `#-x`. -/
  bare : w.isKeyword = false →
    Text.startsWith '-' w.word = false ∧ Text.startsWith '#' w.word = false
  lower : Text.lower w.word = w.word

/-- A word with `#` in front if it is a keyword. -/
def bareToken (w : QueryWord) : String := if w.isKeyword then "#" ++ w.word else w.word

/-- The token of a word. -/
def token (w : QueryWord) : String := if w.isUnwanted then "-" ++ w.bareToken else w.bareToken

/-! ### What is read -/

/-- A word that is no keyword starts with no mark: all `-` are taken from the front of its token,
and then there is no `#`. -/
theorem bare_ofToken (token : String) (h : (ofToken token).isKeyword = false) :
    Text.startsWith '-' (ofToken token).word = false ∧
      Text.startsWith '#' (ofToken token).word = false := by
  simp only [ofToken] at h ⊢
  split at h
  · cases h
  · next hnone =>
    exact ⟨Text.not_startsWith_dropLeading '-' token, Text.afterLeading_eq_none_iff.mp hnone⟩

theorem isCanonical_of_mem_parse {s : String} (h : w ∈ (Query.parse s).asked) : w.IsCanonical := by
  refine ⟨Query.word_ne_of_mem_parse h, ?_, ?_⟩
  · obtain ⟨_, token, _, rfl⟩ := Query.mem_asked_ofTokens.mp h
    exact bare_ofToken token
  · apply Text.lower_of_isLower
    intro c hc
    exact Text.isLower_of_mem_lower (Query.mem_lower_of_mem_parse h hc)

/-! ### What is written -/

theorem toList_bareToken (w : QueryWord) :
    w.bareToken.toList = if w.isKeyword then '#' :: w.word.toList else w.word.toList := by
  rw [bareToken]
  split
  · exact Text.toList_hash_append w.word
  · rfl

theorem toList_token (w : QueryWord) :
    w.token.toList = if w.isUnwanted then '-' :: w.bareToken.toList else w.bareToken.toList := by
  rw [token]
  split
  · rw [String.toList_append]
    rfl
  · rfl

theorem IsCanonical.not_startsWith_bareToken (h : w.IsCanonical) :
    Text.startsWith '-' w.bareToken = false := by
  cases hkeyword : w.isKeyword with
  | true =>
    rw [Text.startsWith, toList_bareToken, hkeyword]
    rfl
  | false =>
    rw [Text.startsWith, toList_bareToken, hkeyword]
    exact (h.bare hkeyword).1

theorem IsCanonical.dropLeading_token (h : w.IsCanonical) :
    Text.dropLeading '-' w.token = w.bareToken := by
  have hbare := Text.dropLeading_of_not_startsWith h.not_startsWith_bareToken
  cases hunwanted : w.isUnwanted with
  | true =>
    rw [Text.dropLeading, toList_token, hunwanted]
    exact hbare
  | false =>
    rw [token, hunwanted]
    exact hbare

theorem IsCanonical.startsWith_token (h : w.IsCanonical) :
    Text.startsWith '-' w.token = w.isUnwanted := by
  cases hunwanted : w.isUnwanted with
  | true =>
    rw [Text.startsWith, toList_token, hunwanted]
    rfl
  | false =>
    rw [token, hunwanted]
    exact h.not_startsWith_bareToken

/-- The token of a word is read as this word. -/
theorem IsCanonical.ofToken_token (h : w.IsCanonical) : ofToken w.token = w := by
  rw [ofToken, h.dropLeading_token, h.startsWith_token]
  cases hkeyword : w.isKeyword with
  | true =>
    have hsome : Text.afterLeading '#' w.bareToken = some w.word := by
      rw [Text.afterLeading_eq_some_iff, toList_bareToken, hkeyword]
      rfl
    rw [hsome, ← hkeyword]
  | false =>
    have hword : w.bareToken = w.word := by
      rw [bareToken, hkeyword]
      rfl
    rw [hword, Text.afterLeading_eq_none_iff.mpr (h.bare hkeyword).2, ← hkeyword]

theorem IsCanonical.isLower_of_mem_bareToken (h : w.IsCanonical) (hc : c ∈ w.bareToken.toList) :
    Text.IsLower c := by
  have hword : ∀ d ∈ w.word.toList, Text.IsLower d := by
    intro d hd
    rw [← h.lower] at hd
    exact Text.isLower_of_mem_lower hd
  rw [toList_bareToken] at hc
  split at hc
  · rcases List.mem_cons.mp hc with rfl | hc
    · exact Text.isLower_of_mem_marks (Text.mem_marks_of_mem (by decide))
    · exact hword c hc
  · exact hword c hc

theorem IsCanonical.lower_token (h : w.IsCanonical) : Text.lower w.token = w.token := by
  apply Text.lower_of_isLower
  intro c hc
  rw [toList_token] at hc
  split at hc
  · rcases List.mem_cons.mp hc with rfl | hc
    · exact Text.isLower_of_mem_marks (Text.mem_marks_of_mem (by decide))
    · exact h.isLower_of_mem_bareToken hc
  · exact h.isLower_of_mem_bareToken hc

end QueryWord

namespace Query

variable {order : List QueryWord} {w : QueryWord}

/-- Words written out as phrases with spaces between them. -/
def write (order : List QueryWord) : String :=
  Text.joinWith " " (order.map fun w => Text.phrase w.token)

theorem lower_write (h : ∀ w ∈ order, w.IsCanonical) : Text.lower (write order) = write order := by
  rw [write, Text.lower_joinWith_space, List.map_map]
  refine congrArg (Text.joinWith " ") (List.map_congr_left ?_)
  intro w hw
  show Text.lower (Text.phrase w.token) = Text.phrase w.token
  rw [Text.lower_phrase, (h w hw).lower_token]

theorem splitTokens_write (order : List QueryWord) :
    Text.splitTokens (write order) = order.map QueryWord.token := by
  rw [← Text.splitTokens_phrases (order.map QueryWord.token), List.map_map]
  rfl

/-- Words that are written out are read again. -/
theorem mem_asked_parse_write (h : ∀ w ∈ order, w.IsCanonical) :
    w ∈ (parse (write order)).asked ↔ w ∈ order := by
  rw [parse, lower_write h, splitTokens_write, mem_asked_ofTokens]
  simp only [List.mem_map]
  constructor
  · rintro ⟨_, _, ⟨v, hv, rfl⟩, rfl⟩
    rw [(h v hv).ofToken_token]
    exact hv
  · intro hw
    exact ⟨(h w hw).filled, w.token, ⟨w, hw, rfl⟩, (h w hw).ofToken_token⟩

/-- Every word of a query that has been read is canonical, and the query is read again when its
words are written out in any order. -/
theorem parse_write_of_perm (s : String) :
    (∀ w ∈ (parse s).asked, w.IsCanonical) ∧
      ∀ order : List QueryWord, order.Perm (parse s).asked → parse (write order) = parse s := by
  have hcanonical : ∀ w ∈ (parse s).asked, w.IsCanonical := by
    intro w hw
    exact QueryWord.isCanonical_of_mem_parse hw
  refine ⟨hcanonical, ?_⟩
  intro order hperm
  apply ext_asked
  intro w
  rw [mem_asked_parse_write fun v hv => hcanonical v (hperm.mem_iff.mp hv)]
  exact hperm.mem_iff

/-- A keyword that starts with `-`, and a phrase with a quote and a blank in it, which is written
first. -/
theorem parse_write_of_marked_words :
    let s := "-#-Draft \x27say \"Hi\x27"
    let draft : QueryWord := ⟨true, true, "-draft"⟩
    let order := [⟨false, false, "say \"hi"⟩, draft]
    (draft ∈ (parse s).asked ∧ order.Perm (parse s).asked ∧
      write order = "\"say \\\"hi\" \"-#-draft\"") ∧
      draft.IsCanonical ∧ parse (write order) = parse s := by
  intro s draft order
  have hmem : draft ∈ (parse s).asked := by decide +kernel
  have hperm : order.Perm (parse s).asked := by decide +kernel
  obtain ⟨hcanonical, hread⟩ := parse_write_of_perm s
  exact ⟨⟨hmem, hperm, by decide +kernel⟩, hcanonical draft hmem, hread order hperm⟩

end Query

end Catalog
