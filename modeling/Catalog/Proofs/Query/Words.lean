import Catalog.Proofs.Text.Pieces
import Catalog.Proofs.Text.Tokens
import Catalog.Search.Basic

/-!
# The words of a query

A query is a set of words, each wanted or unwanted, keyword or not, and it fits where each of its
words does.

* `Query.asked` lists the words, and `fits_iff_asked` says that a query fits where they all fit;
* `mem_asked_ofTokens` says that the words are those of the tokens, and `mem_lower_of_mem_parse`
  that they consist of characters of the text in lower case.
-/

namespace Catalog

namespace QueryWord

/-- Whether a word is there, wanted or not. -/
def isBorne (w : QueryWord) (e : ItemTexts) : Bool :=
  if w.isKeyword then decide (w.word ∈ e.keywords) else e.hasWord w.word

/-- Whether one word of a query fits. -/
def fits (w : QueryWord) (e : ItemTexts) : Bool := w.isBorne e != w.isUnwanted

theorem isUnwanted_ofToken (token : String) :
    (ofToken token).isUnwanted = Text.startsWith '-' token := by
  simp only [ofToken]
  split <;> rfl

end QueryWord

namespace Query

variable {q : Query} {v w : QueryWord} {e : ItemTexts}

/-- The words of a query. -/
def asked (q : Query) : List QueryWord :=
  q.keywords.wanted.toList.map (⟨false, true, ·⟩) ++
    q.keywords.unwanted.toList.map (⟨true, true, ·⟩) ++
    (q.freetext.wanted.toList.map (⟨false, false, ·⟩) ++
      q.freetext.unwanted.toList.map (⟨true, false, ·⟩))

theorem mem_asked_iff : w ∈ q.asked ↔
    w.word ∈ (if w.isKeyword then q.keywords else q.freetext).wanted ∧ w.isUnwanted = false ∨
      w.word ∈ (if w.isKeyword then q.keywords else q.freetext).unwanted ∧ w.isUnwanted = true := by
  obtain ⟨isUnwanted, isKeyword, word⟩ := w
  cases isUnwanted <;> cases isKeyword <;> simp [asked]

theorem fits_iff_asked : q.fits e = true ↔ ∀ w ∈ q.asked, w.fits e = true := by
  rw [fits_iff]
  simp only [asked, List.mem_append, List.mem_map, SortedSet.mem_toList]
  constructor
  · rintro ⟨h1, h2, h3, h4⟩ w ((⟨k, hk, rfl⟩ | ⟨k, hk, rfl⟩) | (⟨k, hk, rfl⟩ | ⟨k, hk, rfl⟩))
    · simp [QueryWord.fits, QueryWord.isBorne, h1 k hk]
    · simp [QueryWord.fits, QueryWord.isBorne, h2 k hk]
    · simp [QueryWord.fits, QueryWord.isBorne, h3 k hk]
    · simp [QueryWord.fits, QueryWord.isBorne, h4 k hk]
  · intro h
    refine ⟨fun k hk => ?_, fun k hk => ?_, fun k hk => ?_, fun k hk => ?_⟩
    · simpa [QueryWord.fits, QueryWord.isBorne] using h ⟨false, true,
        k⟩ (Or.inl (Or.inl ⟨k, hk, rfl⟩))
    · simpa [QueryWord.fits, QueryWord.isBorne] using h ⟨true, true,
        k⟩ (Or.inl (Or.inr ⟨k, hk, rfl⟩))
    · simpa [QueryWord.fits, QueryWord.isBorne] using h ⟨false, false,
        k⟩ (Or.inr (Or.inl ⟨k, hk, rfl⟩))
    · simpa [QueryWord.fits, QueryWord.isBorne] using h ⟨true, false,
        k⟩ (Or.inr (Or.inr ⟨k, hk, rfl⟩))

theorem mem_asked_add : w ∈ (q.add v).asked ↔ w ∈ q.asked ∨ v.word ≠ "" ∧ w = v := by
  rw [mem_asked_iff, mem_asked_iff]
  obtain ⟨unwanted, keyword, word⟩ := v
  obtain ⟨unwanted', keyword', word'⟩ := w
  by_cases hempty : word = ""
  · simp [add, hempty]
  · cases unwanted <;> cases keyword <;> cases unwanted' <;> cases keyword' <;>
      simp [add, hempty, WordChoice.add, or_comm]

/-- The words of a query are those of its tokens that are not empty. -/
theorem mem_asked_ofTokens {tokens : List String} :
    w ∈ (ofTokens tokens).asked ↔ w.word ≠ "" ∧ ∃ token ∈ tokens, QueryWord.ofToken token = w := by
  have hfold : ∀ q : Query,
      w ∈ (tokens.foldl (fun q token => q.add (QueryWord.ofToken token)) q).asked ↔
        w ∈ q.asked ∨ w.word ≠ "" ∧ ∃ token ∈ tokens, QueryWord.ofToken token = w := by
    induction tokens with
    | nil => simp
    | cons token rest ih =>
      intro q
      rw [List.foldl_cons, ih, mem_asked_add, or_assoc]
      refine or_congr_right ?_
      constructor
      · rintro (⟨hne, rfl⟩ | ⟨hne, other, hmem, rfl⟩)
        · exact ⟨hne, token, List.mem_cons_self, rfl⟩
        · exact ⟨hne, other, List.mem_cons_of_mem _ hmem, rfl⟩
      · intro hex
        obtain ⟨hne, other, hmem, rfl⟩ := hex
        rcases List.mem_cons.mp hmem with rfl | hmem
        · exact Or.inl ⟨hne, rfl⟩
        · exact Or.inr ⟨hne, other, hmem, rfl⟩
  rw [ofTokens, hfold]
  simp [mem_asked_iff]

theorem word_ne_of_mem_parse {s : String} (h : w ∈ (parse s).asked) : w.word ≠ "" :=
  (mem_asked_ofTokens.mp h).1

theorem mem_of_mem_ofToken {token : String} {c : Char}
    (h : c ∈ (QueryWord.ofToken token).word.toList) : c ∈ token.toList := by
  have hbare : ∀ d ∈ (Text.dropLeading '-' token).toList, d ∈ token.toList := by
    intro d hd
    rw [Text.dropLeading, String.toList_ofList] at hd
    exact (List.dropWhile_sublist _).subset hd
  simp only [QueryWord.ofToken] at h
  split at h
  · next keyword hkeyword =>
    refine hbare c ?_
    rw [Text.afterLeading_eq_some_iff.mp hkeyword]
    exact List.mem_cons_of_mem _ h
  · exact hbare c h

/-- Of the characters of a token, only `-` and `#` may be missing from its word. -/
theorem mem_ofToken_of_mem {token : String} {c : Char} (h : c ∈ token.toList) (hminus : c ≠ '-')
    (hhash : c ≠ '#') : c ∈ (QueryWord.ofToken token).word.toList := by
  have hbare : c ∈ (Text.dropLeading '-' token).toList := by
    rw [← List.takeWhile_append_dropWhile (p := (· == '-')) (l := token.toList),
      List.mem_append] at h
    rw [Text.dropLeading, String.toList_ofList]
    refine h.resolve_left fun hleading => hminus ?_
    exact beq_iff_eq.mp (List.all_eq_true.mp (List.all_takeWhile (p := (· == '-'))) c hleading)
  simp only [QueryWord.ofToken]
  split
  · next keyword hkeyword =>
    rw [Text.afterLeading_eq_some_iff.mp hkeyword] at hbare
    exact (List.mem_cons.mp hbare).resolve_left hhash
  · exact hbare

/-- The words of a query consist of characters of its text in lower case. -/
theorem mem_lower_of_mem_parse {s : String} {c : Char} (h : w ∈ (parse s).asked)
    (hc : c ∈ w.word.toList) : c ∈ (Text.lower s).toList := by
  obtain ⟨_, token, htoken, rfl⟩ := mem_asked_ofTokens.mp h
  exact Text.mem_of_mem_splitTokens htoken (mem_of_mem_ofToken hc)

end Query

end Catalog
