import Catalog.Text.Tokens

/-!
# Tokens of texts put together

A text in which no quote or backslash is left open ends where it ends: what follows after a blank is
read as if it stood alone.

* `tokens?_append_blank` says so of the tokens, and `words_append_space` of the words of any text;
* `IsClosed` holds of the texts that have tokens, and `mem_splitTokens_append` says that a closed
  text in front takes no token away from what follows;
* `mem_of_mem_splitTokens` says that tokens consist of characters of the text.
-/

namespace Catalog.Text

variable {cs ds w r : List Char} {b c : Char}

/-! ### Tokens in front of a blank -/

theorem singleQuoted?_append (h : singleQuoted? cs = some (w, r)) (ds : List Char) :
    singleQuoted? (cs ++ ds) = some (w, r ++ ds) := by
  induction cs generalizing w with
  | nil => cases h
  | cons c cs ih =>
    unfold singleQuoted? at h
    rw [List.cons_append, singleQuoted?]
    split at h
    · next hc =>
      cases h
      rw [if_pos hc]
    · next hc =>
      obtain ⟨p, hp, heq⟩ := Option.map_eq_some_iff.mp h
      cases heq
      rw [if_neg hc, ih hp, Option.map_some]

theorem doubleQuoted?_append (h : doubleQuoted? cs = some (w, r)) (ds : List Char) :
    doubleQuoted? (cs ++ ds) = some (w, r ++ ds) := by
  fun_induction doubleQuoted? cs generalizing w with
  | case1 => cases h
  | case2 cs =>
    cases h
    rfl
  | case3 cs ih | case4 cs ih =>
    obtain ⟨p, hp, heq⟩ := Option.map_eq_some_iff.mp h
    cases heq
    rw [List.cons_append, List.cons_append, doubleQuoted?, ih hp, Option.map_some]
  | case5 c cs h1 h2 h3 ih =>
    obtain ⟨p, hp, heq⟩ := Option.map_eq_some_iff.mp h
    cases heq
    -- what follows the character is not empty, so its head is that of the longer text
    obtain ⟨d, es, rfl⟩ : ∃ d es, cs = d :: es := by
      cases cs with
      | nil => cases hp
      | cons d es => exact ⟨d, es, rfl⟩
    have hquote : ∀ tail, c = '\\' → d :: es ++ ds = '"' :: tail → False := by
      intro tail hc htail
      exact h2 es hc (by rw [(List.cons.inj htail).1])
    have hslash : ∀ tail, c = '\\' → d :: es ++ ds = '\\' :: tail → False := by
      intro tail hc htail
      exact h3 es hc (by rw [(List.cons.inj htail).1])
    rw [List.cons_append, doubleQuoted?.eq_5 _ _ h1 hquote hslash, ih hp, Option.map_some]

theorem part?_append (h : part? c cs = some (w, r)) (ds : List Char) :
    part? c (cs ++ ds) = some (w, r ++ ds) := by
  unfold part? at h ⊢
  by_cases hsingle : (c == '\x27') = true
  · rw [if_pos hsingle] at h ⊢
    exact singleQuoted?_append h ds
  · rw [if_neg hsingle] at h ⊢
    by_cases hdouble : (c == '"') = true
    · rw [if_pos hdouble] at h ⊢
      exact doubleQuoted?_append h ds
    · rw [if_neg hdouble] at h ⊢
      by_cases hslash : (c == '\\') = true
      · rw [if_pos hslash] at h ⊢
        cases cs with
        | nil => cases h
        | cons d es =>
          cases h
          rfl
      · rw [if_neg hslash] at h ⊢
        cases h
        rfl

theorem token?_nil : token? [] = some ([], []) := by
  rw [token?.eq_def]

theorem token?_of_blank (hb : isBlank b = true) (cs : List Char) :
    token? (b :: cs) = some ([], b :: cs) := by
  rw [token?.eq_def]
  simp only [hb, if_true]

theorem token?_cons (hc : isBlank c = false) (cs : List Char) :
    token? (c :: cs) = (part? c cs).bind fun p => (token? p.2).map fun q => (p.1 ++ q.1, q.2) := by
  rw [token?.eq_def]
  simp only [hc, Bool.false_eq_true, if_false]
  split
  · next hnone => rw [hnone, Option.bind_none]
  · next hsome => simp only [hsome, Option.bind_some]

/-- A token that is complete does not change when a blank and more text follow. -/
theorem token?_append_blank (hb : isBlank b = true) (h : token? cs = some (w, r)) (ds : List Char) :
    token? (cs ++ b :: ds) = some (w, r ++ b :: ds) := by
  fun_induction token? cs generalizing w with
  | case1 =>
    cases h
    rw [List.nil_append, token?_of_blank hb]
  | case2 c cs hc =>
    cases h
    rw [List.cons_append, token?_of_blank hc]
  | case3 => cases h
  | case4 c cs hc v s hp _ ih =>
    obtain ⟨p, hq, heq⟩ := Option.map_eq_some_iff.mp h
    cases heq
    rw [List.cons_append, token?_cons (Bool.eq_false_iff.mpr hc), part?_append hp,
      Option.bind_some, ih hq, Option.map_some]

theorem tokens?_of_blank (h : cs.dropWhile isBlank = []) : tokens? cs = some [] := by
  rw [tokens?]
  split
  · rfl
  · next h' =>
    rw [h] at h'
    cases h'

theorem tokens?_of_dropWhile (h : cs.dropWhile isBlank = c :: ds) :
    tokens? cs = (token? (c :: ds)).bind fun p => (tokens? p.2).map (p.1 :: ·) := by
  rw [tokens?]
  split
  · next h' =>
    rw [h] at h'
    cases h'
  · next h' =>
    rw [h] at h'
    cases h'
    split
    · next hnone => rw [hnone, Option.bind_none]
    · next hsome => simp only [hsome, Option.bind_some]

/-- Blanks at the start make no difference. -/
theorem tokens?_congr (h : cs.dropWhile isBlank = ds.dropWhile isBlank) :
    tokens? cs = tokens? ds := by
  cases hd : ds.dropWhile isBlank with
  | nil => rw [tokens?_of_blank hd, tokens?_of_blank (h.trans hd)]
  | cons c rest => rw [tokens?_of_dropWhile hd, tokens?_of_dropWhile (h.trans hd)]

/-- The tokens of a text do not change when a blank and more text follow. -/
theorem tokens?_append_blank {tokens : List (List Char)} (hb : isBlank b = true)
    (h : tokens? cs = some tokens) (ds : List Char) :
    tokens? (cs ++ b :: ds) = (tokens? ds).map (tokens ++ ·) := by
  induction hn : cs.length using Nat.strongRecOn generalizing cs tokens with
  | ind n ih =>
    cases hc : cs.dropWhile isBlank with
    | nil =>
      rw [tokens?_of_blank hc] at h
      cases h
      have hrest : (cs ++ b :: ds).dropWhile isBlank = ds.dropWhile isBlank := by
        rw [List.dropWhile_append, hc, List.isEmpty_nil, if_pos rfl, List.dropWhile_cons, if_pos hb]
      rw [tokens?_congr hrest]
      cases tokens? ds <;> rfl
    | cons c rest =>
      rw [tokens?_of_dropWhile hc] at h
      obtain ⟨⟨w, r⟩, hw, h⟩ := Option.bind_eq_some_iff.mp h
      obtain ⟨more, hmore, rfl⟩ := Option.map_eq_some_iff.mp h
      have hrest : (cs ++ b :: ds).dropWhile isBlank = c :: (rest ++ b :: ds) := by
        rw [List.dropWhile_append, hc]
        rfl
      have hlen : r.length < n := by
        rw [← hn]
        exact length_after_token hc hw
      rw [tokens?_of_dropWhile hrest, ← List.cons_append, token?_append_blank hb hw,
        Option.bind_some, ih r.length hlen hmore rfl, Option.map_map]
      rfl

/-! ### Words -/

theorem splitBlank_ne_nil (cs : List Char) : splitBlank cs ≠ [] := by
  cases cs with
  | nil => exact List.cons_ne_nil _ _
  | cons c cs =>
    rw [splitBlank]
    split
    · exact List.cons_ne_nil _ _
    · cases splitBlank cs <;> exact List.cons_ne_nil _ _

theorem splitBlank_append_blank (hb : isBlank b = true) (cs ds : List Char) :
    splitBlank (cs ++ b :: ds) = splitBlank cs ++ splitBlank ds := by
  induction cs with
  | nil =>
    show splitBlank (b :: ds) = [] :: splitBlank ds
    rw [splitBlank, if_pos hb]
  | cons c cs ih =>
    rw [List.cons_append, splitBlank, splitBlank, ih]
    split
    · rw [List.cons_append]
    · cases hs : splitBlank cs with
      | nil => exact absurd hs (splitBlank_ne_nil cs)
      | cons piece rest => rfl

theorem words_append_space (s t : String) : words (s ++ " " ++ t) = words s ++ words t := by
  have hchars : (s ++ " " ++ t).toList = s.toList ++ ' ' :: t.toList := by
    simp
  rw [words, hchars, splitBlank_append_blank (by decide), List.filter_append, List.map_append]
  rfl

/-! ### Tokens of two texts -/

/-- No quote and no backslash is left open. -/
def IsClosed (s : String) : Prop := (tokens? s.toList).isSome = true

theorem tokens?_append_space (s t : String) {tokens : List (List Char)}
    (h : tokens? s.toList = some tokens) :
    tokens? (s ++ " " ++ t).toList = (tokens? t.toList).map (tokens ++ ·) := by
  have hchars : (s ++ " " ++ t).toList = s.toList ++ ' ' :: t.toList := by
    simp
  rw [hchars]
  exact tokens?_append_blank (by decide) h t.toList

/-- The tokens of two closed texts are those of the one and those of the other. -/
theorem splitTokens_append_space {s t : String} (hs : IsClosed s) (ht : IsClosed t) :
    splitTokens (s ++ " " ++ t) = splitTokens s ++ splitTokens t := by
  obtain ⟨xs, hxs⟩ := Option.isSome_iff_exists.mp hs
  obtain ⟨ys, hys⟩ := Option.isSome_iff_exists.mp ht
  have hboth : tokens? (s ++ " " ++ t).toList = some (xs ++ ys) := by
    rw [tokens?_append_space s t hxs, hys, Option.map_some]
  rw [splitTokens, splitTokens, splitTokens, hxs, hys, hboth]
  exact List.map_append

/-- A closed text in front takes no token away from what follows. -/
theorem mem_splitTokens_append {s t token : String} (hs : IsClosed s) (h : token ∈ splitTokens t) :
    token ∈ splitTokens (s ++ " " ++ t) := by
  obtain ⟨tokens, htokens⟩ := Option.isSome_iff_exists.mp hs
  unfold splitTokens at h ⊢
  rw [tokens?_append_space s t htokens]
  cases ht : tokens? t.toList with
  | none =>
    rw [ht] at h
    show token ∈ words (s ++ " " ++ t)
    rw [words_append_space]
    exact List.mem_append_right _ h
  | some more =>
    rw [ht] at h
    show token ∈ (tokens ++ more).map String.ofList
    rw [List.map_append]
    exact List.mem_append_right _ h

/-! ### Characters of tokens -/

theorem subset_singleQuoted? (h : singleQuoted? cs = some (w, r)) : w ++ r ⊆ cs := by
  induction cs generalizing w with
  | nil => cases h
  | cons c cs ih =>
    unfold singleQuoted? at h
    split at h
    · cases h
      exact List.subset_cons_self _ _
    · obtain ⟨p, hp, heq⟩ := Option.map_eq_some_iff.mp h
      cases heq
      exact List.cons_subset_cons c (ih hp)

theorem subset_doubleQuoted? (h : doubleQuoted? cs = some (w, r)) : w ++ r ⊆ cs := by
  fun_induction doubleQuoted? cs generalizing w with
  | case1 => cases h
  | case2 cs =>
    cases h
    exact List.subset_cons_self _ _
  | case3 cs ih | case4 cs ih =>
    obtain ⟨p, hp, heq⟩ := Option.map_eq_some_iff.mp h
    cases heq
    exact List.subset_cons_of_subset _ (List.cons_subset_cons _ (ih hp))
  | case5 c cs _ _ _ ih =>
    obtain ⟨p, hp, heq⟩ := Option.map_eq_some_iff.mp h
    cases heq
    exact List.cons_subset_cons c (ih hp)

theorem subset_part? (h : part? c cs = some (w, r)) : w ++ r ⊆ c :: cs := by
  unfold part? at h
  split at h
  · exact List.subset_cons_of_subset c (subset_singleQuoted? h)
  · split at h
    · exact List.subset_cons_of_subset c (subset_doubleQuoted? h)
    · split at h
      · cases cs with
        | nil => cases h
        | cons d es =>
          cases h
          exact List.subset_cons_self _ _
      · cases h
        exact List.Subset.refl _

theorem subset_token? (h : token? cs = some (w, r)) : w ++ r ⊆ cs := by
  fun_induction token? cs generalizing w with
  | case1 =>
    cases h
    exact List.Subset.refl _
  | case2 c cs hc =>
    cases h
    exact List.Subset.refl _
  | case3 => cases h
  | case4 c cs hc v s hp _ ih =>
    obtain ⟨p, hq, heq⟩ := Option.map_eq_some_iff.mp h
    cases heq
    intro x hx
    rw [List.append_assoc, List.mem_append] at hx
    rcases hx with hx | hx
    · exact subset_part? hp (List.mem_append_left s hx)
    · exact subset_part? hp (List.mem_append_right v (ih hq hx))

theorem subset_of_mem_tokens? {tokens : List (List Char)} (h : tokens? cs = some tokens)
    {token : List Char} (hmem : token ∈ tokens) : token ⊆ cs := by
  induction hn : cs.length using Nat.strongRecOn generalizing cs tokens with
  | ind n ih =>
    cases hc : cs.dropWhile isBlank with
    | nil =>
      rw [tokens?_of_blank hc] at h
      cases h
      cases hmem
    | cons c rest =>
      rw [tokens?_of_dropWhile hc] at h
      obtain ⟨⟨v, r⟩, hv, h⟩ := Option.bind_eq_some_iff.mp h
      obtain ⟨more, hmore, rfl⟩ := Option.map_eq_some_iff.mp h
      have hcs : v ++ r ⊆ cs := by
        refine List.Subset.trans (subset_token? hv) ?_
        rw [← hc]
        exact (List.dropWhile_sublist isBlank).subset
      have hlen : r.length < n := by
        rw [← hn]
        exact length_after_token hc hv
      rcases List.mem_cons.mp hmem with rfl | hmem
      · exact List.Subset.trans (List.subset_append_left _ r) hcs
      · exact List.Subset.trans (ih r.length hlen hmore hmem rfl)
          (List.Subset.trans (List.subset_append_right v r) hcs)

theorem subset_of_mem_splitBlank {piece : List Char} (h : piece ∈ splitBlank cs) : piece ⊆ cs := by
  induction cs generalizing piece with
  | nil =>
    rw [splitBlank, List.mem_singleton] at h
    rw [h]
    exact List.Subset.refl _
  | cons c cs ih =>
    rw [splitBlank] at h
    split at h
    · rcases List.mem_cons.mp h with rfl | h
      · exact List.nil_subset _
      · exact List.subset_cons_of_subset c (ih h)
    · cases hs : splitBlank cs with
      | nil => exact absurd hs (splitBlank_ne_nil cs)
      | cons first rest =>
        rw [hs] at h ih
        rcases List.mem_cons.mp h with rfl | h
        · exact List.cons_subset_cons c (ih List.mem_cons_self)
        · exact List.subset_cons_of_subset c (ih (List.mem_cons_of_mem _ h))

/-- Tokens consist of characters of the text. -/
theorem mem_of_mem_splitTokens {s token : String} (h : token ∈ splitTokens s)
    (hc : c ∈ token.toList) : c ∈ s.toList := by
  unfold splitTokens at h
  split at h
  · next pieces hpieces =>
    obtain ⟨piece, hmem, rfl⟩ := List.mem_map.mp h
    rw [String.toList_ofList] at hc
    exact subset_of_mem_tokens? hpieces hmem hc
  · obtain ⟨piece, hmem, rfl⟩ := List.mem_map.mp h
    rw [String.toList_ofList] at hc
    exact subset_of_mem_splitBlank (List.mem_filter.mp hmem).1 hc

end Catalog.Text
