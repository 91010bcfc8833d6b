import Catalog.Proofs.Text.Ends

/-!
# Texts that are one token

Quotes and backslashes do not become part of a token, and neither do the blanks between tokens. So a
token is as long as the text only if it is the text, which then holds none of these, and there is no
other token. A text without tokens is cut at its blanks alone.

* `isQuoting` holds of quotes and backslashes;
* `token?_cases` compares the length of a token with what it takes of a text, and `tokens?_cases`
  that of every token with the whole text;
* `isSingleToken_of_mem` says which texts are among their own tokens, and
  `IsSingleToken.splitTokens_eq` that these have no others.
-/

namespace Catalog.Text

variable {cs w r : List Char} {c : Char} {s : String}

/-- A quote or a backslash. -/
def isQuoting (c : Char) : Bool := c == '\x27' || c == '"' || c == '\\'

/-! ### Lengths -/

theorem length_lt_of_singleQuoted? (h : singleQuoted? cs = some (w, r)) :
    w.length + r.length < cs.length := by
  induction cs generalizing w with
  | nil => cases h
  | cons c cs ih =>
    unfold singleQuoted? at h
    split at h
    · cases h
      simp
    · obtain ⟨p, hp, heq⟩ := Option.map_eq_some_iff.mp h
      cases heq
      have hrest := ih hp
      simp only [List.length_cons]
      omega

theorem length_lt_of_doubleQuoted? (h : doubleQuoted? cs = some (w, r)) :
    w.length + r.length < cs.length := by
  fun_induction doubleQuoted? cs generalizing w with
  | case1 => cases h
  | case2 cs =>
    cases h
    simp
  | case3 cs ih | case4 cs ih =>
    obtain ⟨p, hp, heq⟩ := Option.map_eq_some_iff.mp h
    cases heq
    have hrest := ih hp
    simp only [List.length_cons]
    omega
  | case5 c cs _ _ _ ih =>
    obtain ⟨p, hp, heq⟩ := Option.map_eq_some_iff.mp h
    cases heq
    have hrest := ih hp
    simp only [List.length_cons]
    omega

/-- A part is one character that stands for itself, or shorter than what it takes. -/
theorem part?_cases (h : part? c cs = some (w, r)) :
    (isQuoting c = false ∧ w = [c] ∧ r = cs) ∨ w.length + r.length ≤ cs.length := by
  unfold part? at h
  split at h
  · exact Or.inr (length_lt_of_singleQuoted? h).le
  · next hsingle =>
    split at h
    · exact Or.inr (length_lt_of_doubleQuoted? h).le
    · next hdouble =>
      split at h
      · cases cs with
        | nil => cases h
        | cons d rest =>
          cases h
          right
          simp only [List.length_cons, List.length_nil]
          omega
      · next hslash =>
        cases h
        refine Or.inl ⟨?_, rfl, rfl⟩
        rw [isQuoting, Bool.eq_false_iff.mpr hsingle, Bool.eq_false_iff.mpr hdouble,
          Bool.eq_false_iff.mpr hslash]
        rfl

/-- A token is the text in front of what follows it, without blanks, quotes and backslashes, or
shorter than that. -/
theorem token?_cases (h : token? cs = some (w, r)) :
    (cs = w ++ r ∧ ∀ c ∈ w, isBlank c = false ∧ isQuoting c = false) ∨
      w.length + r.length < cs.length := by
  fun_induction token? cs generalizing w with
  | case1 =>
    cases h
    exact Or.inl ⟨rfl, List.forall_mem_nil _⟩
  | case2 c cs hc =>
    cases h
    exact Or.inl ⟨rfl, List.forall_mem_nil _⟩
  | case3 => cases h
  | case4 c cs hc v rest hpart _ ih =>
    obtain ⟨p, hrest, heq⟩ := Option.map_eq_some_iff.mp h
    cases heq
    rcases part?_cases hpart with ⟨hquoting, rfl, rfl⟩ | hshort
    · rcases ih hrest with ⟨hsame, hplain⟩ | hshort
      · refine Or.inl ⟨congrArg (c :: ·) hsame, fun d hd => ?_⟩
        rcases List.mem_cons.mp hd with rfl | hd
        · exact ⟨Bool.eq_false_iff.mpr hc, hquoting⟩
        · exact hplain d hd
      · right
        simp only [List.length_append, List.length_cons, List.length_nil]
        omega
    · have hle : p.1.length + p.2.length ≤ rest.length := by
        rcases ih hrest with ⟨hsame, _⟩ | hlt
        · rw [← List.length_append, ← hsame]
        · exact hlt.le
      right
      simp only [List.length_append, List.length_cons]
      omega

/-- A token of a text is the text, without blanks, quotes and backslashes, and the only one, or it
is shorter. -/
theorem tokens?_cases {tokens : List (List Char)} (h : tokens? cs = some tokens) {token : List Char}
    (hmem : token ∈ tokens) :
    (tokens = [cs] ∧ ∀ c ∈ cs, isBlank c = false ∧ isQuoting c = false) ∨
      token.length < cs.length := by
  induction hn : cs.length using Nat.strongRecOn generalizing cs tokens with
  | ind n ih =>
    cases hc : cs.dropWhile isBlank with
    | nil =>
      rw [tokens?_of_blank hc] at h
      cases h
      cases hmem
    | cons c rest =>
      rw [tokens?_of_dropWhile hc] at h
      obtain ⟨⟨v, r⟩, hv, h⟩ := Option.bind_eq_some_iff.mp h
      obtain ⟨more, hmore, rfl⟩ := Option.map_eq_some_iff.mp h
      have hdrop : cs.takeWhile isBlank ++ c :: rest = cs := by
        rw [← hc]
        exact List.takeWhile_append_dropWhile
      have hlength : (cs.takeWhile isBlank).length + (c :: rest).length = n := by
        rw [← hn, ← List.length_append, hdrop]
      have hlen : r.length < n := by
        rw [← hn]
        exact length_after_token hc hv
      rcases List.mem_cons.mp hmem with rfl | hmem
      · rcases token?_cases hv with ⟨hsame, hplain⟩ | hshort
        · -- the token is the whole text unless there is something in front of it or behind it
          rw [hsame, List.length_append] at hlength
          cases r with
          | nil =>
            have hnone : tokens? [] = some [] := tokens?_of_blank rfl
            rw [hnone] at hmore
            cases hmore
            rw [List.append_nil] at hsame
            cases hfront : cs.takeWhile isBlank with
            | nil =>
              rw [hfront, List.nil_append, hsame] at hdrop
              rw [← hdrop]
              exact Or.inl ⟨rfl, hplain⟩
            | cons b bs =>
              right
              rw [hfront] at hlength
              simp only [List.length_cons, List.length_nil] at hlength
              omega
          | cons b bs =>
            right
            rw [List.length_cons] at hlength
            omega
        · right
          omega
      · right
        rcases ih r.length hlen hmore hmem rfl with ⟨hsame, _⟩ | hshort
        · rw [hsame, List.mem_singleton] at hmem
          rw [hmem]
          exact hlen
        · omega

/-! ### Texts without blanks -/

theorem part?_of_plain (hc : isQuoting c = false) (cs : List Char) :
    part? c cs = some ([c], cs) := by
  simp only [isQuoting, Bool.or_eq_false_iff] at hc
  simp [part?, hc]

theorem token?_of_plain (h : ∀ c ∈ cs, isBlank c = false ∧ isQuoting c = false) :
    token? cs = some (cs, []) := by
  induction cs with
  | nil => exact token?_nil
  | cons c cs ih =>
    obtain ⟨hblank, hquoting⟩ := h c List.mem_cons_self
    rw [token?_cons hblank, part?_of_plain hquoting, Option.bind_some, ih fun d hd =>
      h d (List.mem_cons_of_mem c hd)]
    rfl

theorem tokens?_of_plain (hne : cs ≠ []) (h : ∀ c ∈ cs, isBlank c = false ∧ isQuoting c = false) :
    tokens? cs = some [cs] := by
  obtain ⟨c, rest, rfl⟩ := List.exists_cons_of_ne_nil hne
  have hdrop : (c :: rest).dropWhile isBlank = c :: rest := by
    rw [List.dropWhile_cons, (h c List.mem_cons_self).1]
    rfl
  have hnone : tokens? [] = some [] := tokens?_of_blank rfl
  rw [tokens?_of_dropWhile hdrop, token?_of_plain h, Option.bind_some, hnone]
  rfl

theorem splitBlank_of_plain (h : ∀ c ∈ cs, isBlank c = false) : splitBlank cs = [cs] := by
  induction cs with
  | nil => rfl
  | cons c cs ih =>
    rw [splitBlank, h c List.mem_cons_self, ih fun d hd => h d (List.mem_cons_of_mem c hd)]
    rfl

theorem words_of_plain (hne : s ≠ "") (h : ∀ c ∈ s.toList, isBlank c = false) : words s = [s] := by
  have hfilled : s.toList ≠ [] := fun hnil => hne (String.toList_eq_nil_iff.mp hnil)
  rw [words_eq, wordPieces, splitBlank_of_plain h, List.filter_cons_of_pos (by simpa using hne),
    List.filter_nil, List.map_singleton, String.ofList_toList]

/-- Words with one space between neighbours are the words of their text. -/
theorem words_joinWith_space {texts : List String}
    (h : ∀ s ∈ texts, s ≠ "" ∧ ∀ c ∈ s.toList, isBlank c = false) :
    words (joinWith " " texts) = texts := by
  induction texts with
  | nil => rfl
  | cons s texts ih =>
    obtain ⟨hne, hplain⟩ := h s List.mem_cons_self
    have hrest := ih fun t ht => h t (List.mem_cons_of_mem s ht)
    cases texts with
    | nil => exact words_of_plain hne hplain
    | cons t texts =>
      rw [joinWith, words_append_space, words_of_plain hne hplain, hrest, List.singleton_append]

/-! ### Texts that are their own token -/

/-- The text holds no blank, and no quote or backslash either unless one is left open. -/
structure IsSingleToken (s : String) : Prop where
  blank : ∀ c ∈ s.toList, isBlank c = false
  quoting : tokens? s.toList = none ∨ ∀ c ∈ s.toList, isQuoting c = false

/-- Only such texts are among their own tokens. -/
theorem isSingleToken_of_mem (h : s ∈ splitTokens s) : IsSingleToken s := by
  unfold splitTokens at h
  split at h
  · next pieces hpieces =>
    obtain ⟨piece, hpiece, heq⟩ := List.mem_map.mp h
    have hsame : piece = s.toList := by rw [← heq, String.toList_ofList]
    rcases tokens?_cases hpieces hpiece with ⟨_, hplain⟩ | hshort
    · exact ⟨fun c hc => (hplain c hc).1, Or.inr fun c hc => (hplain c hc).2⟩
    · rw [hsame] at hshort
      exact absurd hshort (Nat.lt_irrefl _)
  · next hnone => exact ⟨fun c hc => isBlank_of_mem_words h hc, Or.inl hnone⟩

/-- Such a text has no other token than itself. -/
theorem IsSingleToken.splitTokens_eq (h : IsSingleToken s) (hne : s ≠ "") :
    splitTokens s = [s] := by
  have hfilled : s.toList ≠ [] := fun hnil => hne (String.toList_eq_nil_iff.mp hnil)
  rcases h.quoting with hnone | hquoting
  · rw [splitTokens_of_none hnone, words_of_plain hne h.blank]
  · rw [splitTokens, tokens?_of_plain hfilled fun c hc => ⟨h.blank c hc, hquoting c hc⟩]
    show [String.ofList s.toList] = [s]
    rw [String.ofList_toList]

end Catalog.Text
