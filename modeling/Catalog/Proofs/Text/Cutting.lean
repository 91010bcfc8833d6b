import Catalog.Proofs.Text.Pieces

/-!
# Cutting at words

To exchange every occurrence of a word, from the left and without overlaps, is to cut a text at
these occurrences and to join the pieces again. Texts that were joined by the word are not always
the pieces: the word may occur in them, or begin in one of them and end in the separator behind it.

* `cutChars` are the pieces; `replaceFrom_eq_intercalate` and `intercalate_cutChars` say how they
  are joined;
* `LosesGradually` says how many pieces the end of a text has, and `length_le_length_cutChars` that
  there is no other way to cut a text into more pieces;
* `KeptApart` says when texts are found again, by `cutChars_intercalate_eq_iff`;
* `replaceAll_joinWith_eq_iff` says when a text that was joined by the word can be taken, after the
  exchange, for texts that are joined by a character.
-/

namespace Catalog.Text

variable {word s : List Char}

/-- The pieces of a text between the occurrences of a word, from the left and without overlaps,
where `skip` characters still belong to the last occurrence. -/
def cutFrom (word : List Char) : Nat → List Char → List (List Char)
  | _, [] => [[]]
  | skip + 1, _ :: cs => cutFrom word skip cs
  | 0, c :: cs =>
    if word.isPrefixOf (c :: cs) then [] :: cutFrom word (word.length - 1) cs
    else (cutFrom word 0 cs).modifyHead (c :: ·)

/-- The pieces of a text between the occurrences of a word, from the left and without overlaps. -/
def cutChars (word s : List Char) : List (List Char) := cutFrom word 0 s

/-! ### One step -/

theorem cutFrom_eq_drop (word : List Char) (skip : Nat) (s : List Char) :
    cutFrom word skip s = cutChars word (s.drop skip) := by
  induction skip generalizing s with
  | zero => rfl
  | succ skip ih =>
    cases s with
    | nil => rfl
    | cons c cs => exact ih cs

theorem cutChars_append_self (hne : word ≠ []) (s : List Char) :
    cutChars word (word ++ s) = [] :: cutChars word s := by
  obtain ⟨c, rest, rfl⟩ := List.exists_cons_of_ne_nil hne
  have hstart : (c :: rest).isPrefixOf (c :: (rest ++ s)) = true :=
    List.isPrefixOf_iff_prefix.mpr (List.prefix_append (c :: rest) s)
  rw [cutChars, List.cons_append, cutFrom, if_pos hstart, cutFrom_eq_drop, List.length_cons,
    Nat.add_sub_cancel, List.drop_left]

theorem cutChars_cons {c : Char} {cs : List Char} (h : ¬ word <+: c :: cs) :
    cutChars word (c :: cs) = (cutChars word cs).modifyHead (c :: ·) := by
  rw [cutChars, cutFrom, if_neg (mt List.isPrefixOf_iff_prefix.mp h), cutChars]

/-- A text is empty, starts with a word, or starts with a character and not with the word. -/
theorem nil_or_append_or_cons (word s : List Char) :
    s = [] ∨ (∃ cs, s = word ++ cs) ∨ ∃ c cs, s = c :: cs ∧ ¬ word <+: c :: cs := by
  cases s with
  | nil => exact .inl rfl
  | cons c cs =>
    by_cases h : word <+: c :: cs
    · obtain ⟨rest, hrest⟩ := h
      exact .inr (.inl ⟨rest, hrest.symm⟩)
    · exact .inr (.inr ⟨c, cs, rfl, h⟩)

/-- What holds of the empty text, and of a text if it holds of what is left after the word or else
after one character, holds of every text. -/
theorem cut_induction {P : List Char → Prop} (hne : word ≠ []) (nil : P [])
    (found : ∀ cs, P cs → P (word ++ cs)) (other : ∀ c cs, ¬ word <+: c :: cs → P cs → P (c :: cs))
    (s : List Char) : P s := by
  induction hn : s.length using Nat.strongRecOn generalizing s with
  | ind n ih =>
    subst hn
    rcases nil_or_append_or_cons word s with rfl | ⟨cs, rfl⟩ | ⟨c, cs, rfl, hcs⟩
    · exact nil
    · refine found cs (ih cs.length ?_ cs rfl)
      rw [List.length_append]
      exact Nat.lt_add_of_pos_left (List.length_pos_iff.mpr hne)
    · exact other c cs hcs (ih cs.length (Nat.lt_succ_self _) cs rfl)

/-! ### The pieces -/

theorem cutFrom_ne_nil (word : List Char) (skip : Nat) (s : List Char) :
    cutFrom word skip s ≠ [] := by
  induction s generalizing skip with
  | nil => exact List.cons_ne_nil _ _
  | cons c cs ih =>
    cases skip with
    | succ skip => exact ih skip
    | zero =>
      rw [cutFrom]
      split
      · exact List.cons_ne_nil _ _
      · exact mt List.modifyHead_eq_nil_iff.mp (ih 0)

theorem cutChars_ne_nil (word s : List Char) : cutChars word s ≠ [] := cutFrom_ne_nil word 0 s

theorem intercalate_modifyHead_cons {pieces : List (List Char)} (h : pieces ≠ []) (c : Char)
    (new : List Char) :
    new.intercalate (pieces.modifyHead (c :: ·)) = c :: new.intercalate pieces := by
  obtain ⟨p, ps, rfl⟩ := List.exists_cons_of_ne_nil h
  cases ps with
  | nil => simp
  | cons q qs => simp [List.intercalate_cons_cons]

/-- To exchange a word is to join the pieces by what takes its place. -/
theorem replaceFrom_eq_intercalate (word new : List Char) (skip : Nat) (s : List Char) :
    replaceFrom word new skip s = new.intercalate (cutFrom word skip s) := by
  induction s generalizing skip with
  | nil => cases skip <;> exact List.intercalate_singleton.symm
  | cons c cs ih =>
    cases skip with
    | succ skip => exact ih skip
    | zero =>
      rw [replaceFrom, cutFrom]
      split
      · rw [ih, List.intercalate_cons_of_ne_nil (cutFrom_ne_nil word _ cs), List.nil_append]
      · rw [ih, intercalate_modifyHead_cons (cutFrom_ne_nil word 0 cs)]

/-- The pieces joined by the word are the text. -/
theorem intercalate_cutChars (hne : word ≠ []) (s : List Char) :
    word.intercalate (cutChars word s) = s := by
  induction s using cut_induction hne with
  | nil => simp [cutChars, cutFrom]
  | found cs ih =>
    rw [cutChars_append_self hne, List.intercalate_cons_of_ne_nil (cutChars_ne_nil word cs), ih,
      List.nil_append]
  | other c cs hcs ih =>
    rw [cutChars_cons hcs, intercalate_modifyHead_cons (cutChars_ne_nil word cs), ih]

/-! ### The most pieces -/

/-- The end of a text has no more pieces than the text, and at most one piece less if it lacks no
more characters than the word has. -/
structure LosesGradually (word s : List Char) : Prop where
  fewer : ∀ k, (cutChars word (s.drop k)).length ≤ (cutChars word s).length
  one : ∀ k ≤ word.length, (cutChars word s).length ≤ (cutChars word (s.drop k)).length + 1

theorem LosesGradually.other {c : Char} {cs : List Char} (h : LosesGradually word cs)
    (hcs : ¬ word <+: c :: cs) : LosesGradually word (c :: cs) := by
  have hlength : (cutChars word (c :: cs)).length = (cutChars word cs).length := by
    rw [cutChars_cons hcs, List.length_modifyHead]
  constructor
  · intro k
    cases k with
    | zero => exact Nat.le_refl _
    | succ k =>
      rw [hlength]
      exact h.fewer k
  · intro k hk
    cases k with
    | zero => exact Nat.le_succ _
    | succ k =>
      rw [hlength]
      exact h.one k (Nat.le_of_succ_le hk)

/-- The rest of an occurrence and what follows it are compared with what follows it. -/
theorem LosesGradually.rest {cs : List Char} {k : Nat}
    (h : LosesGradually word (word.drop k ++ cs)) :
    (cutChars word cs).length ≤ (cutChars word (word.drop k ++ cs)).length ∧
      (cutChars word (word.drop k ++ cs)).length ≤ (cutChars word cs).length + 1 := by
  have hdrop : (word.drop k ++ cs).drop (word.length - k) = cs := by
    rw [← List.length_drop, List.drop_left]
  have hfewer := h.fewer (word.length - k)
  have hone := h.one (word.length - k) (Nat.sub_le _ _)
  rw [hdrop] at hfewer hone
  exact ⟨hfewer, hone⟩

theorem LosesGradually.found (hne : word ≠ []) {cs : List Char} (hcs : LosesGradually word cs)
    (hrest : ∀ k, 0 < k → LosesGradually word (word.drop k ++ cs)) :
    LosesGradually word (word ++ cs) := by
  have hlength : (cutChars word (word ++ cs)).length = (cutChars word cs).length + 1 := by
    rw [cutChars_append_self hne, List.length_cons]
  have hwithin : ∀ k ≤ word.length, (word ++ cs).drop k = word.drop k ++ cs :=
    fun k hk => List.drop_append_of_le_length hk
  constructor
  · intro k
    rcases Nat.eq_zero_or_pos k with rfl | hpos
    · exact Nat.le_refl _
    rw [hlength]
    rcases Nat.lt_or_ge word.length k with hk | hk
    · rw [List.drop_append, List.drop_of_length_le (Nat.le_of_lt hk), List.nil_append]
      exact Nat.le_succ_of_le (hcs.fewer (k - word.length))
    · rw [hwithin k hk]
      exact (hrest k hpos).rest.2
  · intro k hk
    rcases Nat.eq_zero_or_pos k with rfl | hpos
    · exact Nat.le_succ _
    · rw [hlength, hwithin k hk]
      exact Nat.succ_le_succ (hrest k hpos).rest.1

theorem losesGradually (hne : word ≠ []) (s : List Char) : LosesGradually word s := by
  have hword : 0 < word.length := List.length_pos_iff.mpr hne
  induction hn : s.length using Nat.strongRecOn generalizing s with
  | ind n ih =>
    subst hn
    rcases nil_or_append_or_cons word s with rfl | ⟨cs, rfl⟩ | ⟨c, cs, rfl, hcs⟩
    · exact ⟨by simp, by simp⟩
    · refine .found hne (ih _ ?_ cs rfl) fun k hpos => ih _ ?_ _ rfl
      · rw [List.length_append]
        omega
      · simp only [List.length_append, List.length_drop]
        omega
    · exact (ih cs.length (Nat.lt_succ_self _) cs rfl).other hcs

/-- Texts joined by the word are no more than the pieces. -/
theorem length_le_length_cutChars (hne : word ≠ []) (texts : List (List Char)) :
    texts.length ≤ (cutChars word (word.intercalate texts)).length := by
  induction texts with
  | nil => exact Nat.zero_le _
  | cons text rest ih =>
    cases rest with
    | nil => exact List.length_pos_iff.mpr (cutChars_ne_nil word _)
    | cons next more =>
      have hdrop :=
        (losesGradually hne (word.intercalate (text :: next :: more))).fewer text.length
      rw [List.intercalate_cons_cons, List.append_assoc, List.drop_left, cutChars_append_self hne,
        List.length_cons] at hdrop
      rw [List.intercalate_cons_cons, List.append_assoc]
      exact Nat.le_trans (Nat.succ_le_succ ih) hdrop

/-! ### Texts kept apart -/

/-- A word between texts is seen only where it was put: it is inside none of them, and it does not
begin in one of them and end in the word behind it either. -/
structure KeptApart (word : List Char) (texts : List (List Char)) : Prop where
  inside : ∀ text ∈ texts, ¬ word <:+: text
  across : ∀ text ∈ texts.dropLast, ¬ word <:+: text ++ word.dropLast

theorem keptApart_singleton_iff {text : List Char} : KeptApart word [text] ↔ ¬ word <:+: text := by
  constructor
  · intro h
    exact h.inside text List.mem_cons_self
  · intro h
    refine ⟨fun other hother => ?_, nofun⟩
    rwa [List.mem_singleton.mp hother]

theorem keptApart_cons_cons_iff {text next : List Char} {more : List (List Char)} :
    KeptApart word (text :: next :: more) ↔
      ¬ word <:+: text ++ word.dropLast ∧ KeptApart word (next :: more) := by
  have hdrop : (text :: next :: more).dropLast = text :: (next :: more).dropLast :=
    List.dropLast_cons_of_ne_nil (List.cons_ne_nil next more)
  constructor
  · intro h
    have hacross := h.across
    rw [hdrop, List.forall_mem_cons] at hacross
    exact ⟨hacross.1, fun other hother => h.inside other (List.mem_cons_of_mem text hother),
      hacross.2⟩
  · rintro ⟨htext, h⟩
    constructor
    · rw [List.forall_mem_cons]
      exact ⟨fun hinfix => htext (List.infix_append_of_infix_left hinfix), h.inside⟩
    · rw [hdrop, List.forall_mem_cons]
      exact ⟨htext, h.across⟩

theorem cutChars_of_not_infix (h : ¬ word <:+: s) : cutChars word s = [s] := by
  induction s with
  | nil => rfl
  | cons c cs ih =>
    obtain ⟨hstart, hinfix⟩ := not_or.mp (mt List.infix_cons_iff.mpr h)
    rw [cutChars_cons hstart, ih hinfix, List.modifyHead_cons]

theorem cutChars_append (hne : word ≠ []) {text : List Char} (h : ¬ word <:+: text ++ word.dropLast)
    (s : List Char) : cutChars word (text ++ (word ++ s)) = text :: cutChars word s := by
  induction text with
  | nil => exact cutChars_append_self hne s
  | cons c text ih =>
    rw [List.cons_append] at h
    obtain ⟨hstart, hinfix⟩ := not_or.mp (mt List.infix_cons_iff.mpr h)
    have hother : ¬ word <+: c :: (text ++ (word ++ s)) := by
      intro hword
      refine hstart (List.prefix_of_prefix_length_le hword ?_ ?_)
      · rw [List.cons_prefix_cons, List.prefix_append_right_inj]
        exact ⟨rfl, (List.dropLast_prefix word).trans (List.prefix_append word s)⟩
      · simp only [List.length_cons, List.length_append, List.length_dropLast]
        omega
    rw [List.cons_append, cutChars_cons hother, ih hinfix, List.modifyHead_cons]

/-- A character in front keeps texts apart if the word does not start there. -/
theorem KeptApart.modifyHead_cons {texts : List (List Char)} (h : KeptApart word texts) {c : Char}
    (hcs : ¬ word <+: c :: word.intercalate texts) :
    KeptApart word (texts.modifyHead (c :: ·)) := by
  have hlonger : ∀ start, start <+: word.intercalate texts → ¬ word <:+: start →
      ¬ word <:+: c :: start := by
    intro start hstart hinfix hword
    rcases List.infix_cons_iff.mp hword with hword | hword
    · exact hcs (hword.trans (List.cons_prefix_cons.mpr ⟨rfl, hstart⟩))
    · exact hinfix hword
  cases texts with
  | nil => exact h
  | cons text rest =>
    rw [List.modifyHead_cons]
    cases rest with
    | nil =>
      rw [keptApart_singleton_iff] at h ⊢
      have hsingle : word.intercalate [text] = text := List.intercalate_singleton
      exact hlonger text ⟨[], by rw [List.append_nil, hsingle]⟩ h
    | cons next more =>
      rw [keptApart_cons_cons_iff] at h ⊢
      refine ⟨hlonger (text ++ word.dropLast) ?_ h.1, h.2⟩
      rw [List.intercalate_cons_cons, List.append_assoc, List.prefix_append_right_inj]
      exact (List.dropLast_prefix word).trans (List.prefix_append _ _)

/-- The pieces are kept apart. -/
theorem keptApart_cutChars (hne : word ≠ []) (s : List Char) :
    KeptApart word (cutChars word s) := by
  have hshort : ∀ short : List Char, short.length < word.length → ¬ word <:+: short :=
    fun short hlt hinfix => Nat.not_lt.mpr hinfix.length_le hlt
  have hpos : 0 < word.length := List.length_pos_iff.mpr hne
  induction s using cut_induction hne with
  | nil => exact keptApart_singleton_iff.mpr (hshort [] hpos)
  | found cs ih =>
    rw [cutChars_append_self hne]
    obtain ⟨text, rest, hpieces⟩ := List.exists_cons_of_ne_nil (cutChars_ne_nil word cs)
    rw [hpieces] at ih ⊢
    refine keptApart_cons_cons_iff.mpr ⟨hshort _ ?_, ih⟩
    rw [List.nil_append, List.length_dropLast]
    exact Nat.sub_lt hpos Nat.one_pos
  | other c cs hcs ih =>
    rw [cutChars_cons hcs]
    refine ih.modifyHead_cons ?_
    rwa [intercalate_cutChars hne]

/-- Joined texts are found again exactly if they are kept apart. -/
theorem cutChars_intercalate_eq_iff (hne : word ≠ []) {texts : List (List Char)}
    (htexts : texts ≠ []) :
    cutChars word (word.intercalate texts) = texts ↔ KeptApart word texts := by
  constructor
  · intro h
    rw [← h]
    exact keptApart_cutChars hne _
  · intro h
    induction texts with
    | nil => exact absurd rfl htexts
    | cons text rest ih =>
      cases rest with
      | nil =>
        rw [List.intercalate_singleton]
        exact cutChars_of_not_infix (keptApart_singleton_iff.mp h)
      | cons next more =>
        obtain ⟨htext, hrest⟩ := keptApart_cons_cons_iff.mp h
        rw [List.intercalate_cons_cons, List.append_assoc, cutChars_append hne htext,
          ih (List.cons_ne_nil next more) hrest]

/-! ### Exchanging a word for a character -/

theorem toList_joinWith (separator : String) (texts : List String) :
    (joinWith separator texts).toList = separator.toList.intercalate (texts.map String.toList) := by
  induction texts with
  | nil => rfl
  | cons text rest ih =>
    cases rest with
    | nil => simp [joinWith]
    | cons next more =>
      rw [joinWith, String.toList_append, String.toList_append, ih]
      simp only [List.map_cons, List.intercalate_cons_cons]

/-- A character that joins texts occurs once between neighbours, and wherever it occurs in the
texts. -/
theorem count_intercalate_singleton (c : Char) {texts : List (List Char)} (hne : texts ≠ []) :
    ([c].intercalate texts).count c + 1 = texts.length + texts.flatten.count c := by
  induction texts with
  | nil => exact absurd rfl hne
  | cons text rest ih =>
    cases rest with
    | nil => simp [Nat.add_comm]
    | cons next more =>
      have hrest := ih (List.cons_ne_nil next more)
      rw [List.intercalate_cons_cons, List.count_append, List.count_append,
        List.count_singleton_self, List.length_cons, List.flatten_cons, List.count_append]
      omega

/-- Texts that a character joins to what it also joins of texts without the character, and that are
no fewer than these, are the same texts. -/
theorem eq_of_intercalate_singleton_eq {c : Char} {pieces names : List (List Char)}
    (hnames : names ≠ []) (hc : ∀ name ∈ names, c ∉ name) (hlength : names.length ≤ pieces.length)
    (heq : [c].intercalate pieces = [c].intercalate names) : pieces = names := by
  have hpieces : pieces ≠ [] := by
    rintro rfl
    exact hnames (List.length_eq_zero_iff.mp (Nat.le_zero.mp hlength))
  have hnone : names.flatten.count c = 0 := by
    rw [List.count_eq_zero, List.mem_flatten]
    rintro ⟨name, hname, hmem⟩
    exact hc name hname hmem
  have hfree : ∀ piece ∈ pieces, c ∉ piece := by
    intro piece hpiece hmem
    have hsome : 0 < pieces.flatten.count c :=
      List.count_pos_iff.mpr (List.mem_flatten.mpr ⟨piece, hpiece, hmem⟩)
    have hcount := count_intercalate_singleton c hpieces
    rw [heq, count_intercalate_singleton c hnames, hnone] at hcount
    omega
  rw [← List.splitOn_intercalate c hfree hpieces, heq, List.splitOn_intercalate c hc hnames]

theorem cutChars_joinWith_eq_iff {separator : String} (hne : separator ≠ "") {texts : List String}
    (htexts : texts ≠ []) :
    cutChars separator.toList (joinWith separator texts).toList = texts.map String.toList ↔
      KeptApart separator.toList (texts.map String.toList) := by
  rw [toList_joinWith, cutChars_intercalate_eq_iff (mt String.toList_eq_nil_iff.mp hne)
    (mt List.map_eq_nil_iff.mp htexts)]

/-- Texts that are kept apart can be read off the joined text. -/
theorem KeptApart.eq_of_joinWith_eq {separator : String} {texts names : List String}
    (htexts : KeptApart separator.toList (texts.map String.toList))
    (hnames : KeptApart separator.toList (names.map String.toList)) (hne : separator ≠ "")
    (hlength : texts.length = names.length)
    (heq : joinWith separator texts = joinWith separator names) :
    texts = names := by
  by_cases hnil : names = []
  · subst hnil
    exact List.length_eq_zero_iff.mp hlength
  have hnil' : texts ≠ [] := by
    rintro rfl
    exact hnil (List.length_eq_zero_iff.mp hlength.symm)
  have hchars : texts.map String.toList = names.map String.toList := by
    rw [← (cutChars_joinWith_eq_iff hne hnil').mpr htexts, heq,
      (cutChars_joinWith_eq_iff hne hnil).mpr hnames]
  exact (List.map_inj_right fun _ _ => String.toList_inj.mp).mp hchars

theorem replaceAll_eq_ofList (separator new s : String) :
    replaceAll separator new s =
      String.ofList (new.toList.intercalate (cutChars separator.toList s.toList)) := by
  rw [replaceAll, replaceFrom_eq_intercalate, cutChars]

/-- Take texts that were joined by a separator. After the exchange of the separator for a character
they cannot be told from as many names without the character exactly if the joined texts are the
same before the exchange, and the separator keeps the names apart. -/
theorem replaceAll_joinWith_eq_iff {separator : String} (hne : separator ≠ "") {c : Char}
    {texts names : List String} (hlength : texts.length = names.length)
    (hc : ∀ name ∈ names, c ∉ name.toList) :
    replaceAll separator (String.singleton c) (joinWith separator texts) =
        joinWith (String.singleton c) names ↔
      joinWith separator texts = joinWith separator names ∧
        KeptApart separator.toList (names.map String.toList) := by
  by_cases hnames : names = []
  · subst hnames
    rw [List.length_nil, List.length_eq_zero_iff] at hlength
    rw [hlength]
    exact iff_of_true rfl ⟨rfl, nofun, nofun⟩
  have hword : separator.toList ≠ [] := mt String.toList_eq_nil_iff.mp hne
  have hmap : names.map String.toList ≠ [] := mt List.map_eq_nil_iff.mp hnames
  rw [← cutChars_joinWith_eq_iff hne hnames, replaceAll_eq_ofList,
    ← String.toList_inj, String.toList_ofList, toList_joinWith _ names, String.toList_singleton]
  constructor
  · intro heq
    have hpieces : cutChars separator.toList (joinWith separator texts).toList =
        names.map String.toList := by
      refine eq_of_intercalate_singleton_eq hmap ?_ ?_ heq
      · simpa using hc
      · have hmost := length_le_length_cutChars hword (texts.map String.toList)
        rwa [← toList_joinWith, List.length_map, hlength,
          ← List.length_map (f := String.toList)] at hmost
    have hjoined : joinWith separator texts = joinWith separator names := by
      rw [← String.toList_inj, toList_joinWith _ names, ← hpieces, intercalate_cutChars hword]
    exact ⟨hjoined, hjoined ▸ hpieces⟩
  · rintro ⟨hjoined, hpieces⟩
    rw [hjoined, hpieces]

end Catalog.Text
