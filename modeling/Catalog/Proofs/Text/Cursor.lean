import Catalog.Proofs.Text.Automaton

/-!
# Tokens by byte positions

The tokens of a text can also be read off its bytes: a position goes from one boundary between
characters to the next, looks at the character behind it, and goes on by as many bytes as that
takes. To look is to cut the text at the position, which is an error inside a character.

* `Cursor.charAt?` looks at a position, and `Cursor.split` reads all tokens;
* `Cursor.Stands` says that a position is a boundary in front of given characters, so that to look
  there is no error;
* `splitTokens_eq_scan_and_split` says that no error arises, and that the tokens are those of the
  automaton.
-/

namespace Catalog.Text

namespace Cursor

open String (Pos.Raw)

/-- Why a reading ends early. -/
inductive Stop where
  /-- The text would have been cut inside a character or behind its end. -/
  | misplaced
  /-- A quote or a backslash was left open. -/
  | leftOpen
  deriving DecidableEq, Repr

theorem lt_of_pos_ne_endPos {s : String} {p : Pos.Raw} {hp : p.IsValid s}
    (h : s.pos p hp ≠ s.endPos) : p.byteIdx < s.utf8ByteSize := by
  refine Nat.lt_of_le_of_ne hp.le_utf8ByteSize fun heq => h ?_
  refine String.Pos.ext ?_
  exact Pos.Raw.ext heq

/-- The character behind a position, if there is one, so that the position is in front of the end.
The position has to be a boundary. -/
def charAt? (s : String) (p : Pos.Raw) :
    Except Stop (Option { _c : Char // p.byteIdx < s.utf8ByteSize }) :=
  if hp : p.IsValid s then
    if h : s.pos p hp = s.endPos then .ok none
      else .ok (some ⟨(s.pos p hp).get h, lt_of_pos_ne_endPos h⟩)
  else .error .misplaced

variable {s : String} {p q : Pos.Raw} {c : Char} {cs r word w v : List Char}
  {o : List Char × Pos.Raw}

/-! ### Reading -/

/-- What stands between single quotes is added to a word, up to the closing quote. -/
def readSingle (s : String) (p : Pos.Raw) (word : List Char) : Except Stop (List Char × Pos.Raw) :=
  match charAt? s p with
  | .error stop => .error stop
  | .ok none => .error .leftOpen
  | .ok (some ⟨c, _⟩) =>
    if c == '\x27' then .ok (word, p + c) else readSingle s (p + c) (word ++ [c])
termination_by s.utf8ByteSize - p.byteIdx
decreasing_by
  have := c.utf8Size_pos
  rw [Pos.Raw.byteIdx_add_char]
  omega

/-- What stands between double quotes is added to a word, up to the closing quote. The character
after a backslash is looked at before it is taken. -/
def readDouble (s : String) (p : Pos.Raw) (word : List Char) : Except Stop (List Char × Pos.Raw) :=
  match charAt? s p with
  | .error stop => .error stop
  | .ok none => .error .leftOpen
  | .ok (some ⟨c, _⟩) =>
    if c == '"' then .ok (word, p + c)
    else if c == '\\' then
      match charAt? s (p + c) with
      | .error stop => .error stop
      | .ok none => .error .leftOpen
      | .ok (some ⟨d, _⟩) =>
        if d == '"' || d == '\\' then readDouble s (p + c + d) (word ++ [d])
        else readDouble s (p + c) (word ++ ['\\'])
    else readDouble s (p + c) (word ++ [c])
termination_by s.utf8ByteSize - p.byteIdx
decreasing_by
  all_goals
    have := c.utf8Size_pos
    simp only [Pos.Raw.byteIdx_add_char]
    omega

/-- The part of a word that starts with `c`, which stands in front of the position, is added to
it. -/
def readPart (s : String) (p : Pos.Raw) (word : List Char) (c : Char) :
    Except Stop (List Char × Pos.Raw) :=
  if c == '\x27' then readSingle s p word
  else if c == '"' then readDouble s p word
  else if c == '\\' then
    match charAt? s p with
    | .error stop => .error stop
    | .ok none => .error .leftOpen
    | .ok (some ⟨d, _⟩) => .ok (word ++ [d], p + d)
  else .ok (word ++ [c], p)

theorem le_readSingle (h : readSingle s p word = .ok o) : p.byteIdx ≤ o.2.byteIdx := by
  fun_induction readSingle s p word with
  | case1 => cases h
  | case2 => cases h
  | case3 p word c =>
    cases h
    exact Nat.le_add_right _ _
  | case4 p word c _ _ _ ih => exact Nat.le_trans (Nat.le_add_right _ _) (ih h)

theorem le_readDouble (h : readDouble s p word = .ok o) : p.byteIdx ≤ o.2.byteIdx := by
  fun_induction readDouble s p word with
  | case1 => cases h
  | case2 => cases h
  | case3 p word c =>
    cases h
    exact Nat.le_add_right _ _
  | case4 => cases h
  | case5 => cases h
  | case6 p word c _ _ _ _ d _ _ _ ih =>
    exact Nat.le_trans (Nat.le_add_right _ c.utf8Size)
      (Nat.le_trans (Nat.le_add_right _ d.utf8Size) (ih h))
  | case7 p word c _ _ _ _ _ _ _ _ ih => exact Nat.le_trans (Nat.le_add_right _ _) (ih h)
  | case8 p word c _ _ _ _ ih => exact Nat.le_trans (Nat.le_add_right _ _) (ih h)

theorem le_readPart (h : readPart s p word c = .ok o) : p.byteIdx ≤ o.2.byteIdx := by
  unfold readPart at h
  split at h
  · exact le_readSingle h
  · split at h
    · exact le_readDouble h
    · split at h
      · split at h
        · cases h
        · cases h
        · cases h
          exact Nat.le_add_right _ _
      · cases h
        exact Nat.le_refl _

/-- The position after the blanks. -/
def skipBlanks (s : String) (p : Pos.Raw) : Except Stop Pos.Raw :=
  match charAt? s p with
  | .error stop => .error stop
  | .ok none => .ok p
  | .ok (some ⟨c, _⟩) => if isBlank c then skipBlanks s (p + c) else .ok p
termination_by s.utf8ByteSize - p.byteIdx
decreasing_by
  have := c.utf8Size_pos
  rw [Pos.Raw.byteIdx_add_char]
  omega

/-- A word is read on, up to a blank or the end. -/
def readWord (s : String) (p : Pos.Raw) (word : List Char) : Except Stop (List Char × Pos.Raw) :=
  match charAt? s p with
  | .error stop => .error stop
  | .ok none => .ok (word, p)
  | .ok (some ⟨c, _⟩) =>
    if isBlank c then .ok (word, p)
    else
      match h : readPart s (p + c) word c with
      | .error stop => .error stop
      | .ok (longer, q) =>
        have := le_readPart h
        readWord s q longer
termination_by s.utf8ByteSize - p.byteIdx
decreasing_by
  have := c.utf8Size_pos
  simp only [Pos.Raw.byteIdx_add_char] at *
  omega

theorem le_readWord (h : readWord s p word = .ok o) : p.byteIdx ≤ o.2.byteIdx := by
  fun_induction readWord s p word with
  | case1 => cases h
  | case2 p word =>
    cases h
    exact Nat.le_refl _
  | case3 p word =>
    cases h
    exact Nat.le_refl _
  | case4 => cases h
  | case5 p word c _ _ _ longer q hpart hle ih =>
    exact Nat.le_trans (Nat.le_add_right _ _) (Nat.le_trans hle (ih h))

/-- Behind the blanks, there is no blank. -/
theorem charAt?_skipBlanks (h : skipBlanks s p = .ok q) :
    charAt? s q = .ok none ∨ ∃ c hlt, charAt? s q = .ok (some ⟨c, hlt⟩) ∧ isBlank c = false := by
  fun_induction skipBlanks s p with
  | case1 => cases h
  | case2 p hnone =>
    cases h
    exact Or.inl hnone
  | case3 p c hlt hsome hblank ih => exact ih h
  | case4 p c hlt hsome hblank =>
    cases h
    exact Or.inr ⟨c, hlt, hsome, Bool.eq_false_iff.mpr hblank⟩

theorem le_skipBlanks (h : skipBlanks s p = .ok q) : p.byteIdx ≤ q.byteIdx := by
  fun_induction skipBlanks s p with
  | case1 => cases h
  | case2 =>
    cases h
    exact Nat.le_refl _
  | case3 p c hlt hsome hblank ih => exact Nat.le_trans (Nat.le_add_right _ _) (ih h)
  | case4 =>
    cases h
    exact Nat.le_refl _

theorem le_of_charAt?_none (h : charAt? s p = .ok none) : s.utf8ByteSize ≤ p.byteIdx := by
  unfold charAt? at h
  split at h
  · split at h
    · next hend =>
      have hoffset := congrArg (fun pos => pos.offset.byteIdx) hend
      exact Nat.le_of_eq hoffset.symm
    · cases h
  · cases h

/-- A word that is read in front of the end, behind the blanks, is not empty as it is written. -/
theorem lt_readWord (hblanks : skipBlanks s p = .ok q) (hq : q.byteIdx < s.utf8ByteSize)
    (h : readWord s q word = .ok o) : q.byteIdx < o.2.byteIdx := by
  rcases charAt?_skipBlanks hblanks with hnone | ⟨c, hlt, hsome, hc⟩
  · exact absurd (le_of_charAt?_none hnone) (Nat.not_le_of_lt hq)
  · rw [readWord, hsome] at h
    simp only [hc, Bool.false_eq_true, if_false] at h
    split at h
    · cases h
    · next hpart =>
      have hafter : (q + c).byteIdx ≤ o.2.byteIdx :=
        Nat.le_trans (le_readPart hpart) (le_readWord h)
      rw [Pos.Raw.byteIdx_add_char] at hafter
      have := c.utf8Size_pos
      omega

/-- The tokens from a position on, after those that have been read. -/
def readTokens (s : String) (p : Pos.Raw) (tokens : List (List Char)) :
    Except Stop (List (List Char)) :=
  match hblanks : skipBlanks s p with
  | .error stop => .error stop
  | .ok q =>
    if hq : s.utf8ByteSize ≤ q.byteIdx then .ok tokens
    else
      match hword : readWord s q [] with
      | .error stop => .error stop
      | .ok (word, e) =>
        have := lt_readWord hblanks (Nat.lt_of_not_le hq) hword
        have := le_skipBlanks hblanks
        readTokens s e (tokens ++ [word])
termination_by s.utf8ByteSize - p.byteIdx
decreasing_by
  simp only at *
  omega

/-- The tokens of a text by positions; its words if something is left open. -/
def split (s : String) : Except Stop (List String) :=
  match readTokens s 0 [] with
  | .ok pieces => .ok (pieces.map String.ofList)
  | .error .leftOpen => .ok (words s)
  | .error .misplaced => .error .misplaced

/-! ### Boundaries -/

/-- The position is a boundary in front of these characters, which are the rest of the text. -/
def Stands (s : String) (p : Pos.Raw) (cs : List Char) : Prop :=
  ∃ t : String, s = t ++ String.ofList cs ∧ p = t.rawEndPos

theorem stands_start (s : String) : Stands s 0 s.toList :=
  ⟨"", by rw [String.empty_append, String.ofList_toList], rfl⟩

theorem Stands.isValid (h : Stands s p cs) : p.IsValid s := by
  obtain ⟨t, rfl, rfl⟩ := h
  exact Pos.Raw.isValid_iff_exists_append.mpr ⟨t, String.ofList cs, rfl, rfl⟩

theorem Stands.splits (h : Stands s p cs) :
    ∃ t, (s.pos p h.isValid).Splits t (String.ofList cs) := by
  obtain ⟨t, hs, hp⟩ := h
  exact ⟨t, hs, hp⟩

theorem charAt?_nil (h : Stands s p []) : charAt? s p = .ok none := by
  obtain ⟨t, ht⟩ := h.splits
  rw [charAt?, dif_pos h.isValid, dif_pos (ht.eq_endPos_iff.mpr String.ofList_nil)]

theorem charAt?_cons (h : Stands s p (c :: cs)) : ∃ hlt, charAt? s p = .ok (some ⟨c, hlt⟩) := by
  obtain ⟨t, ht⟩ := h.splits
  rw [String.ofList_cons] at ht
  have hne := ht.ne_endPos_of_singleton
  have hget : (s.pos p h.isValid).get hne = c := ht.next.get_eq_of_singleton
  have hlt := lt_of_pos_ne_endPos hne
  refine ⟨hlt, ?_⟩
  rw [charAt?, dif_pos h.isValid, dif_neg hne]
  exact congrArg Except.ok (congrArg some (Subtype.ext hget))

/-- By as many bytes as the character takes, the position gets to the next boundary. -/
theorem Stands.next (h : Stands s p (c :: cs)) : Stands s (p + c) cs := by
  obtain ⟨t, rfl, rfl⟩ := h
  refine ⟨t ++ String.singleton c, ?_, ?_⟩
  · rw [String.ofList_cons, String.append_assoc]
  · refine Pos.Raw.ext ?_
    rw [Pos.Raw.byteIdx_add_char]
    simp

/-! ### No error -/

/-- What is read by positions, given what is read of the characters behind the position: the same,
up to a boundary in front of the same rest; or it is found to be left open, if nothing is read. -/
def Reads (s : String) (word : List Char) (result : Except Stop (List Char × Pos.Raw)) :
    Option (List Char × List Char) → Prop
  | some (w, r) => ∃ q, result = .ok (word ++ w, q) ∧ Stands s q r
  | none => result = .error .leftOpen

variable {result : Except Stop (List Char × Pos.Raw)}

/-- What has been read already may be counted to what is read. -/
theorem Reads.map {read : Option (List Char × List Char)} (h : Reads s (word ++ v) result read) :
    Reads s word result (read.map fun p => (v ++ p.1, p.2)) := by
  cases read with
  | none => exact h
  | some o =>
    obtain ⟨q, hresult, hq⟩ := h
    exact ⟨q, by rw [hresult, List.append_assoc], hq⟩

theorem reads_closed (h : Stands s q r) : Reads s word (.ok (word, q)) (some ([], r)) :=
  ⟨q, by rw [List.append_nil], h⟩

theorem reads_single (h : Stands s p cs) (word : List Char) :
    Reads s word (readSingle s p word) (singleQuoted? cs) := by
  induction cs generalizing p word with
  | nil =>
    rw [readSingle, charAt?_nil h]
    rfl
  | cons c cs ih =>
    obtain ⟨hlt, hc⟩ := charAt?_cons h
    rw [readSingle, hc, singleQuoted?]
    by_cases hquote : (c == '\x27') = true
    · simp only [if_pos hquote]
      exact reads_closed h.next
    · simp only [if_neg hquote]
      exact (ih h.next (word ++ [c])).map

/-- A backslash that escapes nothing is left where it is, and reading goes on with the character
after it. -/
theorem reads_double_backslash (hquote : ∀ rest, cs ≠ '"' :: rest)
    (hslash : ∀ rest, cs ≠ '\\' :: rest) (h : Stands s p ('\\' :: cs))
    (hread : Reads s (word ++ ['\\']) (readDouble s (p + '\\') (word ++ ['\\']))
      (doubleQuoted? cs)) :
    Reads s (word ++ ['\\']) (readDouble s p word) (doubleQuoted? cs) := by
  obtain ⟨hlt, hc⟩ := charAt?_cons h
  rw [readDouble, hc]
  cases cs with
  | nil =>
    simp only [charAt?_nil h.next]
    rfl
  | cons d rest =>
    have hd : (d == '"') = false := beq_eq_false_iff_ne.mpr fun heq => hquote rest (by rw [heq])
    have hd' : (d == '\\') = false := beq_eq_false_iff_ne.mpr fun heq => hslash rest (by rw [heq])
    obtain ⟨hlt', hnext⟩ := charAt?_cons h.next
    simp only [hnext, hd, hd', Bool.or_false, Bool.false_eq_true, if_false]
    exact hread

/-- A backslash gives its place to the character that it escapes. -/
theorem readDouble_escaped {d : Char} (hd : (d == '"' || d == '\\') = true)
    (h : Stands s p ('\\' :: d :: cs)) (word : List Char) :
    readDouble s p word = readDouble s (p + '\\' + d) (word ++ [d]) := by
  obtain ⟨hlt, hc⟩ := charAt?_cons h
  obtain ⟨hlt', hnext⟩ := charAt?_cons h.next
  rw [readDouble, hc]
  simp only [hnext, if_pos hd]
  rfl

theorem reads_double (h : Stands s p cs) (word : List Char) :
    Reads s word (readDouble s p word) (doubleQuoted? cs) := by
  fun_induction doubleQuoted? cs generalizing p word with
  | case1 =>
    rw [readDouble, charAt?_nil h]
    rfl
  | case2 cs =>
    obtain ⟨hlt, hc⟩ := charAt?_cons h
    rw [readDouble, hc]
    exact reads_closed h.next
  | case3 cs ih =>
    rw [readDouble_escaped rfl h]
    exact (ih h.next.next (word ++ ['"'])).map
  | case4 cs ih =>
    rw [readDouble_escaped rfl h]
    exact (ih h.next.next (word ++ ['\\'])).map
  | case5 c cs hclosing hquote hslash ih =>
    by_cases hc : c = '\\'
    · -- the backslash is found to escape nothing when the character after it is looked at
      subst hc
      exact (reads_double_backslash (fun rest => hquote rest rfl) (fun rest => hslash rest rfl) h
        (ih h.next (word ++ ['\\']))).map
    · obtain ⟨hlt, hchar⟩ := charAt?_cons h
      rw [readDouble, hchar]
      simp only [beq_eq_false_iff_ne.mpr hclosing, beq_eq_false_iff_ne.mpr hc, Bool.false_eq_true,
        if_false]
      exact (ih h.next (word ++ [c])).map

theorem reads_part (h : Stands s p cs) (word : List Char) (c : Char) :
    Reads s word (readPart s p word c) (part? c cs) := by
  unfold readPart part?
  by_cases hsingle : (c == '\x27') = true
  · rw [if_pos hsingle, if_pos hsingle]
    exact reads_single h word
  · rw [if_neg hsingle, if_neg hsingle]
    by_cases hdouble : (c == '"') = true
    · rw [if_pos hdouble, if_pos hdouble]
      exact reads_double h word
    · rw [if_neg hdouble, if_neg hdouble]
      by_cases hslash : (c == '\\') = true
      · rw [if_pos hslash, if_pos hslash]
        cases cs with
        | nil =>
          rw [charAt?_nil h]
          rfl
        | cons d rest =>
          obtain ⟨hlt, hd⟩ := charAt?_cons h
          rw [hd]
          exact ⟨p + d, rfl, h.next⟩
      · rw [if_neg hslash, if_neg hslash]
        exact ⟨p, rfl, h⟩

/-- A word is read on by its next part and what follows that. -/
theorem readWord_cons (h : Stands s p (c :: cs)) (hc : isBlank c = false) (word : List Char) :
    readWord s p word = (readPart s (p + c) word c).bind fun o => readWord s o.2 o.1 := by
  obtain ⟨hlt, hchar⟩ := charAt?_cons h
  rw [readWord, hchar]
  simp only [hc, Bool.false_eq_true, if_false]
  split
  · next hpart => rw [hpart, Except.bind]
  · next hpart => rw [hpart, Except.bind]

theorem reads_word (h : Stands s p cs) (word : List Char) :
    Reads s word (readWord s p word) (token? cs) := by
  fun_induction token? cs generalizing p word with
  | case1 =>
    rw [readWord, charAt?_nil h]
    exact reads_closed h
  | case2 c cs hc =>
    obtain ⟨hlt, hchar⟩ := charAt?_cons h
    rw [readWord, hchar]
    simp only [if_pos hc]
    exact reads_closed h
  | case3 c cs hc hnone =>
    have hpart := reads_part h.next word c
    rw [hnone] at hpart
    rw [readWord_cons h (Bool.eq_false_iff.mpr hc), show readPart s (p + c) word c =
      .error .leftOpen from hpart]
    rfl
  | case4 c cs hc w r hsome _ ih =>
    have hpart := reads_part h.next word c
    rw [hsome] at hpart
    obtain ⟨q, hread, hq⟩ := hpart
    rw [readWord_cons h (Bool.eq_false_iff.mpr hc), hread]
    exact (ih hq (word ++ w)).map

theorem skipBlanks_dropWhile (h : Stands s p cs) :
    ∃ q, skipBlanks s p = .ok q ∧ Stands s q (cs.dropWhile isBlank) := by
  induction cs generalizing p with
  | nil =>
    rw [skipBlanks, charAt?_nil h]
    exact ⟨p, rfl, h⟩
  | cons c cs ih =>
    obtain ⟨hlt, hchar⟩ := charAt?_cons h
    rw [skipBlanks, hchar, List.dropWhile_cons]
    by_cases hc : isBlank c = true
    · simp only [if_pos hc]
      exact ih h.next
    · simp only [if_neg hc]
      exact ⟨p, rfl, h⟩

theorem readTokens_end (hblanks : skipBlanks s p = .ok q) (hq : s.utf8ByteSize ≤ q.byteIdx)
    (tokens : List (List Char)) : readTokens s p tokens = .ok tokens := by
  rw [readTokens]
  split
  · next hstop =>
    rw [hblanks] at hstop
    cases hstop
  · next hq' =>
    rw [hblanks] at hq'
    cases hq'
    exact dif_pos hq

/-- In front of the end, the next word is read and then the tokens after it. -/
theorem readTokens_word (hblanks : skipBlanks s p = .ok q) (hq : q.byteIdx < s.utf8ByteSize)
    (tokens : List (List Char)) :
    readTokens s p tokens = (readWord s q []).bind fun o => readTokens s o.2 (tokens ++ [o.1]) := by
  rw [readTokens]
  split
  · next hstop =>
    rw [hblanks] at hstop
    cases hstop
  · next hq' =>
    rw [hblanks] at hq'
    cases hq'
    rw [dif_neg (Nat.not_le_of_lt hq)]
    split
    · next hword => rw [hword, Except.bind]
    · next word e hword =>
      show readTokens s e (tokens ++ [word]) = _
      rw [hword, Except.bind]

/-- From a boundary on, the tokens of the rest of the text are read. -/
theorem readTokens_eq (h : Stands s p cs) (tokens : List (List Char)) :
    readTokens s p tokens = ((tokens? cs).map (tokens ++ ·)).elim (.error .leftOpen) .ok := by
  induction hn : cs.length using Nat.strongRecOn generalizing p cs tokens with
  | ind n ih =>
    obtain ⟨q, hblanks, hq⟩ := skipBlanks_dropWhile h
    cases hc : cs.dropWhile isBlank with
    | nil =>
      rw [hc] at hq
      rw [readTokens_end hblanks (le_of_charAt?_none (charAt?_nil hq)), tokens?_of_blank hc]
      simp
    | cons c rest =>
      rw [hc] at hq
      obtain ⟨hlt, _⟩ := charAt?_cons hq
      have hword := reads_word hq []
      rw [readTokens_word hblanks hlt, tokens?_of_dropWhile hc]
      cases hread : token? (c :: rest) with
      | none =>
        rw [hread] at hword
        rw [show readWord s q [] = .error .leftOpen from hword]
        rfl
      | some o =>
        rw [hread] at hword
        obtain ⟨e, heq, he⟩ := hword
        have hlen : o.2.length < n := by
          rw [← hn]
          exact length_after_token hc hread
        rw [heq, Except.bind, ih o.2.length hlen he _ rfl, Option.bind_some, Option.map_map]
        refine congrArg (Option.elim · _ _) (congrArg (Option.map · (tokens? o.2)) ?_)
        funext more
        simp

/-- Reading by positions never cuts a character, ends, and gives the tokens of the text. -/
theorem split_eq_splitTokens (s : String) : split s = .ok (splitTokens s) := by
  rw [split, readTokens_eq (stands_start s), splitTokens]
  cases tokens? s.toList <;> rfl

end Cursor

/-- The tokens of every text are those of the automaton, and the words where it leaves something
open. Reading by positions comes to them too: it ends, and cuts no character. -/
theorem splitTokens_eq_scan_and_split (s : String) :
    splitTokens s = scanTokens s ∧ Cursor.split s = .ok (splitTokens s) :=
  ⟨splitTokens_eq_scanTokens s, Cursor.split_eq_splitTokens s⟩

end Catalog.Text
