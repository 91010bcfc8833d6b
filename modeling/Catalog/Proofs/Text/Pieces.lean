import Catalog.Text.Pieces

/-!
# Words inside texts

A word occurs in a text where it is a contiguous part of it. A separator that is not in the word
keeps the pieces of a text apart, and one that is in none of the pieces can be cut at again.

* `contains_iff` says what occurring means, and `contains_trans` that it is transitive;
* `terminated` puts texts together, each with a separator after it, and `contains_terminated` says
  that no other words occur in the outcome than in the texts;
* `splitAt_joinWith` says that cutting undoes joining;
* `startsWith_iff`, `afterLeading_eq_some_iff` and `dropLeading_of_not_startsWith` are about leading
  characters.
-/

namespace Catalog.Text

theorem occursIn_iff_infix {word cs : List Char} : occursIn word cs = true ↔ word <:+: cs := by
  induction cs with
  | nil => rw [occursIn, List.isEmpty_iff, List.infix_nil]
  | cons c cs ih =>
    rw [occursIn, Bool.or_eq_true, List.isPrefixOf_iff_prefix, ih, List.infix_cons_iff]

theorem contains_iff {text word : String} :
    contains text word = true ↔ word.toList <:+: text.toList :=
  occursIn_iff_infix

theorem contains_refl (text : String) : contains text text = true :=
  contains_iff.mpr (List.infix_refl _)

theorem contains_trans {text mid word : String} (h : contains text mid = true)
    (h' : contains mid word = true) : contains text word = true :=
  contains_iff.mpr ((contains_iff.mp h').trans (contains_iff.mp h))

theorem not_contains_empty {word : String} (h : word ≠ "") : contains "" word = false := by
  rw [← Bool.not_eq_true, contains_iff]
  intro hinfix
  exact h (String.toList_inj.mp (List.infix_nil.mp hinfix))

theorem replaceChar_of_not_mem {old new : Char} {s : String} (h : old ∉ s.toList) :
    replaceChar old new s = s := by
  have hmap : s.toList.map (fun c => if c = old then new else c) = s.toList := by
    rw [List.map_congr_left (g := fun c => c) fun c hc => ?_, List.map_id']
    exact if_neg fun (e : c = old) => h (e ▸ hc)
  rw [replaceChar, hmap, String.ofList_toList]

/-! ### Leading characters -/

section Leading

variable {c : Char} {s t : String}

theorem startsWith_iff : startsWith c s = true ↔ ∃ rest, s.toList = c :: rest := by
  rw [startsWith, beq_iff_eq, List.head?_eq_some_iff]

theorem afterLeading_eq_some_iff : afterLeading c s = some t ↔ s.toList = c :: t.toList := by
  rw [afterLeading]
  cases s.toList with
  | nil => exact ⟨nofun, nofun⟩
  | cons d rest =>
    show (if d = c then some (String.ofList rest) else none) = some t ↔ d :: rest = c :: t.toList
    rw [List.cons.injEq]
    by_cases hd : d = c
    · rw [if_pos hd, Option.some.injEq, ← String.toList_inj, String.toList_ofList]
      exact (and_iff_right hd).symm
    · rw [if_neg hd]
      exact ⟨nofun, fun h => absurd h.1 hd⟩

theorem afterLeading_eq_none_iff : afterLeading c s = none ↔ startsWith c s = false := by
  rw [← Bool.not_eq_true, startsWith_iff, Option.eq_none_iff_forall_ne_some]
  constructor
  · rintro h ⟨rest, hrest⟩
    exact h (String.ofList rest)
      (afterLeading_eq_some_iff.mpr (by rw [String.toList_ofList]; exact hrest))
  · intro h rest hrest
    exact h ⟨rest.toList, afterLeading_eq_some_iff.mp hrest⟩

/-- What is left does not start with the character. -/
theorem not_startsWith_dropLeading (c : Char) (s : String) :
    startsWith c (dropLeading c s) = false := by
  rw [startsWith, dropLeading, String.toList_ofList]
  have hhead := List.head?_dropWhile_not (· == c) s.toList
  cases h : s.toList.dropWhile (· == c) with
  | nil => rfl
  | cons d rest =>
    rw [h] at hhead
    simpa using hhead

theorem dropLeading_of_not_startsWith (h : startsWith c s = false) : dropLeading c s = s := by
  rw [dropLeading]
  cases hs : s.toList with
  | nil => rw [String.toList_eq_nil_iff.mp hs, List.dropWhile_nil]
  | cons d rest =>
    have hd : ¬ (d == c) = true := by
      rw [beq_iff_eq]
      rintro rfl
      rw [startsWith_iff.mpr ⟨rest, hs⟩] at h
      cases h
    rw [List.dropWhile_cons_of_neg (p := (· == c)) hd, ← hs, String.ofList_toList]

theorem toList_hash_append (s : String) : ("#" ++ s).toList = '#' :: s.toList := by
  rw [String.toList_append]
  rfl

end Leading

/-! ### Separators -/

variable {c : Char} {word xs ys : List Char}

theorem prefix_of_prefix_append_cons (hc : c ∉ word) (h : word <+: xs ++ c :: ys) :
    word <+: xs := by
  rcases List.prefix_or_prefix_of_prefix h (List.prefix_append xs (c :: ys)) with
    hshort | ⟨rest, rfl⟩
  · exact hshort
  · rw [List.prefix_append_right_inj] at h
    cases rest with
    | nil => simp
    | cons d rest =>
      obtain ⟨rfl, _⟩ := List.cons_prefix_cons.mp h
      exact absurd (List.mem_append_right xs List.mem_cons_self) hc

theorem infix_append_cons_iff (hc : c ∉ word) (hne : word ≠ []) :
    word <:+: xs ++ c :: ys ↔ word <:+: xs ∨ word <:+: ys := by
  constructor
  · intro h
    induction xs with
    | nil =>
      rcases List.infix_cons_iff.mp h with hprefix | hinfix
      · have hnil : word <+: [] := prefix_of_prefix_append_cons hc hprefix
        exact absurd (List.prefix_nil.mp hnil) hne
      · exact Or.inr hinfix
    | cons x xs ih =>
      rcases List.infix_cons_iff.mp h with hprefix | hinfix
      · have hshort : word <+: x :: xs := prefix_of_prefix_append_cons hc hprefix
        exact Or.inl hshort.isInfix
      · exact (ih hinfix).imp List.infix_cons id
  · intro h
    rcases h with h | h
    · exact List.infix_append_of_infix_left h
    · exact List.infix_append_of_infix_right (List.infix_cons h)

/-- Texts put together, each with a separator after it. -/
def terminated (c : Char) (texts : List String) : String :=
  String.ofList (texts.flatMap fun text => text.toList ++ [c])

theorem contains_terminated {texts : List String} {word : String} (hc : c ∉ word.toList)
    (hne : word ≠ "") : contains (terminated c texts) word = texts.any (contains · word) := by
  have hne' : word.toList ≠ [] := fun h => hne (String.toList_inj.mp h)
  rw [Bool.eq_iff_iff, contains_iff, terminated, String.toList_ofList]
  induction texts with
  | nil => simpa using hne'
  | cons text rest ih =>
    rw [List.flatMap_cons, List.append_assoc, List.singleton_append,
      infix_append_cons_iff hc hne', ih, List.any_cons, Bool.or_eq_true, contains_iff]

theorem mem_terminated {texts : List String} {d : Char} (h : d ∈ (terminated c texts).toList) :
    d = c ∨ ∃ text ∈ texts, d ∈ text.toList := by
  rw [terminated, String.toList_ofList, List.mem_flatMap] at h
  obtain ⟨text, hmem, hd⟩ := h
  rcases List.mem_append.mp hd with hd | hd
  · exact Or.inr ⟨text, hmem, hd⟩
  · exact Or.inl (List.mem_singleton.mp hd)

/-! ### Joining and cutting -/

theorem splitChars_of_not_mem (h : c ∉ xs) : splitChars c xs = [xs] := by
  induction xs with
  | nil => rfl
  | cons x xs ih =>
    obtain ⟨hx, hxs⟩ := not_or.mp (mt List.mem_cons.mpr h)
    have hne : (x == c) = false := beq_false_of_ne (Ne.symm hx)
    rw [splitChars, hne, ih hxs]
    rfl

theorem splitChars_append_cons (h : c ∉ xs) :
    splitChars c (xs ++ c :: ys) = xs :: splitChars c ys := by
  induction xs with
  | nil =>
    rw [List.nil_append, splitChars, beq_self_eq_true]
    rfl
  | cons x xs ih =>
    obtain ⟨hx, hxs⟩ := not_or.mp (mt List.mem_cons.mpr h)
    have hne : (x == c) = false := beq_false_of_ne (Ne.symm hx)
    rw [List.cons_append, splitChars, hne, ih hxs]
    rfl

/-- Joining texts is what the library does with them. -/
theorem joinWith_eq_intercalate (separator : String) (texts : List String) :
    joinWith separator texts = separator.intercalate texts := by
  induction texts with
  | nil => rfl
  | cons s rest ih =>
    cases rest with
    | nil => rfl
    | cons t rest => rw [joinWith, ih, String.intercalate_cons_cons]

/-- Texts without the separator are found again, unless there were none. -/
theorem splitAt_joinWith {texts : List String} (hne : texts ≠ []) (h : ∀ s ∈ texts, c ∉ s.toList) :
    splitAt c (joinWith (String.singleton c) texts) = texts := by
  induction texts with
  | nil => exact absurd rfl hne
  | cons s rest ih =>
    have hs : c ∉ s.toList := h s List.mem_cons_self
    cases rest with
    | nil =>
      rw [joinWith, splitAt, splitChars_of_not_mem hs, List.map_singleton, String.ofList_toList]
    | cons t more =>
      have hrest := ih (List.cons_ne_nil t more) fun s hmem => h s (List.mem_cons_of_mem _ hmem)
      have hjoined : (joinWith (String.singleton c) (s :: t :: more)).toList =
          s.toList ++ c :: (joinWith (String.singleton c) (t :: more)).toList := by
        rw [joinWith, String.toList_append, String.toList_append, String.toList_singleton,
          List.append_assoc, List.singleton_append]
      rw [splitAt, hjoined, splitChars_append_cons hs, List.map_cons, String.ofList_toList]
      exact congrArg (s :: ·) hrest

end Catalog.Text
