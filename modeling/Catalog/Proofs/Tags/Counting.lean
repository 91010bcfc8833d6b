import Catalog.Tags.Counter
import Mathlib.Algebra.GroupWithZero.Nat

/-!
# What a counter holds

Words that are met one after another leave the first spelling of each word, in the order of the
first meetings, with the sum of the times that the word was met in any spelling.

* `sameWord` compares words whatever the case of their letters, `spellings` keeps the first spelling
  of each word of a list, and `timesMet` adds up how often a word was met;
* `meetAll_cons` says that an entry takes what belongs to its word and lets the rest pass, and
  `meetAll_nil` what a list of words leaves;
* `words_foldl_addText` is the same for the words of texts, each counted once where it stands;
* `total` adds up all counts, and `addText_eq_self_iff` says which texts leave a counter as it is.
-/

namespace Catalog.WordCounter

/-- Whether two words are the same whatever the case of their letters. -/
def sameWord (v w : String) : Bool := Text.lower v == Text.lower w

theorem sameWord_comm (v w : String) : sameWord v w = sameWord w v := BEq.comm

theorem sameWord_trans {u v w : String} (huv : sameWord u v = true) (hvw : sameWord v w = true) :
    sameWord u w = true :=
  beq_iff_eq.mpr ((beq_iff_eq.mp huv).trans (beq_iff_eq.mp hvw))

/-! ### First spellings -/

/-- The first spelling of every word of a list, in their order. -/
def spellings (words : List String) : List String := words.eraseDupsBy sameWord

theorem spellings_cons (w : String) (words : List String) :
    spellings (w :: words) = w :: spellings (words.filter fun v => !sameWord v w) := by
  rw [spellings, List.eraseDupsBy_cons, spellings]
  simp only [Bool.decide_eq_false]

theorem spellings_subset (words : List String) : spellings words ⊆ words := by
  match words with
  | [] => exact List.Subset.refl _
  | w :: words =>
    rw [spellings_cons]
    refine List.cons_subset_cons w fun v hv => ?_
    exact List.filter_sublist.subset (spellings_subset _ hv)
termination_by words.length
decreasing_by exact Nat.lt_succ_of_le (List.length_filter_le _ _)

/-- No two spellings are of the same word. -/
theorem pairwise_spellings (words : List String) :
    (spellings words).Pairwise fun v w => sameWord v w = false := by
  match words with
  | [] => exact List.Pairwise.nil
  | w :: words =>
    rw [spellings_cons]
    refine List.Pairwise.cons ?_ (pairwise_spellings (words.filter fun v => !sameWord v w))
    intro v hv
    have hother := (List.mem_filter.mp (spellings_subset _ hv)).2
    rw [sameWord_comm]
    exact Bool.not_eq_true' _ ▸ hother
termination_by words.length
decreasing_by exact Nat.lt_succ_of_le (List.length_filter_le _ _)

theorem nodup_of_pairwise {words : List String}
    (h : words.Pairwise fun v w => sameWord v w = false) : words.Nodup := by
  refine h.imp ?_
  rintro v _ hdistinct rfl
  rw [sameWord, beq_self_eq_true] at hdistinct
  cases hdistinct

/-! ### Meeting words -/

/-- How often a word is met in any spelling, where each word of a list is met a number of times. -/
def timesMet (w : String) (met : List (String × Nat)) : Nat :=
  ((met.filter fun e => sameWord e.1 w).map (·.2)).sum

theorem timesMet_cons (w : String) (e : String × Nat) (met : List (String × Nat)) :
    timesMet w (e :: met) = (if sameWord e.1 w then e.2 else 0) + timesMet w met := by
  unfold timesMet
  cases h : sameWord e.1 w <;> simp [h]

theorem timesMet_append (w : String) (met more : List (String × Nat)) :
    timesMet w (met ++ more) = timesMet w met + timesMet w more := by
  simp [timesMet]

/-- What is left out belongs to another word. -/
theorem timesMet_filter {v w : String} (h : sameWord v w = false) (met : List (String × Nat)) :
    timesMet v (met.filter fun e => !sameWord e.1 w) = timesMet v met := by
  rw [timesMet, List.filter_filter, timesMet]
  congr 2
  refine List.filter_congr fun e _ => ?_
  cases he : sameWord e.1 v with
  | false => rfl
  | true =>
    have hother : sameWord e.1 w = false := by
      rw [← Bool.not_eq_true]
      intro hsame
      rw [sameWord_comm] at he
      rw [sameWord_trans he hsame] at h
      cases h
    rw [hother]
    rfl

/-- Meets the words of a list one after another, each a number of times. -/
def meetAll (met words : List (String × Nat)) : List (String × Nat) :=
  met.foldl (fun words e => meet e.1 e.2 words) words

/-- The first entry takes what belongs to its word, the rest passes. -/
theorem meetAll_cons (met words : List (String × Nat)) (first : String × Nat) :
    meetAll met (first :: words) =
      (first.1, first.2 + timesMet first.1 met) ::
        meetAll (met.filter fun e => !sameWord e.1 first.1) words := by
  induction met generalizing first words with
  | nil => rfl
  | cons e met ih =>
    have hstep : meetAll (e :: met) (first :: words) =
        meetAll met (meet e.1 e.2 (first :: words)) := rfl
    rw [hstep, meet, timesMet_cons, sameWord_comm e.1]
    cases h : sameWord first.1 e.1 with
    | true =>
      have hlower : (Text.lower first.1 == Text.lower e.1) = true := h
      rw [if_pos hlower, ih,
        List.filter_cons_of_neg (by rw [sameWord_comm, h]; exact Bool.false_ne_true), if_pos rfl,
        Nat.add_assoc]
    | false =>
      have hlower : (Text.lower first.1 == Text.lower e.1) = false := h
      rw [hlower, if_neg Bool.false_ne_true, ih,
        List.filter_cons_of_pos (by rw [sameWord_comm, h]; rfl), if_neg Bool.false_ne_true,
        Nat.zero_add]
      rfl

/-- A list of words leaves the first spelling of each with the times that it was met. -/
theorem meetAll_nil (met : List (String × Nat)) :
    meetAll met [] = (spellings (met.map (·.1))).map fun w => (w, timesMet w met) := by
  match met with
  | [] => rfl
  | e :: met =>
    have hstep : meetAll (e :: met) [] = meetAll met [e] := rfl
    have hrest := meetAll_nil (met.filter fun other => !sameWord other.1 e.1)
    have hkeys : (met.filter fun other => !sameWord other.1 e.1).map (·.1) =
        (met.map (·.1)).filter fun w => !sameWord w e.1 := by
      rw [List.filter_map]
      rfl
    rw [hstep, meetAll_cons, hrest, hkeys, List.map_cons, spellings_cons, List.map_cons,
      timesMet_cons, sameWord, beq_self_eq_true, if_pos rfl]
    congr 1
    refine List.map_congr_left fun w hw => ?_
    have hother : sameWord w e.1 = false := by
      simpa using (List.mem_filter.mp (spellings_subset _ hw)).2
    rw [timesMet_filter hother, timesMet_cons, sameWord_comm, hother, if_neg Bool.false_ne_true,
      Nat.zero_add]
termination_by met.length
decreasing_by exact Nat.lt_succ_of_le (List.length_filter_le _ _)

/-! ### Counted words -/

/-- How often a word stands in a list in any spelling. -/
def frequency (words : List String) (w : String) : Nat := words.countP fun v => sameWord v w

theorem timesMet_once (words : List String) (w : String) :
    timesMet w (words.map fun v => (v, 1)) = frequency words w := by
  induction words with
  | nil => rfl
  | cons v words ih =>
    rw [List.map_cons, timesMet_cons, ih, frequency, frequency, List.countP_cons, Nat.add_comm]

theorem foldl_add (words : List String) (c : WordCounter) :
    words.foldl add c = ⟨meetAll (words.map fun v => (v, 1)) c.words⟩ := by
  induction words generalizing c with
  | nil => rfl
  | cons v words ih => rw [List.foldl_cons, ih]; rfl

theorem foldl_addText (texts : List String) (c : WordCounter) :
    texts.foldl addText c = (texts.flatMap Words.ofText).foldl add c := by
  rw [List.foldl_flatMap]
  rfl

/-- Counting the words of texts leaves the first spelling of each with its frequency. -/
theorem words_foldl_addText (texts : List String) :
    (texts.foldl addText {}).words =
      (spellings (texts.flatMap Words.ofText)).map fun w =>
        (w, frequency (texts.flatMap Words.ofText) w) := by
  have hkeys : ∀ words : List String, (words.map fun v => (v, 1)).map (·.1) = words := by
    intro words
    rw [List.map_map]
    exact List.map_id words
  rw [foldl_addText, foldl_add, meetAll_nil, hkeys]
  exact List.map_congr_left fun w _ => by rw [timesMet_once]

/-! ### All counts together -/

/-- How many words have been counted. -/
def total (c : WordCounter) : Nat := (c.words.map (·.2)).sum

theorem sum_meet (word : String) (times : Nat) (words : List (String × Nat)) :
    ((meet word times words).map (·.2)).sum = (words.map (·.2)).sum + times := by
  induction words with
  | nil => simp [meet]
  | cons e words ih =>
    unfold meet
    split
    · simp only [List.map_cons, List.sum_cons]
      omega
    · simp only [List.map_cons, List.sum_cons, ih]
      omega

theorem total_addText (c : WordCounter) (s : String) :
    (c.addText s).total = c.total + (Words.ofText s).length := by
  unfold addText
  induction Words.ofText s generalizing c with
  | nil => rfl
  | cons word rest ih =>
    have hstep : (c.add word).total = c.total + 1 := sum_meet word 1 c.words
    rw [List.foldl_cons, ih, hstep, List.length_cons]
    omega

/-- A text leaves a counter as it is only if there is nothing to count in it. -/
theorem addText_eq_self_iff {c : WordCounter} {s : String} :
    c.addText s = c ↔ Words.ofText s = [] := by
  constructor
  · intro h
    have htotal := total_addText c s
    rw [h] at htotal
    exact List.length_eq_zero_iff.mp (by omega)
  · intro h
    rw [addText, h, List.foldl_nil]

end Catalog.WordCounter
