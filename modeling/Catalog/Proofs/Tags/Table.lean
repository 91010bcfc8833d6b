import Catalog.Proofs.Tags.Counting
import Catalog.Tags.Ranking

/-!
# Counting with a table of places

A table of places finds every word where it stands, so it counts what a counter counts. The words
and the table are two views of one list: a place that were stale or off by one would give the count
of a word to another.

* `WordTable.IsInStep` says that the table holds the place of every word under its lower-case form
  and nothing else;
* `IsInStep.entry`, `IsInStep.add` and `IsInStep.look` are the steps: they keep the table in step
  and do to the counter what the same step of the counter does;
* `WordCall` is a text that is counted or a word that is looked up, and `WordTable.after` the table
  that a run of calls leaves behind;
* `WordTable.Counts` says what a table holds after a run, and `counts_after` that every run leaves
  such a table.
-/

namespace Catalog

/-! ### Meeting a word in a list -/

namespace WordCounter

variable {word : String} {words : List (String × Nat)}

/-- A new word comes to stand at the end. -/
theorem meet_of_new (h : ∀ e ∈ words, Text.lower e.1 ≠ Text.lower word) (times : Nat) :
    meet word times words = words ++ [(word, times)] := by
  induction words with
  | nil => rfl
  | cons e words ih =>
    have hne : (Text.lower e.1 == Text.lower word) = false := by simpa using h e (by simp)
    rw [meet, hne, if_neg Bool.false_ne_true, ih fun d hd => h d (by simp [hd])]
    rfl

/-- A word that stands somewhere is met in its first place. -/
theorem meet_of_getElem? {place : Nat} {e : String × Nat} (hplace : words[place]? = some e)
    (he : Text.lower e.1 = Text.lower word)
    (hfirst : ∀ before < place, ∀ d, words[before]? = some d → Text.lower d.1 ≠ Text.lower word)
    (times : Nat) :
    meet word times words = words.modify place fun e => (e.1, e.2 + times) := by
  induction words generalizing place with
  | nil => cases hplace
  | cons d words ih =>
    cases place with
    | zero =>
      cases hplace
      rw [meet, if_pos (by simpa using he)]
      rfl
    | succ place =>
      have hne : (Text.lower d.1 == Text.lower word) = false := by
        simpa using hfirst 0 (by omega) d rfl
      have hlater : words[place]? = some e := hplace
      have hrest := ih hlater fun before hlt => hfirst (before + 1) (by omega)
      rw [meet, hne, if_neg Bool.false_ne_true, hrest]
      rfl

theorem meet_meet (word : String) (m n : Nat) (words : List (String × Nat)) :
    meet word n (meet word m words) = meet word (m + n) words := by
  induction words with
  | nil => simp [meet]
  | cons e words ih =>
    by_cases h : Text.lower e.1 = Text.lower word
    · simp [meet, h, Nat.add_assoc]
    · simp [meet, h, ih]

end WordCounter

namespace WordTable

variable {t : WordTable} {word : String}

/-- The table holds the place of every word under its lower-case form, and nothing else. -/
def IsInStep (t : WordTable) : Prop :=
  ∀ key place, t.positions.get? key = some place ↔
    ∃ e, t.words[place]? = some e ∧ Text.lower e.1 = key

theorem isInStep_empty : ({} : WordTable).IsInStep := by
  intro key place
  show none = some place ↔ _
  simp

namespace IsInStep

/-- A word stands in one place only. -/
theorem place_eq (h : t.IsInStep) {p q : Nat} {d e : String × Nat} (hp : t.words[p]? = some d)
    (hq : t.words[q]? = some e) (hsame : Text.lower d.1 = Text.lower e.1) : p = q := by
  have hp' : t.positions.get? (Text.lower e.1) = some p := (h _ _).mpr ⟨d, hp, hsame⟩
  have hq' : t.positions.get? (Text.lower e.1) = some q := (h _ _).mpr ⟨e, hq, rfl⟩
  exact Option.some.inj (hp'.symm.trans hq')

/-- What changes the counts and leaves the words alone keeps the table in step. -/
theorem modify (h : t.IsInStep) (place times : Nat) :
    IsInStep { t with words := t.words.modify place fun e => (e.1, e.2 + times) } := by
  intro key other
  rw [h]
  show _ ↔ ∃ e, (t.words.modify place fun e => (e.1, e.2 + times))[other]? = some e ∧ _
  rw [Array.getElem?_modify]
  by_cases hplace : place = other
  · cases t.words[other]? <;> simp [hplace]
  · simp [hplace]

/-- Meeting a word whose place is known changes the count in that place. -/
theorem meet_eq (h : t.IsInStep) {place : Nat} {e : String × Nat}
    (hplace : t.words[place]? = some e) (he : Text.lower e.1 = Text.lower word) (times : Nat) :
    WordCounter.meet word times t.words.toList =
      (t.words.modify place fun e => (e.1, e.2 + times)).toList := by
  rw [Array.toList_modify]
  refine WordCounter.meet_of_getElem? (by simpa using hplace) he
    (fun before hlt d hd hsame => ?_) times
  have hbefore : t.words[before]? = some d := by simpa using hd
  have := h.place_eq hbefore hplace (hsame.trans he.symm)
  omega

/-- A new word comes to stand after all others. -/
theorem push (h : t.IsInStep) (hnew : ∀ e ∈ t.words, Text.lower e.1 ≠ Text.lower word) :
    IsInStep
      { words := t.words.push (word, 0),
        positions := t.positions.insert (Text.lower word) t.words.size } := by
  intro key place
  show (t.positions.insert (Text.lower word) t.words.size).get? key = some place ↔
    ∃ e, (t.words.push (word, 0))[place]? = some e ∧ Text.lower e.1 = key
  simp only [SortedMap.get?_insert, Std.LawfulEqCmp.compare_eq_iff_eq, Array.getElem?_push]
  by_cases hkey : key = Text.lower word
  · subst hkey
    rw [if_pos rfl]
    constructor
    · intro hlast
      cases hlast
      exact ⟨(word, 0), if_pos rfl, rfl⟩
    · rintro ⟨e, he, hsame⟩
      split at he
      · next hlast => rw [hlast]
      · exact absurd hsame (hnew e (Array.mem_of_getElem? he))
  · rw [if_neg hkey, h]
    refine exists_congr fun e => and_congr_left fun he => ?_
    by_cases hlast : place = t.words.size
    · subst hlast
      have hne : (word, 0) ≠ e := by
        rintro rfl
        exact hkey he.symm
      simp [hne]
    · rw [if_neg hlast]

/-- A word gets a place, where it stands from then on. -/
theorem entry (h : t.IsInStep) (word : String) :
    (t.entry word).2.IsInStep ∧ (t.entry word).2.counter = (t.counter.look word).2 ∧
      ∃ e, (t.entry word).2.words[(t.entry word).1]? = some e ∧
        Text.lower e.1 = Text.lower word := by
  unfold WordTable.entry
  cases hfound : t.positions.get? (Text.lower word) with
  | some place =>
    obtain ⟨e, hplace, he⟩ := (h _ _).mp hfound
    have hsame : (t.words.modify place fun e => (e.1, e.2 + 0)) = t.words := by
      apply Array.ext_getElem?
      intro i
      rw [Array.getElem?_modify]
      split <;> simp
    refine ⟨h, ?_, e, hplace, he⟩
    show (⟨t.words.toList⟩ : WordCounter) = ⟨WordCounter.meet word 0 t.words.toList⟩
    rw [h.meet_eq hplace he, hsame]
  | none =>
    have hnew : ∀ e ∈ t.words, Text.lower e.1 ≠ Text.lower word := by
      intro e he hsame
      obtain ⟨place, hplace⟩ := Array.mem_iff_getElem?.mp he
      rw [(h _ _).mpr ⟨e, hplace, hsame⟩] at hfound
      cases hfound
    refine ⟨h.push hnew, ?_, (word, 0), by simp, rfl⟩
    show (⟨(t.words.push (word, 0)).toList⟩ : WordCounter) =
      ⟨WordCounter.meet word 0 t.words.toList⟩
    rw [WordCounter.meet_of_new (by simpa using hnew), Array.toList_push]

/-- A word that is counted is counted once where it stands. -/
theorem add (h : t.IsInStep) (word : String) :
    (t.add word).IsInStep ∧ (t.add word).counter = t.counter.add word := by
  obtain ⟨hstep, hcounter, e, hplace, he⟩ := h.entry word
  refine ⟨hstep.modify _ 1, ?_⟩
  have hwords : (t.entry word).2.words.toList = WordCounter.meet word 0 t.words.toList :=
    congrArg WordCounter.words hcounter
  show (⟨((t.entry word).2.words.modify _ fun e => (e.1, e.2 + 1)).toList⟩ : WordCounter) =
    ⟨WordCounter.meet word 1 t.words.toList⟩
  rw [← hstep.meet_eq hplace he, hwords, WordCounter.meet_meet]

/-- The count of a word is the one in its place. -/
theorem count?_eq (h : t.IsInStep) {place : Nat} {e : String × Nat}
    (hplace : t.words[place]? = some e) (he : Text.lower e.1 = Text.lower word) :
    t.counter.count? word = some e.2 := by
  have hfind : t.words.toList.find? (fun d => Text.lower d.1 == Text.lower word) = some e := by
    obtain ⟨hlt, hget⟩ := Array.getElem?_eq_some_iff.mp hplace
    refine List.find?_eq_some_iff_getElem.mpr ⟨by simpa using he,
      place, by simpa using hlt, by simpa using hget, ?_⟩
    intro before hbefore
    have hother : ∀ d, t.words[before]? = some d → Text.lower d.1 ≠ Text.lower word := by
      intro d hd hsame
      have := h.place_eq hd hplace (hsame.trans he.symm)
      omega
    simpa using hother _ (Array.getElem?_eq_getElem (by omega))
  rw [WordCounter.count?, counter, hfind]
  rfl

/-- Looking a word up gives its count, and makes room for it. -/
theorem look (h : t.IsInStep) (word : String) :
    (t.look word).2.IsInStep ∧ (t.look word).2.counter = (t.counter.look word).2 ∧
      (t.look word).1 = (t.counter.look word).1 := by
  obtain ⟨hstep, hcounter, e, hplace, he⟩ := h.entry word
  refine ⟨hstep, hcounter, ?_⟩
  have hcount := hstep.count?_eq hplace he
  have hmet : (t.counter.look word).2.count? word = some ((t.counter.count? word).getD 0 + 0) := by
    rw [WordCounter.look, WordCounter.count?_meet, if_pos rfl]
  rw [hcounter, hmet] at hcount
  show ((t.entry word).2.words.getD _ (word, 0)).2 = (t.counter.count? word).getD 0
  rw [Array.getD_eq_getD_getElem?, hplace]
  exact (Option.some.inj hcount).symm

theorem addText (h : t.IsInStep) (s : String) :
    (t.addText s).IsInStep ∧ (t.addText s).counter = t.counter.addText s := by
  unfold WordTable.addText WordCounter.addText
  induction Words.ofText s generalizing t with
  | nil => exact ⟨h, rfl⟩
  | cons word rest ih =>
    obtain ⟨hstep, hcounter⟩ := h.add word
    rw [List.foldl_cons, List.foldl_cons, ← hcounter]
    exact ih hstep

/-- Texts are counted as a counter counts them. -/
theorem foldl_addText (h : t.IsInStep) (texts : List String) :
    (texts.foldl WordTable.addText t).counter = texts.foldl WordCounter.addText t.counter := by
  induction texts generalizing t with
  | nil => rfl
  | cons s texts ih =>
    obtain ⟨hstep, hcounter⟩ := h.addText s
    rw [List.foldl_cons, List.foldl_cons, ← hcounter]
    exact ih hstep

end IsInStep

end WordTable

/-! ### Runs of calls -/

/-- One call: a text whose words are counted, or a word that is looked up. -/
inductive WordCall where
  | text (s : String)
  | look (word : String)

namespace WordCall

/-- The words that a call meets, one after another. -/
def words : WordCall → List String
  | .text s => Words.ofText s
  | .look word => [word]

/-- The words that a call counts. One that is looked up is not counted. -/
def counted : WordCall → List String
  | .text s => Words.ofText s
  | .look _ => []

/-- The words that a call meets, each with the number of times that it is counted. -/
def met : WordCall → List (String × Nat)
  | .text s => (Words.ofText s).map fun word => (word, 1)
  | .look word => [(word, 0)]

theorem map_fst_met (call : WordCall) : call.met.map Prod.fst = call.words := by
  cases call with
  | text s => simp [met, words, Function.comp_def]
  | look word => rfl

theorem timesMet_met (word : String) (calls : List WordCall) :
    WordCounter.timesMet word (calls.flatMap met) =
      WordCounter.frequency (calls.flatMap counted) word := by
  induction calls with
  | nil => rfl
  | cons call calls ih =>
    have hcall : WordCounter.timesMet word call.met = WordCounter.frequency call.counted word := by
      cases call with
      | text s => exact WordCounter.timesMet_once _ _
      | look other =>
        show WordCounter.timesMet word [(other, 0)] = 0
        rw [WordCounter.timesMet_cons, ite_self]
        rfl
    rw [List.flatMap_cons, List.flatMap_cons, WordCounter.timesMet_append, hcall, ih,
      WordCounter.frequency, WordCounter.frequency, WordCounter.frequency, List.countP_append]

end WordCall

namespace WordTable

variable {t : WordTable}

/-- The table that a call leaves behind. -/
def step (t : WordTable) : WordCall → WordTable
  | .text s => t.addText s
  | .look word => (t.look word).2

/-- The table that a run of calls leaves behind. -/
def after (t : WordTable) (calls : List WordCall) : WordTable := calls.foldl step t

/-- A call meets its words and leaves the table in step. -/
theorem IsInStep.step (h : t.IsInStep) (call : WordCall) :
    (t.step call).IsInStep ∧
      (t.step call).words.toList = WordCounter.meetAll call.met t.words.toList := by
  cases call with
  | text s =>
    obtain ⟨hstep, hcounter⟩ := h.addText s
    refine ⟨hstep, ?_⟩
    rw [WordCounter.addText, WordCounter.foldl_add] at hcounter
    exact congrArg WordCounter.words hcounter
  | look word =>
    obtain ⟨hstep, hcounter, -⟩ := h.look word
    exact ⟨hstep, congrArg WordCounter.words hcounter⟩

theorem IsInStep.after (h : t.IsInStep) (calls : List WordCall) :
    (t.after calls).IsInStep ∧
      (t.after calls).words.toList =
        WordCounter.meetAll (calls.flatMap WordCall.met) t.words.toList := by
  induction calls generalizing t with
  | nil => exact ⟨h, rfl⟩
  | cons call calls ih =>
    obtain ⟨hstep, hwords⟩ := h.step call
    obtain ⟨hafter, hall⟩ := ih hstep
    refine ⟨hafter, hall.trans ?_⟩
    rw [hwords, List.flatMap_cons, WordCounter.meetAll, WordCounter.meetAll, WordCounter.meetAll,
      List.foldl_append]

/-- What a table holds after a run of calls. -/
structure Counts (calls : List WordCall) (t : WordTable) : Prop where
  /-- The words stand in the order in which they were first met, in the spelling of that time, -/
  spellings : t.words.toList.map Prod.fst = WordCounter.spellings (calls.flatMap WordCall.words)
  /-- and no word stands twice, whatever the case of its letters. -/
  distinct : (t.words.toList.map fun e => Text.lower e.1).Nodup
  /-- The count of a word is how often it was counted in any spelling, -/
  counts : ∀ e ∈ t.words, e.2 = WordCounter.frequency (calls.flatMap WordCall.counted) e.1
  /-- and this is what a look-up finds. -/
  looked : ∀ word, (t.look word).1 = WordCounter.frequency (calls.flatMap WordCall.counted) word
  positions : ∀ key place, t.positions.get? key = some place ↔
    ∃ e, t.words[place]? = some e ∧ Text.lower e.1 = key

theorem words_after (calls : List WordCall) :
    (({} : WordTable).after calls).words.toList =
      (WordCounter.spellings (calls.flatMap WordCall.words)).map fun word =>
        (word, WordCounter.frequency (calls.flatMap WordCall.counted) word) := by
  have hkeys : (calls.flatMap WordCall.met).map Prod.fst = calls.flatMap WordCall.words := by
    rw [List.map_flatMap]
    simp only [WordCall.map_fst_met]
  have hmet : (({} : WordTable).after calls).words.toList =
      WordCounter.meetAll (calls.flatMap WordCall.met) [] :=
    (isInStep_empty.after calls).2
  rw [hmet, WordCounter.meetAll_nil, hkeys]
  exact List.map_congr_left fun word _ => by rw [WordCall.timesMet_met]

theorem count_of_mem_after {calls : List WordCall} {e : String × Nat}
    (he : e ∈ (({} : WordTable).after calls).words) :
    e.2 = WordCounter.frequency (calls.flatMap WordCall.counted) e.1 := by
  rw [← Array.mem_toList_iff, words_after] at he
  obtain ⟨word, -, rfl⟩ := List.mem_map.mp he
  rfl

/-- After any run of calls, words and places are in step and every count is the number of words
counted. -/
theorem counts_after (calls : List WordCall) : Counts calls (({} : WordTable).after calls) := by
  have hstep : (({} : WordTable).after calls).IsInStep := (isInStep_empty.after calls).1
  refine ⟨?_, ?_, fun e he => count_of_mem_after he, fun word => ?_, hstep⟩
  · rw [words_after, List.map_map]
    exact List.map_id _
  · rw [words_after, List.map_map]
    refine List.pairwise_map.mpr ((WordCounter.pairwise_spellings _).imp fun hne hsame => ?_)
    rw [WordCounter.sameWord, beq_eq_false_iff_ne] at hne
    exact hne hsame
  · -- the word stands in its place after one more look-up, which counts nothing
    obtain ⟨-, -, e, hplace, he⟩ := hstep.entry word
    have hlast : (({} : WordTable).after (calls ++ [.look word])) =
        ((({} : WordTable).after calls).look word).2 := by
      rw [after, List.foldl_append]
      rfl
    have hcount := @count_of_mem_after (calls ++ [.look word]) e (by
      rw [hlast]
      exact Array.mem_of_getElem? hplace)
    have hanswer : ((({} : WordTable).after calls).look word).1 = e.2 := by
      show (Array.getD _ _ (word, 0)).2 = e.2
      rw [Array.getD_eq_getD_getElem?, hplace]
      rfl
    rw [hanswer, hcount, List.flatMap_append, WordCounter.frequency, WordCounter.frequency]
    simp [WordCall.counted, WordCounter.sameWord, he]

end WordTable

end Catalog
