import Catalog.Text.LowerCase
import Catalog.Text.Pieces

/-!
# Counting words

The words of a text are cleaned of punctuation, and those that say nothing are left out: words of
digits or of punctuation alone, and common English words. The others are counted whatever the case
of their letters. Each keeps the spelling in which it was first met, and the words stand in the
order in which they were first met.

* `Words.clean` removes punctuation, and `Words.isStopWord` knows the common words;
* `Words.ofText` lists the words of a text that are worth a tag;
* `WordCounter.look` gives the count of a word and makes room for it, and `WordCounter.addText`
  counts the words of a text;
* `WordCounter.mostFrequent` lists the words with the highest counts.
-/

namespace Catalog

/-! ### Words worth a tag -/

namespace Words

/-- The punctuation that may stand in a word. -/
def keptPunctuation : List Char := ['-', '+', '/', '%', '_']

/-- The punctuation that is removed from words. -/
def removedPunctuation : List Char :=
  ['!', '"', '\x27', '#', '$', '&', '(', ')', '*', ',', '.', ':', ';', '<', '=', '>', '?', '@',
    '[', '\\', ']', '^', '\x60', '\x7b', '|', '\x7d', '~']

/-- Whether a character is removed from words. -/
def isRemoved (c : Char) : Bool := Text.isBlank c || removedPunctuation.contains c

/-- A word without blanks and punctuation that is not to be kept. -/
def clean (word : String) : String := String.ofList (word.toList.filter fun c => !isRemoved c)

@[simp] theorem clean_clean (word : String) : clean (clean word) = clean word := by
  simp [clean, List.filter_filter]

/-- Common words that say nothing about an item. -/
def stopWords : List String :=
  ["a", "about", "above", "after", "again", "against", "all", "am", "an", "and", "any", "are",
    "aren't", "as", "at", "be", "because", "been", "before", "being", "below", "between",
    "both", "but", "by", "can't", "cannot", "could", "couldn't", "did", "didn't", "do", "does",
    "doesn't", "doing", "don't", "down", "during", "each", "few", "for", "from", "further",
    "had", "hadn't", "has", "hasn't", "have", "haven't", "having", "he", "he'd", "he'll",
    "he's", "her", "here", "here's", "hers", "herself", "him", "himself", "his", "how",
    "how's", "i", "i'd", "i'll", "i'm", "i've", "if", "in", "into", "is", "isn't", "it",
    "it's", "its", "itself", "let's", "me", "more", "most", "mustn't", "my", "myself", "no",
    "nor", "not", "of", "off", "on", "once", "only", "or", "other", "ought", "our", "ours",
    "ourselves", "out", "over", "own", "same", "shan't", "she", "she'd", "she'll", "she's",
    "should", "shouldn't", "so", "some", "such", "than", "that", "that's", "the", "their",
    "theirs", "them", "themselves", "then", "there", "there's", "these", "they", "they'd",
    "they'll", "they're", "they've", "this", "those", "through", "to", "too", "under",
    "until", "up", "very", "was", "wasn't", "we", "we'd", "we'll", "we're", "we've", "were",
    "weren't", "what", "what's", "when", "when's", "where", "where's", "which", "while",
    "who", "who's", "whom", "why", "why's", "with", "won't", "would", "wouldn't", "you",
    "you'd", "you'll", "you're", "you've", "your", "yours", "yourself", "yourselves"]

/-- Whether a word is a common one, whatever the case of its letters. -/
def isStopWord (word : String) : Bool := stopWords.contains (Text.lower word)

/-- Whether a cleaned word is worth a tag. -/
def isTelling (word : String) : Bool :=
  word != "" && !word.toList.all Char.isDigit && !word.toList.all keptPunctuation.contains &&
    !isStopWord word

/-- The cleaned words of a text that are worth a tag. -/
def ofText (s : String) : List String := ((Text.words s).map clean).filter isTelling

theorem not_isStopWord_of_mem_ofText {s word : String} (h : word ∈ ofText s) :
    isStopWord word = false := by
  have := (List.mem_filter.mp h).2
  simp only [isTelling, Bool.and_eq_true, Bool.not_eq_true'] at this
  exact this.2

end Words

/-! ### Counting words -/

/-- Words with their counts. -/
structure WordCounter where
  words : List (String × Nat) := []
  deriving DecidableEq, Repr

namespace WordCounter

/-- The count of a word that has been met. -/
def count? (c : WordCounter) (word : String) : Option Nat :=
  (c.words.find? fun e => Text.lower e.1 == Text.lower word).map (·.2)

/-- Meets a word `times` more times in a list of words. -/
def meet (word : String) (times : Nat) : List (String × Nat) → List (String × Nat)
  | [] => [(word, times)]
  | e :: rest =>
    if Text.lower e.1 == Text.lower word then (e.1, e.2 + times) :: rest
      else e :: meet word times rest

/-- Looks a word up. A word that has not been met stands at the end from then on. -/
def look (c : WordCounter) (word : String) : Nat × WordCounter :=
  ((c.count? word).getD 0, ⟨meet word 0 c.words⟩)

/-- Counts a word. -/
def add (c : WordCounter) (word : String) : WordCounter := ⟨meet word 1 c.words⟩

/-- Counts the words of a text. -/
def addText (c : WordCounter) (s : String) : WordCounter := (Words.ofText s).foldl add c

/-- The number of words met. -/
def size (c : WordCounter) : Nat := c.words.length

/-- The words with the highest counts, the most frequent last. Among equal counts the words met last
are preferred. -/
def mostFrequent (c : WordCounter) (n : Nat) : List String :=
  let byCount := c.words.mergeSort fun a b => a.2 ≤ b.2
  (byCount.drop (byCount.length - n)).map (·.1)

theorem length_mostFrequent (c : WordCounter) (n : Nat) :
    (c.mostFrequent n).length = min n c.size := by
  simp only [mostFrequent, size, List.length_map, List.length_drop, List.length_mergeSort]
  omega

theorem count?_meet (word other : String) (times : Nat) (words : List (String × Nat)) :
    count? ⟨meet word times words⟩ other =
      if Text.lower word = Text.lower other then some ((count? ⟨words⟩ other).getD 0 + times)
      else count? ⟨words⟩ other := by
  unfold count?
  induction words with
  | nil => by_cases h : Text.lower word = Text.lower other <;> simp [meet, h]
  | cons e rest ih =>
    by_cases he : Text.lower e.1 = Text.lower word
    · by_cases h : Text.lower word = Text.lower other <;> simp [meet, he, h]
    · by_cases ho : Text.lower e.1 = Text.lower other
      · have h : ¬ Text.lower word = Text.lower other := fun h => he (ho.trans h.symm)
        simp [meet, ho, h, Ne.symm h]
      · simpa [meet, he, ho] using ih

end WordCounter

end Catalog
