import Catalog.Decimal.Binary

/-!
# Memory of answers

A `Memo` keeps the answers that were found so far and counts how often an answer was asked for and
how often it was there.

* `Memo.get` and `Memo.insert` ask for an answer and set one; `Memo.getOrInsertM` does both where
  finding an answer may have effects, and `Memo.getOrInsert` where it has none;
* `lookup?_insert` says how looking up and setting meet, and `getOrInsertM_of_stored` and
  `getOrInsertM_of_not_stored` when an answer is found anew;
* `Memo.hitRate` is the share of the questions whose answer was there.
-/

namespace Catalog

/-- Answers by their questions, with the counts of questions answered and not answered. -/
structure Memo (κ β : Type) where
  answers : List (κ × β) := []
  hits : Nat := 0
  misses : Nat := 0

namespace Memo

variable {κ β : Type} [DecidableEq κ]

/-- Sets the answer to a question in a list of answers. -/
def setAnswer (k : κ) (v : β) : List (κ × β) → List (κ × β)
  | [] => [(k, v)]
  | e :: rest => if e.1 = k then (k, v) :: rest else e :: setAnswer k v rest

/-- The answer to a question, if it is there. This counts as no question. -/
def lookup? (m : Memo κ β) (k : κ) : Option β := (m.answers.find? fun e => e.1 = k).map (·.2)

/-- Asks a question. -/
def get (m : Memo κ β) (k : κ) : Option β × Memo κ β :=
  match m.lookup? k with
  | some v => (some v, { m with hits := m.hits + 1 })
  | none => (none, { m with misses := m.misses + 1 })

/-- Sets the answer to a question. -/
def insert (m : Memo κ β) (k : κ) (v : β) : Memo κ β :=
  { m with answers := setAnswer k v m.answers }

/-- Asks a question, and finds and sets the answer if it is not there. Finding it may have effects,
and these happen only then. -/
def getOrInsertM {μ : Type → Type} [Monad μ] (m : Memo κ β) (k : κ) (compute : Unit → μ β) :
    μ (β × Memo κ β) :=
  match m.get k with
  | (some v, asked) => pure (v, asked)
  | (none, asked) => do
    let v ← compute ()
    return (v, asked.insert k v)

/-- Asks a question, and finds and sets the answer if it is not there. -/
def getOrInsert (m : Memo κ β) (k : κ) (compute : Unit → β) : β × Memo κ β :=
  Id.run (m.getOrInsertM k fun _ => pure (compute ()))

/-- The number of questions that have an answer. -/
def size (m : Memo κ β) : Nat := m.answers.length

/-- The share of the questions whose answer was there, as the bits of a number of 32 bits. It is
zero when nothing was asked. -/
def hitRate (m : Memo κ β) : Nat := binary32.encode m.hits (m.hits + m.misses)

theorem lookup?_insert (m : Memo κ β) (k c : κ) (v : β) :
    (m.insert k v).lookup? c = if k = c then some v else m.lookup? c := by
  unfold lookup? insert
  simp only
  induction m.answers with
  | nil => by_cases h : k = c <;> simp [setAnswer, h]
  | cons e rest ih =>
    unfold setAnswer
    by_cases he : e.1 = k
    · by_cases h : k = c
      · simp [he, h]
      · simp [he, h]
    · by_cases hc : e.1 = c
      · have hk : ¬ c = k := fun hk => he (hc.trans hk)
        simp [hc, hk, Ne.symm hk]
      · simpa [he, hc] using ih

theorem value_get (m : Memo κ β) (k : κ) : (m.get k).1 = m.lookup? k := by
  unfold get
  cases m.lookup? k <;> rfl

@[simp] theorem lookup?_get (m : Memo κ β) (k c : κ) : (m.get k).2.lookup? c = m.lookup? c := by
  unfold get
  split <;> rfl

theorem getOrInsertM_of_stored {μ : Type → Type} [Monad μ] {m : Memo κ β} {k : κ} {v : β}
    (h : m.lookup? k = some v) (compute : Unit → μ β) :
    m.getOrInsertM k compute = pure (v, (m.get k).2) := by
  simp only [getOrInsertM, get, h]

theorem getOrInsertM_of_not_stored {μ : Type → Type} [Monad μ] {m : Memo κ β} {k : κ}
    (h : m.lookup? k = none) (compute : Unit → μ β) :
    m.getOrInsertM k compute = (do let v ← compute (); return (v, (m.get k).2.insert k v)) := by
  simp only [getOrInsertM, get, h]

end Memo

end Catalog
