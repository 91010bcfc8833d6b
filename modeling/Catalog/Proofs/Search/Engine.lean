import Catalog.Search.Engine

/-!
# What engines remember

An engine only remembers what it has worked out, so an answer does not depend on what was asked
before.

* `Memo.IsFaithful` says that all answers in a memory are those of a function, and
  `value_getOrInsert` that asking a faithful memory gives the answer of the function;
* `EngineCall` is one call, and `SearchEngine.after` the engine that a run of calls leaves behind;
* `SearchEngine.IsFaithful` holds at the start, and `isFaithful_step` says that every call keeps it;
* `searchRatio_after` says what is answered after any run of calls;
* `SearchEngine.answers` are the answers to a run of calls, and `answers_ofTree` says that each of
  them is the one that a new engine gives to that call alone.
-/

namespace Catalog

namespace Memo

variable {κ β : Type} [DecidableEq κ] {f : κ → β} {m : Memo κ β}

/-- Every answer that is remembered is that of the function. -/
def IsFaithful (f : κ → β) (m : Memo κ β) : Prop := ∀ k v, m.lookup? k = some v → v = f k

theorem isFaithful_empty (f : κ → β) : IsFaithful f {} := by
  intro k v h
  cases h

theorem value_getOrInsert (h : m.IsFaithful f) (k : κ) :
    (m.getOrInsert k fun _ => f k).1 = f k := by
  unfold getOrInsert getOrInsertM get
  cases hk : m.lookup? k with
  | none => rfl
  | some v => exact h k v hk

theorem IsFaithful.getOrInsert (h : m.IsFaithful f) (k : κ) :
    (m.getOrInsert k fun _ => f k).2.IsFaithful f := by
  intro c v hv
  unfold Memo.getOrInsert Memo.getOrInsertM Memo.get at hv
  cases hk : m.lookup? k with
  | some old =>
    rw [hk] at hv
    exact h c v hv
  | none =>
    rw [hk] at hv
    have hinsert : (m.insert k (f k)).lookup? c = some v := hv
    rw [lookup?_insert] at hinsert
    split at hinsert
    · next hkc =>
      cases hinsert
      rw [hkc]
    · exact h c v hinsert

end Memo

/-- One call to an engine. -/
inductive EngineCall where
  | parse (s : String)
  | search (q : Query) (headless : Bool)
  | searchRatio (s : String) (headless : Bool)

/-- What one call gives back. -/
inductive EngineAnswer where
  | query (q : Query)
  | result (r : SearchResult)
  | share (r : RatioResult)

/-- What a call gives back when it is worked out from the tree. -/
def Tree.answer (t : Tree) : EngineCall → EngineAnswer
  | .parse s => .query (Query.parse s)
  | .search q headless => .result (t.search q headless)
  | .searchRatio s headless => .share (t.searchRatio s headless)

namespace SearchEngine

variable {e : SearchEngine}

/-- The engine that a call leaves behind. -/
def step (e : SearchEngine) : EngineCall → SearchEngine
  | .parse s => (e.parse s).2
  | .search q headless => (e.search q headless).2
  | .searchRatio s headless => (e.searchRatio s headless).2

/-- The engine that a run of calls leaves behind. -/
def after (e : SearchEngine) (calls : List EngineCall) : SearchEngine := calls.foldl step e

/-- What an engine gives back to a call. -/
def answer (e : SearchEngine) : EngineCall → EngineAnswer
  | .parse s => .query (e.parse s).1
  | .search q headless => .result (e.search q headless).1
  | .searchRatio s headless => .share (e.searchRatio s headless).1

/-- What an engine gives back to the calls of a run, each made to the engine that the calls before
leave behind. -/
def answers (e : SearchEngine) : List EngineCall → List EngineAnswer
  | [] => []
  | call :: rest => e.answer call :: (e.step call).answers rest

/-- What the engine remembers is what it would work out anew. -/
structure IsFaithful (e : SearchEngine) : Prop where
  totalItems : e.totalItems = e.tree.itemCount
  queries : e.queries.IsFaithful Query.parse
  results : e.results.IsFaithful fun k => e.tree.search k.1 k.2

theorem isFaithful_ofTree (t : Tree) : (ofTree t).IsFaithful :=
  ⟨rfl, Memo.isFaithful_empty _, Memo.isFaithful_empty _⟩

/-! ### One call -/

theorem parse_of_isFaithful (h : e.IsFaithful) (s : String) :
    (e.parse s).1 = Query.parse s ∧ (e.parse s).2.tree = e.tree ∧ (e.parse s).2.IsFaithful :=
  ⟨Memo.value_getOrInsert h.queries s, rfl, h.totalItems, h.queries.getOrInsert s, h.results⟩

theorem search_of_isFaithful (h : e.IsFaithful) (q : Query) (headless : Bool) :
    (e.search q headless).1 = e.tree.search q headless ∧ (e.search q headless).2.tree = e.tree ∧
      (e.search q headless).2.IsFaithful :=
  ⟨Memo.value_getOrInsert h.results (q, headless), rfl, h.totalItems, h.queries,
    h.results.getOrInsert (q, headless)⟩

theorem searchText_of_isFaithful (h : e.IsFaithful) (s : String) (headless : Bool) :
    (e.searchText s headless).1 = e.tree.search (Query.parse s) headless ∧
      (e.searchText s headless).2.tree = e.tree ∧ (e.searchText s headless).2.IsFaithful := by
  obtain ⟨hquery, htree, hparsed⟩ := parse_of_isFaithful h s
  have hsearch := search_of_isFaithful hparsed (e.parse s).1 headless
  rw [htree, hquery] at hsearch
  have hsplit : e.searchText s headless = (e.parse s).2.search (e.parse s).1 headless := rfl
  rw [hsplit, hquery]
  exact hsearch

theorem searchRatio_of_isFaithful (h : e.IsFaithful) (s : String) (headless : Bool) :
    (e.searchRatio s headless).1 = e.tree.searchRatio s headless ∧
      (e.searchRatio s headless).2.tree = e.tree ∧ (e.searchRatio s headless).2.IsFaithful := by
  obtain ⟨hfull, htree, hfaithful⟩ := searchText_of_isFaithful h (RatioQuery.ofText s).full headless
  obtain ⟨houter, htree', hfaithful'⟩ :=
    searchText_of_isFaithful hfaithful (RatioQuery.ofText s).outer true
  unfold searchRatio Tree.searchRatio
  simp only [hfull]
  by_cases hempty : ((RatioQuery.ofText s).outer == "") = true
  · rw [if_pos hempty, if_pos hempty, h.totalItems]
    exact ⟨rfl, htree, hfaithful⟩
  · rw [if_neg hempty, if_neg hempty, houter, htree]
    exact ⟨rfl, htree'.trans htree, hfaithful'⟩

theorem isFaithful_step (h : e.IsFaithful) (call : EngineCall) :
    (e.step call).tree = e.tree ∧ (e.step call).IsFaithful := by
  cases call with
  | parse s => exact (parse_of_isFaithful h s).2
  | search q headless => exact (search_of_isFaithful h q headless).2
  | searchRatio s headless => exact (searchRatio_of_isFaithful h s headless).2

theorem answer_of_isFaithful (h : e.IsFaithful) (call : EngineCall) :
    e.answer call = e.tree.answer call := by
  cases call with
  | parse s => exact congrArg EngineAnswer.query (parse_of_isFaithful h s).1
  | search q headless => exact congrArg EngineAnswer.result (search_of_isFaithful h q headless).1
  | searchRatio s headless =>
    exact congrArg EngineAnswer.share (searchRatio_of_isFaithful h s headless).1

/-! ### Runs of calls -/

theorem isFaithful_after (h : e.IsFaithful) (calls : List EngineCall) :
    (e.after calls).tree = e.tree ∧ (e.after calls).IsFaithful := by
  induction calls generalizing e with
  | nil => exact ⟨rfl, h⟩
  | cons call rest ih =>
    obtain ⟨htree, hstep⟩ := isFaithful_step h call
    obtain ⟨htree', hrest⟩ := ih hstep
    exact ⟨htree'.trans htree, hrest⟩

/-- After any run of calls, a share is answered as if nothing had been asked before. -/
theorem searchRatio_after (t : Tree) (calls : List EngineCall) (s : String) (headless : Bool) :
    (((ofTree t).after calls).searchRatio s headless).1 = t.searchRatio s headless := by
  obtain ⟨htree, hfaithful⟩ := isFaithful_after (isFaithful_ofTree t) calls
  rw [(searchRatio_of_isFaithful hfaithful s headless).1, htree]
  rfl

theorem answers_of_isFaithful (h : e.IsFaithful) (calls : List EngineCall) :
    e.answers calls = calls.map e.tree.answer := by
  induction calls generalizing e with
  | nil => rfl
  | cons call rest ih =>
    obtain ⟨htree, hstep⟩ := isFaithful_step h call
    rw [answers, answer_of_isFaithful h, ih hstep, htree, List.map_cons]

/-- Memory cannot be seen: each call of a run is answered as a new engine would answer it alone,
which is what is worked out from the tree. -/
theorem answers_ofTree (t : Tree) (calls : List EngineCall) :
    (ofTree t).answers calls = calls.map (ofTree t).answer ∧
      ∀ call, (ofTree t).answer call = t.answer call := by
  have halone : ∀ call, (ofTree t).answer call = t.answer call :=
    answer_of_isFaithful (isFaithful_ofTree t)
  refine ⟨?_, halone⟩
  rw [answers_of_isFaithful (isFaithful_ofTree t)]
  exact List.map_congr_left fun call _ => (halone call).symm

end SearchEngine

end Catalog
