import Catalog.Memo
import Mathlib.Data.Finset.Card

/-!
# What a memory remembers

A memory that starts empty holds what its history says: for every question the answer that was set
last, whether it was given or computed. An answer is computed exactly when none has been set before.

* `MemoCall` is one call, where a computation may read and change a world, and `MemoEvent` what
  happened in it;
* `MemoRun.step` makes a call and notes by its effect whether the computation was run, and
  `MemoRun.after` makes a run of calls;
* `MemoEvent.latest?` is the answer that was set last to a question;
* `MemoRun.Tracks` is what a step keeps, by `Tracks.step`;
* `MemoRun.Remembers` says what is known after a run, and `remembers_after` that it is true of every
  run.
-/

namespace Catalog

/-! ### Keys of a memory -/

namespace Memo

variable {κ β : Type} [DecidableEq κ]

/-- The questions that have an answer. -/
def keys (m : Memo κ β) : List κ := m.answers.map Prod.fst

/-- A new question comes to stand at the end. -/
theorem keys_insert (m : Memo κ β) (k : κ) (v : β) :
    (m.insert k v).keys = if k ∈ m.keys then m.keys else m.keys ++ [k] := by
  show (setAnswer k v m.answers).map Prod.fst = _
  unfold keys
  induction m.answers with
  | nil => simp [setAnswer]
  | cons e rest ih =>
    by_cases he : e.1 = k
    · simp [setAnswer, he]
    · have hne : k ≠ e.1 := fun h => he h.symm
      simp only [setAnswer, if_neg he, List.map_cons, ih, List.mem_cons, hne, false_or]
      split <;> rfl

theorem keys_get (m : Memo κ β) (k : κ) : (m.get k).2.keys = m.keys := by
  unfold get
  split <;> rfl

theorem nodup_keys_insert {m : Memo κ β} (h : m.keys.Nodup) (k : κ) (v : β) :
    (m.insert k v).keys.Nodup := by
  rw [keys_insert]
  split
  · exact h
  · next hnew => simpa [List.nodup_append] using ⟨h, fun c hc e => hnew (e ▸ hc)⟩

theorem mem_keys_insert {m : Memo κ β} {k c : κ} {v : β} :
    c ∈ (m.insert k v).keys ↔ c ∈ m.keys ∨ c = k := by
  rw [keys_insert]
  split
  · next hold =>
    refine ⟨Or.inl, ?_⟩
    rintro (hc | rfl)
    · exact hc
    · exact hold
  · simp

end Memo

/-! ### Calls and events -/

/-- One call to a memory. The computation of an answer may read and change a world. -/
inductive MemoCall (κ β σ : Type) where
  | get (k : κ)
  | insert (k : κ) (v : β)
  | getOrInsert (k : κ) (compute : σ → β × σ)

/-- Whether a call asks a question. -/
def MemoCall.asks {κ β σ : Type} : MemoCall κ β σ → Bool
  | .get _ => true
  | .insert _ _ => false
  | .getOrInsert _ _ => true

/-- What happened in a call. -/
inductive MemoEvent (κ β : Type) where
  /-- A question was asked and answered, or not. -/
  | asked (k : κ) (answer : Option β)
  /-- An answer was set. -/
  | set (k : κ) (v : β)
  /-- An answer was given without a computation. -/
  | recalled (k : κ) (v : β)
  /-- An answer was computed and given. -/
  | computed (k : κ) (v : β)

/-- The events that a call may make. What is computed is computed in some world. -/
inductive MemoCall.Makes {κ β σ : Type} : MemoCall κ β σ → MemoEvent κ β → Prop
  | asked (k : κ) (answer : Option β) : Makes (.get k) (.asked k answer)
  | set (k : κ) (v : β) : Makes (.insert k v) (.set k v)
  | recalled (k : κ) (compute : σ → β × σ) (v : β) : Makes (.getOrInsert k compute) (.recalled k v)
  | computed (k : κ) (compute : σ → β × σ) (w : σ) :
    Makes (.getOrInsert k compute) (.computed k (compute w).1)

namespace MemoEvent

variable {κ β : Type}

/-- The question and the answer that are set in an event. -/
def stored? : MemoEvent κ β → Option (κ × β)
  | .asked _ _ => none
  | .set k v => some (k, v)
  | .recalled _ _ => none
  | .computed k v => some (k, v)

/-- Whether an answer that was asked for was there. -/
def isHit : MemoEvent κ β → Bool
  | .asked _ answer => answer.isSome
  | .set _ _ => false
  | .recalled _ _ => true
  | .computed _ _ => false

/-- All that was set, in the order of the events. -/
def stored (events : List (MemoEvent κ β)) : List (κ × β) := events.filterMap stored?

variable [DecidableEq κ]

/-- The answer that was set last to a question. -/
def latest? (k : κ) (events : List (MemoEvent κ β)) : Option β :=
  ((stored events).reverse.find? fun e => e.1 = k).map Prod.snd

/-- An event is as the events before it demand. -/
def Follows (before : List (MemoEvent κ β)) : MemoEvent κ β → Prop
  | .asked k answer => answer = latest? k before
  | .set _ _ => True
  | .recalled k v => latest? k before = some v
  | .computed k _ => latest? k before = none

/-- Every event is as the events before it demand. -/
def IsHistory (events : List (MemoEvent κ β)) : Prop :=
  ∀ before e after, events = before ++ e :: after → e.Follows before

theorem isHistory_nil : IsHistory ([] : List (MemoEvent κ β)) := by
  intro before e after h
  simp at h

theorem IsHistory.concat {events : List (MemoEvent κ β)} (h : IsHistory events) {e : MemoEvent κ β}
    (he : e.Follows events) : IsHistory (events ++ [e]) := by
  intro before d after hsplit
  rcases List.eq_nil_or_concat after with rfl | ⟨rest, last, rfl⟩
  · obtain ⟨rfl, hlast⟩ := List.append_inj' hsplit rfl
    cases hlast
    exact he
  · have hfront : events = before ++ d :: rest := by
      rw [List.concat_eq_append, ← List.cons_append, ← List.append_assoc] at hsplit
      exact (List.append_inj' hsplit rfl).1
    exact h before d rest hfront

theorem latest?_concat (k : κ) (events : List (MemoEvent κ β)) (e : MemoEvent κ β) :
    latest? k (events ++ [e]) =
      match e.stored? with
      | some (c, v) => if c = k then some v else latest? k events
      | none => latest? k events := by
  unfold latest? stored
  rw [List.filterMap_append]
  cases hstored : e.stored? with
  | none => simp [hstored]
  | some kv =>
    by_cases hk : kv.1 = k
    · simp [hstored, hk]
    · simp [hstored, hk]

end MemoEvent

/-! ### Runs -/

/-- A memory in its world, with what has happened so far. -/
structure MemoRun (κ β σ : Type) where
  memo : Memo κ β := {}
  world : σ
  events : List (MemoEvent κ β) := []

namespace MemoRun

variable {κ β σ : Type} [DecidableEq κ] {calls : List (MemoCall κ β σ)} {r : MemoRun κ β σ}

/-- A computation that leaves a mark when it is run. -/
def marking (compute : σ → β × σ) : StateM (σ × Bool) β :=
  fun s => ((compute s.1).1, (compute s.1).2, true)

/-- Makes a call. Whether an answer was computed is seen by the mark that the computation leaves. -/
def step (r : MemoRun κ β σ) : MemoCall κ β σ → MemoRun κ β σ
  | .get k =>
    let got := r.memo.get k
    { r with memo := got.2, events := r.events ++ [.asked k got.1] }
  | .insert k v => { r with memo := r.memo.insert k v, events := r.events ++ [.set k v] }
  | .getOrInsert k compute =>
    let ((v, memo), world, marked) :=
      ((r.memo.getOrInsertM k fun _ => marking compute).run (r.world, false)).run
    { memo := memo, world := world,
      events := r.events ++ [if marked then .computed k v else .recalled k v] }

/-- Makes a run of calls. -/
def after (r : MemoRun κ β σ) (calls : List (MemoCall κ β σ)) : MemoRun κ β σ := calls.foldl step r

/-! ### One call -/

/-- A computation that is not needed is not run. -/
theorem step_of_stored {k : κ} {v : β} (h : r.memo.lookup? k = some v) (compute : σ → β × σ) :
    r.step (.getOrInsert k compute) =
      { r with memo := (r.memo.get k).2, events := r.events ++ [.recalled k v] } := by
  simp only [step, Memo.getOrInsertM_of_stored h]
  rfl

/-- A computation that is needed is run, and its answer is set. -/
theorem step_of_not_stored {k : κ} (h : r.memo.lookup? k = none) (compute : σ → β × σ) :
    r.step (.getOrInsert k compute) =
      { memo := (r.memo.get k).2.insert k (compute r.world).1
        world := (compute r.world).2
        events := r.events ++ [.computed k (compute r.world).1] } := by
  simp only [step, Memo.getOrInsertM_of_not_stored h]
  rfl

/-- The memory says what the events say. -/
structure Tracks (calls : List (MemoCall κ β σ)) (r : MemoRun κ β σ) : Prop where
  made : List.Forall₂ MemoCall.Makes calls r.events
  history : MemoEvent.IsHistory r.events
  lookup : ∀ k, r.memo.lookup? k = MemoEvent.latest? k r.events
  nodup : r.memo.keys.Nodup
  keys : ∀ k, k ∈ r.memo.keys ↔ k ∈ (MemoEvent.stored r.events).map Prod.fst
  hits : r.memo.hits = r.events.countP MemoEvent.isHit
  asked : r.memo.hits + r.memo.misses = calls.countP MemoCall.asks

theorem tracks_start (w : σ) : Tracks [] ({ world := w } : MemoRun κ β σ) where
  made := .nil
  history := MemoEvent.isHistory_nil
  lookup _ := rfl
  nodup := List.nodup_nil
  keys _ := Iff.rfl
  hits := rfl
  asked := rfl

/-- What one more event asks of the memory that it leaves behind. -/
structure Adds (call : MemoCall κ β σ) (e : MemoEvent κ β) (m n : Memo κ β) : Prop where
  makes : call.Makes e
  lookup : ∀ c, n.lookup? c =
    match e.stored? with
    | some (k, v) => if k = c then some v else m.lookup? c
    | none => m.lookup? c
  nodup : m.keys.Nodup → n.keys.Nodup
  keys : ∀ c, c ∈ n.keys ↔ c ∈ m.keys ∨ ∃ v, e.stored? = some (c, v)
  hits : n.hits = m.hits + if e.isHit then 1 else 0
  asked : n.hits + n.misses = m.hits + m.misses + if call.asks then 1 else 0

theorem Tracks.concat (h : Tracks calls r) {call : MemoCall κ β σ} (e : MemoEvent κ β)
    {m : Memo κ β} (hfollows : e.Follows r.events) (hadds : Adds call e r.memo m) (w : σ) :
    Tracks (calls ++ [call]) { memo := m, world := w, events := r.events ++ [e] } where
  made := List.rel_append h.made (.cons hadds.makes .nil)
  history := h.history.concat hfollows
  lookup k := by
    rw [hadds.lookup, MemoEvent.latest?_concat, h.lookup]
  nodup := hadds.nodup h.nodup
  keys k := by
    rw [hadds.keys, h.keys, MemoEvent.stored, MemoEvent.stored, List.filterMap_append,
      List.map_append, List.mem_append]
    refine or_congr_right ?_
    cases hstored : e.stored? with
    | none => simp [hstored]
    | some kv => simp [hstored, Prod.ext_iff, eq_comm]
  hits := by
    rw [hadds.hits, h.hits, List.countP_append, List.countP_singleton]
  asked := by
    rw [hadds.asked, h.asked, List.countP_append, List.countP_singleton]

/-- A question changes the counts only. -/
theorem adds_get (m : Memo κ β) (k : κ) {call : MemoCall κ β σ} {e : MemoEvent κ β}
    (hmakes : call.Makes e) (hasks : call.asks = true) (hstored : e.stored? = none)
    (hhit : e.isHit = (m.lookup? k).isSome) :
    Adds call e m (m.get k).2 where
  makes := hmakes
  lookup c := by
    rw [hstored]
    exact m.lookup?_get k c
  nodup hm := by rwa [m.keys_get]
  keys c := by
    rw [m.keys_get, hstored]
    simp
  hits := by
    rw [hhit, Memo.get]
    cases m.lookup? k <;> rfl
  asked := by
    rw [hasks, Memo.get]
    cases m.lookup? k with
    | none => rfl
    | some v => exact Nat.add_right_comm _ _ _

/-- An answer that is set leaves the counts alone. -/
theorem adds_insert {m n : Memo κ β} {k : κ} {v : β} {call : MemoCall κ β σ} {e : MemoEvent κ β}
    (hmakes : call.Makes e) (hlookup : ∀ c, n.lookup? c = m.lookup? c) (hkeys : n.keys = m.keys)
    (hstored : e.stored? = some (k, v)) (hhit : n.hits = m.hits + if e.isHit then 1 else 0)
    (hasks : n.hits + n.misses = m.hits + m.misses + if call.asks then 1 else 0) :
    Adds call e m (n.insert k v) where
  makes := hmakes
  lookup c := by
    rw [hstored, Memo.lookup?_insert, hlookup]
  nodup hm := Memo.nodup_keys_insert (hkeys ▸ hm) k v
  keys c := by
    rw [Memo.mem_keys_insert, hkeys, hstored]
    simp [eq_comm]
  hits := hhit
  asked := hasks

/-- One more call leaves a memory that says what the events say. -/
theorem Tracks.step (h : Tracks calls r) (call : MemoCall κ β σ) :
    Tracks (calls ++ [call]) (r.step call) := by
  cases call with
  | get k =>
    have hanswer : (r.memo.get k).1 = MemoEvent.latest? k r.events :=
      (r.memo.value_get k).trans (h.lookup k)
    refine h.concat (.asked k _) hanswer (adds_get r.memo k (.asked k _) rfl rfl ?_) r.world
    rw [MemoEvent.isHit, r.memo.value_get]
  | insert k v =>
    exact h.concat (.set k v) trivial (adds_insert (.set k v) (fun _ => rfl) rfl rfl rfl rfl)
      r.world
  | getOrInsert k compute =>
    have hlookup := h.lookup k
    cases hstored : r.memo.lookup? k with
    | some v =>
      rw [step_of_stored hstored]
      rw [hstored] at hlookup
      refine h.concat (.recalled k v)
        hlookup.symm (adds_get r.memo k (.recalled k compute v) rfl rfl ?_) r.world
      rw [hstored]
      rfl
    | none =>
      rw [step_of_not_stored hstored]
      rw [hstored] at hlookup
      have hget : (r.memo.get k).2 = { r.memo with misses := r.memo.misses + 1 } := by
        rw [Memo.get, hstored]
      refine h.concat (.computed k _) hlookup.symm
        (adds_insert (.computed k compute _) (r.memo.lookup?_get k) (r.memo.keys_get k) rfl ?_ ?_) _
      · rw [hget]
        rfl
      · rw [hget]
        rfl

/-! ### Runs of calls -/

theorem Tracks.after (h : Tracks calls r) (more : List (MemoCall κ β σ)) :
    Tracks (calls ++ more) (r.after more) := by
  induction more generalizing calls r with
  | nil => simpa [MemoRun.after] using h
  | cons call more ih =>
    have hrest := ih (h.step call)
    rwa [List.append_assoc] at hrest

/-- Every question that was given an answer has one place. -/
theorem Tracks.size_eq (h : Tracks calls r) :
    r.memo.size = ((MemoEvent.stored r.events).map Prod.fst).toFinset.card := by
  have hkeys : r.memo.keys.toFinset = ((MemoEvent.stored r.events).map Prod.fst).toFinset := by
    ext k
    rw [List.mem_toFinset, List.mem_toFinset, h.keys]
  rw [← hkeys, List.toFinset_card_of_nodup h.nodup, Memo.keys, List.length_map]
  rfl

/-- What is known of a memory after a run of calls. -/
structure Remembers (calls : List (MemoCall κ β σ)) (r : MemoRun κ β σ) : Prop where
  /-- Every call has made one event. -/
  made : List.Forall₂ MemoCall.Makes calls r.events
  /-- Every answer that was given was the one set last, and it was computed exactly when none had
  been set. -/
  history : MemoEvent.IsHistory r.events
  /-- The next question is answered by the answer that was set last. -/
  get : ∀ k, (r.memo.get k).1 = MemoEvent.latest? k r.events
  /-- So it is when the answer is to be computed if need be. Otherwise the computation is run, and
  its answer is set. -/
  getOrInsert : ∀ (k : κ) (μ : Type → Type) [Monad μ] (compute : Unit → μ β),
    r.memo.getOrInsertM k compute =
      match MemoEvent.latest? k r.events with
      | some v => pure (v, (r.memo.get k).2)
      | none => do
        let v ← compute ()
        return (v, (r.memo.get k).2.insert k v)
  /-- The size is the number of different questions that were given an answer. -/
  size : r.memo.size = ((MemoEvent.stored r.events).map Prod.fst).toFinset.card
  hits : r.memo.hits = r.events.countP MemoEvent.isHit
  asked : r.memo.hits + r.memo.misses = calls.countP MemoCall.asks

/-- After any run of calls a memory remembers what was set last, and knows how often it was
asked. -/
theorem remembers_after (calls : List (MemoCall κ β σ)) (w : σ) :
    Remembers calls (({ world := w } : MemoRun κ β σ).after calls) := by
  have h : Tracks calls (({ world := w } : MemoRun κ β σ).after calls) :=
    (tracks_start w).after calls
  refine ⟨h.made, h.history, fun k => ?_, fun k μ _ compute => ?_, h.size_eq, h.hits, h.asked⟩
  · rw [Memo.value_get, h.lookup]
  · rw [← h.lookup]
    cases hstored : Memo.lookup? _ k with
    | some v => exact Memo.getOrInsertM_of_stored hstored compute
    | none => exact Memo.getOrInsertM_of_not_stored hstored compute

end MemoRun

end Catalog
