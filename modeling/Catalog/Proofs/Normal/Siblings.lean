import Catalog.Proofs.Normal.Agreement
import Catalog.Proofs.Normal.NormalForm
import Catalog.Proofs.Tree.SortedSons

/-!
# Families among their siblings

When a tree is made normal, every family comes to have a rank, and then the ranks of siblings are
made comparable. This is decided once for all sons of a family, by the ranks with which they were
filled in, and no later visit looks at the outcome again.

* `Tree.sonRanks` lists the ranks of the sons of a family;
* `WellFormed.haveOneKind_sonRanks_finish` says that they are of one kind in the end;
* `Tree.RanksSiblings` collects what becomes of ranks, and `WellFormed.ranksSiblings_normalize` says
  that it is true of every tree that is made normal.
-/

namespace Catalog.Tree

variable {t : Tree} {id : Nat}

/-- The ranks of the sons of a family. -/
def sonRanks (t : Tree) (id : Nat) : List (Option Rank) :=
  (t.sons id).map fun son => (t.family son).rank

theorem hasUniformSons_iff : t.hasUniformSons id = true ↔ Rank.HaveOneKind (t.sonRanks id) :=
  Rank.areUniform_iff

/-- Texts are of one kind. -/
theorem haveOneKind_map_toText {ranks : List (Option Rank)} (h : ∀ r ∈ ranks, r.isSome = true) :
    Rank.HaveOneKind (ranks.map (Option.map Rank.toText)) := by
  have htext : ∀ r ∈ ranks.map (Option.map Rank.toText), r.map Rank.kind = some .text := by
    intro r hr
    obtain ⟨before, hbefore, rfl⟩ := List.mem_map.mp hr
    obtain ⟨rank, rfl⟩ := Option.isSome_iff_exists.mp (h before hbefore)
    rfl
  intro r hr q hq
  rw [htext r hr, htext q hq]

section Finish

variable (h : t.WellFormed)

include h

/-- Siblings keep their ranks, or all of them are ranked by text. -/
theorem WellFormed.sonRanks_finish (id : Nat) :
    t.finish.sonRanks id =
      if t.hasUniformSons id then t.sonRanks id
        else (t.sonRanks id).map (Option.map Rank.toText) := by
  have hson : ∀ son ∈ t.sons id, (t.finish.family son).rank =
      if t.hasUniformSons id then (t.family son).rank else (t.family son).rank.map Rank.toText := by
    intro son hmem
    obtain ⟨_, hlt, hparent⟩ := h.of_mem_sons hmem
    rw [h.rank_finish hlt, siblingRank, hparent]
  rw [sonRanks, h.sameLinks_finish.sons, List.map_congr_left hson]
  cases t.hasUniformSons id with
  | true => rfl
  | false =>
    simp only [Bool.false_eq_true, if_false, sonRanks, List.map_map]
    rfl

theorem WellFormed.haveOneKind_sonRanks_finish (hfilled : t.IsFilled) (id : Nat) :
    Rank.HaveOneKind (t.finish.sonRanks id) := by
  rw [h.sonRanks_finish]
  split
  · next huniform => exact hasUniformSons_iff.mp huniform
  · apply haveOneKind_map_toText
    intro r hr
    obtain ⟨son, hson, rfl⟩ := List.mem_map.mp hr
    exact (hfilled son (h.of_mem_sons hson).2.1).rank

/-- A rank changes only if the family has a parent whose sons mix kinds, and then it becomes its
text. -/
theorem WellFormed.rank_finish_cases (hid : id < t.size) :
    (t.finish.family id).rank = (t.family id).rank ∨
      ∃ parent, (t.node id).parent = some parent ∧ ¬ Rank.HaveOneKind (t.sonRanks parent) ∧
        (t.finish.family id).rank = (t.family id).rank.map Rank.toText := by
  rw [h.rank_finish hid, siblingRank]
  cases hp : (t.node id).parent with
  | none => exact Or.inl rfl
  | some parent =>
    by_cases huniform : t.hasUniformSons parent = true
    · simp only [huniform, if_true]
      exact Or.inl trivial
    · simp only [huniform]
      exact Or.inr ⟨parent, rfl, mt hasUniformSons_iff.mpr huniform, rfl⟩

end Finish

/-- What becomes of the ranks of families from the filled tree to the normal one. -/
structure RanksSiblings (filled normal : Tree) : Prop where
  links : SameLinks filled normal
  ranked : ∀ id < normal.size, (normal.family id).rank.isSome = true
  /-- The sub-families of every family have ranks of one kind. -/
  one_kind : ∀ id, Rank.HaveOneKind (normal.sonRanks id)
  /-- Ranks change only where siblings mix kinds, -/
  changed : ∀ id < normal.size, (normal.family id).rank ≠ (filled.family id).rank →
    ∃ parent, (filled.node id).parent = some parent ∧ ¬ Rank.HaveOneKind (filled.sonRanks parent) ∧
      (normal.family id).rank = (filled.family id).rank.map Rank.toText
  /-- and there all siblings are ranked by text. -/
  as_text : ∀ id, ¬ Rank.HaveOneKind (filled.sonRanks id) →
    normal.sonRanks id = (filled.sonRanks id).map (Option.map Rank.toText)
  sorted : ∀ id, normal.ListsSons id (normal.sortedSons id)

/-- Making a tree normal gives every family a rank that can be compared with those of its siblings,
from the rank which the tree has been filled with, and the order of siblings is strict. -/
theorem WellFormed.ranksSiblings_normalize (h : t.WellFormed) :
    RanksSiblings t.prepare t.normalize.value := by
  have hprepared : t.prepare.WellFormed := h.prepare
  have hfilled : t.prepare.IsFilled := isFilled_fillDefaults _
  have hnormal : t.normalize.value.IsNormal := h.isNormal_normalize
  rw [normalize_eq_finish] at hnormal ⊢
  have hlinks := hprepared.sameLinks_finish
  refine ⟨hlinks, ?_, hprepared.haveOneKind_sonRanks_finish hfilled, ?_, ?_,
    hnormal.wellFormed.listsSons_sortedSons⟩
  · intro id hid
    exact (hnormal.filled id hid).rank
  · intro id hid hchanged
    rw [hlinks.size] at hid
    exact (hprepared.rank_finish_cases hid).resolve_left hchanged
  · intro id hmixed
    rw [hprepared.sonRanks_finish, if_neg (mt hasUniformSons_iff.mp hmixed)]

/-- A number and a default among siblings, whose parent keeps the number that it has as its only
rank. -/
theorem ranksSiblings_of_number_and_default :
    let made := (((∅ : Tree).create ["Sales", "North"]).1.create ["Sales", "East"]).1
    let t := (made.modify 1 fun f => { f with rank := some (.int 4) }).modify 2 fun f =>
      { f with rank := some (.int 2) }
    t.WellFormed ∧ RanksSiblings t.prepare t.normalize.value ∧
      (List.range 4).map (fun id => (t.prepare.family id).rank) =
        [some (.text ""), some (.int 4), some (.int 2), some (.text "east")] ∧
      (List.range 4).map (fun id => (t.normalize.value.family id).rank) =
        [some (.text ""), some (.int 4), some (.text "2"), some (.text "east")] := by
  intro made t
  have hreachable : t.Reachable :=
    .change 2 _ (.change 1 _ (.create _ (.create _ .empty (by decide)) (by decide)))
  have h : t.WellFormed := hreachable.wellFormed
  exact ⟨h, h.ranksSiblings_normalize, by decide +kernel, by decide +kernel⟩

end Catalog.Tree
