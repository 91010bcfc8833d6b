import Catalog.Proofs.Load.Directory
import Catalog.Proofs.Load.Families
import Catalog.Proofs.Normal.Agreement
import Catalog.Proofs.Record.Values

/-!
# Families exported and loaded again

Loading the exported families into a fresh tree of the same records gives the tree that was exported
without the values that say nothing. Most of these mean the same as no value, but not all.

* `Tree.SurvivesExport` says which values may be left out, and `agrees_reload_iff` that it is
  exactly then that the tree and the reloaded one show the same;
* `not_agrees_of_empty_alias` is a tree that does not survive.
-/

namespace Catalog

namespace Tree

variable {t u : Tree}

/-! ### Trees that only records have told about -/

/-- Only records have told about the families of the tree. -/
def IsDescribed (t : Tree) : Prop := ∀ id, (t.family id).IsDescribed

section Described

variable (h : t.WellFormed) (ht : t.IsDescribed) {id : Nat} (hid : id < t.prepare.size)

include h ht hid

theorem IsDescribed.text_prepare : (t.prepare.family id).text = (t.family id).shownText := by
  rw [h.family_prepare hid]
  exact ((ht id).moveItems _).text_prepared _

theorem IsDescribed.aliasName_prepare : (t.prepare.family id).aliasName =
    some ((t.family id).shownAlias ((t.prepare.node id).name?.getD "")) := by
  rw [h.family_prepare hid]
  exact ((ht id).moveItems _).aliasName_prepared _

theorem IsDescribed.ownLabels_prepare : t.prepare.ownLabels id = (t.family id).givenLabels := by
  rw [ownLabels, h.family_prepare hid]
  exact ((ht id).moveItems _).labels_prepared _

end Described

theorem lt_size_of_aliasName {id : Nat} {v : Value}
    (hv : (t.family id).pending.aliasName = some v) : id < t.size := by
  by_contra hid
  rw [family_of_size_le (by omega)] at hv
  cases hv

/-! ### Exporting and loading again -/

theorem sameItems_exported (t : Tree) : SameItems t t.exported where
  toSameLinks := sameLinks_mapFamilies t _
  items id := by
    rw [items, family_exported]
    rfl

theorem IsDescribed.exported (ht : t.IsDescribed) : t.exported.IsDescribed := by
  intro id
  rw [family_exported]
  exact (ht id).reloaded

/-- What the values that say nothing, and are left out of an export, must be for the export to lose
nothing: texts no empty collections, aliases the names of the families, and labels there in any
case. -/
structure SurvivesExport (t : Tree) : Prop where
  text : ∀ id, (t.family id).pending.text ≠ some (.list []) ∧
    (t.family id).pending.text ≠ some (.map [])
  aliasName : ∀ id v, (t.family id).pending.aliasName = some v → v.isFilled = false →
    v.isNull = false → v.toText = (t.node id).name?.getD ""
  labels : ∀ id v, (t.family id).pending.labels = some v → v.isFilled = false →
    ∀ l ∈ v.toLabels.value, ∀ n, t.prepare.Covers id n → t.exported.prepare.Retains n l

section Survival

variable (h : t.WellFormed) (ht : t.IsDescribed)

include h

theorem WellFormed.exported : t.exported.WellFormed :=
  (sameItems_exported t).toSameLinks.wellFormed h

theorem WellFormed.sameItems_prepare_exported : SameItems t.prepare t.exported.prepare :=
  (sameItems_exported t).prepare h

include ht

theorem IsDescribed.sameTexts_iff :
    (∀ id < t.prepare.size, (t.exported.prepare.family id).text = (t.prepare.family id).text) ↔
      ∀ id, (t.family id).pending.text ≠ some (.list []) ∧
        (t.family id).pending.text ≠ some (.map []) := by
  have htext : ∀ id < t.prepare.size,
      (t.exported.prepare.family id).text = (t.prepare.family id).text ↔
        (t.family id).pending.text ≠ some (.list []) ∧
          (t.family id).pending.text ≠ some (.map []) := by
    intro id hid
    rw [ht.text_prepare h hid,
      ht.exported.text_prepare h.exported (h.sameItems_prepare_exported.lt_size hid),
      family_exported, Family.shownText_reloaded_eq_iff]
  constructor
  · intro hsame id
    rcases Nat.lt_or_ge id t.size with hid | hge
    · have hid' : id < t.prepare.size := Nat.lt_of_lt_of_le hid h.size_le_prepare
      exact (htext id hid').mp (hsame id hid')
    · rw [family_of_size_le hge]
      exact ⟨nofun, nofun⟩
  · intro hall id hid
    exact (htext id hid).mpr (hall id)

theorem IsDescribed.sameAliases_iff :
    (∀ id < t.prepare.size, (t.exported.prepare.family id).aliasName =
      (t.prepare.family id).aliasName) ↔
      ∀ id v, (t.family id).pending.aliasName = some v → v.isFilled = false → v.isNull = false →
        v.toText = (t.node id).name?.getD "" := by
  have halias : ∀ id < t.prepare.size,
      (t.exported.prepare.family id).aliasName = (t.prepare.family id).aliasName ↔
        ∀ v, (t.family id).pending.aliasName = some v → v.isFilled = false → v.isNull = false →
          v.toText = (t.prepare.node id).name?.getD "" := by
    intro id hid
    have hlinks := h.sameItems_prepare_exported
    rw [ht.aliasName_prepare h hid, ht.exported.aliasName_prepare h.exported (hlinks.lt_size hid),
      family_exported, Node.name?, hlinks.path, Node.name?, Option.some.injEq,
      Family.shownAlias_reloaded_eq_iff]
  have hname : ∀ id < t.size, (t.prepare.node id).name? = (t.node id).name? := by
    intro id hid
    rw [Node.name?, Node.name?, h.path_prepare hid]
  constructor
  · intro hsame id v hv
    have hid : id < t.size := lt_size_of_aliasName hv
    have hid' : id < t.prepare.size := Nat.lt_of_lt_of_le hid h.size_le_prepare
    rw [← hname id hid]
    exact (halias id hid').mp (hsame id hid') v hv
  · intro hall id hid
    refine (halias id hid).mpr fun v hv => ?_
    have hold : id < t.size := lt_size_of_aliasName hv
    rw [hname id hold]
    exact hall id v hv

theorem IsDescribed.mem_ownLabels_prepare_iff {id : Nat} (hid : id < t.prepare.size) {l : Label} :
    l ∈ t.prepare.ownLabels id ↔ l ∈ t.exported.prepare.ownLabels id ∨
      ∃ v, (t.family id).pending.labels = some v ∧ v.isFilled = false ∧ l ∈ v.toLabels.value := by
  rw [ht.ownLabels_prepare h hid, ht.exported.ownLabels_prepare h.exported
    (h.sameItems_prepare_exported.lt_size hid), family_exported, Family.mem_givenLabels_iff]

theorem IsDescribed.sameSpread_iff :
    SameSpread t.prepare t.exported.prepare ↔
      ∀ id v, (t.family id).pending.labels = some v → v.isFilled = false → ∀ l ∈ v.toLabels.value,
        ∀ n, t.prepare.Covers id n → t.exported.prepare.Retains n l := by
  have hlinks := h.sameItems_prepare_exported
  have hless : ∀ id, ∀ l ∈ t.exported.prepare.ownLabels id, l ∈ t.prepare.ownLabels id := by
    intro id l hl
    rcases Nat.lt_or_ge id t.prepare.size with hid | hge
    · exact (ht.mem_ownLabels_prepare_iff h hid).mpr (Or.inl hl)
    · rw [ownLabels, family_of_size_le (by rw [hlinks.size]; exact hge)] at hl
      cases hl
  rw [hlinks.sameSpread_iff h.prepare hless]
  constructor
  · intro hretains id v hv hempty l hl n hc
    refine hretains id n hc l ?_
    exact (ht.mem_ownLabels_prepare_iff h hc.1).mpr (Or.inr ⟨v, hv, hempty, hl⟩)
  · intro hsurvives id n hc l hl
    rcases (ht.mem_ownLabels_prepare_iff h hc.1).mp hl with hkept | ⟨v, hv, hempty, hl⟩
    · exact Or.inl ⟨id, hlinks.toSameLinks.covers_iff.mpr hc, hkept⟩
    · exact hsurvives id v hv hempty l hl n hc

/-- What is left of a tree by an export shows the same exactly if nothing that matters is left
out. -/
theorem IsDescribed.agrees_exported_iff :
    Agrees t.normalize.value t.exported.normalize.value ↔ t.SurvivesExport := by
  have hrank : (∀ id < t.prepare.size,
      (t.exported.prepare.family id).aliasName = (t.prepare.family id).aliasName) →
      ∀ id < t.prepare.size, (t.exported.prepare.family id).rank = (t.prepare.family id).rank := by
    intro halias id hid
    rw [h.rank_prepare hid, h.exported.rank_prepare (h.sameItems_prepare_exported.lt_size hid),
      halias id hid, family_exported]
    rfl
  rw [normalize_eq_finish, normalize_eq_finish,
    h.sameItems_prepare_exported.agrees_finish_iff h.prepare hrank, ht.sameTexts_iff h,
    ht.sameAliases_iff h, ht.sameSpread_iff h]
  constructor
  · intro hex
    obtain ⟨htext, halias, hlabels⟩ := hex
    exact ⟨htext, halias, hlabels⟩
  · intro hex
    obtain ⟨htext, halias, hlabels⟩ := hex
    exact ⟨htext, halias, hlabels⟩

end Survival

/-- Take the tree of any records and describe its families by any documents. Its export, applied to
a new tree of the same records, shows the same exactly if the values that an export leaves out do
not matter. -/
theorem agrees_reload_iff (fs : FileSystem) (root : String) (documents : List Value) :
    let fresh := (fs.buildTree root .records).value
    let t := fresh.describe documents
    Agrees t.normalize.value (fresh.reload t).normalize.value ↔ t.SurvivesExport := by
  intro fresh t
  have hfresh : fresh.IsFresh := fs.isFresh_buildTree root
  have ht : Describes fresh t := hfresh.describes_describe documents
  rw [ht.reload_eq hfresh]
  exact IsDescribed.agrees_exported_iff (ht.links.wellFormed hfresh.wellFormed) ht.described

end Tree

/-! ### An alias that gets lost -/

/-- A data root with one record, which names a family. -/
def opsFiles : FileSystem :=
  ({} : FileSystem).put ["data", "ops.txt"] (.file (some "family: Ops\n"))

/-- The entries of that record. -/
def opsRecord : Entries := [(.text "family", .text "Ops")]

theorem read_opsRecord : Yaml.read "family: Ops\n" = .ok (.map opsRecord) :=
  read_family (by decide +kernel) ⟨rfl, rfl⟩

theorem buildTree_opsFiles :
    (opsFiles.buildTree "data" .records).value =
      ((∅ : Tree).addRecord opsRecord "data/ops.txt" "data").value :=
  FileSystem.buildTree_ofRecordText read_opsRecord

/-- An empty alias hides the name of a family, but it is not exported, and the name comes back. -/
theorem not_agrees_of_empty_alias :
    let fresh := (opsFiles.buildTree "data" .records).value
    let t := fresh.describe
      [.list [.map [(.text "family", .text "Ops"), (.text "alias", .text "")]]]
    ¬ Tree.Agrees t.normalize.value (fresh.reload t).normalize.value := by
  intro fresh t hagrees
  have hfresh : fresh.IsFresh := opsFiles.isFresh_buildTree "data"
  have hreload : fresh.reload t = t.exported := (hfresh.describes_describe _).reload_eq hfresh
  have ht : t = Tree.describe ((∅ : Tree).addRecord opsRecord "data/ops.txt" "data").value
      [.list [.map [(.text "family", .text "Ops"), (.text "alias", .text "")]]] := by
    rw [← buildTree_opsFiles]
  rw [hreload, ht] at hagrees
  exact absurd (hagrees.aliasName 1 (by decide +kernel)) (by decide +kernel)

end Catalog
