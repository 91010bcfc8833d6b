import Catalog.Proofs.Normal.NormalForm
import Catalog.Proofs.Search.Hits
import Catalog.Proofs.Text.Pieces
import Catalog.Proofs.Tree.WellFormed
import Mathlib.Algebra.GroupWithZero.Nat
import Mathlib.Data.List.Induction

/-!
# Results by families

A result keeps the items of a family under the path of the family as one text. Names without `/` can
be read off such a text again, except that the root and a family with an empty name have the same
text. Of a normal tree only one of the two can have items, so no two families share an entry.

* `Tree.IsHit` holds of the families with an item that a query fits, and `IsNormal.eq_of_pathText`
  says that their texts tell them apart;
* `Tree.Collected` says what a result holds of the families met so far: `collected_foldl` is the run
  over all of them;
* `Tree.aliasAt` is the alias of the family that a text names, and `get?_foldl_addAliases` says that
  the aliases of a result are a part of this function;
* `Tree.Groups` states what a result says about a query, and `groups_search` that every search on a
  normal tree says so.
-/

namespace Catalog

open Std

/-- A path is read off its text, unless it is empty. -/
theorem splitAt_pathText {path : List String} (hne : path ≠ [])
    (h : ∀ name ∈ path, '/' ∉ name.toList) : Text.splitAt '/' (Text.joinWith "/" path) = path :=
  Text.splitAt_joinWith hne h

namespace Tree

variable {t : Tree} {q : Query}

/-- A query fits some item of a family. -/
def IsHit (t : Tree) (q : Query) (id : Nat) : Prop := id < t.size ∧ t.fitting q id ≠ []

/-! ### Families apart -/

theorem WellFormed.mem_hits_iff (h : t.WellFormed) {hit : Nat × List Item} :
    hit ∈ t.hits q ↔ t.IsHit q hit.1 ∧ t.fitting q hit.1 = hit.2 := by
  rw [hits, List.mem_filter, List.mem_map]
  constructor
  · intro hex
    obtain ⟨⟨id, hid, rfl⟩, hne⟩ := hex
    exact ⟨⟨h.mem_all_iff.mp hid, by simpa using hne⟩, rfl⟩
  · intro hex
    obtain ⟨⟨hid, hne⟩, heq⟩ := hex
    refine ⟨⟨hit.1, h.mem_all_iff.mpr hid, by rw [heq]⟩, ?_⟩
    rw [← heq]
    simpa using hne

theorem WellFormed.sons_root_ne_nil (h : t.WellFormed) {id : Nat} (hid : id < t.size)
    (hne : id ≠ root) : t.sons root ≠ [] := by
  obtain ⟨son, hson, _⟩ := ((h.covers_iff_sons h.root_lt).mp (h.covers_root hid)).resolve_left hne
  exact List.ne_nil_of_mem hson

theorem IsNormal.not_hit_root (h : t.IsNormal) {id : Nat} (hid : id < t.size) (hne : id ≠ root) :
    ¬ t.IsHit q root := by
  intro hhit
  have hsons := WellFormed.hasSons_iff.mpr (h.wellFormed.sons_root_ne_nil hid hne)
  have hitems : t.items root = [] := by
    have hmixed := h.exclusive root
    rw [isMixed, hsons, Bool.true_and] at hmixed
    simpa using hmixed
  exact hhit.2 (by rw [fitting, hitems]; rfl)

/-- Of a normal tree, families with fitting items have texts of their own. -/
theorem IsNormal.eq_of_pathText (h : t.IsNormal) (hplain : t.IsPlain) {a b : Nat} (ha : t.IsHit q a)
    (hb : t.IsHit q b) (heq : t.pathText a = t.pathText b) : a = b := by
  by_cases hra : a = root
  · by_contra hne
    exact h.not_hit_root hb.1 (fun hrb => hne (hra.trans hrb.symm)) (hra ▸ ha)
  · by_cases hrb : b = root
    · exact absurd (hrb ▸ hb) (h.not_hit_root ha.1 hra)
    · have hpath : ∀ id < t.size, id ≠ root →
          Text.splitAt '/' (t.pathText id) = (t.node id).path := by
        intro id hid hne
        refine splitAt_pathText (fun hnil => hne ?_) (hplain id hid)
        exact h.wellFormed.path_injective hid h.wellFormed.root_lt
          (hnil.trans h.wellFormed.path_root.symm)
      refine h.wellFormed.path_injective ha.1 hb.1 ?_
      rw [← hpath a ha.1 hra, heq, hpath b hb.1 hrb]

theorem IsNormal.nodup_pathText (h : t.IsNormal) (hplain : t.IsPlain) (q : Query) :
    ((t.hits q).map fun hit => t.pathText hit.1).Nodup := by
  have hapart : (t.hits q).Pairwise fun a b => a.1 ≠ b.1 := by
    refine List.Pairwise.filter _ (List.pairwise_map.mpr ?_)
    exact h.wellFormed.nodup_all
  refine List.pairwise_map.mpr (hapart.imp_of_mem fun ha hb hne heq => hne ?_)
  exact h.eq_of_pathText hplain (h.wellFormed.mem_hits_iff.mp ha).1
    (h.wellFormed.mem_hits_iff.mp hb).1 heq

/-! ### Collecting -/

/-- The entry of a family in a result. -/
def entryOf (t : Tree) (hit : Nat × List Item) : String × List MatchedItem :=
  (t.pathText hit.1, hit.2.map Item.toMatched)

/-- What a result holds of the families met so far: an entry for each of them, and the aliases along
their paths. -/
structure Collected (t : Tree) (met : List (Nat × List Item)) (r : SearchResult) : Prop where
  found : r.found.entries.Perm (met.map t.entryOf)
  aliases : r.aliases = met.foldl (fun known hit => t.addAliases known hit.1) ∅

theorem addHit_of_new {r : SearchResult} {hit : Nat × List Item}
    (h : r.found.get? (t.pathText hit.1) = none) : t.addHit r hit = { r with
      found := r.found.insert (t.pathText hit.1) (hit.2.map Item.toMatched)
      aliases := t.addAliases r.aliases hit.1 } := by
  rw [addHit, h]

theorem collected_addHit {met : List (Nat × List Item)} {r : SearchResult} {hit : Nat × List Item}
    (hr : t.Collected met r) (hnew : t.pathText hit.1 ∉ met.map fun other => t.pathText other.1) :
    t.Collected (met ++ [hit]) (t.addHit r hit) := by
  have hnone : r.found.get? (t.pathText hit.1) = none := by
    rw [Option.eq_none_iff_forall_ne_some]
    intro matched hsome
    obtain ⟨other, hother, heq⟩ :=
      List.mem_map.mp (hr.found.mem_iff.mp (SortedMap.mem_entries_iff.mpr hsome))
    exact hnew (List.mem_map.mpr ⟨other, hother, congrArg Prod.fst heq⟩)
  rw [addHit_of_new hnone]
  refine ⟨?_, ?_⟩
  · rw [List.map_append, List.map_singleton]
    refine (SortedMap.perm_insert hnone).trans ?_
    exact (hr.found.cons (t.entryOf hit)).trans (List.perm_append_singleton _ _).symm
  · rw [List.foldl_append, ← hr.aliases]
    rfl

theorem collected_foldl {hits : List (Nat × List Item)}
    (h : (hits.map fun hit => t.pathText hit.1).Nodup) :
    t.Collected hits (hits.foldl t.addHit {}) := by
  induction hits using List.reverseRecOn with
  | nil => exact ⟨List.Perm.refl _, rfl⟩
  | append_singleton met hit ih =>
    rw [List.map_append, List.map_singleton, List.nodup_append] at h
    rw [List.foldl_append]
    refine collected_addHit (ih h.1) fun hmem => ?_
    exact h.2.2 _ hmem _ List.mem_cons_self rfl

/-! ### Aliases -/

theorem mem_upperPaths_iff {path upper : List String} :
    upper ∈ upperPaths path false ↔ upper ≠ [] ∧ upper <+: path := by
  simp only [upperPaths, List.mem_map, List.mem_range'_1, Bool.false_eq_true, if_false]
  constructor
  · rintro ⟨n, hn, rfl⟩
    refine ⟨?_, List.take_prefix n _⟩
    rw [← List.length_pos_iff, List.length_take]
    omega
  · intro hex
    have hpos := List.length_pos_iff.mpr hex.1
    have hle := hex.2.length_le
    exact ⟨upper.length, by omega, (List.prefix_iff_eq_take.mp hex.2).symm⟩

theorem mem_lineage_iff {id : Nat} {path : List String} {upper : Nat} :
    (path, upper) ∈ t.lineage id ↔
      (path ≠ [] ∧ path <+: (t.node id).path) ∧ t.find? path = some upper := by
  simp only [lineage, List.mem_filterMap, Option.map_eq_some_iff, Prod.mk.injEq]
  constructor
  · rintro ⟨_, hmem, _, hfind, rfl, rfl⟩
    exact ⟨mem_upperPaths_iff.mp hmem, hfind⟩
  · intro hex
    exact ⟨path, mem_upperPaths_iff.mpr hex.1, upper, hex.2, rfl, rfl⟩

/-- The alias of the family whose path is a text. -/
def aliasAt (t : Tree) (key : String) : String :=
  ((t.find? (Text.splitAt '/' key)).map fun upper => (t.family upper).aliasText).getD ""

/-- The texts of the paths that lead to a family. -/
def lineageKeys (t : Tree) (id : Nat) : List String :=
  (t.lineage id).map fun upper => Text.joinWith "/" upper.1

theorem IsPlain.aliasAt_of_prefix (hplain : t.IsPlain) {id upper : Nat} (hid : id < t.size)
    {path : List String} (hne : path ≠ []) (hpre : path <+: (t.node id).path)
    (hfind : t.find? path = some upper) :
    t.aliasAt (Text.joinWith "/" path) = (t.family upper).aliasText := by
  rw [aliasAt, splitAt_pathText hne fun name hname => hplain id hid name (hpre.subset hname), hfind]
  rfl

theorem IsPlain.addAliases_eq (hplain : t.IsPlain) {id : Nat} (hid : id < t.size)
    (known : SortedMap String String) : t.addAliases known id =
      (t.lineageKeys id).foldl (fun known key => known.insert key (t.aliasAt key)) known := by
  rw [addAliases, lineageKeys, List.foldl_map]
  refine List.foldl_ext _ _ known fun known upper hmem => ?_
  obtain ⟨⟨hne, hpre⟩, hfind⟩ := mem_lineage_iff.mp hmem
  rw [hplain.aliasAt_of_prefix hid hne hpre hfind]

/-- The aliases along the paths of some families are those that the texts of these paths have. -/
theorem IsPlain.get?_foldl_addAliases (hplain : t.IsPlain) {met : List (Nat × List Item)}
    (hmet : ∀ hit ∈ met, hit.1 < t.size) {key shown : String} :
    (met.foldl (fun known hit => t.addAliases known hit.1) ∅).get? key = some shown ↔
      (∃ hit ∈ met, key ∈ t.lineageKeys hit.1) ∧ t.aliasAt key = shown := by
  have hfold : met.foldl (fun known hit => t.addAliases known hit.1) ∅ =
      (met.flatMap fun hit => t.lineageKeys hit.1).foldl
        (fun known key => known.insert key (t.aliasAt key)) ∅ := by
    rw [List.foldl_flatMap]
    exact List.foldl_ext _ _ _ fun known hit hmem => hplain.addAliases_eq (hmet hit hmem) known
  rw [hfold, SortedMap.get?_foldl_insert, List.mem_flatMap]
  simp

/-! ### Families in order -/

/-- The order in which families are listed: that of their texts in lower case and, where these
agree, of the texts as they are. -/
def compareListed (a b : String) : Ordering := compareLex (compareOn Text.lower) compare a b

instance : TransCmp compareListed :=
  inferInstanceAs (TransCmp (compareLex (compareOn Text.lower) compare))

instance : LawfulEqCmp compareListed where
  eq_of_compare h := LawfulEqOrd.eq_of_compare (compareLex_eq_eq.mp h).2

theorem increasing_listed {keys : List String} (h : keys.Nodup) :
    (keys.mergeSort listedBefore).Pairwise fun a b => compareListed a b = .lt :=
  pairwise_mergeSort_lt compareListed (h.imp fun hne heq => hne (LawfulEqCmp.eq_of_compare heq))

/-! ### What a result says -/

/-- The result of a search says about a tree what the query finds there: the fitting items of every
family under the path of this family, and the aliases along these paths. -/
structure Groups (t : Tree) (q : Query) (r : SearchResult) : Prop where
  /-- The families with fitting items are the keys, and their fitting items the values, in order.
  Each is shown with its title, its text, its labels and its number. -/
  found : ∀ key matched, r.found.get? key = some matched ↔
    ∃ id, t.IsHit q id ∧ t.pathText id = key ∧ ((t.fitting q id).map fun item =>
      { title := item.title, text := item.text, labels := Label.sortedForDisplay item.labels.toList,
        number := item.number }) = matched
  /-- No two families share a key. -/
  apart : ∀ a b, t.IsHit q a → t.IsHit q b → t.pathText a = t.pathText b → a = b
  count : r.count = (r.found.values.map List.length).sum
  families : r.families.Perm r.found.keys
  increasing : r.families.Pairwise fun a b =>
    (compare (Text.lower a) (Text.lower b)).then (compare a b) = .lt
  /-- The paths that lead to a family with fitting items are the keys, and the aliases of the
  families there the values. -/
  aliases : ∀ key shown, r.aliases.get? key = some shown ↔
    ∃ id path upper, t.IsHit q id ∧ path ≠ [] ∧ path <+: (t.node id).path ∧
      t.find? path = some upper ∧ Text.joinWith "/" path = key ∧ (t.family upper).aliasText = shown
  /-- There is a family at the end of each of these paths. -/
  upper : ∀ id path, t.IsHit q id → path <+: (t.node id).path → ∃ upper, t.find? path = some upper

theorem WellFormed.exists_find?_of_prefix (h : t.WellFormed) {id : Nat} (hid : id < t.size)
    {path : List String} (hpre : path <+: (t.node id).path) :
    ∃ upper, t.find? path = some upper := by
  obtain ⟨rest, heq⟩ := hpre
  have hfind := h.find?_path hid
  rw [← heq, find?, findBelow?_append, Option.bind_eq_some_iff] at hfind
  obtain ⟨upper, hupper, _⟩ := hfind
  exact ⟨upper, hupper⟩

theorem IsPlain.aliasAt_eq_iff (hplain : t.IsPlain) {id : Nat} (hid : id < t.size)
    {key shown : String} :
    (key ∈ t.lineageKeys id ∧ t.aliasAt key = shown) ↔
      ∃ path upper, path ≠ [] ∧ path <+: (t.node id).path ∧ t.find? path = some upper ∧
        Text.joinWith "/" path = key ∧ (t.family upper).aliasText = shown := by
  rw [lineageKeys, List.mem_map]
  constructor
  · rintro ⟨⟨⟨path, upper⟩, hmem, rfl⟩, rfl⟩
    obtain ⟨⟨hne, hpre⟩, hfind⟩ := mem_lineage_iff.mp hmem
    exact ⟨path, upper, hne, hpre, hfind, rfl, (hplain.aliasAt_of_prefix hid hne hpre hfind).symm⟩
  · rintro ⟨path, upper, hne, hpre, hfind, rfl, rfl⟩
    exact ⟨⟨(path, upper), mem_lineage_iff.mpr ⟨⟨hne, hpre⟩, hfind⟩, rfl⟩,
      hplain.aliasAt_of_prefix hid hne hpre hfind⟩

theorem Collected.count_eq {met : List (Nat × List Item)} {r : SearchResult}
    (hr : t.Collected met r) :
    (r.found.values.map List.length).sum = (met.flatMap fun hit => hit.2).length := by
  have hvalues : r.found.values.Perm ((met.map t.entryOf).map Prod.snd) := hr.found.map Prod.snd
  rw [(hvalues.map List.length).sum_nat, List.length_flatMap]
  simp [entryOf, Function.comp_def]

/-- A search on a normal tree groups what it finds by families. -/
theorem IsNormal.groups_search (h : t.IsNormal) (hplain : t.IsPlain) (q : Query) :
    t.Groups q (t.search q false) := by
  have hcollected := collected_foldl (h.nodup_pathText hplain q)
  have hsize : ∀ hit ∈ t.hits q, hit.1 < t.size :=
    fun hit hmem => (h.wellFormed.mem_hits_iff.mp hmem).1.1
  let r := (t.hits q).foldl t.addHit {}
  have hkeys : r.found.keys.Nodup := by
    have hperm : r.found.keys.Perm ((t.hits q).map fun hit => t.pathText hit.1) := by
      have hmap := hcollected.found.map Prod.fst
      rwa [List.map_map] at hmap
    exact hperm.nodup_iff.mpr (h.nodup_pathText hplain q)
  refine ⟨fun key matched => ?_, fun a b => h.eq_of_pathText hplain, ?_, List.mergeSort_perm _ _,
    increasing_listed hkeys, fun key shown => ?_, fun id path hhit => ?_⟩
  · show r.found.get? key = some matched ↔ _
    rw [← SortedMap.mem_entries_iff, hcollected.found.mem_iff, List.mem_map]
    constructor
    · rintro ⟨hit, hmem, heq⟩
      obtain ⟨hhit, hitems⟩ := h.wellFormed.mem_hits_iff.mp hmem
      rw [entryOf, Prod.mk.injEq, ← hitems] at heq
      exact ⟨hit.1, hhit, heq.1, heq.2⟩
    · rintro ⟨id, hhit, rfl, rfl⟩
      exact ⟨(id, t.fitting q id), h.wellFormed.mem_hits_iff.mpr ⟨hhit, rfl⟩, rfl⟩
  · rw [count_search]
    exact hcollected.count_eq.symm
  · show r.aliases.get? key = some shown ↔ _
    rw [hcollected.aliases, hplain.get?_foldl_addAliases hsize]
    constructor
    · rintro ⟨⟨hit, hmem, hkey⟩, hshown⟩
      obtain ⟨path, upper, hrest⟩ := (hplain.aliasAt_eq_iff (hsize hit hmem)).mp ⟨hkey, hshown⟩
      exact ⟨hit.1, path, upper, (h.wellFormed.mem_hits_iff.mp hmem).1, hrest⟩
    · rintro ⟨id, path, upper, hhit, hrest⟩
      obtain ⟨hkey, hshown⟩ := (hplain.aliasAt_eq_iff hhit.1).mpr ⟨path, upper, hrest⟩
      exact ⟨⟨(id, t.fitting q id), h.wellFormed.mem_hits_iff.mpr ⟨hhit, rfl⟩, hkey⟩, hshown⟩
  · exact h.wellFormed.exists_find?_of_prefix hhit.1

/-- Every search on a tree made normal groups what it finds by families, and a headless one keeps
the count only. -/
theorem groups_search_normalize (h : t.Reachable) (hplain : t.normalize.value.IsPlain) (q : Query) :
    t.normalize.value.Groups q (t.normalize.value.search q false) ∧
      t.normalize.value.search q true = { count := (t.normalize.value.search q false).count } :=
  ⟨h.wellFormed.isNormal_normalize.groups_search hplain q, rfl⟩

/-- Of the items of two families a query finds the one in the inner family. The family above it
gives its alias too. -/
theorem groups_search_normalize_of_inner_family :
    let made := (((∅ : Tree).create ["Sales", "North"]).1.create ["Ops"]).1
    let filled := made.modify 2 fun f =>
      { f with items := [{ title := "Revenue", text := "per *month*" }] }
    let t := filled.modify 3 fun f => { f with items := [{ title := "Costs" }] }
    let q := Query.parse "rev"
    let r := t.normalize.value.search q false
    (t.Reachable ∧ t.normalize.value.IsPlain) ∧
      t.normalize.value.Groups q r ∧ t.normalize.value.search q true = { count := r.count } ∧
      r.found.entries = [("Sales/North", [⟨"Revenue", "per *month*", [], some 1⟩])] ∧
      r.aliases.entries = [("Sales", "Sales"), ("Sales/North", "North")] ∧ r.count = 1 := by
  intro made filled t q r
  have h : t.Reachable :=
    .change 3 _ (.change 2 _ (.create _ (.create _ .empty (by decide)) (by decide)))
  have hplain : t.normalize.value.IsPlain := by decide +kernel
  obtain ⟨hgroups, hheadless⟩ := groups_search_normalize h hplain q
  exact ⟨⟨h, hplain⟩, hgroups, hheadless, by decide +kernel, by decide +kernel, by decide +kernel⟩

end Tree

end Catalog
