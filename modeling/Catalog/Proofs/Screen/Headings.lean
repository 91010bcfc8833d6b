import Catalog.Proofs.Load.Contents
import Catalog.Proofs.Load.Directory
import Catalog.Proofs.Load.Sources
import Catalog.Proofs.Search.Grouping
import Catalog.Proofs.Text.Cutting
import Catalog.Screen.Results

/-!
# Headings of families

A family with found items is shown under its path, and if some family on the path has an alias other
than its name, then the aliases along the path should follow. A result knows the path as one text
only: it cuts the text into names again, passes over empty ones, looks their aliases up and compares
the two texts, after ` > ` has been exchanged for `/`.

* `Tree.trail` are the aliases along a path, and `Tree.dueHeading` is the heading that a family
  should have;
* `Tree.shownTrail` is what a result has for these aliases, by `IsNormal.breadcrumb_search`;
* `AreApart` holds of names that ` > ` keeps apart;
* `Tree.HeadsFamilies` says which headings of a result are right, and `headsFamilies_load` that this
  holds of every search on a loaded tree; `headings_wrong_of_separators` are headings that are
  wrong.
-/

namespace Catalog

/-! ### Lines -/

/-- The path of a family on a line of its own, and a text behind it if there is one. -/
def headingLine (path behind : String) : List Span :=
  [⟨if path == "" then "/" else path, some { bold := true, foreground := some (.basic 5) }⟩] ++
    (if behind != "" then [⟨"  " ++ behind, some { dimmed := true }⟩] else []) ++ [Span.ofText "\n"]

theorem headingLine_inj {path a b : String} : headingLine path a = headingLine path b ↔ a = b := by
  refine ⟨fun h => ?_, fun h => h ▸ rfl⟩
  by_cases ha : a = "" <;> by_cases hb : b = "" <;> simp_all [headingLine]

/-- What is shown behind a path for some names, which may be aliases. -/
def textBehind (path : String) (names : List String) : String :=
  let joined := Text.joinWith " > " names
  if Text.replaceAll " > " "/" joined = path then "" else joined

theorem SearchResult.headingSpans_eq (r : SearchResult) (path : String) :
    r.headingSpans path = headingLine path (textBehind path (r.breadcrumb path)) := by
  rw [headingSpans, headingLine, textBehind]
  by_cases hsame : Text.replaceAll " > " "/" (Text.joinWith " > " (r.breadcrumb path)) =
    path <;> simp [hsame]

/-! ### Names apart -/

/-- Names that ` > ` keeps apart: it is in none of them, and none but the last ends in ` >`. -/
def AreApart (names : List String) : Prop :=
  (∀ name ∈ names, Text.contains name " > " = false) ∧
  ∀ name ∈ names.dropLast, ¬ " >".toList <:+ name.toList

instance (names : List String) : Decidable (AreApart names) :=
  inferInstanceAs (Decidable (_ ∧ _))

theorem concat_suffix_concat_iff {a b : Char} {xs ys : List Char} :
    xs ++ [a] <:+ ys ++ [b] ↔ a = b ∧ xs <:+ ys := by
  rw [← List.reverse_prefix, List.reverse_concat, List.reverse_concat, List.cons_prefix_cons,
    List.reverse_prefix]

/-- ` > ` can only start two characters before the separator behind a name, or else within the
name. -/
theorem infix_append_pair_iff {a b : Char} (hne : a ≠ b) {s : List Char} :
    [a, b, a] <:+: s ++ [a, b] ↔ [a, b] <:+ s ∨ [a, b, a] <:+: s := by
  have hword : [a, b, a] = [a, b] ++ [a] := rfl
  have hbehind : s ++ [a, b] = s ++ [a] ++ [b] := by
    rw [List.append_assoc]
    rfl
  rw [hbehind, List.infix_concat_iff, List.infix_concat_iff, hword, concat_suffix_concat_iff,
    concat_suffix_concat_iff]
  constructor
  · rintro (⟨heq, _⟩ | ⟨_, hsuffix⟩ | hinfix)
    · exact absurd heq hne
    · exact .inl hsuffix
    · exact .inr hinfix
  · rintro (hsuffix | hinfix)
    · exact .inr (.inl ⟨rfl, hsuffix⟩)
    · exact .inr (.inr hinfix)

theorem areApart_iff {names : List String} :
    AreApart names ↔ Text.KeptApart " > ".toList (names.map String.toList) := by
  have hinside : ∀ name : String, Text.contains name " > " = false ↔
      ¬ " > ".toList <:+: name.toList := by
    intro name
    rw [← Text.contains_iff, Bool.not_eq_true]
  have hbehind : ∀ name : String, ¬ " > ".toList <:+: name.toList ++ " > ".toList.dropLast ↔
      ¬ " >".toList <:+ name.toList ∧ Text.contains name " > " = false := by
    intro name
    rw [hinside, ← not_or]
    exact not_congr (infix_append_pair_iff (by decide))
  constructor
  · intro h
    constructor
    · rw [List.forall_mem_map]
      exact fun name hname => (hinside name).mp (h.1 name hname)
    · rw [← List.map_dropLast, List.forall_mem_map]
      exact fun name hname =>
        (hbehind name).mpr ⟨h.2 name hname, h.1 name (List.dropLast_subset names hname)⟩
  · intro h
    constructor
    · intro name hname
      exact (hinside name).mpr (h.inside _ (List.mem_map_of_mem hname))
    · intro name hname
      refine ((hbehind name).mp (h.across _ ?_)).1
      rw [← List.map_dropLast]
      exact List.mem_map_of_mem hname

namespace Tree

variable {t : Tree} {q : Query} {id : Nat}

/-! ### Right headings -/

/-- The aliases of the families on the path of a family, from the outermost one below the root to
the family itself. -/
def trail (t : Tree) (id : Nat) : List String :=
  (t.lineage id).map fun upper => (t.family upper.2).aliasText

/-- Some family on the path of a family, below the root, has an alias other than its own name. -/
def IsRenamed (t : Tree) (id : Nat) : Prop :=
  ∃ upper ∈ t.lineage id, some (t.family upper.2).aliasText ≠ (t.node upper.2).name?

instance (t : Tree) (id : Nat) : Decidable (t.IsRenamed id) :=
  inferInstanceAs (Decidable (∃ upper ∈ t.lineage id, _))

/-- What should stand behind the path of a family. -/
def dueBehind (t : Tree) (id : Nat) : String :=
  if t.IsRenamed id then Text.joinWith " > " (t.trail id) else ""

/-- The heading that a family should have. -/
def dueHeading (t : Tree) (id : Nat) : List Span := headingLine (t.pathText id) (t.dueBehind id)

/-- The upper paths of some names are the starts of the names that end in one of them. -/
theorem map_upperPaths {α : Type} (f : List String → String → α) (names : List String) :
    (upperPaths names false).map (fun path => f path (path.getLast?.getD "")) =
      (names.zipIdx 1).map fun numbered => f (names.take numbered.2) numbered.1 := by
  apply List.ext_getElem
  · simp [upperPaths]
  · intro i _ h
    have hi : i < names.length := by simpa using h
    have hlast : (names.take (i + 1)).getLast?.getD "" = names[i] := by
      rw [List.take_succ_eq_append_getElem hi, List.getLast?_concat, Option.getD_some]
    simp [upperPaths, Nat.add_comm 1 i, hlast]

theorem map_getLast?_upperPaths (names : List String) :
    (upperPaths names false).map List.getLast? = names.map some := by
  have hends : (upperPaths names false).map List.getLast? =
      (upperPaths names false).map fun path => some (path.getLast?.getD "") := by
    refine List.map_congr_left fun path hpath => ?_
    obtain ⟨hne, _⟩ := mem_upperPaths_iff.mp hpath
    rw [List.getLast?_eq_some_getLast hne, Option.getD_some]
  have hfirst : (names.zipIdx 1).map (fun numbered => some numbered.1) =
      ((names.zipIdx 1).map Prod.fst).map some := by
    rw [List.map_map]
    rfl
  rw [hends, map_upperPaths fun _ name => some name, hfirst, List.zipIdx_map_fst]

theorem WellFormed.map_lineage (h : t.WellFormed) (hid : id < t.size) {α : Type}
    (f : List String × Nat → α) (g : List String → α)
    (hfg : ∀ upper ∈ t.lineage id, f upper = g upper.1) :
    (t.lineage id).map f = (upperPaths (t.node id).path false).map g := by
  rw [lineage, List.map_filterMap, List.filterMap_eq_map_iff_forall_eq_some]
  intro path hpath
  obtain ⟨hne, hpre⟩ := mem_upperPaths_iff.mp hpath
  obtain ⟨upper, hfind⟩ := h.exists_find?_of_prefix hid hpre
  rw [hfind]
  exact congrArg some (hfg (path, upper) (mem_lineage_iff.mpr ⟨⟨hne, hpre⟩, hfind⟩))

theorem WellFormed.map_name?_lineage (h : t.WellFormed) (hid : id < t.size) :
    (t.lineage id).map (fun upper => (t.node upper.2).name?) = (t.node id).path.map some := by
  rw [← map_getLast?_upperPaths, h.map_lineage hid]
  rintro ⟨path, upper⟩ hmem
  obtain ⟨_, hfind⟩ := mem_lineage_iff.mp hmem
  rw [Node.name?, (h.find?_eq_some_iff.mp hfind).2]

theorem WellFormed.length_trail (h : t.WellFormed) (hid : id < t.size) :
    (t.trail id).length = (t.node id).path.length := by
  have hlength := congrArg List.length (h.map_name?_lineage hid)
  rwa [List.length_map, List.length_map,
    ← List.length_map (f := fun upper => (t.family upper.2).aliasText)] at hlength

/-- No family on the path is renamed exactly if the aliases are the names. -/
theorem WellFormed.not_isRenamed_iff (h : t.WellFormed) (hid : id < t.size) :
    ¬ t.IsRenamed id ↔ t.trail id = (t.node id).path := by
  have hsome : t.trail id = (t.node id).path ↔ (t.trail id).map some = (t.node id).path.map some :=
    (List.map_inj_right fun _ _ => Option.some.inj).symm
  rw [hsome, ← h.map_name?_lineage hid, trail, List.map_map, List.map_inj_left, IsRenamed]
  simp

/-! ### Looking aliases up -/

/-- The last name of a path as a result has it: in the alias of the family there, if this family or
one below it has found items. -/
def shownName (t : Tree) (q : Query) (path : List String) : String :=
  if (t.hits q).any fun hit => path.isPrefixOf (t.node hit.1).path then
    ((t.find? path).map fun upper => (t.family upper).aliasText).getD ""
  else path.getLast?.getD ""

/-- What a result has for the aliases along the path of a family. Empty names are passed over. -/
def shownTrail (t : Tree) (q : Query) (id : Nat) : List String :=
  (upperPaths ((t.node id).path.filter (· != "")) false).map (t.shownName q)

theorem WellFormed.any_hits_iff (h : t.WellFormed) {path : List String} :
    ((t.hits q).any fun hit => path.isPrefixOf (t.node hit.1).path) = true ↔
      ∃ id, t.IsHit q id ∧ path <+: (t.node id).path := by
  rw [List.any_eq_true]
  constructor
  · rintro ⟨hit, hmem, hpre⟩
    exact ⟨hit.1, (h.mem_hits_iff.mp hmem).1, List.isPrefixOf_iff_prefix.mp hpre⟩
  · rintro ⟨id, hhit, hpre⟩
    exact ⟨(id, t.fitting q id), h.mem_hits_iff.mpr ⟨hhit, rfl⟩,
      List.isPrefixOf_iff_prefix.mpr hpre⟩

theorem shownName_of_hit (h : t.WellFormed) (hhit : t.IsHit q id) {path : List String} {upper : Nat}
    (hpre : path <+: (t.node id).path) (hfind : t.find? path = some upper) :
    t.shownName q path = (t.family upper).aliasText := by
  rw [shownName, if_pos (h.any_hits_iff.mpr ⟨id, hhit, hpre⟩), hfind]
  rfl

/-- Names without `/` are shown as a result has them. -/
theorem IsNormal.get?_aliases (h : t.IsNormal) (hplain : t.IsPlain) {path : List String}
    (hne : path ≠ []) (hpath : ∀ name ∈ path, '/' ∉ name.toList) :
    ((t.search q false).aliases.get? (Text.joinWith "/" path)).getD (path.getLast?.getD "") =
      t.shownName q path := by
  have hgroups := h.groups_search hplain q
  by_cases hex : ∃ id, t.IsHit q id ∧ path <+: (t.node id).path
  · obtain ⟨id, hhit, hpre⟩ := hex
    obtain ⟨upper, hfind⟩ := hgroups.upper id path hhit hpre
    have hget := (hgroups.aliases _ _).mpr ⟨id, path, upper, hhit, hne, hpre, hfind, rfl, rfl⟩
    rw [hget, Option.getD_some, shownName_of_hit h.wellFormed hhit hpre hfind]
  · have hget : (t.search q false).aliases.get? (Text.joinWith "/" path) = none := by
      rw [Option.eq_none_iff_forall_ne_some]
      intro shown hsome
      obtain ⟨id, other, _, hhit, hother, hpre, _, hjoined, _⟩ := (hgroups.aliases _ _).mp hsome
      have hsame : other = path := by
        rw [← splitAt_pathText hother fun name hname => hplain id hhit.1 name (hpre.subset hname),
          hjoined, splitAt_pathText hne hpath]
      exact hex ⟨id, hhit, hsame ▸ hpre⟩
    rw [hget, Option.getD_none, shownName, if_neg (mt h.wellFormed.any_hits_iff.mp hex)]

/-- The names that are cut from the text of a path are those that are not empty. -/
theorem filter_splitAt_pathText (hplain : t.IsPlain) (hid : id < t.size) :
    (Text.splitAt '/' (t.pathText id)).filter (fun name => name != "") =
      (t.node id).path.filter (· != "") := by
  by_cases hnil : (t.node id).path = []
  · rw [pathText, hnil]
    rfl
  · rw [pathText, splitAt_pathText hnil (hplain id hid)]

theorem IsNormal.breadcrumb_search (h : t.IsNormal) (hplain : t.IsPlain) (hid : id < t.size)
    (q : Query) : (t.search q false).breadcrumb (t.pathText id) = t.shownTrail q id := by
  rw [SearchResult.breadcrumb, filter_splitAt_pathText hplain hid, shownTrail,
    ← map_upperPaths fun path name =>
    ((t.search q false).aliases.get? (Text.joinWith "/" path)).getD name]
  refine List.map_congr_left fun path hpath => ?_
  obtain ⟨hne, hpre⟩ := mem_upperPaths_iff.mp hpath
  refine h.get?_aliases hplain hne fun name hname => hplain id hid name ?_
  exact List.mem_of_mem_filter (hpre.subset hname)

/-- Along a path without empty names, a result has the aliases. -/
theorem IsNormal.shownTrail_eq (h : t.IsNormal) (hhit : t.IsHit q id)
    (hnames : ∀ name ∈ (t.node id).path, name ≠ "") : t.shownTrail q id = t.trail id := by
  have hfilter : (t.node id).path.filter (· != "") = (t.node id).path := by
    rw [List.filter_eq_self]
    intro name hname
    rw [bne_iff_ne]
    exact hnames name hname
  rw [shownTrail, hfilter, trail, h.wellFormed.map_lineage hhit.1]
  rintro ⟨path, upper⟩ hmem
  obtain ⟨⟨_, hpre⟩, hfind⟩ := mem_lineage_iff.mp hmem
  exact (shownName_of_hit h.wellFormed hhit hpre hfind).symm

/-! ### Which headings are right -/

/-- The text of the aliases cannot be told from that of the path exactly if ` > ` keeps the names
apart, and the aliases joined by it are the names joined by it. -/
theorem WellFormed.replaceAll_trail_iff (h : t.WellFormed) (hplain : t.IsPlain)
    (hid : id < t.size) :
    Text.replaceAll " > " "/" (Text.joinWith " > " (t.trail id)) = t.pathText id ↔
      Text.joinWith " > " (t.trail id) = Text.joinWith " > " (t.node id).path ∧
        AreApart (t.node id).path := by
  have hiff := Text.replaceAll_joinWith_eq_iff (show " > " ≠ "" by decide) (h.length_trail hid)
      (hplain id hid)
  have hslash : String.singleton '/' = "/" := by decide
  rwa [hslash, ← areApart_iff] at hiff

theorem joinWith_ne_empty {separator : String} {names : List String} (hne : names ≠ [])
    (hnames : ∀ name ∈ names, name ≠ "") : Text.joinWith separator names ≠ "" := by
  obtain ⟨name, rest, rfl⟩ := List.exists_cons_of_ne_nil hne
  have hname : name ≠ "" := hnames name List.mem_cons_self
  cases rest with
  | nil => exact hname
  | cons next more =>
    rw [Text.joinWith]
    simp [hname]

theorem IsNormal.headingSpans_search_iff (h : t.IsNormal) (hplain : t.IsPlain) (hid : id < t.size)
    (q : Query) : (t.search q false).headingSpans (t.pathText id) = t.dueHeading id ↔
      textBehind (t.pathText id) (t.shownTrail q id) = t.dueBehind id := by
  rw [SearchResult.headingSpans_eq, h.breadcrumb_search hplain hid, dueHeading, headingLine_inj]

section Named

variable (h : t.IsNormal) (hplain : t.IsPlain) (hhit : t.IsHit q id)
  (hnames : ∀ name ∈ (t.node id).path, name ≠ "")

include h hplain hhit hnames

/-- If no family is renamed, nothing should stand behind the path, and nothing does if the names are
kept apart. -/
theorem IsNormal.headingSpans_search_iff_of_not_isRenamed (hsame : ¬ t.IsRenamed id) :
    (t.search q false).headingSpans (t.pathText id) = t.dueHeading id ↔
      AreApart (t.node id).path := by
  have htrail : t.trail id = (t.node id).path := (h.wellFormed.not_isRenamed_iff hhit.1).mp hsame
  have hreplace := h.wellFormed.replaceAll_trail_iff hplain hhit.1
  rw [htrail, and_iff_right rfl] at hreplace
  rw [h.headingSpans_search_iff hplain hhit.1, h.shownTrail_eq hhit hnames, dueBehind,
    if_neg hsame, textBehind, htrail, ← hreplace]
  split
  · next heq => exact iff_of_true rfl heq
  · next hother =>
    refine iff_of_false (joinWith_ne_empty (fun hnil => hother ?_) hnames) hother
    rw [pathText, hnil]
    rfl

/-- If some family is renamed, the aliases should stand behind the path, and they do unless they
cannot be told from names that are kept apart. -/
theorem IsNormal.headingSpans_search_iff_of_isRenamed (hrenamed : t.IsRenamed id) :
    (t.search q false).headingSpans (t.pathText id) = t.dueHeading id ↔
      ¬ (Text.joinWith " > " (t.trail id) = Text.joinWith " > " (t.node id).path ∧
        AreApart (t.node id).path) := by
  rw [h.headingSpans_search_iff hplain hhit.1, h.shownTrail_eq hhit hnames, dueBehind,
    if_pos hrenamed, textBehind, ← h.wellFormed.replaceAll_trail_iff hplain hhit.1]
  split
  · next heq =>
    refine iff_of_false (fun hempty => ?_) (not_not.mpr heq)
    have hne : (t.node id).path ≠ [] := by
      intro hnil
      obtain ⟨upper, hmem, _⟩ := hrenamed
      obtain ⟨⟨hupper, hpre⟩, _⟩ := mem_lineage_iff.mp hmem
      rw [hnil, List.prefix_nil] at hpre
      exact hupper hpre
    have hjoined := ((h.wellFormed.replaceAll_trail_iff hplain hhit.1).mp heq).1
    exact joinWith_ne_empty hne hnames (hjoined.symm.trans hempty.symm)
  · next hother => exact iff_of_true rfl hother

/-- The heading is right if neither the names nor the aliases have ` > ` where it could be
misread. -/
theorem IsNormal.headingSpans_search_of_areApart (hpath : AreApart (t.node id).path)
    (htrail : AreApart (t.trail id)) :
    (t.search q false).headingSpans (t.pathText id) = t.dueHeading id := by
  by_cases hrenamed : t.IsRenamed id
  · refine (h.headingSpans_search_iff_of_isRenamed hplain hhit hnames hrenamed).mpr fun hsame => ?_
    have heq : t.trail id = (t.node id).path :=
      (areApart_iff.mp htrail).eq_of_joinWith_eq (areApart_iff.mp hpath) (by decide)
        (h.wellFormed.length_trail hhit.1) hsame.1
    exact (h.wellFormed.not_isRenamed_iff hhit.1).mpr heq hrenamed
  · exact (h.headingSpans_search_iff_of_not_isRenamed hplain hhit hnames hrenamed).mpr hpath

end Named

/-- What can be said about the headings of the result of a search. -/
structure HeadsFamilies (t : Tree) (q : Query) (r : SearchResult) : Prop where
  /-- There is a heading for every family with fitting items. -/
  listed : ∀ key, key ∈ r.families ↔ ∃ id, t.IsHit q id ∧ t.pathText id = key
  /-- No two families share a heading. -/
  single : ∀ a b, t.IsHit q a → t.IsHit q b → t.pathText a = t.pathText b → a = b
  /-- A heading is right exactly if what the result has for the aliases along the path gives the
  text that is due. -/
  right_iff : ∀ id, t.IsHit q id → (r.headingSpans (t.pathText id) = t.dueHeading id ↔
    textBehind (t.pathText id) (t.shownTrail q id) = t.dueBehind id)
  /-- If no name on the path is empty and no family there is renamed, the heading is right exactly
  if ` > ` keeps the names apart. -/
  right_iff_of_not_isRenamed :
    ∀ id, t.IsHit q id → (∀ name ∈ (t.node id).path, name ≠ "") → ¬ t.IsRenamed id →
    (r.headingSpans (t.pathText id) = t.dueHeading id ↔ AreApart (t.node id).path)
  /-- If no name on the path is empty and some family there is renamed, the heading is right unless
  ` > ` keeps the names apart and joins the aliases to what it joins the names to. -/
  right_iff_of_isRenamed :
    ∀ id, t.IsHit q id → (∀ name ∈ (t.node id).path, name ≠ "") → t.IsRenamed id →
    (r.headingSpans (t.pathText id) = t.dueHeading id ↔
      ¬ (Text.joinWith " > " (t.trail id) = Text.joinWith " > " (t.node id).path ∧
        AreApart (t.node id).path))
  /-- If no name on the path is empty, and ` > ` keeps the names apart and the aliases too, the
  heading is right. -/
  right_of_areApart : ∀ id, t.IsHit q id → (∀ name ∈ (t.node id).path, name ≠ "") →
    AreApart (t.node id).path →
    AreApart (t.trail id) → r.headingSpans (t.pathText id) = t.dueHeading id

theorem IsNormal.headsFamilies (h : t.IsNormal) (hplain : t.IsPlain) (q : Query) :
    t.HeadsFamilies q (t.search q false) where
  listed key := by
    have hgroups := h.groups_search hplain q
    rw [hgroups.families.mem_iff, SortedMap.keys, List.mem_map]
    constructor
    · rintro ⟨⟨_, matched⟩, hentry, rfl⟩
      obtain ⟨id, hhit, hkey, _⟩ := (hgroups.found _ _).mp (SortedMap.mem_entries_iff.mp hentry)
      exact ⟨id, hhit, hkey⟩
    · rintro ⟨id, hhit, rfl⟩
      have hentry := (hgroups.found _ _).mpr ⟨id, hhit, rfl, rfl⟩
      exact ⟨_, SortedMap.mem_entries_iff.mpr hentry, rfl⟩
  single := (h.groups_search hplain q).apart
  right_iff id hhit := h.headingSpans_search_iff hplain hhit.1 q
  right_iff_of_not_isRenamed _ hhit hnames hsame :=
    h.headingSpans_search_iff_of_not_isRenamed hplain hhit hnames hsame
  right_iff_of_isRenamed _ hhit hnames hrenamed :=
    h.headingSpans_search_iff_of_isRenamed hplain hhit hnames hrenamed
  right_of_areApart _ hhit hnames hpath htrail :=
    h.headingSpans_search_of_areApart hplain hhit hnames hpath htrail

/-- Take a loaded tree that is described by any documents and made normal. Every search on it lists
the families with fitting items, each of them once, and it is known which of their headings are
right. -/
theorem headsFamilies_load (fs : FileSystem) (dir : String) (mode : LoadMode)
    (documents : List Value) (q : Query) :
    let shown := ((fs.buildTree dir mode).value.describe documents).normalize.value
    shown.HeadsFamilies q (shown.search q false) := by
  intro shown
  have hfresh := fs.isFresh_load dir mode
  have h := (hfresh.describes_describe documents).links.wellFormed hfresh.wellFormed
  exact h.isNormal_normalize.headsFamilies (hfresh.isPlain_normalize_describe documents) q

/-- The tree of a data root with a single record, described by documents and made normal. -/
def ofRecordText (text : String) (documents : List Value) : Tree :=
  (((FileSystem.ofRecordText text).buildTree "data" .records).value.describe
    documents).normalize.value

theorem ofRecordText_eq {text : String} {record : Entries}
    (hread : Yaml.read text = .ok (.map record)) (documents : List Value) :
    ofRecordText text documents =
      (((∅ : Tree).addRecord record "data/ops.txt" "data").value.describe
        documents).normalize.value := by
  rw [ofRecordText, FileSystem.buildTree_ofRecordText hread]

/-- A name with ` > ` inside is repeated behind the path though there is no alias. Aliases are
missing where ` > ` joins them to what it joins the names to. And the name below an empty one is
repeated, too. -/
theorem headings_wrong_of_separators :
    let marked := ofRecordText "family: a > b\n" []
    let alike := ofRecordText "family: [\"x\", \"> y\"]\n"
      [.list [.map [(.text "family", .text "x"), (.text "alias", .text "x >")],
        .map [(.text "family", .list [.text "x", .text "> y"]), (.text "alias", .text "y")]]]
    let nameless := ofRecordText "family: [\"\", \"A\"]\n" []
    let q := Query.parse ""
    (marked.IsHit q 1 ∧ ¬ marked.IsRenamed 1 ∧ marked.dueHeading 1 = headingLine "a > b" "" ∧
      (marked.search q false).headingSpans (marked.pathText 1) = headingLine "a > b" "a > b") ∧
    (alike.IsHit q 2 ∧ alike.IsRenamed 2 ∧ alike.dueHeading 2 = headingLine "x/> y" "x > > y" ∧
      (alike.search q false).headingSpans (alike.pathText 2) = headingLine "x/> y" "") ∧
    (nameless.IsHit q 2 ∧ ¬ nameless.IsRenamed 2 ∧ nameless.dueHeading 2 = headingLine "/A" "" ∧
      (nameless.search q false).headingSpans (nameless.pathText 2) = headingLine "/A" "A") := by
  intro marked alike nameless q
  have hmarked : Yaml.read "family: a > b\n" = .ok (.map [(.text "family", .text "a > b")]) :=
    read_family (by decide +kernel) ⟨rfl, rfl⟩
  have halike : Yaml.read "family: [\"x\", \"> y\"]\n" =
      .ok (.map [(.text "family", .list [.text "x", .text "> y"])]) :=
    read_family_pair (ok_of_toOption (by decide +kernel)) (by decide +kernel)
  have hnameless : Yaml.read "family: [\"\", \"A\"]\n" =
      .ok (.map [(.text "family", .list [.text "", .text "A"])]) :=
    read_family_pair (ok_of_toOption (by decide +kernel)) (by decide +kernel)
  simp only [marked, alike, nameless, ofRecordText_eq hmarked, ofRecordText_eq halike,
    ofRecordText_eq hnameless]
  refine ⟨?_, ?_, ?_⟩
  · exact ⟨⟨by decide +kernel, by decide +kernel⟩,
      by decide +kernel, by decide +kernel, by decide +kernel⟩
  · exact ⟨⟨by decide +kernel, by decide +kernel⟩,
      by decide +kernel, by decide +kernel, by decide +kernel⟩
  · exact ⟨⟨by decide +kernel, by decide +kernel⟩,
      by decide +kernel, by decide +kernel, by decide +kernel⟩

end Tree

end Catalog
