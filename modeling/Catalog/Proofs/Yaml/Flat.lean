import Catalog.Proofs.Yaml.Keys

/-!
# Documents of one plain mapping

Many documents are one mapping in block style with a scalar behind every key. Their tokens repeat a
pattern, and each entry is read on its own.

* `FlatEntry` is one entry as it is written and as it is read;
* `documentNode_flatTokens`, `bind_flatNodes` and `Resolver.value_flatNodes` go through the steps of
  reading;
* `read_flat` puts them together.
-/

namespace Catalog.Yaml

/-- An entry of a plain mapping: its key and its scalar as they are written, and the value that is
read. -/
structure FlatEntry where
  key : String
  text : String
  style : ScalarStyle
  value : Value

namespace FlatEntry

/-- The line of an entry. A text between quotes has none in it. -/
def line (e : FlatEntry) : List Char :=
  let shown := if e.style = .plain then e.text.toList else '\x27' :: e.text.toList ++ ['\x27']
  e.key.toList ++ [':', ' '] ++ shown ++ ['\n']

/-- The tokens of an entry. -/
def tokens (e : FlatEntry) : List Token :=
  [.key, .scalar e.key .plain, .value, .scalar e.text e.style]

/-- The nodes of an entry. -/
def nodes (e : FlatEntry) : Node × Node :=
  (.scalar none none e.key true, .scalar none none e.text (e.style == .plain))

/-- The nodes of an entry, which are no aliases. -/
def boundNodes (e : FlatEntry) : BoundNode × BoundNode :=
  (.scalar none e.key true, .scalar none e.text (e.style == .plain))

/-- The entry that is read. -/
def entry (e : FlatEntry) : Value × Value := (.text e.key, e.value)

/-- The key is read as a text and the scalar as the value. -/
structure IsRead (e : FlatEntry) : Prop where
  key : scalarValue none e.key true = .ok (.text e.key)
  value : scalarValue none e.text (e.style == .plain) = .ok e.value

end FlatEntry

variable {es : List FlatEntry}

/-- The tokens of a plain mapping. -/
def flatTokens (es : List FlatEntry) : List Token :=
  .blockMappingStart :: (es.flatMap FlatEntry.tokens ++ [.blockEnd])

/-! ### Nodes -/

theorem node_scalar (handles : TagHandles) (inBlock indentless : Bool) (text : String)
    (style : ScalarStyle) (rest : List Token) :
    node handles inBlock indentless (.scalar text style :: rest) =
      .ok (.scalar none none text (style == .plain), rest) := by
  simp [node, content, properties, Bind.bind, Except.bind, Pure.pure, Except.pure]

theorem blockValue_scalar (handles : TagHandles) (text : String) (style : ScalarStyle)
    (rest : List Token) : blockValue handles (.value :: .scalar text style :: rest) =
      .ok (.scalar none none text (style == .plain), rest) := by
  rw [blockValue, if_neg (by simp [absentInMapping]), node_scalar]

theorem blockEntries_flat (handles : TagHandles) (es : List FlatEntry) :
    blockEntries handles (es.flatMap FlatEntry.tokens ++ [.blockEnd]) =
      .ok (es.map FlatEntry.nodes, []) := by
  induction es with
  | nil =>
    rw [List.flatMap_nil, List.nil_append, blockEntries]
    rfl
  | cons e es ih =>
    have htokens : (e :: es).flatMap FlatEntry.tokens ++ [.blockEnd] =
        .key :: .scalar e.key .plain :: .value :: .scalar e.text e.style ::
          (es.flatMap FlatEntry.tokens ++ [.blockEnd]) := rfl
    rw [htokens, blockEntries, if_neg (by simp [absentInMapping]), node_scalar]
    simp [blockValue_scalar, ih, Bind.bind, Except.bind, Pure.pure, Except.pure, FlatEntry.nodes]

theorem documentNode_flatTokens (es : List FlatEntry) :
    documentNode (flatTokens es) = .ok (some (.map none none (es.map FlatEntry.nodes))) := by
  have hnode : node defaultHandles true false (flatTokens es) =
      .ok (.map none none (es.map FlatEntry.nodes), []) := by
    simp [flatTokens, node, content, properties, blockEntries_flat, Bind.bind, Except.bind,
      Pure.pure, Except.pure]
  have hstart : startsExplicitly (flatTokens es) = false := rfl
  rw [documentNode, hstart, if_neg Bool.false_ne_true]
  simp only [hnode, Bind.bind, Except.bind]
  rfl

theorem bind_scalar (t : AnchorTable) (tag : Option String) (text : String) (isPlain : Bool) :
    bind t (.scalar none tag text isPlain) = .ok (.scalar tag text isPlain, t) := by
  rw [bind]
  rfl

theorem bind_flatNodes (es : List FlatEntry) :
    bind {} (.map none none (es.map FlatEntry.nodes)) =
      .ok (.map none (es.map FlatEntry.boundNodes), {}) := by
  have hentries : bindEntries {} (es.map FlatEntry.nodes) =
      .ok (es.map FlatEntry.boundNodes, {}) := by
    induction es with
    | nil => rfl
    | cons e es ih =>
      rw [List.map_cons, FlatEntry.nodes, bindEntries]
      simp only [bind_scalar, ih, Bind.bind, Except.bind]
      rfl
  rw [bind]
  simp only [AnchorTable.enter, hentries, Bind.bind, Except.bind]
  rfl

/-! ### Values -/

namespace Resolver

variable {r : Resolver} {depth : Nat}

theorem value_scalar (r : Resolver) (depth : Nat) (text : String) (isPlain : Bool) :
    r.value depth (.scalar none text isPlain) = liftM (scalarValue none text isPlain) := by
  rw [value_eq]
  cases depth <;> rfl

theorem addEntry_of_new {entries : Entries} {e : FlatEntry} (h : e.key ∉ Value.textKeys entries) :
    addEntry entries (.text e.key) e.value = .ok (entries ++ [e.entry]) := by
  have hany : (entries.any fun f => f.1.same (.text e.key)) = false := by
    rw [List.any_eq_false]
    intro f hf hsame
    exact h (Value.mem_textKeys.mpr ⟨f.2, by rw [← Value.same_text_iff.mp hsame]; exact hf⟩)
  rw [addEntry, hany, if_neg Bool.false_ne_true]
  rfl

theorem readEntry_flat {entries : Entries} {e : FlatEntry} (he : e.IsRead)
    (h : e.key ∉ Value.textKeys entries) :
    r.readEntry depth entries e.boundNodes = pure (entries ++ [e.entry]) := by
  rw [readEntry, FlatEntry.boundNodes, value_scalar, value_scalar, he.key, he.value]
  show (liftM (addEntry entries (.text e.key) e.value) : Counting Entries) = _
  rw [addEntry_of_new h]
  rfl

/-- The entries are read one after the other. The keys that have been read are not read again. -/
theorem foldlM_flat (hread : ∀ e ∈ es, e.IsRead) (hkeys : (es.map FlatEntry.key).Nodup)
    (entries : Entries) (hnew : ∀ e ∈ es, e.key ∉ Value.textKeys entries) :
    (es.map FlatEntry.boundNodes).foldlM (r.readEntry depth) entries =
      pure (entries ++ es.map FlatEntry.entry) := by
  induction es generalizing entries with
  | nil => simp
  | cons e es ih =>
    obtain ⟨he, hes⟩ := List.forall_mem_cons.mp hread
    obtain ⟨hekey, heskeys⟩ := List.nodup_cons.mp hkeys
    have hnext : ∀ f ∈ es, f.key ∉ Value.textKeys (entries ++ [e.entry]) := by
      intro f hf hmem
      obtain ⟨v, hmem⟩ := Value.mem_textKeys.mp hmem
      rcases List.mem_append.mp hmem with hold | hlast
      · exact hnew f (List.mem_cons_of_mem _ hf) (Value.mem_textKeys.mpr ⟨v, hold⟩)
      · have hkey : f.key = e.key := by
          have hfirst := congrArg Prod.fst (List.mem_singleton.mp hlast)
          exact Value.text.inj hfirst
        exact hekey (hkey ▸ List.mem_map_of_mem hf)
    rw [List.map_cons, List.foldlM_cons, readEntry_flat he (hnew e List.mem_cons_self), pure_bind,
      ih hes heskeys _ hnext, List.append_assoc]
    rfl

theorem value_flatNodes (hread : ∀ e ∈ es, e.IsRead) (hkeys : (es.map FlatEntry.key).Nodup) :
    r.value (depth + 1) (.map none (es.map FlatEntry.boundNodes)) =
      pure (.map (es.map FlatEntry.entry)) := by
  have hfold : (es.map FlatEntry.boundNodes).foldlM (r.readEntry depth) [] =
      pure (es.map FlatEntry.entry) :=
    foldlM_flat hread hkeys [] fun _ _ => List.not_mem_nil
  have htarget : r.target (.map none (es.map FlatEntry.boundNodes)) =
      pure (.map none (es.map FlatEntry.boundNodes)) := rfl
  rw [value_eq, htarget, pure_bind, content, hfold]
  rfl

end Resolver

/-- A text whose tokens are those of a plain mapping is read as this mapping, if no key comes
twice. -/
theorem read_flat {text : String} (htokens : tokens text = .ok (flatTokens es))
    (hread : ∀ e ∈ es, e.IsRead) (hkeys : (es.map FlatEntry.key).Nodup) :
    read text = .ok (.map (es.map FlatEntry.entry)) := by
  simp only [read, htokens, documentNode_flatTokens, bind_flatNodes, Bind.bind, Except.bind]
  rw [greatestDepth, Resolver.value_flatNodes hread hkeys]
  rfl

end Catalog.Yaml
