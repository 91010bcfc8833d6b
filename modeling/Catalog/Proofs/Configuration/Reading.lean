import Catalog.Configuration

/-!
# Settings that are read back

The mapping of all settings holds each of them under its own name and in the form in which it is
read. So a configuration is read back from its mapping, up to the check of the share of words.

* `Configuration.set_families` and `Configuration.set_port` say so of the settings that are written
  in another form;
* `Configuration.setAll_settings` says so of all settings, and `Configuration.ofValue_toValue` of
  the mapping.
-/

namespace Catalog

/-! ### Single settings -/

namespace Value

theorem asOptionalPath_text (path : Option String) :
    ((path.map Value.text).getD .null).asOptionalPath = .ok path := by
  cases path <;> rfl

theorem asPort_int (port : UInt16) : (Value.int port.toNat).asPort = .ok port := by
  have hlt : (port.toNat : Int) < 65536 := Int.ofNat_lt.mpr port.toNat_lt
  rw [asPort, untagged]
  · dsimp only
    rw [if_pos ⟨Int.natCast_nonneg _, hlt⟩, Int.toNat_natCast, UInt16.ofNat_toNat]
  · intro tag content heq
    cases heq

end Value

namespace Configuration

/-! ### All settings -/

/-- All settings by their names. -/
def settings (c : Configuration) : List (String × Value) :=
  [("root", .text c.root), ("families", (c.families.map .text).getD .null),
   ("title", .text c.title), ("subtitle", .text c.subtitle), ("placeholder", .text c.placeholder),
   ("header", .text c.header), ("footer", .text c.footer),
   ("show_family_numbers", .bool c.showFamilyNumbers),
   ("show_graph_numbers", .bool c.showGraphNumbers), ("theme", .text c.theme),
   ("keep", .float c.keep), ("logfile", .text c.logfile), ("raw", .bool c.raw),
   ("verbose", .bool c.verbose), ("debug", .bool c.debug), ("headless", .bool c.headless),
   ("port", .int c.port.toNat)]

theorem toValue_eq (c : Configuration) :
    c.toValue = .map (c.settings.map fun s => (.text s.1, s.2)) := rfl

/-- Settings are known by their names. -/
theorem knownEntries_of_known {settings : List (String × Value)}
    (h : ∀ s ∈ settings, s.1 ∈ knownKeys) :
    knownEntries (settings.map fun s => (.text s.1, s.2)) = pure settings := by
  induction settings with
  | nil => rfl
  | cons s rest ih =>
    obtain ⟨hs, hrest⟩ := List.forall_mem_cons.mp h
    have hkey : (Value.asText? (.text s.1)).filter knownKeys.contains = some s.1 := by
      rw [Value.asText?, Option.filter_some, if_pos (List.contains_iff_mem.mpr hs)]
    rw [List.map_cons, knownEntries, hkey]
    dsimp only
    rw [ih hrest]
    rfl

theorem known_of_mem_settings (c : Configuration) : ∀ s ∈ c.settings, s.1 ∈ knownKeys := by
  have hnames : ∀ name ∈ c.settings.map Prod.fst, name ∈ knownKeys := by
    show ∀ name ∈ ["root", "families", "title", "subtitle", "placeholder", "header", "footer",
      "show_family_numbers", "show_graph_numbers", "theme", "keep", "logfile", "raw", "verbose",
      "debug", "headless", "port"], name ∈ knownKeys
    decide
  exact fun s hs => hnames s.1 (List.mem_map_of_mem hs)

/-- A setting under its own name that has not been set yet. -/
theorem setAll_cons {c next : Configuration} {given : List String} {name : String} {v : Value}
    {rest : List (String × Value)} (hname : settingName name = name)
    (hnew : given.contains name = false) (hset : c.set name v = .ok next) :
    setAll c given ((name, v) :: rest) = setAll next (name :: given) rest := by
  rw [setAll, hname, hnew, if_neg Bool.false_ne_true, hset]

theorem set_families (c : Configuration) (path : Option String) :
    c.set "families" ((path.map Value.text).getD .null) = .ok { c with families := path } := by
  show (do return { c with families := ← ((path.map Value.text).getD .null).asOptionalPath }) = _
  rw [Value.asOptionalPath_text]
  rfl

theorem set_port (c : Configuration) (port : UInt16) :
    c.set "port" (.int port.toNat) = .ok { c with port := port } := by
  show (do return { c with port := ← (Value.int port.toNat).asPort }) = _
  rw [Value.asPort_int]
  rfl

/-- All settings are set to what they were, one after the other. -/
theorem setAll_settings (c : Configuration) : setAll {} [] c.settings = .ok c := by
  unfold settings
  rw [setAll_cons (by decide +kernel) (by decide +kernel) rfl]
  rw [setAll_cons (by decide +kernel) (by decide +kernel) (set_families _ _)]
  iterate 14 rw [setAll_cons (by decide +kernel) (by decide +kernel) rfl]
  rw [setAll_cons (by decide +kernel) (by decide +kernel) (set_port _ _)]
  rfl

/-- The mapping of a configuration describes it, if the share of words passes the check. -/
theorem ofValue_toValue (c : Configuration) : ofValue c.toValue = pure (check c) := by
  rw [toValue_eq, ofValue, knownEntries_of_known c.known_of_mem_settings]
  show pure ((setAll {} [] c.settings).bind check) = _
  rw [setAll_settings]
  rfl

end Configuration

end Catalog
