import Catalog.Decimal.Notation
import Catalog.Screen.Color
import Catalog.Search.Engine

/-!
# Results on the screen

* `Style` says how a stretch of text is shown, and `Span` is such a stretch;
* `Span.plain` and `Span.colored` write spans without and with control sequences;
* `plain_append` and `colored_append` say that spans are written one after the other;
* `SearchResult.headingSpans` shows the path of a family, with the aliases along it where they
  differ from the path;
* `RatioResult.spans` shows the found items family by family and the share that they make up;
* `tagSpans` shows tags, one a line.
-/

namespace Catalog

/-! ### Styled text -/

/-- How text is shown. -/
structure Style where
  bold : Bool := false
  dimmed : Bool := false
  foreground : Option Color := none
  background : Option Color := none
  deriving DecidableEq, Repr

/-- A stretch of text, which may have a style. -/
structure Span where
  text : String
  style : Option Style := none
  deriving DecidableEq, Repr

/-- The control sequence with the given codes. -/
def controlSequence (codes : String) : String := "\x1b[" ++ codes ++ "m"

/-- The control sequences that start a style, after those of any style before. -/
def Style.start (s : Style) : String :=
  controlSequence "0" ++ (if s.bold then controlSequence "1" else "") ++
    (if s.dimmed then controlSequence "2" else "") ++
    ((s.foreground.map fun c => controlSequence ("3" ++ c.codes)).getD "") ++
    ((s.background.map fun c => controlSequence ("4" ++ c.codes)).getD "")

namespace Span

/-- A span without style. -/
def ofText (text : String) : Span := { text := text }

/-- A span on a screen. -/
def onScreen (s : Span) : String :=
  match s.style with
  | some style => style.start ++ s.text ++ controlSequence "0"
  | none => s.text

/-- Spans without their styles. -/
def plain : List Span → String
  | [] => ""
  | s :: rest => s.text ++ plain rest

/-- Spans with their styles. -/
def colored : List Span → String
  | [] => ""
  | s :: rest => s.onScreen ++ colored rest

@[simp] theorem plain_append (spans more : List Span) :
    plain (spans ++ more) = plain spans ++ plain more := by
  induction spans with
  | nil => simp [plain]
  | cons s rest ih => simp [plain, ih, String.append_assoc]

@[simp] theorem colored_append (spans more : List Span) :
    colored (spans ++ more) = colored spans ++ colored more := by
  induction spans with
  | nil => simp [colored]
  | cons s rest ih => simp [colored, ih, String.append_assoc]

/-- Spans with or without their styles. -/
def render (withStyles : Bool) (spans : List Span) : String :=
  if withStyles then colored spans else plain spans

end Span

/-! ### Results on the screen -/

/-- The label in its colours. -/
def Label.span (l : Label) : Span :=
  ⟨"[" ++ l.text ++ "]",
    some { foreground := Color.ofText? l.textColor, background := Color.ofText? l.color }⟩

/-- A found item on a line of its own, with its number on demand. -/
def MatchedItem.spans (withNumbers : Bool) (item : MatchedItem) : List Span :=
  let number :=
    if withNumbers then
      (item.number.map fun n =>
        (⟨Text.padLeft 3 (toString n) ++ ": ", some { foreground := some (.basic 2) }⟩
          : Span)).toList
    else []
  [Span.ofText "  "] ++ number ++ [Span.ofText item.title] ++
    item.labels.flatMap (fun l => [Span.ofText " ", l.span]) ++ [Span.ofText "\n"]

namespace SearchResult

/-- The names on the path of a family, each in its alias where one is known. -/
def breadcrumb (r : SearchResult) (path : String) : List String :=
  let names := (Text.splitAt '/' path).filter fun name => name != ""
  (names.zipIdx 1).map fun numbered =>
    (r.aliases.get? (Text.joinWith "/" (names.take numbered.2))).getD numbered.1

/-- The path of a family on a line of its own, with the names along it where they tell more. -/
def headingSpans (r : SearchResult) (path : String) : List Span :=
  let trail := Text.joinWith " > " (r.breadcrumb path)
  let tellsMore := trail != "" && Text.replaceAll " > " "/" trail != path
  [⟨if path == "" then "/" else path, some { bold := true, foreground := some (.basic 5) }⟩] ++
    (if tellsMore then [⟨"  " ++ trail, some { dimmed := true }⟩] else []) ++ [Span.ofText "\n"]

/-- A family with its found items. -/
def familySpans (r : SearchResult) (withNumbers : Bool) (path : String) : List Span :=
  r.headingSpans path ++ ((r.found.get? path).getD []).flatMap (MatchedItem.spans withNumbers)

/-- All families with their found items, an empty line after each. -/
def spans (r : SearchResult) (withNumbers : Bool) : List Span :=
  r.families.flatMap fun path => r.familySpans withNumbers path ++ [Span.ofText "\n"]

end SearchResult

/-- The result of a text with two parts. -/
def RatioResult.spans (r : RatioResult) (withNumbers : Bool) : List Span :=
  r.result.spans withNumbers ++
    [⟨toString r.result.count, some { bold := true }⟩,
     Span.ofText (" of " ++ toString r.total ++ " items"),
     ⟨" (" ++ fixedPlaces 2 r.ratio ++ "%)\n", some { dimmed := true }⟩]

/-- Tags, one a line; keywords have a colour. -/
def tagSpans (tags : List String) : List Span :=
  tags.map fun tag =>
    if Text.startsWith '#' tag then ⟨tag ++ "\n", some { foreground := some (.basic 6) }⟩
    else Span.ofText (tag ++ "\n")

end Catalog
