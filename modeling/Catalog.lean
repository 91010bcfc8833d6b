import Catalog.Main
import Catalog.Memo
import Catalog.Proofs.Configuration.Export
import Catalog.Proofs.Configuration.Reading
import Catalog.Proofs.Decimal.Rounding
import Catalog.Proofs.FileSystem.Writing
import Catalog.Proofs.Load.Contents
import Catalog.Proofs.Load.Directory
import Catalog.Proofs.Load.Families
import Catalog.Proofs.Load.GroupOrder
import Catalog.Proofs.Load.Groups
import Catalog.Proofs.Load.Keywords
import Catalog.Proofs.Load.LabelSets
import Catalog.Proofs.Load.Overwriting
import Catalog.Proofs.Load.Placing
import Catalog.Proofs.Load.Reload
import Catalog.Proofs.Load.RoundTrip
import Catalog.Proofs.Load.Sources
import Catalog.Proofs.Load.Tree
import Catalog.Proofs.Memo.History
import Catalog.Proofs.Normal.Conservation
import Catalog.Proofs.Normal.Correspondence
import Catalog.Proofs.Normal.Destinations
import Catalog.Proofs.Normal.NormalForm
import Catalog.Proofs.Normal.Numbering
import Catalog.Proofs.Normal.Ordering
import Catalog.Proofs.Normal.Outcome
import Catalog.Proofs.Normal.Pooling
import Catalog.Proofs.Normal.Relocation
import Catalog.Proofs.Normal.Settling
import Catalog.Proofs.Normal.Siblings
import Catalog.Proofs.Normal.Spreading
import Catalog.Proofs.Normal.Ties
import Catalog.Proofs.Path.Joining
import Catalog.Proofs.Path.Location
import Catalog.Proofs.Path.Rebase
import Catalog.Proofs.Path.Steps
import Catalog.Proofs.Query.Entailment
import Catalog.Proofs.Query.Union
import Catalog.Proofs.Query.Words
import Catalog.Proofs.Query.Written
import Catalog.Proofs.Rank.Sorting
import Catalog.Proofs.Record.Family
import Catalog.Proofs.Record.Item
import Catalog.Proofs.Record.Labels
import Catalog.Proofs.Record.Rearranging
import Catalog.Proofs.Screen.Headings
import Catalog.Proofs.Screen.HexColors
import Catalog.Proofs.Search.Engine
import Catalog.Proofs.Search.Exclusion
import Catalog.Proofs.Search.Grouping
import Catalog.Proofs.Search.Hits
import Catalog.Proofs.Search.Joining
import Catalog.Proofs.Search.Keywords
import Catalog.Proofs.Search.LabelNames
import Catalog.Proofs.Search.Outline
import Catalog.Proofs.Search.OwnTexts
import Catalog.Proofs.Search.Plain
import Catalog.Proofs.Search.Share
import Catalog.Proofs.Search.Shown
import Catalog.Proofs.Tags.Counting
import Catalog.Proofs.Tags.Ranking
import Catalog.Proofs.Tags.StopWords
import Catalog.Proofs.Tags.Table
import Catalog.Proofs.Text.Automaton
import Catalog.Proofs.Text.CaseTable
import Catalog.Proofs.Text.Cursor
import Catalog.Proofs.Text.Cutting
import Catalog.Proofs.Text.Ends
import Catalog.Proofs.Text.Leading
import Catalog.Proofs.Text.Marks
import Catalog.Proofs.Text.Padded
import Catalog.Proofs.Text.Phrases
import Catalog.Proofs.Text.SingleToken
import Catalog.Proofs.Tree.Contents
import Catalog.Proofs.Tree.Correspondence
import Catalog.Proofs.Tree.Creation
import Catalog.Proofs.Tree.Links
import Catalog.Proofs.Tree.Outline
import Catalog.Proofs.Tree.Paths
import Catalog.Proofs.Tree.SortedSons
import Catalog.Proofs.Tree.Traversal
import Catalog.Proofs.Tree.WellFormed
import Catalog.Proofs.Yaml.Flat
import Catalog.Proofs.Yaml.Keys
