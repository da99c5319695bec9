import Outline.Link.Position
import Outline.Title.SortKey
import Outline.Title.Shorten
import Outline.Forest.Build
import Outline.Forest.Visible
import Outline.Forest.Sorted
import Outline.Forest.Contents
import Outline.Forest.Shown
import Outline.Settings.Reader
import Outline.Cache.Forests
import Outline.Store.Query
import Outline.Manager.Mutate
import Outline.Manager.Read
import Outline.Database.Opening
import Outline.Disk.Databases
import Outline.LogFile
import Outline.Main
import Outline.Proofs.Link.Placement
import Outline.Proofs.Store.Lookup
import Outline.Proofs.Store.Reading
import Outline.Proofs.Arrange.Steps
import Outline.Proofs.Arrange.Moving
import Outline.Proofs.Arrange.Verdict
import Outline.Proofs.Arrange.Removing
import Outline.Proofs.Manager.Mutation
import Outline.Proofs.Manager.Step
import Outline.Proofs.Arrange.Linked
import Outline.Proofs.Manager.Reads
import Outline.Proofs.Manager.Run
import Outline.Proofs.Manager.Linked
import Outline.Proofs.Json.Numerals
import Outline.Proofs.Json.Scalars
import Outline.Proofs.Json.Containers
import Outline.Proofs.Forest.RoundTrip
import Outline.Proofs.Cache.Keys
import Outline.Proofs.Cache.Entries
import Outline.Proofs.Cache.Pointers
import Outline.Proofs.Store.Books
import Outline.Proofs.Arrange.Books
import Outline.Proofs.Manager.Books
import Outline.Proofs.Arrange.Relocated
import Outline.Proofs.Arrange.Apart
import Outline.Proofs.Manager.Moves
import Outline.Proofs.Manager.Relocated
import Outline.Proofs.Manager.Apart
import Outline.Proofs.Manager.Focus
import Outline.Proofs.Manager.Faithful
import Outline.Proofs.Manager.Cached
import Outline.Proofs.Store.Consistent
import Outline.Proofs.Forest.Preorder
import Outline.Proofs.Store.Ordered
import Outline.Proofs.Store.Forest
import Outline.Proofs.Json.Yields
import Outline.Proofs.Forest.Nesting
import Outline.Proofs.Cache.ReadBack
import Outline.Proofs.Manager.SharedKeys
import Outline.Proofs.Store.Charted
import Outline.Proofs.Arrange.Charted
import Outline.Proofs.Manager.Acyclic
import Outline.Proofs.Arrange.Marked
import Outline.Proofs.Manager.Marked
import Outline.Proofs.Forest.Sorted
import Outline.Proofs.Forest.Visible
import Outline.Proofs.Manager.Visible
import Outline.Proofs.Forest.Nested
import Outline.Proofs.Manager.Nested
import Outline.Proofs.Store.Holds
import Outline.Proofs.Store.Descent
import Outline.Proofs.Arrange.Rooted
import Outline.Proofs.Manager.BookList
import Outline.Proofs.Forest.Subtrees
import Outline.Proofs.Manager.Subtree
import Outline.Proofs.Cache.Untitled
import Outline.Proofs.Manager.Impersonal
import Outline.Proofs.Manager.Viewers
import Outline.Proofs.Cache.History
import Outline.Proofs.Database.Migration
import Outline.Proofs.Database.Opening
import Outline.Proofs.Store.Seats
import Outline.Proofs.Arrange.Seats
import Outline.Proofs.Manager.MoveBack
import Outline.Proofs.Arrange.Dissolved
import Outline.Proofs.Manager.Dissolved
import Outline.Proofs.Manager.Removal
import Outline.Proofs.Forest.Loops
import Outline.Proofs.Forest.Parents
import Outline.Proofs.Forest.Rebuilt
import Outline.Proofs.Forest.Trimmed
import Outline.Proofs.Manager.Around
import Outline.Proofs.Manager.Trimmed
import Outline.Proofs.Manager.Requests
import Outline.Proofs.Forest.Contents
import Outline.Proofs.Title.Shorten
import Outline.Proofs.Forest.Rearranged
import Outline.Proofs.Cache.Updates
import Outline.Proofs.Manager.Openness
import Outline.Proofs.Json.Grammar
import Outline.Proofs.Json.Delimited
import Outline.Proofs.Json.Gathered
import Outline.Proofs.Settings.Spelled
import Outline.Proofs.Link.Rebased
import Outline.Proofs.Forest.Worklist
import Outline.Proofs.Text.Lowercase
import Outline.Proofs.Text.Words
import Outline.Proofs.Title.SortKey
import Outline.Proofs.Store.Written
import Outline.Proofs.Database.Columns
