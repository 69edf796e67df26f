import SqlStore.Main
import SqlStore.Proofs.ByteStore.Contents
import SqlStore.Proofs.Record.RoundTrip
import SqlStore.Proofs.Table.Keys
import SqlStore.Proofs.Table.Contents
import SqlStore.Proofs.Table.Catalog
import SqlStore.Proofs.Table.History
import SqlStore.Proofs.Session.Database
import SqlStore.Proofs.Session.Refinement
import SqlStore.Proofs.Statement.Grammar
import SqlStore.Proofs.Statement.Recognition
import SqlStore.Proofs.Token.Pieces
import SqlStore.Proofs.Table.Layout
import SqlStore.Proofs.Session.Atomicity
import SqlStore.Proofs.Session.WellFormed
import SqlStore.Proofs.Session.RoundTrip
import SqlStore.Proofs.Session.Composition
import SqlStore.Proofs.Token.Printing
import SqlStore.Proofs.Session.Independence
import SqlStore.Proofs.Statement.Viability
import SqlStore.Proofs.Statement.LetterCase
import SqlStore.Proofs.Session.Growth
import SqlStore.Proofs.Console.Quiet
import SqlStore.Proofs.Token.Composition
import SqlStore.Proofs.Statement.Repetition
import SqlStore.Proofs.Token.Cursor
import SqlStore.Proofs.Token.LongestNumber
import SqlStore.Proofs.Token.Word
import SqlStore.Proofs.ByteStore.History
import SqlStore.Proofs.Record.Cells
import SqlStore.Proofs.Session.Projection
import SqlStore.Proofs.Token.SourceBytes
import SqlStore.Proofs.Record.Exactness
import SqlStore.Proofs.Console.Alignment
import SqlStore.Proofs.Token.ByteCalls
