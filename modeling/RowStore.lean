import RowStore.Store.Session
import RowStore.Proofs.Value
import RowStore.Proofs.Token.Scanning
import RowStore.Proofs.Token.Unsigned
import RowStore.Proofs.Token.Lexemes
import RowStore.Proofs.Token.Reserved
import RowStore.Proofs.Token.Printing
import RowStore.Proofs.Statement.Acceptance
import RowStore.Proofs.Statement.Supplied
import RowStore.Proofs.Statement.Following
import RowStore.Proofs.Statement.Prefixes
import RowStore.Proofs.Statement.Position
import RowStore.Proofs.Encoding.SelfDelimiting
import RowStore.Proofs.Encoding.Canonical
import RowStore.Proofs.Store.History
import RowStore.Proofs.Store.Locality
import RowStore.Proofs.Store.Request
import RowStore.Proofs.Store.Key
import RowStore.Proofs.Store.ReadBack
import RowStore.Proofs.Store.Balance
import RowStore.Proofs.Store.Declarations
import RowStore.Proofs.Store.Insertion
import RowStore.Proofs.Store.Spelling
import RowStore.Proofs.Store.Projection
import RowStore.Proofs.Store.Deletion
import RowStore.Proofs.Store.Batch
import RowStore.Proofs.Store.Creation
import RowStore.Proofs.Token.Numerals
import RowStore.Proofs.Token.Splitting
import RowStore.Proofs.Token.Quoting
import RowStore.Proofs.Store.QuotedText
import RowStore.Proofs.Number.Rounding
import RowStore.Proofs.Token.FloatPrinting
import RowStore.Proofs.Number.Nearest
import RowStore.Proofs.Number.Shortest
