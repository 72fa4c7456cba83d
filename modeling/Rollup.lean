import Rollup.Basic
import Rollup.Lib.Exec
import Rollup.Lib.Merkle
import Rollup.Tree
import Rollup.Tree.Refine
import Rollup.Global
import Rollup.Encode
import Rollup.Manager
import Rollup.Ledger
import Rollup.Ledger.Ops
import Rollup.Ledger.Batch
import Rollup.Ledger.Transactions
import Rollup.Ledger.Steps
import Rollup.Mirror
import Rollup.Lib.Chain
import Rollup.Manager.Buffer
import Rollup.Blocks
import Rollup.Openings
import Rollup.TwoStep
import Rollup.Balances
import Rollup.Conservation
import Rollup.Msg
import Rollup.Withdrawals
import Rollup.Orders
import Rollup.Settlement
import Rollup.Authorisation
import Rollup.OrderIndex
import Rollup.Lib.Maps
import Rollup.Persist
import Rollup.Restore
import Rollup.Lib.Bits
import Rollup.Encode.Bits
import Rollup.Encode.Writes
import Rollup.Emitted
import Rollup.Records
import Rollup.Decoding
import Rollup.Publishing
import Rollup.Encode.Typed
import Rollup.Agreement
import Rollup.Snapshots
import Rollup.Dumps
import Rollup.Saving
import Rollup.Lib.Related
import Rollup.Same
import Rollup.Messages
import Rollup.Handling
import Rollup.Loop
import Rollup.Timing
import Rollup.Resuming
import Rollup.Keys
import Rollup.Lib.Local
import Rollup.Slots
import Rollup.Ledger.Accepts
import Rollup.Commuting
import Rollup.Tree.Swap
import Rollup.Roles
import Rollup.Loader
import Rollup.Loading
import Rollup.Operations
import Rollup.Replays
import Rollup.Rounding
import Rollup.Querying
import Rollup.Tree.Filling
import Rollup.Tree.Checked
import Rollup.Encode.Compressing
import Rollup.Creating
import Rollup.Positions
import Rollup.Paging
import Rollup.Trading
import Rollup.Intact
import Rollup.Sequential
import Rollup.Bounds
import Rollup.Encode.Calls
import Rollup.Commitments
import Rollup.Books
import Rollup.Binding
import Rollup.Fills
import Rollup.Inclusion
import Rollup.Availability
import Rollup.Exchange
import Rollup.Lib.Json
import Rollup.Serialize
import Rollup.Serving
import Rollup.Reports
import Rollup.Deposits
import Rollup.Enquiries
import Rollup.Accepting
import Rollup.Recovering
import Rollup.Delivering
