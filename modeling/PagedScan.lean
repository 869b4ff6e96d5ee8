import PagedScan.Bytes
import PagedScan.Direction
import PagedScan.Filter
import PagedScan.Page
import PagedScan.Page.Iter
import PagedScan.Decimal
import PagedScan.Decimal.Binary64
import PagedScan.Text.Hidden
import PagedScan.Text.Quoted
import PagedScan.Text.Utf8
import PagedScan.Json.Ascii
import PagedScan.Json.Number
import PagedScan.Json.StringLiteral
import PagedScan.Json.Token
import PagedScan.Json.Problem
import PagedScan.Json.Reader
import PagedScan.Json.Skip
import PagedScan.Json.Record
import PagedScan.Settings
import PagedScan.Settings.Json
import PagedScan.Settings.Load
import PagedScan.Error
import PagedScan.Event
import PagedScan.Outcome
import PagedScan.Cursor
import PagedScan.Cursor.Stored
import PagedScan.Cursor.Failing
import PagedScan.Store
import PagedScan.Store.Write
import PagedScan.Batch.Word
import PagedScan.Batch.Op
import PagedScan.Batch
import PagedScan.Fetch
import PagedScan.Fetch.Drain
import PagedScan.Query
import PagedScan.Query.Json
import PagedScan.Search
import PagedScan.Proofs.PageContents
import PagedScan.Proofs.Passage
import PagedScan.Proofs.StoreWalk
import PagedScan.Proofs.Resumption
import PagedScan.Proofs.Selection
import PagedScan.Proofs.SearchPages
import PagedScan.Proofs.FaultWalk
import PagedScan.Proofs.FaultySearch
import PagedScan.Proofs.BatchReplay
import PagedScan.Proofs.RawAppend
import PagedScan.Proofs.WholeRange
import PagedScan.Proofs.Pagination
import PagedScan.Proofs.SteadyScan
import PagedScan.Proofs.Tiling
import PagedScan.Proofs.FaultyDrain
import PagedScan.Proofs.Policies
import PagedScan.Proofs.BatchFormat
import PagedScan.Proofs.StoreMap
import PagedScan.Proofs.Numerals
import PagedScan.Proofs.PageReading
import PagedScan.Proofs.Spelling
import PagedScan.Proofs.ReadingTokens
import PagedScan.Proofs.QueryRoundTrip
import PagedScan.Proofs.CompletePaging
import PagedScan.Proofs.FaultRecovery
import PagedScan.Proofs.ManyPuts
import PagedScan.Proofs.CursorPlaces
import PagedScan.Proofs.FailingMoves
import PagedScan.Proofs.PageRoom
import PagedScan.Proofs.WholeValues
import PagedScan.Proofs.JsonGrammar
import PagedScan.Proofs.MemberOrder
import PagedScan.Proofs.KeySpellings
import PagedScan.Proofs.LoadedSizes
import PagedScan.Proofs.BothEnds
import PagedScan.Proofs.AdmittedKeys
