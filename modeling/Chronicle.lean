import Chronicle.SortedMap
import Chronicle.Bytes
import Chronicle.Text.Hex
import Chronicle.Float64
import Chronicle.Decimal.Layout
import Chronicle.Json.Decode
import Chronicle.Value.Basic
import Chronicle.Text.Width
import Chronicle.Text.Blank
import Chronicle.Value.Json
import Chronicle.Schema.Expression
import Chronicle.Error
import Chronicle.Schema.Table
import Chronicle.Comparator
import Chronicle.Schema.Catalog
import Chronicle.Storage.FactStore
import Chronicle.Storage.Settings
import Chronicle.Query.Page
import Chronicle.Database
import Chronicle.Paging
import Chronicle.Format.Report
import Chronicle.Sample
import Chronicle.Storage.Image
import Chronicle.Main
import Chronicle.Proofs.ByteOrder
import Chronicle.Proofs.KeyOrder
import Chronicle.Proofs.TypedTuples
import Chronicle.Proofs.VersionKeys
import Chronicle.Proofs.Expressions
import Chronicle.Proofs.Layouts
import Chronicle.Proofs.Places
import Chronicle.Proofs.Histories
import Chronicle.Proofs.IndexTrees
import Chronicle.Proofs.Stores
import Chronicle.Proofs.Pages
import Chronicle.Proofs.Scans
import Chronicle.Proofs.Ranges
import Chronicle.Proofs.StoredHistories
import Chronicle.Proofs.JoinedRows
import Chronicle.Proofs.VisibleRanges
import Chronicle.Proofs.Catalogs
import Chronicle.Proofs.DatabaseRuns
import Chronicle.Proofs.Continuations
import Chronicle.Proofs.StoredIdentities
import Chronicle.Proofs.SharedStores
import Chronicle.Proofs.Sessions
import Chronicle.Proofs.QuerySources
import Chronicle.Proofs.IsolatedTables
import Chronicle.Proofs.CompleteIndexes
import Chronicle.Proofs.TypedResponses
import Chronicle.Proofs.Reopening
import Chronicle.Proofs.KnownDefinitions
import Chronicle.Proofs.VisibleHistories
import Chronicle.Proofs.AtomicLoads
import Chronicle.Proofs.Outlooks
import Chronicle.Proofs.ConcurrentReads
import Chronicle.Proofs.Provenance
import Chronicle.Proofs.RecalledFacts
import Chronicle.Proofs.RecalledRows
import Chronicle.Proofs.RedefinedTables
import Chronicle.Proofs.JoinedPages
import Chronicle.Proofs.HeadBlocks
import Chronicle.Proofs.PagedRuns
import Chronicle.Proofs.Ingestion
import Chronicle.Proofs.PlainForms
import Chronicle.Proofs.PrintedTokens
import Chronicle.Proofs.ReadFacts
import Chronicle.Proofs.PrintedRows
import Chronicle.Proofs.CoarseIndexes
import Chronicle.Proofs.SoundQueries
import Chronicle.Proofs.CatalogRuns
import Chronicle.Proofs.TupleOrder
import Chronicle.Proofs.NumberTexts
import Chronicle.Proofs.JsonTexts
import Chronicle.Proofs.TokenTexts
