import Plusfish.Library.Heap
import Plusfish.Library.History
import Plusfish.Library.OrderedMap
import Plusfish.Library.Run
import Plusfish.Library.Quota
import Plusfish.Library.Fifo
import Plusfish.DataStore.Insert
import Plusfish.DataStore.Acceptance
import Plusfish.DataStore.Duplicates
import Plusfish.DataStore.Accounting
import Plusfish.DataStore.Metadata
import Plusfish.Crawler.Callback
import Plusfish.Crawler.Fingerprint
import Plusfish.Crawler.Links
import Plusfish.DataStore.Caps
import Plusfish.DataStore.Coverage
import Plusfish.Audit.Effects
import Plusfish.Audit.RuleSemantics
import Plusfish.Audit.Runners
import Plusfish.Audit.Evidence
import Plusfish.Audit.Suppression
import Plusfish.Audit.Order
import Plusfish.Audit.Baseline
import Plusfish.Audit.Agreement
import Plusfish.Audit.Abandonment
import Plusfish.Audit.Attended
import Plusfish.CurlHttpClient
import Plusfish.CurlHttpClient.Protocol
import Plusfish.CurlHttpClient.Callbacks
import Plusfish.CurlHttpClient.ResponseSize
import Plusfish.CurlHttpClient.DefaultHeaders
import Plusfish.DataStore.Exclusion
import Plusfish.HiddenObjectsFinder
import Plusfish.HiddenObjectsFinder.Bookkeeping
import Plusfish.HiddenObjectsFinder.HandOver
import Plusfish.HiddenObjectsFinder.Duplicates
import Plusfish.MainLoop
import Plusfish.MainLoop.Exclusion
import Plusfish.MainLoop.Lineage
import Plusfish.MainLoop.Changes
import Plusfish.MainLoop.Handlers
import Plusfish.MainLoop.Abandonment
import Plusfish.MainLoop.Presence
import Plusfish.MainLoop.Records
import Plusfish.MainLoop.Moves
import Plusfish.MainLoop.Pipeline
import Plusfish.MainLoop.Scope
import Plusfish.MainLoop.Closure
import Plusfish.Main.Scope
import Plusfish.Library.Loans
import Plusfish.CurlHttpClient.Loans
import Plusfish.Shutdown
import Plusfish.Report.JSONReporter
import Plusfish.Report.TextReporter
import Plusfish.Audit.UrlEncoding
import Plusfish.Parsers.UnescapeHtml
import Plusfish.Response.HeaderLookup
import Plusfish.Response.Rendering
import Plusfish.Response.Bounds
import Plusfish.Audit.Generation
import Plusfish.Audit.InjectedFields
import Plusfish.Parsers.XsrfToken
import Plusfish.Parsers.ScriptText
import Plusfish.Request.Rebuild
import Plusfish.Request.Equality
import Plusfish.NotFoundDetector.BaseUrl
import Plusfish.HtmlFingerprint.Comparison
import Plusfish.DataStore.NotFound
import Plusfish.Audit.LiteralMatchers
import Plusfish.Parsers.FormFields
import Plusfish.Parsers.UrlAttributes
import Plusfish.Parsers.Anchors
import Plusfish.Parsers.TagPayloads
import Plusfish.Parsers.Keywords
import Plusfish.SimpleRateLimiter
import Plusfish.CurlHttpClient.InFlight
import Plusfish.CurlHttpClient.Pacing
import Plusfish.CurlHttpClient.Handles
import Plusfish.Audit.Snippets
import Plusfish.PlusfishCli
import Plusfish.Library.Checked
import Plusfish.Parsers.ScanBounds
import Plusfish.MainLoop.Reporting
