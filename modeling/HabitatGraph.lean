import HabitatGraph.Foundation.BreadthFirst
import HabitatGraph.Foundation.CypherLexer
import HabitatGraph.Foundation.DelimitedChunks
import HabitatGraph.Foundation.Escaping
import HabitatGraph.Foundation.FairRuns
import HabitatGraph.Foundation.GreedyPrefix
import HabitatGraph.Foundation.InlineLinks
import HabitatGraph.Foundation.JsonText
import HabitatGraph.Foundation.KeptEnds
import HabitatGraph.Foundation.KeyedList
import HabitatGraph.Foundation.LabelledGraph
import HabitatGraph.Foundation.LexicalPath
import HabitatGraph.Foundation.LinearProbe
import HabitatGraph.Foundation.Networks
import HabitatGraph.Foundation.PartialMap
import HabitatGraph.Foundation.Placeholders
import HabitatGraph.Foundation.Positions
import HabitatGraph.Foundation.Program
import HabitatGraph.Foundation.Recency
import HabitatGraph.Foundation.RoseTree
import HabitatGraph.Foundation.Scanner
import HabitatGraph.Foundation.Selections
import HabitatGraph.Foundation.SelfDelimiting
import HabitatGraph.Foundation.SortedDelta
import HabitatGraph.Foundation.SortedList
import HabitatGraph.Foundation.Sources
import HabitatGraph.Foundation.Splitting
import HabitatGraph.Foundation.StableSort
import HabitatGraph.Foundation.Tally
import HabitatGraph.Foundation.Template
import HabitatGraph.Foundation.Utf8Lines
import HabitatGraph.Foundation.WikiLinks
import HabitatGraph.Foundation.Xml
import HabitatGraph.Foundation.XmlLexer
import HabitatGraph.Core.GuardPath
import HabitatGraph.Core.GuardUrl
import HabitatGraph.Core.LossyText
import HabitatGraph.Core.Offsets
import HabitatGraph.Core.Sanitize
import HabitatGraph.Core.Schema
import HabitatGraph.Core.StrDebug
import HabitatGraph.Core.Text
import HabitatGraph.Core.View
import HabitatGraph.Source.IpAddr
import HabitatGraph.Source.Manifest
import HabitatGraph.Source.SafeUrl
import HabitatGraph.Source.Ssrf
import HabitatGraph.Source.UrlParts
import HabitatGraph.Source.UrlViews
import HabitatGraph.Extract.Cpp
import HabitatGraph.Extract.CppPasses
import HabitatGraph.Extract.Markdown
import HabitatGraph.Extract.MarkdownFences
import HabitatGraph.Extract.MarkdownSpans
import HabitatGraph.Extract.Paths
import HabitatGraph.Extract.Rust
import HabitatGraph.Extract.SyntaxTree
import HabitatGraph.Build.Assemble
import HabitatGraph.Build.Dedup
import HabitatGraph.Build.DriverCommunities
import HabitatGraph.Build.IdAssignment
import HabitatGraph.Build.Intern
import HabitatGraph.Build.Merge
import HabitatGraph.Build.MergeAlgebra
import HabitatGraph.Build.MergeCommunities
import HabitatGraph.Build.MergeDriver
import HabitatGraph.Build.MergeKeeps
import HabitatGraph.Build.SelfMerge
import HabitatGraph.Analyze.Centrality
import HabitatGraph.Analyze.Cluster
import HabitatGraph.Analyze.ConfidenceGate
import HabitatGraph.Backend.Protocol
import HabitatGraph.Export.Cypher
import HabitatGraph.Export.Graphml
import HabitatGraph.Export.Html
import HabitatGraph.Export.Json
import HabitatGraph.Export.Obsidian
import HabitatGraph.Export.ObsidianLinks
import HabitatGraph.Export.Wiki
import HabitatGraph.Cache.Cas
import HabitatGraph.Cache.Evict
import HabitatGraph.Cache.Key
import HabitatGraph.Cache.Memo
import HabitatGraph.Cache.StoreRuns
import HabitatGraph.Habitat.ArcGraph
import HabitatGraph.Habitat.ArcTelemetry
import HabitatGraph.Serve.Budget
import HabitatGraph.Serve.Explain
import HabitatGraph.Serve.Generation
import HabitatGraph.Serve.Jsonrpc
import HabitatGraph.Serve.LabelIndex
import HabitatGraph.Serve.Load
import HabitatGraph.Serve.LoadRoundTrip
import HabitatGraph.Serve.Mcp
import HabitatGraph.Serve.Query
import HabitatGraph.Serve.QueryTotals
import HabitatGraph.Serve.Reexport
import HabitatGraph.Serve.Resources
import HabitatGraph.Serve.XmBridge
import HabitatGraph.Daemon.BoundedLine
import HabitatGraph.Daemon.Connection
import HabitatGraph.Cli.AddFetch
import HabitatGraph.Cli.AddOutput
import HabitatGraph.Cli.GitAttributes
import HabitatGraph.Cli.GraphRuns
import HabitatGraph.Cli.InputDiff
import HabitatGraph.Cli.McpCommand
import HabitatGraph.Cli.McpTransports
import HabitatGraph.Cli.MergeDriverCommand
import HabitatGraph.Cli.Prune
import HabitatGraph.Cli.Update
import HabitatGraph.Cli.UpdateArtifacts
import HabitatGraph.Cli.UpdateRaces
import HabitatGraph.Cli.UpdateRebuild
import HabitatGraph.Cli.UpdateTraces
import HabitatGraph.Cli.UpdateWorld
import HabitatGraph.Cli.Watch
import HabitatGraph.Cli.WatchArcs
import HabitatGraph.Daemon.ServeRuns
import HabitatGraph.Fixtures.Parity
import HabitatGraph.Cli.Install
import HabitatGraph.Cli.InstallRuns
import HabitatGraph.Cli.HookInstall
import HabitatGraph.Cli.HookRuns
import HabitatGraph.Cli.RebuildFiles
import HabitatGraph.Cli.AttributesInstall
