import CodeCache.Text.Utf8
import CodeCache.Text.Quoted
import CodeCache.Json.Document
import CodeCache.Json.Printer
import CodeCache.Cache.Placeholder
import CodeCache.Cache.Patch
import CodeCache.Cache.LayoutJson
import CodeCache.Engine.Simulated
import CodeCache.Engine.Reference
import CodeCache.Engine.Flags
import CodeCache.Source
import CodeCache.Host.Engine
import CodeCache.Isolated.Compiler
import CodeCache.Loader.Template
import CodeCache.Loader.Lookup
import CodeCache.Compile.Target
import CodeCache.Compile.Pipeline
import CodeCache.Loading.CacheHandler
import CodeCache.Loading.ModuleTable
import CodeCache.Toml.Document
import CodeCache.Config
import CodeCache.CommandLine.Run
import CodeCache.Session
import CodeCache.Main
import CodeCache.Proofs.Cache.HeaderRuns
import CodeCache.Proofs.Loading.CrossBuild
import CodeCache.Proofs.Loading.OnceOnly
import CodeCache.Proofs.Compile.RoundTrip
import CodeCache.Proofs.Host.Conversations
import CodeCache.Proofs.Host.RunRequests
import CodeCache.Proofs.Loading.ReferenceOnce
import CodeCache.Proofs.Loader.Rendering
import CodeCache.Proofs.Compile.Stages
import CodeCache.Proofs.CommandLine.Build
import CodeCache.Proofs.System.PackageSearch
import CodeCache.Proofs.Loading.Routing
import CodeCache.Proofs.Compile.Collisions
import CodeCache.Proofs.Compile.Independence
import CodeCache.Proofs.Config.Search
import CodeCache.Proofs.CommandLine.RunCache
import CodeCache.Proofs.Loading.LoadOutcomes
import CodeCache.Proofs.Text.Trimming
import CodeCache.Proofs.Engine.ModuleBodies
import CodeCache.Proofs.Compile.SourceLines
import CodeCache.Proofs.Engine.CacheFormat
import CodeCache.Proofs.Config.Layering
import CodeCache.Proofs.Compile.CachePaths
import CodeCache.Proofs.Compile.Extensions
import CodeCache.Proofs.Compile.TextSources
import CodeCache.Proofs.Isolated.Messages
import CodeCache.Proofs.Loader.Placement
import CodeCache.Proofs.System.Discovery
import CodeCache.Proofs.Cache.Placeholders
import CodeCache.Proofs.Engine.Wrapping
import CodeCache.Proofs.Cache.HeaderViews
import CodeCache.Proofs.CommandLine.LoaderCommand
