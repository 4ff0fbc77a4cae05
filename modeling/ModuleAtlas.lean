import ModuleAtlas.Analysis.Cycle
import ModuleAtlas.Analysis.Flow
import ModuleAtlas.Analysis.Insight
import ModuleAtlas.Analysis.Layer
import ModuleAtlas.Analysis.Project
import ModuleAtlas.Analysis.Usage
import ModuleAtlas.DataFile
import ModuleAtlas.FileTree
import ModuleAtlas.Glob.Bracket
import ModuleAtlas.Glob.Matching
import ModuleAtlas.Glob.Pattern
import ModuleAtlas.Graph.Build
import ModuleAtlas.Graph.Discovery
import ModuleAtlas.Graph.Exclusion
import ModuleAtlas.Graph.Node
import ModuleAtlas.Graph.Unvisited
import ModuleAtlas.Graph.Warning
import ModuleAtlas.Graph.Wiring
import ModuleAtlas.Json.Fault
import ModuleAtlas.Json.Reader
import ModuleAtlas.Json.Value
import ModuleAtlas.Main
import ModuleAtlas.Manifest.Config
import ModuleAtlas.Manifest.ExportsMap
import ModuleAtlas.Manifest.Targets
import ModuleAtlas.Manifest.Workspace
import ModuleAtlas.Options.Basic
import ModuleAtlas.Options.Checked
import ModuleAtlas.Options.Reading
import ModuleAtlas.Path
import ModuleAtlas.Proofs.CycleReport
import ModuleAtlas.Proofs.CycleWalk
import ModuleAtlas.Record
import ModuleAtlas.Report
import ModuleAtlas.Resolution
import ModuleAtlas.Role
import ModuleAtlas.Script.Cursor
import ModuleAtlas.Script.Dialect
import ModuleAtlas.Script.Doc
import ModuleAtlas.Script.Exports
import ModuleAtlas.Script.Grammar.Call
import ModuleAtlas.Script.Grammar.Class
import ModuleAtlas.Script.Grammar.Declaration
import ModuleAtlas.Script.Grammar.Element
import ModuleAtlas.Script.Grammar.Expression
import ModuleAtlas.Script.Grammar.Function
import ModuleAtlas.Script.Grammar.Literal
import ModuleAtlas.Script.Grammar.Module
import ModuleAtlas.Script.Grammar.Parameter
import ModuleAtlas.Script.Grammar.Pattern
import ModuleAtlas.Script.Grammar.Statement
import ModuleAtlas.Script.Grammar.Type
import ModuleAtlas.Script.Imports
import ModuleAtlas.Script.Lexeme
import ModuleAtlas.Script.Parser
import ModuleAtlas.Script.Program
import ModuleAtlas.Script.Reading
import ModuleAtlas.Script.Semicolon
import ModuleAtlas.Script.Signature
import ModuleAtlas.Script.Tree
import ModuleAtlas.Source
import ModuleAtlas.Specifier
import ModuleAtlas.Target
import ModuleAtlas.Text.Blank
import ModuleAtlas.Text.Case
import ModuleAtlas.Text.Quoted
import ModuleAtlas.Text.Range
import ModuleAtlas.Text.Search
import ModuleAtlas.Text.WordChar
import ModuleAtlas.Utf8
import ModuleAtlas.Proofs.StarVisit
import ModuleAtlas.Proofs.StarNames
import ModuleAtlas.Proofs.StarOrigin
import ModuleAtlas.Proofs.Trace
import ModuleAtlas.Proofs.Linking
import ModuleAtlas.Proofs.OutcomeOrder
import ModuleAtlas.Proofs.WorkerPool
import ModuleAtlas.Proofs.BuiltGraph
import ModuleAtlas.Proofs.ScriptRecords
import ModuleAtlas.Proofs.PublicUse
import ModuleAtlas.Proofs.Isolation
import ModuleAtlas.Proofs.ReverseEdges
import ModuleAtlas.Proofs.ProductionUse
import ModuleAtlas.Proofs.SubpathConditions
import ModuleAtlas.Proofs.GlobLanguage
import ModuleAtlas.Proofs.PackageViews
import ModuleAtlas.Proofs.RelativePath
import ModuleAtlas.Proofs.LayerViolations
import ModuleAtlas.Proofs.AnalysisFailure
import ModuleAtlas.Proofs.CycleCoverage
import ModuleAtlas.Proofs.Rebuild
import ModuleAtlas.Proofs.PlainPath
import ModuleAtlas.Proofs.TargetKeys
import ModuleAtlas.Proofs.EntryTargets
import ModuleAtlas.Proofs.UnusedExports
import ModuleAtlas.Proofs.EntryFlows
import ModuleAtlas.Proofs.ExportTargets
import ModuleAtlas.Proofs.TreeWays
import ModuleAtlas.Proofs.DiscoveredFiles
import ModuleAtlas.Proofs.PatternNames
import ModuleAtlas.Proofs.RepeatedFiles
import ModuleAtlas.Proofs.NestedLoads
import ModuleAtlas.Proofs.WildcardTargets
import ModuleAtlas.Proofs.StarClosure
import ModuleAtlas.Proofs.EntryResolution
import ModuleAtlas.Proofs.WorkspacePackages
import ModuleAtlas.Proofs.LiteralPattern
import ModuleAtlas.Proofs.SettingsExclusion
import ModuleAtlas.Proofs.FolderLayers
import ModuleAtlas.Proofs.ImportLandings
import ModuleAtlas.Proofs.OutputKeys
import ModuleAtlas.Proofs.RelativeInverse
import ModuleAtlas.Proofs.MachineLimits
