import TagTemplate.Text.Basic
import TagTemplate.Text.Blank
import TagTemplate.Text.Digit
import TagTemplate.Text.Quote
import TagTemplate.Text.Replacement
import TagTemplate.Text.SearchIndex
import TagTemplate.Text.SegmentPass
import TagTemplate.Text.Split
import TagTemplate.Text.Upper
import TagTemplate.Decimal.Binary
import TagTemplate.Decimal.Shortest
import TagTemplate.Dict
import TagTemplate.Json.Basic
import TagTemplate.Json.Flatten
import TagTemplate.Json.Reader
import TagTemplate.Json.Token
import TagTemplate.Json.Writer
import TagTemplate.Yaml.Basic
import TagTemplate.Yaml.BlockText
import TagTemplate.Yaml.Character
import TagTemplate.Yaml.Folded
import TagTemplate.Yaml.Layout
import TagTemplate.Yaml.Reader
import TagTemplate.Yaml.Scalar
import TagTemplate.Yaml.Scan
import TagTemplate.Yaml.Tag
import TagTemplate.Yaml.Token
import TagTemplate.Yaml.Value
import TagTemplate.Disk.Basic
import TagTemplate.Disk.Path
import TagTemplate.Markup.Basic
import TagTemplate.Markup.CursorScan
import TagTemplate.Markup.Scan
import TagTemplate.Properties.Basic
import TagTemplate.Properties.Definition
import TagTemplate.Properties.Indexed
import TagTemplate.Properties.Record
import TagTemplate.Properties.Stored
import TagTemplate.Store
import TagTemplate.Filter.Argument
import TagTemplate.Filter.Chain
import TagTemplate.Filter.Run
import TagTemplate.Chunk.Folder
import TagTemplate.Chunk.Source
import TagTemplate.Tag.Basic
import TagTemplate.Tag.Context
import TagTemplate.Tag.Error
import TagTemplate.Engine.Basic
import TagTemplate.Engine.Options
import TagTemplate.Engine.Pass
import TagTemplate.Engine.Process
import TagTemplate.Engine.Resolve
import TagTemplate.Site.CommandLine
import TagTemplate.Site.Error
import TagTemplate.Site.Render
import TagTemplate.Site.Settings
import TagTemplate.Main
import TagTemplate.Proofs.Undo
import TagTemplate.Proofs.Runs
import TagTemplate.Proofs.Resolution
import TagTemplate.Proofs.StoreFrame
import TagTemplate.Proofs.Termination
import TagTemplate.Proofs.PassBudget
import TagTemplate.Proofs.Merge
import TagTemplate.Proofs.Substitution
import TagTemplate.Proofs.QuotedSplit
import TagTemplate.Proofs.PropertyString
import TagTemplate.Proofs.Occurrence
import TagTemplate.Proofs.TokenScan
import TagTemplate.Proofs.WaitingTags
import TagTemplate.Proofs.FilterNotation
import TagTemplate.Proofs.FlatContent
import TagTemplate.Proofs.TagNotation
import TagTemplate.Proofs.OpenTags
import TagTemplate.Proofs.Evaluation
import TagTemplate.Proofs.Lookup
import TagTemplate.Proofs.ChunkProperties
import TagTemplate.Proofs.HarmlessText
import TagTemplate.Proofs.SplicedData
import TagTemplate.Proofs.QuotedCuts
import TagTemplate.Proofs.Latch
import TagTemplate.Proofs.LeafNames
import TagTemplate.Proofs.PathSteps
import TagTemplate.Proofs.Confinement
import TagTemplate.Proofs.ChunkChain
import TagTemplate.Proofs.PropertyChain
import TagTemplate.Proofs.Rewriting
import TagTemplate.Proofs.CanonicalText
import TagTemplate.Proofs.Trimming
import TagTemplate.Proofs.SegmentCuts
import TagTemplate.Proofs.Updating
import TagTemplate.Proofs.JoinedProperties
import TagTemplate.Proofs.EncodedSeparators
import TagTemplate.Proofs.LegacyNotation
import TagTemplate.Proofs.CursorScan
import TagTemplate.Proofs.CommandLine
import TagTemplate.Proofs.AssignedValues
import TagTemplate.Proofs.RemovedTags
import TagTemplate.Proofs.FailedAttempts
import TagTemplate.Proofs.Conditions
import TagTemplate.Proofs.Flattening
import TagTemplate.Proofs.PrefixBlocks
import TagTemplate.Proofs.StoredScalars
import TagTemplate.Proofs.OrderedProperties
