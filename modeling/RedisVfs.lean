import RedisVfs.Shared.CString
import RedisVfs.Shared.Directory
import RedisVfs.Shared.Eater
import RedisVfs.Shared.Journal
import RedisVfs.Shared.Pool
import RedisVfs.Shared.Program
import RedisVfs.Shared.Pruning
import RedisVfs.Shared.Redis
import RedisVfs.Shared.Resp
import RedisVfs.Shared.Segments
import RedisVfs.Source.Buffers
import RedisVfs.Source.Commands
import RedisVfs.Source.Connection
import RedisVfs.Source.Contents
import RedisVfs.Source.Format
import RedisVfs.Source.Fuse
import RedisVfs.Source.Lifetimes
import RedisVfs.Source.PathParser
import RedisVfs.Source.Reader
import RedisVfs.Source.Runs
import RedisVfs.Source.Safe
import RedisVfs.Source.Schema
import RedisVfs.Source.Sessions
import RedisVfs.Source.Terminal
import RedisVfs.Source.Vfs
import RedisVfs.Source.Wrapper
import RedisVfs.Tree.Climbing
import RedisVfs.Tree.Growth
import RedisVfs.Tree.History
import RedisVfs.Tree.Paths
import RedisVfs.Tree.Pruned
import RedisVfs.Tree.Reference
import RedisVfs.Tree.Resolution
import RedisVfs.Refinement.Adrift
import RedisVfs.Refinement.Anywhere
import RedisVfs.Refinement.Buffering
import RedisVfs.Refinement.Building
import RedisVfs.Refinement.Calling
import RedisVfs.Refinement.Creating
import RedisVfs.Refinement.Denoting
import RedisVfs.Refinement.Image
import RedisVfs.Refinement.Listing
import RedisVfs.Refinement.Lookups
import RedisVfs.Refinement.Parsing
import RedisVfs.Refinement.Placing
import RedisVfs.Refinement.Pruning
import RedisVfs.Refinement.Ranging
import RedisVfs.Refinement.Reaching
import RedisVfs.Refinement.Readable
import RedisVfs.Refinement.Reading
import RedisVfs.Refinement.Removing
import RedisVfs.Refinement.Resolving
import RedisVfs.Refinement.Skipping
import RedisVfs.Refinement.Stating
import RedisVfs.Refinement.Viewing
import RedisVfs.Wire.Building
import RedisVfs.Wire.Directives
import RedisVfs.Wire.Exchange
import RedisVfs.Wire.Formatting
import RedisVfs.Wire.Items
import RedisVfs.Wire.Pieces
import RedisVfs.Wire.Replies
import RedisVfs.Wire.Requests
import RedisVfs.Wire.Spelling
import RedisVfs.Wire.Values
import RedisVfs.Concurrency.Allocating
import RedisVfs.Concurrency.Calls
import RedisVfs.Concurrency.Creating
import RedisVfs.Concurrency.Starting
import RedisVfs.Properties.Ancestors
import RedisVfs.Properties.Attributes
import RedisVfs.Properties.CallEnds
import RedisVfs.Properties.Capacities
import RedisVfs.Properties.CommandFormats
import RedisVfs.Properties.Composition
import RedisVfs.Properties.Connections
import RedisVfs.Properties.DanglingLinks
import RedisVfs.Properties.Detaching
import RedisVfs.Properties.Encoding
import RedisVfs.Properties.Extension
import RedisVfs.Properties.FailedIds
import RedisVfs.Properties.FileFields
import RedisVfs.Properties.IdAllocation
import RedisVfs.Properties.KeptAttributes
import RedisVfs.Properties.KeptListings
import RedisVfs.Properties.Landing
import RedisVfs.Properties.LegalNames
import RedisVfs.Properties.Lifetimes
import RedisVfs.Properties.Listings
import RedisVfs.Properties.ParsedObjects
import RedisVfs.Properties.PathBuilders
import RedisVfs.Properties.ReadBack
import RedisVfs.Properties.Records
import RedisVfs.Properties.Removal
import RedisVfs.Properties.ReplyStream
import RedisVfs.Properties.Representation
import RedisVfs.Properties.Rerouting
import RedisVfs.Properties.Resolution
import RedisVfs.Properties.Resolvers
import RedisVfs.Properties.RoundTrip
import RedisVfs.Properties.SameFolder
import RedisVfs.Properties.Sentinel
import RedisVfs.Properties.SiblingNames
import RedisVfs.Properties.Splitting
import RedisVfs.Properties.StartUp
import RedisVfs.Properties.TerminalInput
import RedisVfs.Properties.Terminals
import RedisVfs.Properties.WholeComponents
