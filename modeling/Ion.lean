import Ion.Json.Reading
import Ion.Json.Writing
import Ion.Proofs.Frames
import Ion.Proofs.Calls
import Ion.Proofs.Streaming
import Ion.Proofs.Bodies
import Ion.Proofs.Items
import Ion.Proofs.Reading
import Ion.Proofs.RoundTrip
import Ion.Proofs.Symbols
import Ion.Proofs.Interning
import Ion.Proofs.Lookups
import Ion.Proofs.Tables
import Ion.Proofs.Names
import Ion.Proofs.Sessions
import Ion.Proofs.SessionRoundTrip
import Ion.Proofs.Twins
import Ion.Proofs.SessionCongruence
import Ion.Proofs.SessionTwins
import Ion.Proofs.Resets
import Ion.Proofs.Grammar
import Ion.Proofs.GrammarItems
import Ion.Proofs.Outlines
import Ion.Proofs.Acceptance
import Ion.Proofs.Decoded
import Ion.Proofs.Transcoding
import Ion.Proofs.Copying
import Ion.Proofs.Slices
import Ion.Proofs.Bounds
import Ion.Proofs.Windows
import Ion.Proofs.IndexReaders
import Ion.Proofs.IndexSteps
import Ion.Proofs.Refusals
import Ion.Proofs.Deliveries
import Ion.Proofs.Finishes
import Ion.Proofs.Slots
import Ion.Proofs.Segments
import Ion.Proofs.Stacks
import Ion.Proofs.Truncation
import Ion.Proofs.SharedBuffer
import Ion.Proofs.Dialogues
import Ion.Proofs.Queries
import Ion.Proofs.Excursions
import Ion.Proofs.Catalogs
import Ion.Proofs.Displacement
import Ion.Proofs.DisplacedReaders
import Ion.Proofs.Concatenation
import Ion.Proofs.JsonReading
import Ion.Proofs.JsonRoundTrip
import Ion.Proofs.Groups
import Ion.Proofs.Lengths
import Ion.Proofs.Words
import Ion.Proofs.Primitives
import Ion.Proofs.Integers
import Ion.Proofs.Shortest
import Ion.Proofs.Getters
import Ion.Proofs.Loading
import Ion.Proofs.Appends
import Ion.Proofs.WordSymbols
import Ion.Proofs.SidRanges
import Ion.Proofs.Instants
import Ion.Proofs.TimestampBodies
import Ion.Proofs.TimestampTexts
import Ion.Proofs.Rounds
import Ion.Proofs.Progress
import Ion.Proofs.CatalogLookups
import Ion.Proofs.BlockUse
import Ion.Proofs.StraySymbols
import Ion.Proofs.TimestampRanges
import Ion.Proofs.WordRuns
import Ion.Proofs.WordSessions
