import Retrace.Action.Event
import Retrace.Action.Kind
import Retrace.Basic
import Retrace.Command.Dump
import Retrace.Command.Line
import Retrace.Command.Run
import Retrace.Double.Basic
import Retrace.Double.Decimal
import Retrace.Double.Shortest
import Retrace.Double.Text
import Retrace.Engine.Basic
import Retrace.Engine.Request
import Retrace.Files.Path
import Retrace.Files.Tree
import Retrace.IndexedTags
import Retrace.Json
import Retrace.Log.Basic
import Retrace.Log.Indexed
import Retrace.Log.Reading
import Retrace.Log.Structure
import Retrace.Log.Writing
import Retrace.OrderedMap
import Retrace.Proofs.Recording.Reports
import Retrace.Proofs.Recording.Tags
import Retrace.Proofs.Replay.Abreast
import Retrace.Proofs.Replay.Calls
import Retrace.Proofs.Replay.Course
import Retrace.Proofs.Replay.Driving
import Retrace.Proofs.Replay.Ending
import Retrace.Proofs.Replay.Execution
import Retrace.Proofs.Replay.FastForward
import Retrace.Proofs.Replay.Structure
import Retrace.Proofs.Runs
import Retrace.Proofs.Sandbox.Operations
import Retrace.Recorder
import Retrace.Replay.CallStack
import Retrace.Replay.Callbacks
import Retrace.Replay.Error
import Retrace.Replay.Execution
import Retrace.Replay.Playback
import Retrace.Replay.Session
import Retrace.Sandbox.Basic
import Retrace.Sandbox.Heap
import Retrace.Source.Directory
import Retrace.Source.Key
import Retrace.Source.Store
import Retrace.TagTable
import Retrace.Value
import Retrace.Wire.Bytes
import Retrace.Wire.Error
import Retrace.Wire.Framing
import Retrace.Wire.Key
import Retrace.Wire.Layout
import Retrace.Wire.Quoted
import Retrace.Wire.Reader
import Retrace.Wire.Record
import Retrace.Wire.Scalar
import Retrace.Wire.Writer
import Retrace.Main
import Retrace.Proofs.Recording.Host
import Retrace.Proofs.Recording.Shadow
import Retrace.Proofs.Recording.Determinism
import Retrace.Proofs.Wire.Scalars
import Retrace.Proofs.Wire.Texts
import Retrace.Proofs.Wire.Fields
import Retrace.Proofs.Log.Delivery
import Retrace.Proofs.Log.RoundTrip
import Retrace.Proofs.Wire.Grammar
import Retrace.Proofs.Wire.Acceptance
import Retrace.Proofs.Wire.RecordAcceptance
import Retrace.Proofs.Log.Exactness
import Retrace.Proofs.Log.Stopping
import Retrace.Proofs.Log.Interruption
import Retrace.Proofs.Replay.RootExceptions
import Retrace.Proofs.Replay.Addresses
import Retrace.Proofs.Replay.Faulted
import Retrace.Proofs.Double.Rounding
import Retrace.Proofs.Double.ReadBack
import Retrace.Proofs.Wire.Steady
import Retrace.Proofs.Wire.Astray
import Retrace.Proofs.Wire.OneLine
import Retrace.Proofs.Log.ReadingOn
import Retrace.Proofs.Log.Closing
import Retrace.Proofs.Log.Lines
import Retrace.Proofs.Log.Overrun
import Retrace.Proofs.Log.Tolerance
import Retrace.Proofs.Log.Damage
import Retrace.Proofs.Replay.Restoring
import Retrace.Proofs.Replay.OpenCalls
import Retrace.Proofs.Replay.MatchingEnds
import Retrace.Proofs.Replay.Leniency
import Retrace.Proofs.Replay.Halting
import Retrace.Proofs.Replay.HiddenFailures
import Retrace.Proofs.Recording.Histories
import Retrace.Proofs.Recording.InStep
import Retrace.Proofs.Recording.Depths
import Retrace.Proofs.Sandbox.Handles
import Retrace.Proofs.Sandbox.Containment
import Retrace.Proofs.Replay.Dangling
import Retrace.Proofs.Recording.Lag
import Retrace.Proofs.Recording.Retagging
import Retrace.Proofs.Recording.Appending
import Retrace.Proofs.Log.Rewriting
import Retrace.Proofs.Tagging.Histories
import Retrace.Proofs.Tagging.Patterns
import Retrace.Proofs.Sandbox.Lineage
import Retrace.Proofs.Sandbox.Lifetimes
import Retrace.Proofs.Replay.FailedEvents
import Retrace.Proofs.Recording.Refusals
import Retrace.Proofs.Files.Paths
import Retrace.Proofs.Source.FileNames
import Retrace.Proofs.Files.Changes
import Retrace.Proofs.Source.Mirroring
import Retrace.Proofs.Source.Isolation
import Retrace.Proofs.Callbacks.Order
import Retrace.Proofs.Replay.Places
import Retrace.Proofs.Log.RecordLines
import Retrace.Proofs.Replay.RefusedEnds
import Retrace.Proofs.Log.Indexes
import Retrace.Proofs.Wire.Sequences
import Retrace.Proofs.Log.Rounds
import Retrace.Proofs.Log.Counting
