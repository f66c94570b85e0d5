import BacsEnv.Library.LittleEndian
import BacsEnv.Library.StatefulRun
import BacsEnv.Library.Transition
import BacsEnv.Library.Collect
import BacsEnv.Library.Ownership
import BacsEnv.Library.ErrorPath
import BacsEnv.Library.Simulation
import BacsEnv.Library.Fifo
import BacsEnv.Library.Medium
import BacsEnv.Library.Member
import BacsEnv.Library.LastOwner
import BacsEnv.Library.InPlace
import BacsEnv.Model.Text
import BacsEnv.Model.ContainerAppender
import BacsEnv.Model.Bpacs.Registry
import BacsEnv.Model.Bpacs.IterateObject
import BacsEnv.Model.Plakpacs.Stream
import BacsEnv.Model.Plakpacs.Schema
import BacsEnv.Model.Plakpacs.Serializer
import BacsEnv.Model.Plakpacs.Registered
import BacsEnv.Model.Plakpacs.InPlace
import BacsEnv.Model.Bacs.SizePrefixed
import BacsEnv.Model.Bacs.ReadLoop
import BacsEnv.Model.Bacs.IoWorker
import BacsEnv.Model.Bacs.Reader
import BacsEnv.Model.Gspp.StreamClient
import BacsEnv.Model.Gspp.HandlerSystem
import BacsEnv.Model.Gspp.DualConnection
import BacsEnv.Model.Gspp.DatagramConnection
import BacsEnv.Model.Gspp.Componentable
import BacsEnv.Model.Gspp.StreamLink
import BacsEnv.Model.Gspp.DatagramNetwork
import BacsEnv.Model.Gspp.ClientLifetime
import BacsEnv.Model.Gspp.ComponentStore
import BacsEnv.Model.Bpjson.Json
import BacsEnv.Model.Bpjson.Types
import BacsEnv.Model.Bpjson.Serializer
import BacsEnv.Model.Bpjson.Registered
import BacsEnv.Model.Bpjson.InPlace
import BacsEnv.Analysis.Bpacs.Registry
import BacsEnv.Analysis.Bpacs.IterateObject
import BacsEnv.Analysis.Plakpacs.StreamReads
import BacsEnv.Analysis.Plakpacs.Bounds
import BacsEnv.Analysis.Plakpacs.Wire
import BacsEnv.Analysis.Plakpacs.Decodes
import BacsEnv.Analysis.Plakpacs.Overwrite
import BacsEnv.Analysis.Plakpacs.RoundTrip
import BacsEnv.Analysis.Plakpacs.Canonical
import BacsEnv.Analysis.Plakpacs.Decoded
import BacsEnv.Analysis.Plakpacs.ElementCount
import BacsEnv.Analysis.Plakpacs.Evolution
import BacsEnv.Analysis.Plakpacs.ErrorTexts
import BacsEnv.Analysis.Plakpacs.Constraints
import BacsEnv.Analysis.Plakpacs.Registered
import BacsEnv.Analysis.Plakpacs.ThrownReads
import BacsEnv.Analysis.Bacs.ReadSteps
import BacsEnv.Analysis.Bacs.SizeAgreement
import BacsEnv.Analysis.Bacs.FrameSync
import BacsEnv.Analysis.Bacs.WorkerThreads
import BacsEnv.Analysis.Bacs.Completions
import BacsEnv.Analysis.Gspp.ClientSteps
import BacsEnv.Analysis.Gspp.WriteQueue
import BacsEnv.Analysis.Gspp.WriteOrder
import BacsEnv.Analysis.Gspp.GracefulClose
import BacsEnv.Analysis.Gspp.ThrowingSends
import BacsEnv.Analysis.Gspp.FailedFrames
import BacsEnv.Analysis.Gspp.ReceiveLoop
import BacsEnv.Analysis.Gspp.Dispatch
import BacsEnv.Analysis.Gspp.PacketCallback
import BacsEnv.Analysis.Gspp.Disconnect
import BacsEnv.Analysis.Gspp.Notifications
import BacsEnv.Analysis.Gspp.DatagramLoop
import BacsEnv.Analysis.Gspp.ComponentViews
import BacsEnv.Analysis.Gspp.StreamLink
import BacsEnv.Analysis.Gspp.LinkProgress
import BacsEnv.Analysis.Gspp.PacketLink
import BacsEnv.Analysis.Gspp.DatagramNetwork
import BacsEnv.Analysis.Gspp.ClientLifetime
import BacsEnv.Analysis.Gspp.ComponentStore
import BacsEnv.Analysis.Bpjson.Objects
import BacsEnv.Analysis.Bpjson.Image
import BacsEnv.Analysis.Bpjson.RoundTrip
import BacsEnv.Analysis.Bpjson.Threaded
import BacsEnv.Analysis.Bpjson.Acceptance
import BacsEnv.Analysis.Bpjson.Overwrite
import BacsEnv.Analysis.Bpjson.MissingKeys
import BacsEnv.Analysis.Bpjson.Absence
import BacsEnv.Analysis.Bpjson.WriteOver
import BacsEnv.Analysis.Bpjson.WriteInto
import BacsEnv.Analysis.Bpjson.Versions
import BacsEnv.Analysis.Bpjson.Exceptions
import BacsEnv.Analysis.Bpjson.Registered
import BacsEnv.Analysis.Bpjson.Resave
import BacsEnv.Analysis.Bpjson.ThrownReads
import BacsEnv.Analysis.Bpjson.Settings
