import Ezcap.Verification.Server.Descriptors
import Ezcap.Verification.Daemon.Configuration
import Ezcap.Verification.Daemon.EventIdentity
import Ezcap.Verification.Daemon.DnsEncoding
import Ezcap.Verification.Daemon.DropCounter
import Ezcap.Verification.PacketParser.Fragments
import Ezcap.Verification.PolicyEngine.Serializability
import Ezcap.Verification.Storage.ExactlyOnce
import Ezcap.Verification.Daemon.SetPolicy
import Ezcap.Verification.NativeHost.Subscriptions
import Ezcap.Verification.PolicyEngine.Tightening
import Ezcap.Verification.Redactor.QueryIndependence
import Ezcap.Verification.Capture.Orientation
import Ezcap.Verification.NativeHost.Forwarding
import Ezcap.Verification.Extension.EventRing
import Ezcap.Verification.Specgen.Shapes
import Ezcap.Verification.NativeHost.Exceptions
import Ezcap.Verification.Config.Totality
import Ezcap.Verification.Config.RoundTrip
import Ezcap.Verification.Capture.PcapFilters
import Ezcap.Verification.Drivers.HeapCeiling
import Ezcap.Verification.Drivers.Quarantine
import Ezcap.Verification.Drivers.Reload
import Ezcap.Verification.PolicyEngine.Annotations
import Ezcap.Verification.Redactor.HostnameOnly
import Ezcap.Verification.Redactor.LetterCase
import Ezcap.Verification.PacketParser.RoundTrip
import Ezcap.Verification.PacketParser.Bounds
import Ezcap.Verification.PacketParser.QueryNames
import Ezcap.Verification.NativeHost.TextCheck
import Ezcap.Verification.Ipc.Conformance
import Ezcap.Verification.Extension.EventValidation
import Ezcap.Verification.Drivers.Classification
import Ezcap.Verification.Drivers.Manifests
import Ezcap.Verification.Drivers.Declarations
import Ezcap.Verification.Drivers.Filters
import Ezcap.Verification.Drivers.Emission
import Ezcap.Verification.Capture.FilterLanguage
import Ezcap.Verification.Drivers.Accounting
import Ezcap.Verification.Capture.QnameBounds
import Ezcap.Verification.Drivers.UtilBindings
import Ezcap.Verification.Storage.Migrations
import Ezcap.Verification.Common.Rfc3339
import Ezcap.Verification.Drivers.ScriptLoading
import Ezcap.Verification.Daemon.Captures
import Ezcap.Verification.Daemon.Sources
