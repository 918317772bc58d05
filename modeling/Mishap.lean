import Mishap.Log.Filter
import Mishap.Log.Line
import Mishap.Metrics
import Mishap.Report.Reading
import Mishap.Store.Groups
import Mishap.Store.Outline
import Mishap.Proofs.Breaker.History
import Mishap.Proofs.Breaker.Announcements
import Mishap.Proofs.Store.Contents
import Mishap.Proofs.Store.Chain
import Mishap.Proofs.Store.Metadata
import Mishap.Proofs.Store.Origin
import Mishap.Proofs.Report.ReadBack
import Mishap.Proofs.Store.Grounded
import Mishap.Proofs.Report.Agreement
import Mishap.Proofs.Store.Notices
import Mishap.Proofs.Metering
import Mishap.Proofs.Log.Filter
import Mishap.Proofs.Store.Holders
import Mishap.Proofs.Report.Formats
import Mishap.Proofs.Store.Search
import Mishap.Proofs.Store.Attempts
import Mishap.Proofs.Report.Placement
import Mishap.Proofs.Store.Streamed
import Mishap.Proofs.Report.Options
import Mishap.Proofs.Breaker.Settings
import Mishap.Proofs.Report.Contexts
import Mishap.Proofs.Report.Layout
import Mishap.Proofs.Report.Rendering
import Mishap.Proofs.Log.Fields
import Mishap.Proofs.FrameCursor
