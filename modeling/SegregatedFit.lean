import SegregatedFit.Heap.Call
import SegregatedFit.Session
import SegregatedFit.Proofs.Reading
import SegregatedFit.Proofs.Rewriting
import SegregatedFit.Proofs.Auditing
import SegregatedFit.Proofs.Carving
import SegregatedFit.Proofs.CleanAudits
import SegregatedFit.Proofs.Guarantees
import SegregatedFit.Proofs.Alarms
import SegregatedFit.Proofs.Refusals
import SegregatedFit.Proofs.ExactPointers
import SegregatedFit.Proofs.ReleaseOrder
import SegregatedFit.Proofs.RoundTrip
import SegregatedFit.Proofs.Reuse
import SegregatedFit.Proofs.Cycles
import SegregatedFit.Proofs.Serving
import SegregatedFit.Proofs.Edits
import SegregatedFit.Proofs.TwinArenas
import SegregatedFit.Proofs.TwinHeaps
import SegregatedFit.Proofs.Histories
import SegregatedFit.Proofs.HarmlessAudits
import SegregatedFit.Proofs.MemoryKinds
import SegregatedFit.Proofs.ExactAudits
import SegregatedFit.Proofs.Outcomes
import SegregatedFit.Proofs.Relocation
import SegregatedFit.Proofs.PositionIndependence
import SegregatedFit.Proofs.Sessions
import SegregatedFit.Proofs.Recency
import SegregatedFit.Proofs.SegregatedSearch
import SegregatedFit.Proofs.ExhaustiveSearch
import SegregatedFit.Proofs.BestFitting
import SegregatedFit.Proofs.RovingSearch
import SegregatedFit.Proofs.AnySettings
import SegregatedFit.Proofs.MaximalMerging
import SegregatedFit.Proofs.ExactGrowth
import SegregatedFit.Proofs.ExactCarving
import SegregatedFit.Proofs.StalePointers
import SegregatedFit.Proofs.AnyBytes
import SegregatedFit.Proofs.Traversals
import SegregatedFit.Proofs.NewHeaps
import SegregatedFit.Proofs.AddressWalks
import SegregatedFit.Proofs.Classifying
import SegregatedFit.Proofs.ReadingBack
