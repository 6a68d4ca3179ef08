import Wok.Interp.Prim
import Wok.Interp.RC.Machine
import Wok.Proofs.TailJump
import Wok.Proofs.Activation
import Wok.Proofs.StringPrims
import Wok.Proofs.Image
import Wok.Proofs.CaseRuns
import Wok.Proofs.Coverage
import Wok.Proofs.Perceus
import Wok.Proofs.Layout
import Wok.Proofs.UnifyErrors
import Wok.Proofs.Records
import Wok.Proofs.Twin
import Wok.Proofs.Reordering
import Wok.Proofs.Handles
import Wok.Proofs.SlabPhysical
import Wok.Proofs.Backends
import Wok.Proofs.SexprRead
import Wok.Proofs.LayoutColumns
import Wok.Proofs.LayoutGroups
import Wok.Proofs.Coherence
import Wok.Proofs.Transfers
import Wok.Proofs.Trivia
import Wok.Proofs.SexpAgree
import Wok.Proofs.Locality
import Wok.Proofs.Utf8Search
import Wok.Proofs.Scan
import Wok.Proofs.ReorderWalk
import Wok.Proofs.Oracle
import Wok.Proofs.MethodRefs
import Wok.Proofs.CarrierLoads
import Wok.Proofs.Slices
import Wok.Proofs.ReusePairing
import Wok.Proofs.SurfaceScopes
import Wok.Proofs.TailCalls
import Wok.Proofs.ScanLayout
import Wok.Proofs.MemoryPasses
import Wok.Proofs.SexprFixed
