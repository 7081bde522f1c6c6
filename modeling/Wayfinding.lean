import Wayfinding.Main
import Wayfinding.Proofs.Heap.PriorityMap
import Wayfinding.Proofs.Queries.RawPaths
import Wayfinding.FibonacciHeap.Arena
import Wayfinding.Proofs.Heap.Degrees
import Wayfinding.Proofs.Heap.Rings
import Wayfinding.Proofs.Heap.Layout
import Wayfinding.Proofs.Parts
import Wayfinding.Proofs.Heap.Plantings
import Wayfinding.Proofs.Heap.SlotMerging
import Wayfinding.Proofs.Heap.RootRing
import Wayfinding.Proofs.Heap.SlotLowering
import Wayfinding.Proofs.Heap.Refinement
import Wayfinding.Proofs.Heap.WellLinked
import Wayfinding.Proofs.Heap.Representation
import Wayfinding.Checked.Jump
import Wayfinding.Checked.Query
import Wayfinding.Proofs.Checked.Jumps
import Wayfinding.Proofs.Checked.Searches
import Wayfinding.Proofs.Checked.Paths
import Wayfinding.Proofs.Queries.Safety
import Wayfinding.Proofs.Queries.Frames
import Wayfinding.Proofs.Queries.Rejection
import Wayfinding.Proofs.Search.Histories
import Wayfinding.Proofs.Json.Numbers
import Wayfinding.Proofs.Json.Values
import Wayfinding.Proofs.Json.Records
import Wayfinding.Proofs.Snapshots
import Wayfinding.Navigator.Basic
import Wayfinding.Navigator.Query
import Wayfinding.Proofs.Navigator.Searches
import Wayfinding.Proofs.Navigator.Queries
import Wayfinding.Proofs.Navigator.Independence
import Wayfinding.Proofs.Navigator.Edits
import Wayfinding.Proofs.Navigator.Marking
import Wayfinding.Proofs.Navigator.Requests
import Wayfinding.Proofs.Smoothing
import Wayfinding.Proofs.Text.Lines
import Wayfinding.Proofs.Queries.Smoothing
import Wayfinding.Proofs.Drawings
import Wayfinding.Proofs.FreeWalks
import Wayfinding.Proofs.Sightlines
import Wayfinding.Proofs.Legibility
import Wayfinding.Proofs.Queries.Ways
import Wayfinding.Proofs.Navigator.Obstacles
import Wayfinding.Proofs.Navigator.Endpoints
import Wayfinding.Proofs.Navigator.LatestPaths
import Wayfinding.Proofs.Binary.Magnitudes
import Wayfinding.Proofs.Json.Singles
import Wayfinding.Proofs.Reloading
import Wayfinding.Proofs.Heap.Handles
import Wayfinding.Proofs.Rectangles
import Wayfinding.Navigator.Jump
import Wayfinding.Proofs.Navigator.Jumps
import Wayfinding.Proofs.Search.Lineages
import Wayfinding.Proofs.Navigator.Lineages
import Wayfinding.Proofs.Navigator.Safety
import Wayfinding.Proofs.Heap.Consolidation
import Wayfinding.Proofs.Numbering
