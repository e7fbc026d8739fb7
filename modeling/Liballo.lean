import Liballo.Foundation.Memory
import Liballo.Foundation.Blocks
import Liballo.Foundation.Transition
import Liballo.Buffer.Integrity
import Liballo.Contract
import Liballo.Foundation.LinkedList
import Liballo.Arena.Blocks
import Liballo.Arena.Ops
import Liballo.Arena.Placement
import Liballo.Arena.BlockList
import Liballo.Arena.Integrity
import Liballo.Fallback.Defs
import Liballo.Fallback.Routing
import Liballo.Fallback.Ownership
import Liballo.Foundation.Mappings
import Liballo.Page.Defs
import Liballo.Page.Registry
import Liballo.Page.Exactness
import Liballo.Buddy.Defs
import Liballo.Foundation.Dyadic
import Liballo.Buddy.Bits
import Liballo.Buddy.Lists
import Liballo.Buddy.Moves
import Liballo.Buddy.Geometry
import Liballo.Buddy.Invariant
import Liballo.Buddy.Loops
import Liballo.Buddy.Ops
import Liballo.Buddy.Live
import Liballo.Buddy.Make
import Liballo.Buddy.Session
import Liballo.Buddy.Tiling
import Liballo.Buddy.Coalescing
import Liballo.Buddy.Integrity
import Liballo.Buddy.Balance
import Liballo.Buddy.Safety
import Liballo.Buffer.Bounds
import Liballo.Arena.Backing
import Liballo.Arena.Agreement
import Liballo.Foundation.Locking
import Liballo.Mutex
import Liballo.Pool.Defs
import Liballo.Pool.FreeList
import Liballo.Pool.Partition
import Liballo.Gen.Defs
import Liballo.Gen.Tiers
import Liballo.Gen.Pages
import Liballo.Gen.Ops
import Liballo.Gen.Live
import Liballo.Gen.Session
import Liballo.Gen.Build
import Liballo.Gen.Ownership
import Liballo.Gen.Lifecycle
import Liballo.Refusals
import Liballo.Page.Requests
import Liballo.Buddy.Requests
import Liballo.Gen.Failure
import Liballo.Buddy.Orders
import Liballo.Buddy.Bitset
import Liballo.Buddy.Construction
import Liballo.Buddy.Undo
import Liballo.Buddy.CallerBuffer
import Liballo.Pool.CallerBuffer
import Liballo.Pool.Backing
import Liballo.Fallback.Conservation
import Liballo.Gen.Realloc
import Liballo.Gen.Containment
import Liballo.Foundation.DataRefinement
import Liballo.Foundation.ObjectStore
import Liballo.Service
import Liballo.Foundation.CHeap
import Liballo.Libc
import Liballo.Page.Service
import Liballo.Buddy.Service
import Liballo.Pool.Service
import Liballo.Buffer.Service
import Liballo.Arena.Service
import Liballo.Gen.Service
import Liballo.Stack
import Liballo.Fuzz.Defs
import Liballo.Fuzz.Body
import Liballo.Fuzz.Safety
import Liballo.Foundation.Discipline
import Liballo.Sharing
import Liballo.HeapArena
import Liballo.Fallback.Spill
import Liballo.Buffer.Resident
import Liballo.Sanitizer
import Liballo.Pool.Shadow
import Liballo.Page.Shadow
import Liballo.Buddy.Shadow
import Liballo.StackShadow
import Liballo.Foundation.Capacity
import Liballo.Buddy.Capacity
import Liballo.Gen.Quiet
import Liballo.Gen.Capacity
import Liballo.StackShadow
