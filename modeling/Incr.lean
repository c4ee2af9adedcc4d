import Incr.Data.KeyedList
import Incr.RecomputeHeap.Basic
import Incr.RecomputeHeap.WellFormed
import Incr.RecomputeHeap.Spec
import Incr.RecomputeHeap.Operations
import Incr.RecomputeHeap.Run
import Incr.RecomputeHeap.Abstract
import Incr.RecomputeHeap.Refinement
import Incr.RecomputeHeap.SanityCheck
import Incr.RecomputeHeap.Schedule
import Incr.Bind.Basic
import Incr.Bind.Link
import Incr.Bind.Outcome
import Incr.Bind.Stabilize
import Incr.Nodes
