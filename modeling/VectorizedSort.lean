import VectorizedSort.Bounds
import VectorizedSort.ByteInput
import VectorizedSort.Numeric.Decimal
import VectorizedSort.Pattern.Call
import VectorizedSort.Proofs.Entry.Guarded
import VectorizedSort.Proofs.Lockstep.Backends
import VectorizedSort.Proofs.Partition.OnePivot
import VectorizedSort.Proofs.Partition.Slots
import VectorizedSort.Proofs.Pattern.Seeds
import VectorizedSort.Proofs.Sort.Blocks
import VectorizedSort.Proofs.Sort.Stack
import VectorizedSort.Proofs.Sort.Progress
import VectorizedSort.Proofs.Register.Checked
import VectorizedSort.Proofs.Sort.Finisher
import VectorizedSort.Proofs.Register.Interchange
import VectorizedSort.Proofs.Sort.Countdown
import VectorizedSort.Proofs.Sort.Stable
import VectorizedSort.Proofs.Backend.Request
import VectorizedSort.Proofs.ByteInput
import VectorizedSort.Proofs.Pattern.Arrangement
