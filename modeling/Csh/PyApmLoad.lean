import Csh.ApmLoad
import Csh.PathList
import Mathlib.Data.List.Induction

namespace Csh.PyApmLoad

open Libc Walkdir SlashApm ApmLoad PathList

/-!
# The loading of Python APMs

`apm load` of a csh with Python hands every path of its list to `load_py`,
which puts the names of the directory right behind the path and asks Python for
the module of the text behind the last slash.  No slash is put between the two,
so that only a path with a slash at its end has its modules found.
-/

/--
What `pycsh_load_pymod` asks Python for: an import, or the function that is
called `PyInit_` and the module in a shared object.
-/
inductive PyRequest where
  | importModule (module : CString)
  | integrate (filepath module : CString)
  deriving Repr, DecidableEq

/-- The module of a request. -/
def PyRequest.module : PyRequest → CString
  | .importModule module => module
  | .integrate _ module => module

/-- The text in front of the first dot. -/
def stem (filename : CString) : CString :=
  filename.takeWhile (· != '.')

section Load

variable (apmInitVersion : Int)
variable (python : Nat → Bool)
variable (searchStr : Option CString)
variable (opendir : CString → Option (List CString))

end Load

section Names

variable {path name last filepath : CString}

end Names

section Files

variable {searchStr : Option CString}
variable {opendir : CString → Option (List CString)}
variable {paths : List CString}
variable {path name : CString}
variable {file : CString × CString}

end Files

section Calls

variable {apmInitVersion : Int}
variable {python : Nat → Bool}
variable {searchStr : Option CString}
variable {opendir : CString → Option (List CString)}
variable {paths : List CString}
variable {state next : PyApmState}
variable {files : List (CString × CString)}

end Calls

section Command

variable {apmInitVersion : Int}
variable {python : Nat → Bool}
variable {searchStr home path : Option CString}
variable {opendir : CString → Option (List CString)}
variable {pathlist : CString}
variable {res : SlashResult}
variable {state next : PyApmState}

end Command

end Csh.PyApmLoad
