import Scriptlet.Address
import Scriptlet.CommandLine
import Scriptlet.Report

/-!
# Options of the service
-/

namespace Scriptlet.Service

structure Options where
  bind : Address := .four [127, 0, 0, 1] 5000
  /-- the directory of sample programs -/
  samples : Option String := none
  /-- how many programs may run at a time -/
  maxConcurrent : Nat := 8
  limits : Limits := {}
  verbose : Bool := false
deriving DecidableEq, Repr

namespace Options

open CommandLine

def all : List (Opt Options) :=
  [⟨"bind", none, .value fun text o => (Address.ofText? text).map ({ o with bind := · })⟩,
   ⟨"samples", none, .value fun text o =>
      if text = "" then none else some { o with samples := some text }⟩,
   numberOption "max-concurrent" fun n o => { o with maxConcurrent := n },
   ⟨"verbose", some 'v', .flag fun o => { o with verbose := true }⟩] ++
  limitOptions fun f o => { o with limits := f o.limits }

def ofArgs (args : List String) : Except Stop Options :=
  settings all {} args

/-- Every program is run with these options; the answers always hold metrics. -/
def compileOptions (o : Options) : CompileOptions :=
  { limits := o.limits, includeMetrics := true }

end Options

end Scriptlet.Service
