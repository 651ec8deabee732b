import PascalUnits.Scan.Scanner
import PascalUnits.Source.FileSet

/-!
# Scanning a whole text

`scan` hands every token of a text to a consumer, the final `Token.eof` included, and every fault
to another one just before the token it was met with. It ends early when the consumer asks for it,
which is no error, or when more than `maxErrors` faults have been met.
-/

namespace PascalUnits

/-- The number of faults that a scan puts up with. -/
def maxErrors : Nat := 10

namespace Scanner

variable {σ : Type}

/-- Hands the tokens from here on to `onToken`, and the faults to `onError`, with a state. -/
def drive (comments : Comments) (onError : Diagnostic → σ → σ)
    (onToken : Token → Bytes → σ → ForInStep σ) (scanner : Scanner) (state : σ) :
    σ × Except Error Unit :=
  let found := scanner.next comments
  let warned := found.1.diagnostics.foldl (fun state diagnostic => onError diagnostic state) state
  match onToken found.1.token found.1.literal warned with
  | .done state => (state, .ok ())
  | .yield state =>
    if maxErrors < found.2.errorCount then (state, .error (.tooManyErrors found.2.errorCount))
    else if _ : found.1.token = .eof then (state, .ok ())
    else drive comments onError onToken found.2 state
termination_by scanner.rest.length
decreasing_by exact rest_length_lt comments scanner ‹_›

end Scanner

/-- Scans `source` as a file without a name, from the state `state` on. -/
def scan {σ : Type} (source : Bytes) (comments : Comments) (onError : Diagnostic → σ → σ)
    (onToken : Token → Bytes → σ → ForInStep σ) (state : σ) : σ × Except Error Unit :=
  match Scanner.start (.fresh "" FileSet.empty.base source.length) source with
  | .error error => (state, .error error)
  | .ok scanner => scanner.drive comments onError onToken state

end PascalUnits
