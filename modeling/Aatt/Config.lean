import Mathlib.Algebra.Order.Ring.Int
import Mathlib.Data.List.Basic

/-! The configuration file of `MiniTrace::Start`: which lines the loop sees, and what each line
does to the event mask, the buffer size and the whitelist. Text is a list of characters, one for
each byte of the file. -/
namespace Aatt

/-- Bits of `MiniTrace::MiniTraceFlag` that option lines set. -/
def kDoMethodEntered : BitVec 32 := 0x001
def kDoMethodExited : BitVec 32 := 0x002
def kDoMethodUnwind : BitVec 32 := 0x004
def kDoFieldRead : BitVec 32 := 0x010
def kDoFieldWritten : BitVec 32 := 0x020
def kDoMonitorEntered : BitVec 32 := 0x080
def kDoMonitorExited : BitVec 32 := 0x100
def kDoCoverage : BitVec 32 := 0x200
def kDoFilter : BitVec 32 := 0x400

/-- The part of a `std::string` that `c_str()` shows to a C function. -/
def cString (s : List Char) : List Char := s.takeWhile (· ≠ '\x00')

/-- `strncmp(a, b, n) == 0`. -/
def strncmpEq (a b : List Char) (n : Nat) : Bool := (cString a).take n == (cString b).take n

def isSpace (c : Char) : Bool := c ∈ [' ','\t','\n','\x0b','\x0c','\r']

def decimal (s : List Char) : Nat :=
  (s.takeWhile Char.isDigit).foldl (fun n c => 10 * n + (c.toNat - '0'.toNat)) 0

/-- `atoi`; a value that does not fit an `int` is cut off at its bounds. -/
def atoi (s : List Char) : Int :=
  let value : Int :=
    match (cString s).dropWhile isSpace with
    | '-' :: rest => -(decimal rest : Int)
    | '+' :: rest => decimal rest
    | rest => decimal rest
  max (-2 ^ 31) (min value (2 ^ 31 - 1))

/-- The locals of `Start` that the file determines. `bufferSize` is an `int`. -/
structure Config where
  events : BitVec 32
  bufferSize : BitVec 32
  whitelist : List (List Char)
  deriving DecidableEq, Repr

def Config.initial : Config := ⟨0,1024,[]⟩

/-- Outcome of the parser: `off` returns from `Start`, and `substr(8)` of a line that is just
`Include` throws. -/
inductive Parsed where
  | off
  | outOfRange
  | config (config : Config)
  deriving DecidableEq, Repr

def parseLine (config : Config) (line : List Char) : Parsed :=
  if line = ['o','f','f'] then .off
  else if line = ['D','o','C','o','v','e','r','a','g','e'] then
    .config { config with events := config.events ||| kDoCoverage }
  else if line = ['D','o','F','i','l','t','e','r'] then
    .config { config with events := config.events ||| kDoFilter }
  else if line = ['M','e','t','h','o','d','E','v','e','n','t'] then
    .config { config with events := config.events ||| (kDoMethodEntered ||| kDoMethodExited ||| kDoMethodUnwind) }
  else if line = ['F','i','e','l','d','E','v','e','n','t'] then
    .config { config with events := config.events ||| (kDoFieldRead ||| kDoFieldWritten) }
  else if line = ['M','o','n','i','t','o','r','E','v','e','n','t'] then
    .config { config with events := config.events ||| (kDoMonitorEntered ||| kDoMonitorExited) }
  else if line.take 6 = ['B','u','f','f','e','r'] then
    let factor := atoi (line.drop 6)
    if factor > 0 then .config { config with bufferSize := config.bufferSize * BitVec.ofInt 32 factor }
    else .config config
  else if line.take 7 = ['I','n','c','l','u','d','e'] then
    if line.length < 8 then .outOfRange
    else .config { config with whitelist := config.whitelist ++ [line.drop 8] }
  else .config config

def parseLines : List (List Char) → Config → Parsed
  | [], config => .config config
  | line :: rest, config =>
    match parseLine config line with
    | .config next => parseLines rest next
    | stop => stop

/-- The lines `getline` returns before it meets the end of the file: text after the last newline
is read but not looked at. -/
def completeLines : List Char → List (List Char)
  | [] => []
  | c :: rest =>
    if c = '\n' then [] :: completeLines rest
    else match completeLines rest with
      | [] => []
      | line :: lines => (c :: line) :: lines

def parse (content : List Char) : Parsed := parseLines (completeLines content) Config.initial

end Aatt
