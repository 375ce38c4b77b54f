import Mathlib.Data.List.Basic

/-! Access flags of classes, methods and fields (`modifiers.h`). Only the bits that the
tracer, the instrumentation or the class linker test here are named. -/
namespace Aatt

abbrev AccessFlags := BitVec 32

def kAccStatic : AccessFlags := 0x0008#32
def kAccNative : AccessFlags := 0x0100#32
def kAccInterface : AccessFlags := 0x0200#32
def kAccAbstract : AccessFlags := 0x0400#32
def kAccConstructor : AccessFlags := 0x00010000#32
def kAccClassIsProxy : AccessFlags := 0x00040000#32
def kAccMiranda : AccessFlags := 0x00200000#32
def kAccIsMiniTraceable : AccessFlags := 0x40000000#32

def kAccJavaFlagsMask : AccessFlags := 0xffff#32

/-- Bits that a field takes over from the dex file. -/
def kAccValidFieldFlags : AccessFlags := 0x000050df#32

/-- Bits that a method takes over from the dex file. -/
def kAccValidMethodFlags : AccessFlags := 0x00231dff#32

/-- `(GetAccessFlags() & flag) != 0`. -/
def hasFlag (flags flag : AccessFlags) : Bool := flags &&& flag != 0

def isMiniTraceable (flags : AccessFlags) : Bool := hasFlag flags kAccIsMiniTraceable

def setIsMiniTraceable (flags : AccessFlags) : AccessFlags := flags ||| kAccIsMiniTraceable

theorem or_and_mask (x y mask : BitVec w) : (x ||| y) &&& mask = (x &&& mask) ||| (y &&& mask) := by
  apply BitVec.eq_of_getLsbD_eq
  intro i bound
  simp [Bool.and_or_distrib_right]

theorem hasFlag_or (flags set flag : AccessFlags) :
    hasFlag (flags ||| set) flag = (hasFlag flags flag || hasFlag set flag) := by
  rw [Bool.eq_iff_iff]
  simp only [hasFlag,or_and_mask,Bool.or_eq_true,bne_iff_ne,ne_eq]
  rw [← not_and_or,not_iff_not]
  exact BitVec.or_eq_zero_iff

theorem isMiniTraceable_set (flags : AccessFlags) : isMiniTraceable (setIsMiniTraceable flags) = true := by
  rw [isMiniTraceable,setIsMiniTraceable,hasFlag_or,show hasFlag kAccIsMiniTraceable kAccIsMiniTraceable =
    true by decide,
    Bool.or_true]

theorem hasFlag_masked (flags mask flag : AccessFlags) (kept : mask &&& flag = flag) :
    hasFlag (flags &&& mask) flag = hasFlag flags flag := by
  simp only [hasFlag,BitVec.and_assoc,kept]

theorem hasFlag_set (flags flag : AccessFlags) (other : hasFlag kAccIsMiniTraceable flag = false) :
    hasFlag (setIsMiniTraceable flags) flag = hasFlag flags flag := by
  rw [setIsMiniTraceable,hasFlag_or,other,Bool.or_false]

theorem isMiniTraceable_masked (flags mask : AccessFlags) (clear : mask &&& kAccIsMiniTraceable = 0#32) :
    isMiniTraceable (flags &&& mask) = false := by
  simp [isMiniTraceable,hasFlag,BitVec.and_assoc,clear]

end Aatt
