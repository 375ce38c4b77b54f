import Mathlib.Data.Set.Function
import Aatt.Lib.Alignment
import Aatt.Lib.Transition
import Aatt.MiniTrace

/-! Where the methods and fields of the runtime lie: `LinearAlloc` over `ArenaAllocator`, with the requests of the
class linker. The three low bits of their addresses are zero, which is what the record words rely on. Sizes and
addresses are machine words, so that a request of any length is covered; the contents of the memory are left out. -/
namespace Aatt.LinearAlloc

open Aatt.Lib

inductive PointerSize where
  | four
  | eight
  deriving DecidableEq, Repr

def PointerSize.bytes : PointerSize → Nat
  | .four => 4
  | .eight => 8

/-- `uintptr_t` and `size_t` of a runtime whose own pointers have the given size. -/
abbrev Word (host : PointerSize) := BitVec (8 * host.bytes)

variable {host : PointerSize}

/-- The members of `ArtMethod` before `ptr_sized_fields_`: three compressed references, the access flags, the offset of
the code item and two indices. -/
def methodWords : List Nat := [4,4,4,4,4,4,4]

/-- The three entry points of the packed `PtrSizedFields`. -/
def sizeofPtrSizedFields (host : PointerSize) : Nat := [host.bytes,host.bytes,host.bytes].sum

/-- `ArtMethod::ObjectSize(pointer_size)`. -/
def objectSize (host pointerSize : PointerSize) : Word host :=
  let size := BitVec.ofNat (8 * host.bytes) pointerSize.bytes
  roundUp (BitVec.ofNat _ methodWords.sum) size + BitVec.ofNat _ (sizeofPtrSizedFields host / host.bytes) * size

/-- The members of `ArtField`: the class, the access flags, the index and the offset. -/
def fieldWords : List Nat := [4,4,4,4]

def sizeofArtField (host : PointerSize) : Word host := BitVec.ofNat _ fieldWords.sum

structure Arena (host : PointerSize) where
  memory : Word host
  size : Word host
  bytesAllocated : Word host
  aligned : MultipleOf 8 memory

/-- The memory that the system gives to a new arena. It is null if there is none. -/
abbrev Memory (host : PointerSize) := { memory : Word host // MultipleOf 8 memory }

def Arena.new (memory : Memory host) (size : Word host) : Arena host := ⟨memory.1,size,0,memory.2⟩

def Arena.reset (arena : Arena host) : Arena host := { arena with bytesAllocated := 0 }

def Arena.kDefaultSize : Nat := 128 * 1024

/-- `ArenaPool::AllocArena(size)`: the first free arena if it is large enough, otherwise a new one. -/
def allocArena (freeArenas : List (Arena host)) (memory : Memory host) (size : Word host) :
    Arena host × List (Arena host) :=
  match freeArenas with
  | arena :: rest => if size ≤ arena.size then (arena.reset,rest) else ((Arena.new memory size).reset,arena :: rest)
  | [] => ((Arena.new memory size).reset,[])

/-- The allocator with the free arenas of its pool. The first of `arenas` is `arena_head_`. -/
structure ArenaAllocator (host : PointerSize) where
  freeArenas : List (Arena host)
  beginPtr : Word host
  endPtr : Word host
  ptr : Word host
  arenas : List (Arena host)
  runningOnValgrind : Bool

def ArenaAllocator.new (freeArenas : List (Arena host)) (runningOnValgrind : Bool) : ArenaAllocator host :=
  ⟨freeArenas,0,0,0,[],runningOnValgrind⟩

namespace ArenaAllocator

def kAlignment : Nat := 8

def kValgrindRedZoneBytes : Nat := 8

def updateBytesAllocated (a : ArenaAllocator host) : ArenaAllocator host :=
  match a.arenas with
  | head :: rest => { a with arenas := { head with bytesAllocated := a.ptr - a.beginPtr } :: rest }
  | [] => a

def obtainNewArenaForAllocation (memory : Memory host) (allocationSize : Word host) (a : ArenaAllocator host) :
    ArenaAllocator host :=
  let a := a.updateBytesAllocated
  let least := BitVec.ofNat _ Arena.kDefaultSize
  let (newArena,freeArenas) := allocArena a.freeArenas memory (if least < allocationSize then allocationSize else least)
  { a with
    freeArenas := freeArenas, arenas := newArena :: a.arenas, ptr := newArena.memory, beginPtr := newArena.memory,
    endPtr := newArena.memory + newArena.size }

/-- What `Alloc` and `AllocValgrind` do with the rounded size. A result of zero is the null pointer. -/
def advance (memory : Memory host) (bytes : Word host) (a : ArenaAllocator host) : Word host × ArenaAllocator host :=
  if a.endPtr < a.ptr + bytes then
    let a := a.obtainNewArenaForAllocation memory bytes
    if a.ptr = 0 then (0,a) else (a.ptr,{ a with ptr := a.ptr + bytes })
  else (a.ptr,{ a with ptr := a.ptr + bytes })

def allocValgrind (memory : Memory host) (bytes : Word host) (a : ArenaAllocator host) :
    Word host × ArenaAllocator host :=
  a.advance memory (roundUp (bytes + BitVec.ofNat _ kValgrindRedZoneBytes) (BitVec.ofNat _ 8))

def alloc (memory : Memory host) (bytes : Word host) (a : ArenaAllocator host) : Word host × ArenaAllocator host :=
  if a.runningOnValgrind then a.allocValgrind memory bytes else a.advance memory
    (roundUp bytes (BitVec.ofNat _ kAlignment))

/-- An array at the end of what is allocated is extended without rounding. -/
def realloc (memory : Memory host) (ptr ptrSize newSize : Word host) (a : ArenaAllocator host) :
    Word host × ArenaAllocator host :=
  let sizeDelta := newSize - ptrSize
  if ptr + ptrSize = a.ptr ∧ sizeDelta ≤ a.endPtr - a.ptr then (ptr,{ a with ptr := a.ptr + sizeDelta })
  else a.alloc memory newSize

end ArenaAllocator

/-- An array of methods or fields, at the address that it was allocated or extended at. -/
structure MemberArray (host : PointerSize) where
  kind : MemberKind
  address : Word host
  length : Word host
  deriving DecidableEq

def stride (host imagePointerSize : PointerSize) : MemberKind → Word host
  | .method => objectSize host imagePointerSize
  | .field => sizeofArtField host

def MemberArray.element (imagePointerSize : PointerSize) (array : MemberArray host) (i : Nat) : Word host :=
  array.address + BitVec.ofNat _ i * stride host imagePointerSize array.kind

/-- An array that has been moved is never freed, and its methods stay in use until the tables of the class are
updated. -/
structure State (host : PointerSize) where
  allocator : ArenaAllocator host
  arrays : List (MemberArray host)

def State.add (s : State host) (kind : MemberKind) (length : Word host) (result : Word host × ArenaAllocator host) :
    Option (State host) :=
  if result.1 = 0 then none else some ⟨result.2,s.arrays ++ [⟨kind,result.1,length⟩]⟩

section Requests

variable (imagePointerSize : PointerSize) (memory : Memory host)

def allocArtFieldArray (length : Word host) (s : State host) : Option (State host) :=
  s.add .field length (s.allocator.alloc memory (length * sizeofArtField host))

def allocArtMethodArray (length : Word host) (s : State host) : Option (State host) :=
  s.add .method length (s.allocator.alloc memory (objectSize host imagePointerSize * length))

/-- The virtual methods of a class: the null pointer and none, or one of the arrays, with the number of methods that the
class keeps in 32 bits. -/
def State.virtuals (s : State host) : Option Nat → Option (Word host × Word host)
  | none => some (0,0)
  | some k =>
    match s.arrays[k]? with
    | some ⟨.method,address,length⟩ => some (address,(length.setWidth 32).setWidth _)
    | _ => none

/-- `LinkInterfaceMethods` makes room for its miranda methods behind the virtual methods of the class. -/
def extendVirtualMethods (klass : Option Nat) (mirandaMethods : Word host) (s : State host) : Option (State host) := do
  let (oldVirtuals,oldMethodCount) ← s.virtuals klass
  if mirandaMethods = 0 then none
  else
    let methodSize := objectSize host imagePointerSize
    let newMethodCount := oldMethodCount + mirandaMethods
    s.add .method newMethodCount
      (s.allocator.realloc memory oldVirtuals (oldMethodCount * methodSize) (newMethodCount * methodSize))

end Requests

/-- A request comes with the memory that the system has for a new arena; other users of the pool take and free arenas
at any time. -/
inductive Action (host : PointerSize) where
  | allocArtFieldArray (memory : Memory host) (length : Word host)
  | allocArtMethodArray (memory : Memory host) (length : Word host)
  | extendVirtualMethods (memory : Memory host) (klass : Option Nat) (mirandaMethods : Word host)
  | otherUsers (freeArenas : List (Arena host))

def step (imagePointerSize : PointerSize) : Action host → State host → Option (State host)
  | .allocArtFieldArray memory length,s => allocArtFieldArray memory length s
  | .allocArtMethodArray memory length,s => allocArtMethodArray imagePointerSize memory length s
  | .extendVirtualMethods memory klass mirandaMethods,s =>
    extendVirtualMethods imagePointerSize memory klass mirandaMethods s
  | .otherUsers freeArenas,s => some { s with allocator := { s.allocator with freeArenas := freeArenas } }

def start (freeArenas : List (Arena host)) (runningOnValgrind : Bool) : State host :=
  ⟨.new freeArenas runningOnValgrind,[]⟩

/-- The pointer is to a method or a field of one of the arrays. -/
def IsMember (imagePointerSize : PointerSize) (s : State host) (kind : MemberKind) (p : Address) : Prop :=
  ∃ array ∈ s.arrays, array.kind = kind ∧ ∃ i < array.length.toNat, p = (array.element imagePointerSize i).setWidth 64

def encode : MemberKind → Address → MiniTraceAction → BitVec 32
  | .method => encodeMiniTraceMethodAndAction
  | .field => encodeMiniTraceFieldAndAction

/-- Members lie at multiples of 8, and below 2^32 their words are different for different members or actions and are
decoded to what they were made of. -/
structure Apart (imagePointerSize : PointerSize) (s : State host) : Prop where
  aligned : ∀ kind p, IsMember imagePointerSize s kind p → Aligned p
  injective : ∀ kind, Set.InjOn (fun word : Address × MiniTraceAction => encode kind word.1 word.2)
    { word | IsMember imagePointerSize s kind word.1 ∧ word.1.toNat < 2 ^ 32 }
  decoded : ∀ kind p action, IsMember imagePointerSize s kind p → p.toNat < 2 ^ 32 →
    kind.decodeId (encode kind p action) = p ∧ decodeMiniTraceAction (encode kind p action) = action

theorem whole_word (host : PointerSize) : 8 ∣ 2 ^ (8 * host.bytes) := by
  cases host <;> decide

theorem multipleOf_stride (host imagePointerSize : PointerSize) (kind : MemberKind) :
    MultipleOf 8 (stride host imagePointerSize kind) := by
  cases host <;> cases imagePointerSize <;> cases kind <;> decide

theorem multipleOf_roundUp_word (bytes : Word host) : MultipleOf 8 (roundUp bytes (BitVec.ofNat _ 8)) := by
  have narrow : 3 ≤ 8 * host.bytes := by cases host <;> decide
  exact multipleOf_roundUp narrow bytes

theorem allocArena_aligned (freeArenas : List (Arena host)) (memory : Memory host) (size : Word host) :
    MultipleOf 8 (allocArena freeArenas memory size).1.memory := (allocArena freeArenas memory size).1.aligned

/-- Both the result and the next free address are multiples of 8. -/
def AlignedResult (result : Word host × ArenaAllocator host) : Prop := MultipleOf 8 result.1 ∧ MultipleOf 8 result.2.ptr

namespace ArenaAllocator

variable {a : ArenaAllocator host} (aligned : MultipleOf 8 a.ptr) (memory : Memory host)
include aligned

theorem advance_aligned {bytes : Word host} (multiple : MultipleOf 8 bytes) :
    AlignedResult (a.advance memory bytes) := by
  have opened : MultipleOf 8 (a.obtainNewArenaForAllocation memory bytes).ptr := allocArena_aligned _ _ _
  simp only [advance]
  split_ifs
  · exact ⟨multipleOf_zero 8,opened⟩
  · exact ⟨opened,opened.add (whole_word host) multiple⟩
  · exact ⟨aligned,aligned.add (whole_word host) multiple⟩

theorem alloc_aligned (bytes : Word host) : AlignedResult (a.alloc memory bytes) := by
  unfold alloc
  split_ifs
  · exact advance_aligned aligned memory (multipleOf_roundUp_word _)
  · exact advance_aligned aligned memory (multipleOf_roundUp_word _)

theorem realloc_aligned {ptr ptrSize newSize : Word host} (address : MultipleOf 8 ptr) (old : MultipleOf 8 ptrSize)
    (new : MultipleOf 8 newSize) : AlignedResult (a.realloc memory ptr ptrSize newSize) := by
  unfold realloc
  simp only
  split_ifs
  · exact ⟨address,aligned.add (whole_word host) (new.sub (whole_word host) old)⟩
  · exact alloc_aligned aligned memory newSize

end ArenaAllocator

/-- The next free address and all arrays are at multiples of 8. -/
structure State.Placed (s : State host) : Prop where
  ptr : MultipleOf 8 s.allocator.ptr
  arrays : ∀ array ∈ s.arrays, MultipleOf 8 array.address

theorem State.Placed.add {s next : State host} (placed : s.Placed) {kind : MemberKind} {length : Word host}
    {result : Word host × ArenaAllocator host} (aligned : AlignedResult result)
    (added : s.add kind length result = some next) :
    next.Placed := by
  unfold State.add at added
  split_ifs at added
  cases added
  refine ⟨aligned.2,fun array member => ?_⟩
  rcases List.mem_append.mp member with before | last
  · exact placed.arrays array before
  · rw [List.mem_singleton.mp last]
    exact aligned.1

theorem State.Placed.virtuals {s : State host} (placed : s.Placed) {klass : Option Nat} {address count : Word host}
    (found : s.virtuals klass = some (address,count)) : MultipleOf 8 address := by
  cases klass with
  | none =>
    cases found
    exact multipleOf_zero 8
  | some k =>
    simp only [State.virtuals] at found
    split at found
    · rename_i present
      cases found
      exact placed.arrays _ (List.mem_of_getElem? present)
    · nomatch found

theorem placed_step (imagePointerSize : PointerSize) (action : Action host) (s next : State host) (placed : s.Placed)
    (taken : step imagePointerSize action s = some next) : next.Placed := by
  cases action with
  | allocArtFieldArray memory length => exact placed.add (ArenaAllocator.alloc_aligned placed.ptr memory _) taken
  | allocArtMethodArray memory length => exact placed.add (ArenaAllocator.alloc_aligned placed.ptr memory _) taken
  | extendVirtualMethods memory klass mirandaMethods =>
    obtain ⟨⟨address,count⟩,found,extended⟩ := Option.bind_eq_some_iff.mp taken
    simp only at extended
    split_ifs at extended
    have stride := multipleOf_stride host imagePointerSize .method
    refine placed.add ?_ extended
    exact ArenaAllocator.realloc_aligned placed.ptr memory (placed.virtuals found) (stride.mul_left (whole_word host) _)
      (stride.mul_left (whole_word host) _)
  | otherUsers freeArenas =>
    cases taken
    exact ⟨placed.ptr,placed.arrays⟩

theorem start_placed (freeArenas : List (Arena host)) (runningOnValgrind : Bool) :
    (start freeArenas runningOnValgrind).Placed :=
  ⟨multipleOf_zero 8,nofun⟩

theorem State.Placed.member_aligned {imagePointerSize : PointerSize} {s : State host} (placed : s.Placed)
    {kind : MemberKind} {p : Address} (member : IsMember imagePointerSize s kind p) : Aligned p := by
  obtain ⟨array,present,-,i,-,rfl⟩ := member
  have narrow : 8 * host.bytes ≤ 64 := by cases host <;> decide
  have offset := (multipleOf_stride host imagePointerSize array.kind).mul_left (whole_word host) (BitVec.ofNat _ i)
  exact ((placed.arrays array present).add (whole_word host) offset).setWidth narrow

theorem decoded_of_aligned (kind : MemberKind) (p : Address) (action : MiniTraceAction) (aligned : Aligned p)
    (low : p.toNat < 2 ^ 32) :
    kind.decodeId (encode kind p action) = p ∧ decodeMiniTraceAction (encode kind p action) = action := by
  cases kind with
  | method => exact ⟨decode_method_encode p action low aligned,decode_action_encode p action aligned⟩
  | field => exact ⟨decode_field_encode p action low aligned,decode_action_encode p action aligned⟩

theorem State.Placed.apart {s : State host} (placed : s.Placed) (imagePointerSize : PointerSize) :
    Apart imagePointerSize s := by
  have decoded : ∀ kind p action, IsMember imagePointerSize s kind p → p.toNat < 2 ^ 32 →
      kind.decodeId (encode kind p action) = p ∧ decodeMiniTraceAction (encode kind p action) = action :=
    fun kind p action member low => decoded_of_aligned kind p action (placed.member_aligned member) low
  refine ⟨fun kind p => placed.member_aligned,fun kind => ?_,decoded⟩
  rintro ⟨p,action⟩ ⟨member,low⟩ ⟨p',action'⟩ ⟨member',low'⟩ same
  obtain ⟨pointer,acted⟩ := decoded kind p action member low
  obtain ⟨pointer',acted'⟩ := decoded kind p' action' member' low'
  simp only at same
  rw [same] at pointer acted
  exact Prod.ext (pointer.symm.trans pointer') (acted.symm.trans acted')

/-- Whatever the class linker requests, on a runtime of either pointer size and for either pointer size of the image,
the action bits never collide with the address of a method or a field. -/
theorem members_apart (imagePointerSize : PointerSize) (freeArenas : List (Arena host)) (runningOnValgrind : Bool)
    (actions : List (Action host)) :
    Throughout (step imagePointerSize) (Apart imagePointerSize) actions (start freeArenas runningOnValgrind) := by
  have placed := throughout_of_step State.Placed (placed_step imagePointerSize) actions _
    (start_placed freeArenas runningOnValgrind)
  intro front back middle split reached
  exact (placed front back middle split reached).apart imagePointerSize

/-- An array is extended in place and, with fields behind it, by moving it. -/
example : (run (step .four) [.allocArtMethodArray ⟨0x1000,by decide⟩ 1,
    .extendVirtualMethods ⟨0x1000,by decide⟩ (some 0) 1,
      .allocArtFieldArray ⟨0x1000,by decide⟩ 1,.extendVirtualMethods ⟨0x1000,by decide⟩ (some 1) 1]
        (start [] false : State .four)).map State.arrays =
    some [⟨.method,0x1000,1⟩,⟨.method,0x1000,2⟩,⟨.field,0x1050,1⟩,⟨.method,0x1060,3⟩] := by
  decide

end Aatt.LinearAlloc
