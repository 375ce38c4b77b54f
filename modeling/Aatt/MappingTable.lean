import Aatt.Interpreter
import Aatt.Leb128

/-! The table that maps native pcs to dex pcs and back. The compilers write it with deltas in LEB128 numbers:
`CodeGenerator::BuildMappingTable` and `Mir2Lir::CreateMappingTables`. `ArtMethod::ToDexPc` and
`ArtMethod::ToNativeQuickPc` read it, the former for methods that are not optimized. -/
namespace Aatt.Dex

open Aatt.Lib

structure PcInfo where
  dexPc : BitVec 32
  nativePc : BitVec 32
  deriving DecidableEq, Repr

/-- What goes into the table: `safepoint` into the part from native pcs to dex pcs, `exported` into the part from dex
pcs to native pcs. -/
inductive Entry where
  | safepoint (info : PcInfo)
  | exported (info : PcInfo)
  deriving DecidableEq, Repr

def Entry.safepoint? : Entry → Option PcInfo
  | .safepoint info => some info
  | .exported _ => none

def Entry.exported? : Entry → Option PcInfo
  | .safepoint _ => none
  | .exported info => some info

/-- `pc2dex_entries`, `pc2dex_data_size`, `pc2dex_offset` and `pc2dex_dalvik_offset`, and the same for the other
part. -/
structure Part where
  entries : BitVec 32
  dataSize : BitVec 32
  last : PcInfo

def Part.empty : Part := ⟨0,0,⟨0,0⟩⟩

def Part.count (part : Part) (info : PcInfo) : Part where
  entries := part.entries + 1
  dataSize := part.dataSize + BitVec.ofNat 32 (unsignedLeb128Size (info.nativePc - part.last.nativePc)) +
    BitVec.ofNat 32 (signedLeb128Size (info.dexPc - part.last.dexPc))
  last := info

structure Counts where
  pc2dex : Part
  dex2pc : Part

def Counts.add (counts : Counts) : Entry → Counts
  | .safepoint info => { counts with pc2dex := counts.pc2dex.count info }
  | .exported info => { counts with dex2pc := counts.dex2pc.count info }

structure Cursor where
  writePos : Nat
  last : PcInfo

def writeUnsigned (mem : Memory) (writePos : Nat) (value : BitVec 32) : Memory × Nat :=
  (store mem writePos (encodeUnsignedLeb128 value),writePos + (encodeUnsignedLeb128 value).length)

def writeSigned (mem : Memory) (writePos : Nat) (value : BitVec 32) : Memory × Nat :=
  (store mem writePos (encodeSignedLeb128 value),writePos + (encodeSignedLeb128 value).length)

def Cursor.write (mem : Memory) (cursor : Cursor) (info : PcInfo) : Memory × Cursor :=
  let delta := writeUnsigned mem cursor.writePos (info.nativePc - cursor.last.nativePc)
  let dex := writeSigned delta.1 delta.2 (info.dexPc - cursor.last.dexPc)
  (dex.1,⟨dex.2,info⟩)

structure Output where
  mem : Memory
  pc2dex : Cursor
  dex2pc : Cursor

def Output.write (out : Output) : Entry → Output
  | .safepoint info => ⟨(out.pc2dex.write out.mem info).1,(out.pc2dex.write out.mem info).2,out.dex2pc⟩
  | .exported info => ⟨(out.dex2pc.write out.mem info).1,out.pc2dex,(out.dex2pc.write out.mem info).2⟩

/-- Writes the table of entries met in any order, and gives its size. -/
def writeTable (mem : Memory) (data : Nat) (entries : List Entry) : Memory × BitVec 32 :=
  let counts := entries.foldl Counts.add ⟨.empty,.empty⟩
  let totalEntries := counts.pc2dex.entries + counts.dex2pc.entries
  let hdrDataSize := BitVec.ofNat 32 (unsignedLeb128Size totalEntries + unsignedLeb128Size counts.pc2dex.entries)
  let total := writeUnsigned mem data totalEntries
  let header := writeUnsigned total.1 total.2 counts.pc2dex.entries
  let writePos2 := header.2 + counts.pc2dex.dataSize.toNat
  ((entries.foldl Output.write ⟨header.1,⟨header.2,⟨0,0⟩⟩,⟨writePos2,⟨0,0⟩⟩⟩).mem,
    hdrDataSize + counts.pc2dex.dataSize + counts.dex2pc.dataSize)

/-- The opcodes that make entries, and all others. -/
inductive LirOpcode where
  | pseudoSafepointPc
  | pseudoExportedPc
  | other (opcode : BitVec 16)
  deriving DecidableEq, Repr

structure Lir where
  offset : BitVec 32
  dalvikOffset : BitVec 16
  opcode : LirOpcode
  isNop : Bool
  deriving DecidableEq, Repr

def Lir.entry? (lir : Lir) : Option Entry :=
  if lir.isNop then none else
  match lir.opcode with
  | .pseudoSafepointPc => some (.safepoint ⟨lir.dalvikOffset.setWidth 32,lir.offset⟩)
  | .pseudoExportedPc => some (.exported ⟨lir.dalvikOffset.setWidth 32,lir.offset⟩)
  | .other _ => none

/-- One pass over the instructions writes both parts. -/
def createMappingTables (mem : Memory) (data : Nat) (code : List Lir) : Memory × BitVec 32 :=
  writeTable mem data (code.filterMap Lir.entry?)

structure BasicBlock where
  address : BitVec 32
  dexPc : BitVec 32
  isCatchBlock : Bool
  deriving DecidableEq, Repr

def BasicBlock.entry? (block : BasicBlock) : Option Entry :=
  if block.isCatchBlock then some (.exported ⟨block.dexPc,block.address⟩) else none

/-- One loop writes the first part, and one over the blocks the second. -/
def buildMappingTable (mem : Memory) (data : Nat) (pcInfos : List PcInfo) (blocks : List BasicBlock) :
    Memory × BitVec 32 :=
  writeTable mem data (pcInfos.map Entry.safepoint ++ blocks.filterMap BasicBlock.entry?)

def totalSize (mem : Memory) : Option Nat → BitVec 32
  | none => 0
  | some table => (decodeUnsignedLeb128 mem table).1

def dexToPcSize (mem : Memory) : Option Nat → BitVec 32
  | none => 0
  | some table =>
    let total := decodeUnsignedLeb128 mem table
    let pcToDex := decodeUnsignedLeb128 mem total.2
    total.1 - pcToDex.1

def pcToDexSize (mem : Memory) : Option Nat → BitVec 32
  | none => 0
  | some table => (decodeUnsignedLeb128 mem (decodeUnsignedLeb128 mem table).2).1

def skipEntries (mem : Memory) (ptr : Nat) : Nat → Nat
  | 0 => ptr
  | n + 1 => skipEntries mem (decodeSignedLeb128 mem (decodeUnsignedLeb128 mem ptr).2).2 n

def firstDexToPcPtr (mem : Memory) : Option Nat → Option Nat
  | none => none
  | some table =>
    let pcToDex := decodeUnsignedLeb128 mem (decodeUnsignedLeb128 mem table).2
    some (skipEntries mem pcToDex.2 pcToDex.1.toNat)

def firstPcToDexPtr (mem : Memory) : Option Nat → Option Nat
  | none => none
  | some table => some (decodeUnsignedLeb128 mem (decodeUnsignedLeb128 mem table).2).2

/-- `PcToDexIterator` and `DexToPcIterator` differ in where they start and end. -/
structure MapIterator where
  element : BitVec 32
  stop : BitVec 32
  encodedTablePtr : Option Nat
  nativePcOffset : BitVec 32
  dexPc : BitVec 32

namespace MapIterator

def advance (mem : Memory) (it : MapIterator) : MapIterator :=
  match it.encodedTablePtr with
  | none => it
  | some ptr =>
    let delta := decodeUnsignedLeb128 mem ptr
    let dex := decodeSignedLeb128 mem delta.2
    ⟨it.element,it.stop,some dex.2,it.nativePcOffset + delta.1,it.dexPc + dex.1⟩

def start (mem : Memory) (stop : BitVec 32) (first : Option Nat) : MapIterator :=
  if 0 < stop then advance mem ⟨0,stop,first,0,0⟩ else ⟨0,stop,none,0,0⟩

def next (mem : Memory) (it : MapIterator) : MapIterator :=
  if it.element + 1 ≠ it.stop then advance mem { it with element := it.element + 1 }
  else { it with element := it.element + 1 }

theorem advance_element (mem : Memory) (it : MapIterator) : (it.advance mem).element = it.element := by
  unfold advance
  split <;> rfl

theorem advance_stop (mem : Memory) (it : MapIterator) : (it.advance mem).stop = it.stop := by
  unfold advance
  split <;> rfl

theorem next_element (mem : Memory) (it : MapIterator) : (it.next mem).element = it.element + 1 := by
  unfold next
  split
  · exact advance_element ..
  · rfl

theorem next_stop (mem : Memory) (it : MapIterator) : (it.next mem).stop = it.stop := by
  unfold next
  split
  · exact advance_stop ..
  · rfl

def find (mem : Memory) (found : MapIterator → Bool) (it : MapIterator) : Option MapIterator :=
  if it.element = it.stop then none
  else if found it then some it
  else (it.next mem).find mem found
  termination_by (it.stop - it.element).toNat
  decreasing_by
    rename_i more _
    rw [next_stop,next_element]
    bv_omega

end MapIterator

def pcToDexBegin (mem : Memory) (table : Option Nat) : MapIterator :=
  .start mem (pcToDexSize mem table) (firstPcToDexPtr mem table)

def dexToPcBegin (mem : Memory) (table : Option Nat) : MapIterator :=
  .start mem (dexToPcSize mem table) (firstDexToPcPtr mem table)

/-- No result is the failure of the runtime that `abort_on_failure` asks for. -/
def toDexPc (mem : Memory) (table : Option Nat) (entryPoint pc : BitVec 64) (abortOnFailure : Bool) :
    Option (BitVec 32) :=
  let soughtOffset := (pc - entryPoint).setWidth 32
  if totalSize mem table = 0 then some kDexNoIndex else
  match (pcToDexBegin mem table).find mem (·.nativePcOffset == soughtOffset) with
  | some cur => some cur.dexPc
  | none =>
    match (dexToPcBegin mem table).find mem (·.nativePcOffset == soughtOffset) with
    | some cur => some cur.dexPc
    | none => if abortOnFailure then none else some kDexNoIndex

def uintptrMax : BitVec 64 := BitVec.allOnes 64

def toNativeQuickPc (mem : Memory) (table : Option Nat) (entryPoint : BitVec 64) (dexPc : BitVec 32)
    (abortOnFailure : Bool) :
    Option (BitVec 64) :=
  if totalSize mem table = 0 then some 0 else
  match (dexToPcBegin mem table).find mem (·.dexPc == dexPc) with
  | some cur => some (entryPoint + cur.nativePcOffset.setWidth 64)
  | none =>
    match (pcToDexBegin mem table).find mem (·.dexPc == dexPc) with
    | some cur => some (entryPoint + cur.nativePcOffset.setWidth 64)
    | none => if abortOnFailure then none else some uintptrMax

def safepoints (entries : List Entry) : List PcInfo := entries.filterMap Entry.safepoint?

def exported (entries : List Entry) : List PcInfo := entries.filterMap Entry.exported?

def entryBytes (last info : PcInfo) : List Byte :=
  encodeUnsignedLeb128 (info.nativePc - last.nativePc) ++ encodeSignedLeb128 (info.dexPc - last.dexPc)

def partBytes (last : PcInfo) : List PcInfo → List Byte
  | [] => []
  | info :: rest => entryBytes last info ++ partBytes info rest

def headerBytes (pcToDex dexToPc : Nat) : List Byte :=
  encodeUnsignedLeb128 (BitVec.ofNat 32 (pcToDex + dexToPc)) ++ encodeUnsignedLeb128 (BitVec.ofNat 32 pcToDex)

def tableBytes (pcToDex dexToPc : List PcInfo) : List Byte :=
  headerBytes pcToDex.length dexToPc.length ++ (partBytes ⟨0,0⟩ pcToDex ++ partBytes ⟨0,0⟩ dexToPc)

theorem Part.foldl_count (part : Part) (infos : List PcInfo) :
    (infos.foldl Part.count part).entries = part.entries + BitVec.ofNat 32 infos.length ∧
    (infos.foldl Part.count part).dataSize = part.dataSize + BitVec.ofNat 32 (partBytes part.last infos).length := by
  induction infos generalizing part with
  | nil => simp [partBytes]
  | cons info rest ih =>
    obtain ⟨entries,dataSize⟩ := ih (part.count info)
    rw [List.foldl_cons,entries,dataSize]
    simp only [count,partBytes,entryBytes,List.length_append,List.length_cons,unsignedSize_eq,signedSize_eq,
      BitVec.ofNat_add]
    exact ⟨by ac_rfl,by ac_rfl⟩

theorem Part.foldl_empty (infos : List PcInfo) :
    (infos.foldl Part.count .empty).entries = BitVec.ofNat 32 infos.length ∧
    (infos.foldl Part.count .empty).dataSize = BitVec.ofNat 32 (partBytes ⟨0,0⟩ infos).length := by
  obtain ⟨entries,dataSize⟩ := foldl_count .empty infos
  exact ⟨entries.trans (BitVec.zero_add _),dataSize.trans (BitVec.zero_add _)⟩

theorem Counts.foldl_add (counts : Counts) (entries : List Entry) : entries.foldl Counts.add counts =
    ⟨(safepoints entries).foldl Part.count counts.pc2dex,(exported entries).foldl Part.count counts.dex2pc⟩ := by
  induction entries generalizing counts with
  | nil => rfl
  | cons entry rest ih => cases entry <;> exact ih _

theorem Cursor.write_eq (mem : Memory) (cursor : Cursor) (info : PcInfo) : cursor.write mem info =
    (store mem cursor.writePos (entryBytes cursor.last info),
      ⟨cursor.writePos + (entryBytes cursor.last info).length,info⟩) := by
  rw [entryBytes,store_append,List.length_append,← Nat.add_assoc]
  rfl

/-- The order in which the entries are met does not matter, as long as the first part ends before the second begins. -/
theorem Output.foldl_write (out : Output) (entries : List Entry)
    (apart : out.pc2dex.writePos + (partBytes out.pc2dex.last (safepoints entries)).length ≤ out.dex2pc.writePos) :
    (entries.foldl Output.write out).mem =
      store (store out.mem out.dex2pc.writePos (partBytes out.dex2pc.last (exported entries)))
        out.pc2dex.writePos (partBytes out.pc2dex.last (safepoints entries)) := by
  induction entries generalizing out with
  | nil => rfl
  | cons entry rest ih =>
    cases entry with
    | safepoint info =>
      simp only [safepoints,List.filterMap_cons,Entry.safepoint?,partBytes,List.length_append] at apart
      rw [List.foldl_cons,ih _ (by simp only [write,Cursor.write_eq]; unfold safepoints; omega)]
      simp only [write,Cursor.write_eq,safepoints,exported,List.filterMap_cons,Entry.safepoint?,Entry.exported?,
        partBytes]
      rw [store_append,store_comm out.mem (by omega)]
    | exported info =>
      simp only [safepoints,List.filterMap_cons,Entry.safepoint?] at apart
      rw [List.foldl_cons,ih _ (by simp only [write,Cursor.write_eq]; unfold safepoints; omega)]
      simp only [write,Cursor.write_eq,safepoints,exported,List.filterMap_cons,Entry.safepoint?,Entry.exported?,
        partBytes]
      rw [store_append _ _ (entryBytes _ _)]

theorem partBytes_length_le (last : PcInfo) (infos : List PcInfo) : (partBytes last infos).length ≤
    10 * infos.length := by
  induction infos generalizing last with
  | nil => exact Nat.le_refl 0
  | cons info rest ih =>
    have native := unsigned_length_le (info.nativePc - last.nativePc)
    have dex := signed_length_le (info.dexPc - last.dexPc)
    have rest := ih info
    rw [partBytes,entryBytes,List.length_append,List.length_append,List.length_cons]
    omega

theorem parts_length (entries : List Entry) : (safepoints entries).length + (exported entries).length =
    entries.length := by
  induction entries with
  | nil => rfl
  | cons entry rest ih =>
    cases entry <;>
      simp only [safepoints,exported,List.filterMap_cons,Entry.safepoint?,Entry.exported?,
        List.length_cons] at ih ⊢ <;> omega

theorem writeTable_eq (mem : Memory) (data : Nat) (entries : List Entry) (few : entries.length < 400000000) :
    writeTable mem data entries = (store mem data (tableBytes (safepoints entries) (exported entries)),
      BitVec.ofNat 32 (tableBytes (safepoints entries) (exported entries)).length) := by
  obtain ⟨pcToDex,pcToDexSize⟩ := Part.foldl_empty (safepoints entries)
  obtain ⟨dexToPc,dexToPcSize⟩ := Part.foldl_empty (exported entries)
  have exact : (BitVec.ofNat 32 (partBytes ⟨0,0⟩ (safepoints entries)).length).toNat =
      (partBytes ⟨0,0⟩ (safepoints entries)).length := by
    have length := parts_length entries
    have short := partBytes_length_le ⟨0,0⟩ (safepoints entries)
    rw [BitVec.toNat_ofNat]
    omega
  simp only [writeTable,Counts.foldl_add,pcToDex,pcToDexSize,dexToPc,dexToPcSize,writeUnsigned,exact]
  rw [Output.foldl_write]
  · refine Prod.ext ?_ ?_
    · dsimp only
      rw [tableBytes,headerBytes,store_append,store_append,store_append,← store_comm _ (Nat.le_refl _),BitVec.ofNat_add,
        List.length_append,Nat.add_assoc data]
    · simp only [tableBytes,headerBytes,List.length_append,unsignedSize_eq,BitVec.ofNat_add]
      ac_rfl
  · exact Nat.le_refl _

theorem entry_read {mem : Memory} {ptr : Nat} {last info : PcInfo} (holds : Holds mem ptr (entryBytes last info)) :
    (decodeUnsignedLeb128 mem ptr).1 = info.nativePc - last.nativePc ∧
    decodeSignedLeb128 mem (decodeUnsignedLeb128 mem ptr).2 =
      (info.dexPc - last.dexPc,ptr + (entryBytes last info).length) := by
  obtain ⟨native,dex⟩ := (holds_append ..).mp holds
  rw [unsigned_round_trip _ _ _ native,signed_round_trip _ _ _ dex,entryBytes,List.length_append,Nat.add_assoc]
  exact ⟨rfl,rfl⟩

namespace MapIterator

def info (it : MapIterator) : PcInfo := ⟨it.dexPc,it.nativePcOffset⟩

/-- An iterator at an entry, with the pointer behind it. -/
def atEntry (element stop : BitVec 32) (ptr : Nat) (info : PcInfo) : MapIterator :=
  ⟨element,stop,some ptr,info.nativePc,info.dexPc⟩

theorem advance_atEntry {mem : Memory} {element stop : BitVec 32} {ptr : Nat} {last info : PcInfo}
    (holds : Holds mem ptr (entryBytes last info)) :
    (atEntry element stop ptr last).advance mem = atEntry element stop (ptr + (entryBytes last info).length) info := by
  obtain ⟨native,dex⟩ := entry_read holds
  simp only [atEntry,advance,native,dex,BitVec.add_comm _ (_ - _),BitVec.sub_add_cancel]

theorem find_stop {mem : Memory} {found : MapIterator → Bool} {it : MapIterator} (same : it.element = it.stop) :
    it.find mem found = none := by
  rw [find,if_pos same]

theorem find_entry {mem : Memory} (p : PcInfo → Bool) {element stop : BitVec 32} {ptr : Nat} {last : PcInfo}
    (more : element ≠ stop) : ((atEntry element stop ptr last).find mem (fun it => p it.info)).map info =
      if p last then some last else (((atEntry element stop ptr last).next mem).find mem (fun it => p it.info)).map
        info := by
  rw [find]
  exact (congrArg (Option.map info) (if_neg more)).trans (apply_ite (Option.map info) ..)

theorem find_atEntry {mem : Memory} (p : PcInfo → Bool) {element stop : BitVec 32} {ptr : Nat} {last : PcInfo}
    {rest : List PcInfo} (holds : Holds mem ptr (partBytes last rest))
    (left : stop = element + BitVec.ofNat 32 (rest.length + 1)) (few : rest.length + 1 < 2 ^ 32) :
    ((atEntry element stop ptr last).find mem (fun it => p it.info)).map info = (last :: rest).find? p := by
  induction rest generalizing element ptr last with
  | nil =>
    have more : element ≠ stop := by bv_omega
    rw [find_entry p more,List.find?_cons]
    cases hit : p last with
    | true => rfl
    | false =>
      have ended : ((atEntry element stop ptr last).next mem).element =
        ((atEntry element stop ptr last).next mem).stop := by
        rw [next_element,next_stop]
        exact left.symm
      rw [if_neg Bool.false_ne_true,find_stop ended]
      rfl
  | cons following rest ih =>
    have more : element ≠ stop := by
      rw [List.length_cons] at left few
      bv_omega
    have again : element + 1 ≠ stop := by
      rw [List.length_cons] at left few
      bv_omega
    obtain ⟨here,behind⟩ := (holds_append ..).mp holds
    rw [find_entry p more,List.find?_cons]
    cases hit : p last with
    | true => rfl
    | false =>
      have moved : (atEntry element stop ptr last).next mem =
          atEntry (element + 1) stop (ptr + (entryBytes last following).length) following :=
        (if_pos again).trans (advance_atEntry here)
      rw [if_neg Bool.false_ne_true,moved]
      refine ih behind ?_ (Nat.lt_of_succ_lt few)
      rw [left,List.length_cons,BitVec.ofNat_add _ 1,BitVec.add_comm _ (BitVec.ofNat 32 1),← BitVec.add_assoc]
      rfl

theorem find_start {mem : Memory} (p : PcInfo → Bool) {first : Nat} {infos : List PcInfo}
    (holds : Holds mem first (partBytes ⟨0,0⟩ infos)) (few : infos.length < 2 ^ 32) :
    ((start mem (BitVec.ofNat 32 infos.length) (some first)).find mem (fun it => p it.info)).map info =
      infos.find? p := by
  cases infos with
  | nil => exact congrArg (Option.map info) (find_stop rfl)
  | cons entry rest =>
    have more : 0 < BitVec.ofNat 32 (entry :: rest).length := by
      rw [List.length_cons] at few ⊢
      bv_omega
    obtain ⟨here,behind⟩ := (holds_append ..).mp holds
    have moved : start mem (BitVec.ofNat 32 (entry :: rest).length) (some first) =
        atEntry 0 _ (first + (entryBytes ⟨0,0⟩ entry).length) entry := (if_pos more).trans (advance_atEntry here)
    rw [moved]
    exact find_atEntry p behind (BitVec.zero_add _).symm few

end MapIterator

theorem skipEntries_eq {mem : Memory} {ptr : Nat} {last : PcInfo} {infos : List PcInfo}
    (holds : Holds mem ptr (partBytes last infos)) :
    skipEntries mem ptr infos.length = ptr + (partBytes last infos).length := by
  induction infos generalizing ptr last with
  | nil => rfl
  | cons entry rest ih =>
    obtain ⟨here,behind⟩ := (holds_append ..).mp holds
    rw [List.length_cons,skipEntries,(entry_read here).2,ih behind,partBytes,List.length_append,Nat.add_assoc]

theorem table_read {mem : Memory} {table : Nat} {pcToDex dexToPc : List PcInfo}
    (holds : Holds mem table (tableBytes pcToDex dexToPc)) (few : pcToDex.length + dexToPc.length < 2 ^ 32) :
    totalSize mem (some table) = BitVec.ofNat 32 (pcToDex.length + dexToPc.length) ∧
    (∀ p : PcInfo → Bool, ((pcToDexBegin mem (some table)).find mem (fun it => p it.info)).map MapIterator.info =
      pcToDex.find? p) ∧
    ∀ p : PcInfo → Bool, ((dexToPcBegin mem (some table)).find mem (fun it => p it.info)).map MapIterator.info =
      dexToPc.find? p := by
  obtain ⟨header,parts⟩ := (holds_append ..).mp holds
  obtain ⟨total,size⟩ := (holds_append ..).mp header
  obtain ⟨first,second⟩ := (holds_append ..).mp parts
  have total := unsigned_round_trip _ _ _ total
  have size := unsigned_round_trip _ _ _ size
  rw [headerBytes,List.length_append,← Nat.add_assoc] at first second
  have counted : (BitVec.ofNat 32 pcToDex.length).toNat = pcToDex.length := by
    rw [BitVec.toNat_ofNat]
    omega
  have others : BitVec.ofNat 32 (pcToDex.length + dexToPc.length) - BitVec.ofNat 32 pcToDex.length =
      BitVec.ofNat 32 dexToPc.length := by
    rw [BitVec.ofNat_add,BitVec.add_comm,BitVec.add_sub_cancel]
  refine ⟨congrArg Prod.fst total,fun p => ?_,fun p => ?_⟩
  · simp only [pcToDexBegin,pcToDexSize,firstPcToDexPtr,total,size]
    exact MapIterator.find_start p first (by omega)
  · simp only [dexToPcBegin,dexToPcSize,firstDexToPcPtr,total,size,counted,others,skipEntries_eq first]
    exact MapIterator.find_start p second (by omega)

def dexPcOf (entries : List Entry) (nativePc : BitVec 32) : Option (BitVec 32) :=
  ((safepoints entries ++ exported entries).find? (·.nativePc == nativePc)).map PcInfo.dexPc

def nativePcOf (entries : List Entry) (dexPc : BitVec 32) : Option (BitVec 32) :=
  ((exported entries ++ safepoints entries).find? (·.dexPc == dexPc)).map PcInfo.nativePc

theorem written_read (mem : Memory) (data : Nat) {entries : List Entry} (few : entries.length < 400000000) :
    (totalSize (writeTable mem data entries).1 (some data) = 0 ↔ entries = []) ∧
    (∀ p : PcInfo → Bool, ((pcToDexBegin (writeTable mem data entries).1 (some data)).find
      (writeTable mem data entries).1
      (fun it => p it.info)).map MapIterator.info = (safepoints entries).find? p) ∧
    ∀ p : PcInfo → Bool, ((dexToPcBegin (writeTable mem data entries).1 (some data)).find
      (writeTable mem data entries).1
      (fun it => p it.info)).map MapIterator.info = (exported entries).find? p := by
  rw [writeTable_eq mem data entries few]
  have length := parts_length entries
  have holds := holds_store mem data (tableBytes (safepoints entries) (exported entries))
  obtain ⟨total,pcToDex,dexToPc⟩ := table_read holds (by omega)
  refine ⟨?_,pcToDex,dexToPc⟩
  rw [total,length,← List.length_eq_zero_iff]
  constructor
  · intro zero
    have zero := congrArg BitVec.toNat zero
    rw [BitVec.toNat_ofNat,Nat.mod_eq_of_lt (by omega)] at zero
    exact zero
  · intro empty
    rw [empty]
    rfl

theorem find_either {α : Type} (result : PcInfo → α) (failure : Option α) (first second : Option MapIterator)
    (front back : List PcInfo) (p : PcInfo → Bool) :
    first.map MapIterator.info = front.find? p → second.map MapIterator.info = back.find? p →
    (match first with
      | some cur => some (result cur.info)
      | none => match second with
        | some cur => some (result cur.info)
        | none => failure) = (((front ++ back).find? p).map result).or failure := by
  intro inFront inBack
  rw [List.find?_append,← inFront,← inBack]
  cases first with
  | some cur => rfl
  | none => cases second <;> rfl

/-- Of every table that a compiler has written: `ToDexPc` finds the dex pc of a native pc, safepoints first, and
`ToNativeQuickPc` the native pc of a dex pc, catch blocks first. They fail only for a pc without an entry. -/
theorem mappingTable_lookup (mem : Memory) (data : Nat) (entries : List Entry) (few : entries.length < 400000000)
    (entryPoint pc : BitVec 64) (dexPc : BitVec 32) (abortOnFailure : Bool) :
    toDexPc (writeTable mem data entries).1 (some data) entryPoint pc abortOnFailure =
      (dexPcOf entries ((pc - entryPoint).setWidth 32)).or
        (if entries ≠ [] ∧ abortOnFailure then none else some kDexNoIndex) ∧
    toNativeQuickPc (writeTable mem data entries).1 (some data) entryPoint dexPc abortOnFailure =
      ((nativePcOf entries dexPc).map fun offset => entryPoint + offset.setWidth 64).or
        (if entries = [] then some 0 else if abortOnFailure then none else some uintptrMax) := by
  obtain ⟨total,pcToDex,dexToPc⟩ := written_read mem data few
  unfold toDexPc toNativeQuickPc
  by_cases none : entries = []
  · rw [if_pos (total.mpr none),if_pos (total.mpr none)]
    subst none
    exact ⟨rfl,rfl⟩
  · rw [if_neg (mt total.mp none),if_neg (mt total.mp none)]
    constructor
    · refine (find_either PcInfo.dexPc _ _ _ _ _ _ (pcToDex _) (dexToPc (·.nativePc == _))).trans ?_
      simp only [dexPcOf,none,ne_eq,not_false_eq_true,true_and]
    · refine (find_either (fun info => entryPoint + info.nativePc.setWidth 64) _ _ _ _ _ _ (dexToPc _)
        (pcToDex (·.dexPc == _))).trans ?_
      simp only [nativePcOf,none,Option.map_map,Function.comp_def,if_false]

theorem mappingTable_lookup_sample :
    toDexPc (writeTable (fun _ => 0) 0 [.safepoint ⟨3,8⟩,.exported ⟨7,20⟩,.safepoint ⟨1,24⟩]).1
      (some 0) 4096 4120 true =
      some 1 ∧
    toNativeQuickPc (writeTable (fun _ => 0) 0 [.safepoint ⟨3,8⟩,.exported ⟨7,20⟩,.safepoint ⟨1,24⟩]).1
      (some 0) 4096 7 true =
      some 4116 :=
  mappingTable_lookup (fun _ => 0) 0 [.safepoint ⟨3,8⟩,.exported ⟨7,20⟩,.safepoint ⟨1,24⟩] (by decide) 4096 4120 7 true

theorem catches_built (blocks : List BasicBlock) :
    safepoints (blocks.filterMap BasicBlock.entry?) = [] ∧
    exported (blocks.filterMap BasicBlock.entry?) =
      (blocks.filter BasicBlock.isCatchBlock).map fun block => ⟨block.dexPc,block.address⟩ := by
  induction blocks with
  | nil => exact ⟨rfl,rfl⟩
  | cons block rest ih =>
    cases isCatch : block.isCatchBlock with
    | false =>
      have skipped : block.entry? = none := if_neg (ne_true_of_eq_false isCatch)
      rw [List.filterMap_cons_none skipped,List.filter_cons_of_neg (ne_true_of_eq_false isCatch)]
      exact ih
    | true =>
      have one : block.entry? = some (.exported ⟨block.dexPc,block.address⟩) := if_pos isCatch
      rw [List.filterMap_cons_some one,List.filter_cons_of_pos isCatch]
      exact ⟨ih.1,congrArg (_ :: ·) ih.2⟩

theorem parts_built (pcInfos : List PcInfo) (blocks : List BasicBlock) :
    safepoints (pcInfos.map Entry.safepoint ++ blocks.filterMap BasicBlock.entry?) = pcInfos ∧
    exported (pcInfos.map Entry.safepoint ++ blocks.filterMap BasicBlock.entry?) =
      (blocks.filter BasicBlock.isCatchBlock).map fun block => ⟨block.dexPc,block.address⟩ := by
  induction pcInfos with
  | nil => exact catches_built blocks
  | cons info rest ih => exact ⟨congrArg (info :: ·) ih.1,ih.2⟩

theorem tableBytes_length_lt {entries : List Entry} (few : entries.length < 400000000) :
    (tableBytes (safepoints entries) (exported entries)).length < 2 ^ 32 := by
  have length := parts_length entries
  have first := partBytes_length_le ⟨0,0⟩ (safepoints entries)
  have second := partBytes_length_le ⟨0,0⟩ (exported entries)
  have total := unsigned_length_le (BitVec.ofNat 32 ((safepoints entries).length + (exported entries).length))
  have size := unsigned_length_le (BitVec.ofNat 32 (safepoints entries).length)
  simp only [tableBytes,headerBytes,List.length_append]
  omega

/-- The compilers write the same table if they meet the same entries of each part in the same order, and nothing outside
the bytes that they have counted. -/
theorem mappingTables_agree (mem : Memory) (data : Nat) (code : List Lir) (pcInfos : List PcInfo)
    (blocks : List BasicBlock) (few : code.length < 400000000) (same : safepoints (code.filterMap Lir.entry?) = pcInfos)
    (catches : exported (code.filterMap Lir.entry?) =
      (blocks.filter BasicBlock.isCatchBlock).map fun block => ⟨block.dexPc,block.address⟩) :
    createMappingTables mem data code = buildMappingTable mem data pcInfos blocks ∧
    ∀ a, a < data ∨ data + (createMappingTables mem data code).2.toNat ≤ a →
      (createMappingTables mem data code).1 a = mem a := by
  obtain ⟨first,second⟩ := parts_built pcInfos blocks
  have fewer : (code.filterMap Lir.entry?).length < 400000000 := Nat.lt_of_le_of_lt (List.length_filterMap_le ..) few
  have built : (pcInfos.map Entry.safepoint ++ blocks.filterMap BasicBlock.entry?).length < 400000000 := by
    rw [← parts_length,first.trans same.symm,second.trans catches.symm,parts_length]
    exact fewer
  rw [createMappingTables,buildMappingTable,writeTable_eq _ _ _ fewer,writeTable_eq _ _ _ built,first,
    second,same,catches]
  refine ⟨rfl,fun a outside => store_outside _ _ _ _ ?_⟩
  have short := tableBytes_length_lt fewer
  rw [same,catches] at short
  rwa [BitVec.toNat_ofNat,Nat.mod_eq_of_lt short] at outside

theorem mappingTables_agree_sample :
    createMappingTables (fun _ => 0) 0 [⟨8,3,.pseudoSafepointPc,false⟩,⟨20,7,.pseudoExportedPc,false⟩,
      ⟨24,1,.pseudoSafepointPc,false⟩] =
      buildMappingTable (fun _ => 0) 0 [⟨3,8⟩,⟨1,24⟩] [⟨4,0,false⟩,⟨20,7,true⟩] :=
  (mappingTables_agree (fun _ => 0) 0 [⟨8,3,.pseudoSafepointPc,false⟩,⟨20,7,.pseudoExportedPc,false⟩,
    ⟨24,1,.pseudoSafepointPc,false⟩] [⟨3,8⟩,⟨1,24⟩] [⟨4,0,false⟩,⟨20,7,true⟩] (by decide) rfl rfl).1

end Aatt.Dex
