import Aatt.Class
import Aatt.Coverage

/-! The code items that preparing a class and dumping its coverage look at. A native or abstract method
has none, and `GetCodeItem` returns a null pointer for it. -/
namespace Aatt

open Aatt.Lib

/-- `DexFile::GetCodeItem`; `none` is the null pointer. -/
def getCodeItem (item : CodeItem) : Option CodeItem := if item.codeOff = 0 then none else some item

/-- Reading `insns_size_in_code_units_` into 16 bits. There is nothing to read through the null pointer. -/
def readInsnsSize (pointer : Option CodeItem) : Option (BitVec 16) :=
  pointer.map fun item => item.insnsSizeInCodeUnits.setWidth 16

/-- The code items of a class. `DexFileVerifier::CheckClassDataItemMethod` accepts the offset 0 for native
and abstract methods and for no others; a miranda method keeps the offset of the interface method. -/
structure CodeItems (klass : Class) where
  item : Address → CodeItem
  verified : ∀ method ∈ klass.methods, (item method.address).codeOff = 0 ↔ (method.isNative || method.isAbstract) = true

/-- `AllocateCoverageData` allocates nothing any more, but still reads the size. -/
def allocateCoverageData (item : CodeItem) : Option Unit := do
  let insnsSize ← readInsnsSize (getCodeItem item)
  if insnsSize = 0 then return ()
  return ()

/-- `PostClassPrepare` with its reads, in the two loops over the methods. -/
def postClassPrepareReading (item : Address → CodeItem) (whitelist : Option (List (List Char))) (klass : Class) :
    Option Class :=
  if klass.excluded then some klass else
  if !doTrace whitelist klass then some klass else do
  forM klass.directMethods fun method => allocateCoverageData (item method.address)
  forM klass.virtualMethods fun method => allocateCoverageData (item method.address)
  return klass.mark

/-- The start of `DumpCoverageData(os, method)`: the size, unless it returns for want of a code item. -/
def dumpInsnsSize (item : CodeItem) : Option (Option (BitVec 16)) :=
  let codeItem := getCodeItem item
  if codeItem.isNone then some none else (readInsnsSize codeItem).map some

/-- The reads of `DumpCoverageDataClassVisitor`. -/
def dumpVisitorReads (item : Address → CodeItem) (klass : Class) : Option Unit :=
  if !klass.isMiniTraceable then some () else do
  forM klass.directMethods fun method => (dumpInsnsSize (item method.address)).map fun _ => ()
  forM klass.virtualMethods fun method => (dumpInsnsSize (item method.address)).map fun _ => ()

theorem allocateCoverageData_eq (item : CodeItem) :
    allocateCoverageData item = if item.codeOff = 0 then none else some () := by
  unfold allocateCoverageData getCodeItem
  split
  · rfl
  · simp [readInsnsSize]

theorem forM_eq_some_iff {α : Type} (f : α → Option Unit) (list : List α) :
    forM list f = some () ↔ ∀ a ∈ list, f a = some () := by
  induction list with
  | nil => simp
  | cons a rest ih =>
    rw [List.forM_cons,List.forall_mem_cons,← ih]
    cases f a with
    | none => simp
    | some => simp

theorem allocate_methods_iff (item : Address → CodeItem) (methods : List ArtMethod) :
    forM methods (fun method => allocateCoverageData (item method.address)) = some () ↔
      ∀ method ∈ methods, (item method.address).codeOff ≠ 0 := by
  rw [forM_eq_some_iff]
  refine forall₂_congr fun method member => ?_
  rw [allocateCoverageData_eq]
  split <;> simp_all

theorem dump_methods (item : Address → CodeItem) (methods : List ArtMethod) :
    forM methods (fun method => (dumpInsnsSize (item method.address)).map fun _ => ()) = some () := by
  rw [forM_eq_some_iff]
  intro method member
  unfold dumpInsnsSize getCodeItem
  split <;> simp [readInsnsSize]

theorem dumpVisitorReads_eq (item : Address → CodeItem) (klass : Class) : dumpVisitorReads item klass = some () := by
  unfold dumpVisitorReads
  split
  · rfl
  · rw [dump_methods,dump_methods]
    rfl

/-- The rest of `DumpCoverageData(os, method)` works with the size that its start has read. -/
theorem dumpCoverageData_insnsSize (item : CodeItem) (data : List Byte) :
    (dumpInsnsSize item = some none ∧ dumpCoverageData item data = some (data,none)) ∨
      ∃ insnsSize, dumpInsnsSize item = some (some insnsSize) ∧ insnsSize = item.insnsSizeInCodeUnits.setWidth 16 ∧
        dumpCoverageData item data = if insnsSize = 0 then some (data,none) else do
          let visited ← anyVisited data item.codeOff.toNat insnsSize.toNat
          if !visited then return (data,none)
          let (data,bits) ← printBits item.codeOff.toNat insnsSize.toNat 0 data
          return (data,some ⟨insnsSize,bits⟩) := by
  unfold dumpInsnsSize getCodeItem dumpCoverageData
  split
  · exact .inl ⟨rfl,rfl⟩
  · exact .inr ⟨_,rfl,rfl,rfl⟩

theorem postClassPrepareReading_eq (item : Address → CodeItem) (whitelist : Option (List (List Char)))
    (klass prepared : Class) (done : postClassPrepareReading item whitelist klass = some prepared) :
    prepared = postClassPrepare whitelist klass := by
  unfold postClassPrepareReading at done
  unfold postClassPrepare
  by_cases out : klass.excluded = true
  · rw [if_pos out] at done ⊢
    exact (Option.some.inj done).symm
  rw [if_neg out] at done ⊢
  by_cases untraced : (!doTrace whitelist klass) = true
  · rw [if_pos untraced] at done ⊢
    exact (Option.some.inj done).symm
  rw [if_neg untraced] at done ⊢
  simp only [Option.bind_eq_bind,Option.bind_eq_some_iff] at done
  obtain ⟨-,-,-,-,marked⟩ := done
  exact (Option.some.inj marked).symm

theorem postClassPrepareReading_isSome_iff (item : Address → CodeItem) (whitelist : Option (List (List Char)))
    (klass : Class) (included : klass.excluded = false) (traced : doTrace whitelist klass = true) :
    (postClassPrepareReading item whitelist klass).isSome = true ↔
      ∀ method ∈ klass.methods, (item method.address).codeOff ≠ 0 := by
  rw [Class.methods,List.forall_mem_append,← allocate_methods_iff,← allocate_methods_iff]
  simp only [postClassPrepareReading,included,traced,Bool.not_true,Bool.false_eq_true,if_false]
  cases forM klass.directMethods fun method => allocateCoverageData (item method.address) with
  | none => simp
  | some =>
    cases forM klass.virtualMethods fun method => allocateCoverageData (item method.address) with
    | none => simp
    | some => simp

/-- A class that passes the filter is prepared and dumped without a read through the null pointer exactly when
it has no native and no abstract method. -/
theorem reads_present_iff (whitelist : Option (List (List Char))) (klass : Class) (items : CodeItems klass)
    (included : klass.excluded = false) (traced : doTrace whitelist klass = true) :
    ((postClassPrepareReading items.item whitelist klass).isSome = true ∧
      (dumpVisitorReads items.item (postClassPrepare whitelist klass)).isSome = true) ↔
      ∀ method ∈ klass.methods, method.isNative = false ∧ method.isAbstract = false := by
  rw [dumpVisitorReads_eq,postClassPrepareReading_isSome_iff items.item whitelist klass included traced]
  simp only [Option.isSome_some,and_true]
  refine forall₂_congr fun method member => ?_
  rw [ne_eq,items.verified method member,Bool.not_eq_true,Bool.or_eq_false_iff]

/-- A class of an application with a native and a concrete method. -/
def nativeClass : Class :=
  ⟨['L','a',';'],1,['/','a'],false,false,1#32,.resolved,[],
    [⟨96,kAccNative,none,.quickGenericJniStub⟩,⟨128,1#32,none,.quickToInterpreterBridge⟩],[],[],by decide⟩

def nativeItems : CodeItems nativeClass := ⟨fun address => if address = 96 then ⟨0,0⟩ else ⟨16,2⟩,by decide⟩

/-- `AllocateCoverageData` reads the size of the code item that the native method does not have. -/
theorem native_method_read : nativeClass.excluded = false ∧ doTrace (some [['L','a']]) nativeClass = true ∧
    postClassPrepareReading nativeItems.item (some [['L','a']]) nativeClass = none := by decide +kernel

/-- A class with a static and a private method and two virtual ones. -/
def concreteClass : Class :=
  ⟨['L','a',';'],1,['/','a'],false,false,1#32,.resolved,
    [⟨96,9#32,none,.quickResolutionStub⟩,⟨104,2#32,some 7,.compiled 7⟩],
    [⟨128,1#32,none,.quickToInterpreterBridge⟩,⟨136,1#32,some 8,.compiled 8⟩],[],[],by decide⟩

def concreteItems : CodeItems concreteClass := ⟨fun address => ⟨address.toNat,2⟩,by decide⟩

theorem reads_present_concrete :
    (postClassPrepareReading concreteItems.item (some [['L','a']]) concreteClass).isSome = true ∧
      (dumpVisitorReads concreteItems.item (postClassPrepare (some [['L','a']]) concreteClass)).isSome = true :=
  (reads_present_iff (some [['L','a']]) concreteClass concreteItems (by decide +kernel) (by decide +kernel)).mpr
    (by decide +kernel)

end Aatt
