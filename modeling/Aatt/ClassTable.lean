import Aatt.Lib.Transition
import Aatt.HashSet

/-! The class table: `InsertClass`, `UpdateClass`, `RemoveClass`, the lookups, the move before the zygote forks and the
visits of the roots by the garbage collector. All of them hold `classlinker_classes_lock_`, so a run is a sequence of
calls. A collector that moves classes is left out. -/
namespace Aatt.ClassTable

open Aatt.Lib

structure Klass where
  address : Nat
  descriptor : List Char
  classLoader : Option Nat
  deriving DecidableEq, Repr

variable (hash : List Char → Nat)

/-- `ClassDescriptorHashEquals`. -/
def hashOf (klass : Klass) : Nat := hash klass.descriptor

def equals (descriptor : List Char) (classLoader : Option Nat) (klass : Klass) : Bool :=
  if klass.classLoader ≠ classLoader then false else klass.descriptor == descriptor

/-- `visited` has the classes that the collector has seen since it last started logging. A failed CHECK aborts. -/
structure Tables where
  classTable : HashSet Klass
  preZygoteClassTable : HashSet Klass
  hasZygoteSpace : Bool
  dexCacheImageClassLookupRequired : Bool
  logNewClassTableRoots : Bool
  newClassRoots : List Klass
  visited : List Klass
  aborted : Bool

def Tables.start (dexCacheImageClassLookupRequired : Bool) : Tables :=
  ⟨.clear,.clear,false,dexCacheImageClassLookupRequired,false,[],[],false⟩

/-- `Find` of a descriptor and a class loader. -/
def findWithHash (table : HashSet Klass) (descriptor : List Char) (classLoader : Option Nat) : Option Nat :=
  table.findIndex (equals descriptor classLoader) (hash descriptor)

/-- What an iterator points to, if it is not the end. -/
def read (table : HashSet Klass) (index : Nat) : Option Klass :=
  if index = table.numBuckets then none else table.data index

def lookupClassFromTableLocked (m : Tables) (descriptor : List Char) (classLoader : Option Nat) :
    Option (Option Klass) := do
  let index ← findWithHash hash m.preZygoteClassTable descriptor classLoader
  match read m.preZygoteClassTable index with
  | some klass => some (some klass)
  | none =>
    let index ← findWithHash hash m.classTable descriptor classLoader
    some (read m.classTable index)

def Tables.logRoot (m : Tables) (klass : Klass) : Tables :=
  if m.logNewClassTableRoots then { m with newClassRoots := m.newClassRoots ++ [klass] } else m

def insertNew (m : Tables) (klass : Klass) : Option Tables := do
  let table ← m.classTable.insert (hashOf hash) klass
  some ({ m with classTable := table }.logRoot klass)

def insertClass (m : Tables) (klass : Klass) : Option (Tables × Option Klass) := do
  match ← lookupClassFromTableLocked hash m klass.descriptor klass.classLoader with
  | some existing => some (m,some existing)
  | none =>
    let m ← insertNew hash m klass
    some (m,none)

/-- `suitable` stands for the CHECKs of the status of both classes. -/
def updateClass (m : Tables) (klass : Klass) (suitable : Bool) : Option Tables := do
  let index ← findWithHash hash m.classTable klass.descriptor klass.classLoader
  match read m.classTable index with
  | none => some { m with aborted := true }
  | some existing =>
    if existing = klass ∨ !suitable then some { m with aborted := true }
    else
      let data := Function.update m.classTable.data index (some klass)
      some ({ m with classTable := { m.classTable with data := data } }.logRoot klass)

/-- `Find` and `Erase` in one table, and whether the class was there. -/
def eraseFound (table : HashSet Klass) (descriptor : List Char) (classLoader : Option Nat) :
    Option (HashSet Klass × Bool) := do
  let index ← findWithHash hash table descriptor classLoader
  if index = table.numBuckets then some (table,false)
  else
    let (table,_) ← table.erase (hashOf hash) index
    some (table,true)

def removeClass (m : Tables) (descriptor : List Char) (classLoader : Option Nat) : Option Tables := do
  let (table,found) ← eraseFound hash m.classTable descriptor classLoader
  if found then some { m with classTable := table }
  else
    let (table,_) ← eraseFound hash m.preZygoteClassTable descriptor classLoader
    some { m with preZygoteClassTable := table }

/-- A class of the image. It has no class loader. -/
structure ImageClass where
  address : Nat
  descriptor : List Char
  deriving DecidableEq, Repr

def ImageClass.klass (i : ImageClass) : Klass := ⟨i.address,i.descriptor,none⟩

/-- The loop body of `MoveImageClassesToClassTable`. -/
def moveImageClass (m : Tables) (i : ImageClass) : Option Tables := do
  match ← lookupClassFromTableLocked hash m i.descriptor none with
  | some existing => some (if existing = i.klass then m else { m with aborted := true })
  | none => insertNew hash m i.klass

def moveImageClassesToClassTable (m : Tables) (image : List ImageClass) : Option Tables := do
  if m.dexCacheImageClassLookupRequired then
    let m ← image.foldlM (moveImageClass hash) m
    some { m with dexCacheImageClassLookupRequired := false }
  else some m

/-- `Heap::PreZygoteFork`, as far as it concerns the class table. The move assignment swaps. -/
def moveClassTableToPreZygote (m : Tables) : Tables :=
  if m.hasZygoteSpace then m
  else { m with preZygoteClassTable := m.classTable, classTable := .clear, hasZygoteSpace := true }

def takeAll (descriptor : List Char) : Nat → HashSet Klass → Option (List Klass × HashSet Klass)
  | 0,_ => none
  | fuel + 1,table => do
    let index ← table.findIndex (fun klass => klass.descriptor == descriptor) (hash descriptor)
    match read table index with
    | none => some ([],table)
    | some klass =>
      let (table,_) ← table.erase (hashOf hash) index
      let (result,table) ← takeAll descriptor fuel table
      some (klass :: result,table)

/-- One half of `LookupClasses`. -/
def lookupClassesIn (descriptor : List Char) (table : HashSet Klass) : Option (List Klass × HashSet Klass) := do
  let (result,table) ← takeAll hash descriptor (table.numElements + 1) table
  let table ← result.foldlM (HashSet.insert (hashOf hash)) table
  some (result,table)

def lookupClasses (m : Tables) (image : List ImageClass) (descriptor : List Char) : Option (Tables × List Klass) := do
  let m ← moveImageClassesToClassTable hash m image
  let (result,classTable) ← lookupClassesIn hash descriptor m.classTable
  let (preZygote,preZygoteClassTable) ← lookupClassesIn hash descriptor m.preZygoteClassTable
  some ({ m with classTable := classTable, preZygoteClassTable := preZygoteClassTable },result ++ preZygote)

structure VisitRootFlags where
  allRoots : Bool
  newRoots : Bool
  startLoggingNewRoots : Bool
  stopLoggingNewRoots : Bool
  clearRootLog : Bool
  deriving DecidableEq, Repr

def seenRoots (m : Tables) (flags : VisitRootFlags) : List Klass :=
  if flags.allRoots then m.classTable.visit m.classTable.begin ++
    m.preZygoteClassTable.visit m.preZygoteClassTable.begin
  else if flags.newRoots then m.newClassRoots
  else []

def visitClassRoots (m : Tables) (flags : VisitRootFlags) : Tables where
  classTable := m.classTable
  preZygoteClassTable := m.preZygoteClassTable
  hasZygoteSpace := m.hasZygoteSpace
  dexCacheImageClassLookupRequired := m.dexCacheImageClassLookupRequired
  logNewClassTableRoots := if flags.startLoggingNewRoots then true
    else if flags.stopLoggingNewRoots then false else m.logNewClassTableRoots
  newClassRoots := if flags.clearRootLog then [] else m.newClassRoots
  visited := if flags.startLoggingNewRoots then seenRoots m flags else m.visited ++ seenRoots m flags
  aborted := m.aborted

inductive Action where
  | insertClass (klass : Klass)
  | updateClass (klass : Klass) (suitable : Bool)
  | removeClass (descriptor : List Char) (classLoader : Option Nat)
  | moveImageClasses (image : List ImageClass)
  | preZygoteFork
  | lookupClasses (image : List ImageClass) (descriptor : List Char)
  | visitClassRoots (flags : VisitRootFlags)
  deriving DecidableEq, Repr

def step (action : Action) (m : Tables) : Option Tables :=
  if m.aborted then some m else
  match action with
  | .insertClass klass => (insertClass hash m klass).map Prod.fst
  | .updateClass klass suitable => updateClass hash m klass suitable
  | .removeClass descriptor classLoader => removeClass hash m descriptor classLoader
  | .moveImageClasses image => moveImageClassesToClassTable hash m image
  | .preZygoteFork => some (moveClassTableToPreZygote m)
  | .lookupClasses image descriptor => (lookupClasses hash m image descriptor).map Prod.fst
  | .visitClassRoots flags => some (visitClassRoots m flags)

end Aatt.ClassTable
