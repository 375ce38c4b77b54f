import Aatt.CoverageRuns
import Aatt.InfoLog

/-! The coverage file of `DumpCoverageData(bool)`. The marks of all methods are cleared while the text
is built, before the file is written, and a failed write or flush erases the file. -/
namespace Aatt

open Aatt.Lib

structure CoveredMethod where
  pointer : Address
  text : MethodText
  item : CodeItem
  deriving DecidableEq, Repr

/-- What the dump reads of a class; `dexFile` numbers the dex file it comes from. -/
structure CoveredClass where
  isMiniTraceable : Bool
  dexFile : Nat
  directMethods : List CoveredMethod
  virtualMethods : List CoveredMethod
  deriving DecidableEq, Repr

def CoveredClass.methods (klass : CoveredClass) : List CoveredMethod := klass.directMethods ++ klass.virtualMethods

abbrev CoverageArrays := Nat → List Byte

/-- `%p`. -/
def pointerText (pointer : Address) : String := "0x" ++ String.ofList (Nat.toDigits 16 pointer.toNat)

def bitText (bit : Bool) : String := if bit then "1" else "0"

def CoverageLine.text (method : CoveredMethod) (line : CoverageLine) : String :=
  pointerText method.pointer ++ "\t" ++ method.text.declaringClass ++ "\t" ++ method.text.name ++ "\t" ++
    method.text.signature ++ "\t" ++ method.text.sourceFile ++ "\t" ++ toString line.insnsSize.toNat ++ "\t" ++
    String.join (line.bits.map bitText) ++ "\n"

def printedText (method : CoveredMethod) : Option CoverageLine → String
  | none => ""
  | some line => line.text method

def bytesOf (text : String) : List Byte := text.toUTF8.data.toList.map UInt8.toBitVec

/-- The arrays and the text after the dumps of some methods of a class. -/
def dumpMethods (dexFile : Nat) : List CoveredMethod → CoverageArrays → String → Option (CoverageArrays × String)
  | [], arrays, os => some (arrays,os)
  | method :: rest, arrays, os => do
    let (data,line) ← dumpCoverageData method.item (arrays dexFile)
    dumpMethods dexFile rest (Function.update arrays dexFile data) (os ++ printedText method line)

def dumpCoverageDataClassVisitor (klass : CoveredClass) (arrays : CoverageArrays) (os : String) :
    Option (CoverageArrays × String) :=
  if !klass.isMiniTraceable then some (arrays,os) else do
  let (arrays,os) ← dumpMethods klass.dexFile klass.directMethods arrays os
  dumpMethods klass.dexFile klass.virtualMethods arrays os

def visitClasses : List CoveredClass → CoverageArrays → String → Option (CoverageArrays × String)
  | [], arrays, os => some (arrays,os)
  | klass :: rest, arrays, os => do
    let (arrays,os) ← dumpCoverageDataClassVisitor klass arrays os
    visitClasses rest arrays os

/-- What the calls of the system answer: to opening or creating the file, to each `write`, to `fdatasync` and
to `close`. -/
structure DumpEnvironment where
  opens : Bool
  pid : Nat
  milliTime : Nat
  writes : List WriteOutcome
  flushes : Bool
  closes : Bool
  deriving DecidableEq, Repr

inductive DumpStatus where
  | notOpened | writeFailed | flushFailed | closeFailed | done
  deriving DecidableEq, Repr

structure DumpOutcome where
  file : Option (List Byte)
  arrays : CoverageArrays
  status : DumpStatus

/-- The text of `DumpCoverageData(start)`, and the arrays when it is complete. -/
def coverageText (environment : DumpEnvironment) (start : Bool) (classes : List CoveredClass)
    (arrays : CoverageArrays) :
    Option (CoverageArrays × String) :=
  let stamp := "\t" ++ toString environment.pid ++ "\t" ++ toString environment.milliTime ++ "\n"
  if start then some (arrays,"Start" ++ stamp) else visitClasses classes arrays ("Dump" ++ stamp)

/-- Writing the text behind what the file holds. `Erase` sets the length of the file to 0; after a failed `close`
there is no descriptor left to do it with. -/
def storeText (environment : DumpEnvironment) (prior : List Byte) (arrays : CoverageArrays) (os : String) :
    DumpOutcome :=
  let (_,content,complete) := writeFully environment.writes prior (bytesOf os)
  if !complete then ⟨some [],arrays,.writeFailed⟩
  else if !environment.flushes then ⟨some [],arrays,.flushFailed⟩
  else if !environment.closes then ⟨some content,arrays,.closeFailed⟩
  else ⟨some content,arrays,.done⟩

/-- `DumpCoverageData(start)`. An existing file is opened for append, a new one is created empty. -/
def dumpCoverageFile (environment : DumpEnvironment) (start : Bool) (classes : List CoveredClass)
    (file : Option (List Byte)) (arrays : CoverageArrays) : Option DumpOutcome :=
  if !environment.opens then some ⟨file,arrays,.notOpened⟩ else do
  let (arrays,os) ← coverageText environment start classes arrays
  return storeText environment (file.getD []) arrays os

/-- No byte is marked that was not before. -/
structure Clears (before after : CoverageArrays) : Prop where
  length : ∀ dexFile, (after dexFile).length = (before dexFile).length
  zero : ∀ dexFile j, (before dexFile).getD j 0 = 0 → (after dexFile).getD j 0 = 0

theorem Clears.refl (arrays : CoverageArrays) : Clears arrays arrays := ⟨fun _ => rfl,fun _ _ => id⟩

theorem Clears.trans {a b c : CoverageArrays} (first : Clears a b) (second : Clears b c) : Clears a c where
  length dexFile := (second.length dexFile).trans (first.length dexFile)
  zero dexFile j clean := second.zero dexFile j (first.zero dexFile j clean)

/-- The code item of a method, if it has one, lies in the dex file. -/
def CoveredMethod.Located (size : Nat) (method : CoveredMethod) : Prop :=
  method.item.codeOff = 0 ∨ method.item.Inside size

instance (size : Nat) (method : CoveredMethod) : Decidable (method.Located size) := inferInstanceAs (Decidable (_ ∨ _))

/-- No mark of the method is left that its dumps reach. -/
def CoveredMethod.Cleared (data : List Byte) (method : CoveredMethod) : Prop :=
  method.item.codeOff ≠ 0 → ∀ k < method.item.reach, ¬ method.item.Marked data k

theorem Clears.cleared {before after : CoverageArrays} (clears : Clears before after) {dexFile : Nat}
    {method : CoveredMethod} (cleared : method.Cleared (before dexFile)) : method.Cleared (after dexFile) := by
  intro code k bound marked
  exact marked (clears.zero dexFile _ (not_not.mp (cleared code k bound)))

theorem dumpMethod_clears (dexFile : Nat) (method : CoveredMethod) (arrays : CoverageArrays)
    (located : method.Located (arrays dexFile).length) :
    ∃ data line, dumpCoverageData method.item (arrays dexFile) = some (data,line) ∧
      Clears arrays (Function.update arrays dexFile data) ∧ method.Cleared data := by
  by_cases native : method.item.codeOff = 0
  · refine ⟨arrays dexFile,none,if_pos native,?_,fun code => absurd native code⟩
    rw [Function.update_eq_self]
    exact .refl arrays
  obtain ⟨data,line,dumped,length,bytes,-⟩ :=
    dumpCoverageData_spec method.item (arrays dexFile) native (located.resolve_left native)
  refine ⟨data,line,dumped,⟨fun other => ?_,fun other j clean => ?_⟩,fun _ k bound marked => marked ?_⟩
  · by_cases same : other = dexFile
    · rw [same,Function.update_self,length]
    · rw [Function.update_of_ne same]
  · by_cases same : other = dexFile
    · rw [same] at clean ⊢
      rw [Function.update_self,bytes,clean,ite_self]
    · rw [Function.update_of_ne same]
      exact clean
  · rw [bytes,if_pos ⟨by omega,by omega⟩]

theorem dumpMethods_clears (dexFile : Nat) (methods : List CoveredMethod) (arrays : CoverageArrays) (os : String)
    (located : ∀ method ∈ methods, method.Located (arrays dexFile).length) :
    ∃ after text, dumpMethods dexFile methods arrays os = some (after,text) ∧ Clears arrays after ∧
      ∀ method ∈ methods, method.Cleared (after dexFile) := by
  induction methods generalizing arrays os with
  | nil => exact ⟨arrays,os,rfl,.refl arrays,nofun⟩
  | cons method rest ih =>
    obtain ⟨data,line,dumped,clears,cleared⟩ :=
      dumpMethod_clears dexFile method arrays (located method List.mem_cons_self)
    obtain ⟨after,text,later,clearsLater,clearedLater⟩ := ih (Function.update arrays dexFile data)
      (os ++ printedText method line)
      fun other member => by
        rw [clears.length]
        exact located other (List.mem_cons_of_mem _ member)
    refine ⟨after,text,?_,clears.trans clearsLater,fun other member => ?_⟩
    · rw [dumpMethods,dumped]
      exact later
    · obtain rfl | behind := List.mem_cons.mp member
      · exact clearsLater.cleared (by rw [Function.update_self]; exact cleared)
      · exact clearedLater other behind

theorem visitor_clears (klass : CoveredClass) (arrays : CoverageArrays) (os : String)
    (located : ∀ method ∈ klass.methods, method.Located (arrays klass.dexFile).length) :
    ∃ after text, dumpCoverageDataClassVisitor klass arrays os = some (after,text) ∧ Clears arrays after ∧
      (klass.isMiniTraceable = true → ∀ method ∈ klass.methods, method.Cleared (after klass.dexFile)) := by
  unfold dumpCoverageDataClassVisitor
  cases traceable : klass.isMiniTraceable with
  | false => exact ⟨arrays,os,rfl,.refl arrays,nofun⟩
  | true =>
    obtain ⟨middle,half,direct,clears,cleared⟩ := dumpMethods_clears klass.dexFile klass.directMethods arrays os
      fun method member => located method (List.mem_append_left _ member)
    obtain ⟨after,text,virtual,clearsLater,clearedLater⟩ := dumpMethods_clears klass.dexFile klass.virtualMethods middle
      half fun method member => by
        rw [clears.length]
        exact located method (List.mem_append_right _ member)
    refine ⟨after,text,?_,clears.trans clearsLater,fun _ method member => ?_⟩
    · simp only [Bool.not_true,Bool.false_eq_true,if_false,direct]
      exact virtual
    · obtain early | late := List.mem_append.mp member
      · exact clearsLater.cleared (cleared method early)
      · exact clearedLater method late

theorem visitClasses_clears (classes : List CoveredClass) (arrays : CoverageArrays) (os : String)
    (located : ∀ klass ∈ classes, ∀ method ∈ klass.methods, method.Located (arrays klass.dexFile).length) :
    ∃ after text, visitClasses classes arrays os = some (after,text) ∧ Clears arrays after ∧
      ∀ klass ∈ classes, klass.isMiniTraceable = true → ∀ method ∈ klass.methods,
        method.Cleared (after klass.dexFile) := by
  induction classes generalizing arrays os with
  | nil => exact ⟨arrays,os,rfl,.refl arrays,nofun⟩
  | cons klass rest ih =>
    obtain ⟨middle,half,visited,clears,cleared⟩ := visitor_clears klass arrays os (located klass List.mem_cons_self)
    obtain ⟨after,text,later,clearsLater,clearedLater⟩ := ih middle half fun other member method inside => by
      rw [clears.length]
      exact located other (List.mem_cons_of_mem _ member) method inside
    refine ⟨after,text,?_,clears.trans clearsLater,fun other member traceable method inside => ?_⟩
    · rw [visitClasses,visited]
      exact later
    · obtain rfl | behind := List.mem_cons.mp member
      · exact clearsLater.cleared (cleared traceable method inside)
      · exact clearedLater other behind traceable method inside

def Recorded (content : List Byte) (method : CoveredMethod) (k : Nat) : Prop :=
  ∃ (front : List Byte) (line : CoverageLine) (back : List Byte),
    content = front ++ bytesOf (line.text method) ++ back ∧ line.bits[k]? = some true

/-- The next dump of the method reports the code unit. -/
def Pending (data : List Byte) (method : CoveredMethod) (k : Nat) : Prop :=
  ∃ after line, dumpCoverageData method.item data = some (after,some line) ∧ line.bits[k]? = some true

/-- A code unit of a method of a traceable class is marked. -/
def VisitedUnit (classes : List CoveredClass) (arrays : CoverageArrays) (klass : CoveredClass) (method : CoveredMethod)
    (k : Nat) : Prop :=
  klass ∈ classes ∧ klass.isMiniTraceable = true ∧ method ∈ klass.methods ∧ method.item.codeOff ≠ 0 ∧
    k < method.item.size ∧ method.item.Marked (arrays klass.dexFile) k

/-- The file contains what it did, and every marked code unit is recorded in it or still pending. -/
structure NothingLost (classes : List CoveredClass) (prior : List Byte) (arrays : CoverageArrays)
    (outcome : DumpOutcome) : Prop where
  stored : prior <:+: outcome.file.getD []
  visited : ∀ klass method k, VisitedUnit classes arrays klass method k →
    Recorded (outcome.file.getD []) method k ∨ Pending (outcome.arrays klass.dexFile) method k

theorem text_bytes_ne_nil (method : CoveredMethod) (line : CoverageLine) : bytesOf (line.text method) ≠ [] := by
  have start : "0x".toByteArray.data ≠ #[] := by decide
  simp [bytesOf,CoverageLine.text,pointerText,start]

theorem not_recorded_nil (method : CoveredMethod) (k : Nat) : ¬ Recorded [] method k := by
  rintro ⟨front,line,back,split,-⟩
  have empty := List.append_eq_nil_iff.mp split.symm
  exact text_bytes_ne_nil method line (List.append_eq_nil_iff.mp empty.1).2

theorem pending_iff (data : List Byte) (method : CoveredMethod) (k : Nat) (code : method.item.codeOff ≠ 0)
    (located : method.Located data.length) : Pending data method k ↔ k < method.item.reach ∧
      method.item.Marked data k := by
  obtain ⟨after,line,dumped,-,-,shape⟩ := dumpCoverageData_spec method.item data code (located.resolve_left code)
  constructor
  · rintro ⟨_,printed,again,bit⟩
    cases dumped.symm.trans again
    split at shape
    · cases shape
      exact (method.item.bit_iff data k).mp bit
    · cases shape
  · rintro ⟨bound,marked⟩
    have printed : method.item.reach ≠ 0 ∧ ∃ k < method.item.window, method.item.Marked data k :=
      ⟨by omega,k,Nat.lt_trans bound method.item.reach_lt_window,marked⟩
    rw [if_pos printed] at shape
    subst shape
    exact ⟨after,_,dumped,(method.item.bit_iff data k).mpr ⟨bound,marked⟩⟩

theorem storeText_failed (environment : DumpEnvironment) (prior : List Byte) (arrays : CoverageArrays) (os : String) :
    (storeText environment prior arrays os).arrays = arrays ∧
      ((storeText environment prior arrays os).status = .writeFailed ∨
        (storeText environment prior arrays os).status = .flushFailed →
        (storeText environment prior arrays os).file = some []) := by
  unfold storeText
  obtain ⟨rest,content,complete⟩ := writeFully environment.writes prior (bytesOf os)
  cases complete <;> cases environment.flushes <;> cases environment.closes <;> simp

theorem failed_dump_erases (environment : DumpEnvironment) (start : Bool) (classes : List CoveredClass)
    (file : Option (List Byte)) (arrays : CoverageArrays) (outcome : DumpOutcome)
    (dumped : dumpCoverageFile environment start classes file arrays = some outcome)
    (failed : outcome.status = .writeFailed ∨ outcome.status = .flushFailed) :
    outcome.file = some [] ∧ ∃ text, coverageText environment start classes arrays = some (outcome.arrays,text) := by
  unfold dumpCoverageFile at dumped
  split at dumped
  · cases dumped
    simp at failed
  obtain ⟨⟨after,text⟩,printed,stored⟩ := Option.bind_eq_some_iff.mp dumped
  cases stored
  obtain ⟨same,erases⟩ := storeText_failed environment (file.getD []) after text
  exact ⟨erases failed,text,by rw [same]; exact printed⟩

section Failed

variable (environment : DumpEnvironment) (start : Bool) (classes : List CoveredClass) (file : Option (List Byte))
  (arrays : CoverageArrays) (outcome : DumpOutcome)
  (located : ∀ klass ∈ classes, ∀ method ∈ klass.methods, method.Located (arrays klass.dexFile).length)
  (dumped : dumpCoverageFile environment start classes file arrays = some outcome)
  (failed : outcome.status = .writeFailed ∨ outcome.status = .flushFailed)
include located dumped failed

theorem failed_dump_survives (klass : CoveredClass) (method : CoveredMethod) (k : Nat)
    (unit : VisitedUnit classes arrays klass method k) :
    Recorded (outcome.file.getD []) method k ∨ Pending (outcome.arrays klass.dexFile) method k ↔
      start = true ∧ k < method.item.reach := by
  obtain ⟨erased,text,printed⟩ := failed_dump_erases environment start classes file arrays outcome dumped failed
  obtain ⟨member,traceable,inside,code,bound,marked⟩ := unit
  have here := located klass member method inside
  rw [erased,Option.getD_some,or_iff_right (not_recorded_nil method k)]
  cases start with
  | true =>
    cases printed
    rw [pending_iff _ method k code here]
    exact ⟨fun both => ⟨rfl,both.1⟩,fun both => ⟨both.2,marked⟩⟩
  | false =>
    obtain ⟨after,_,visited,clears,cleared⟩ := visitClasses_clears classes arrays _ located
    cases printed.symm.trans visited
    rw [pending_iff _ method k code (by rw [clears.length]; exact here)]
    simp only [Bool.false_eq_true,false_and,iff_false,not_and]
    exact fun reached => cleared klass member traceable method inside code k reached

/-- A failed write or flush loses nothing exactly when there is nothing to lose: the file was empty, and no code
unit of a traceable class was marked, except at a start for units that dumps reach. -/
theorem failed_dump_keeps_iff : NothingLost classes (file.getD []) arrays outcome ↔
    file.getD [] = [] ∧ ∀ klass method k, VisitedUnit classes arrays klass method k →
      start = true ∧ k < method.item.reach := by
  have survives := failed_dump_survives environment start classes file arrays outcome located dumped failed
  have erased := (failed_dump_erases environment start classes file arrays outcome dumped failed).1
  constructor
  · rintro ⟨stored,visited⟩
    rw [erased] at stored
    refine ⟨by simpa using stored,fun klass method k unit => ?_⟩
    exact (survives klass method k unit).mp (visited klass method k unit)
  · rintro ⟨empty,kept⟩
    exact ⟨by rw [empty]; exact List.nil_infix,fun klass method k unit =>
      (survives klass method k unit).mpr (kept klass method k unit)⟩

end Failed

/-- `fdatasync` fails. -/
def flushFails : DumpEnvironment := ⟨true,7,0,[],false,true⟩

theorem flushFails_status (start : Bool) (classes : List CoveredClass) (file : Option (List Byte))
    (arrays : CoverageArrays)
    (located : ∀ klass ∈ classes, ∀ method ∈ klass.methods, method.Located (arrays klass.dexFile).length) :
    ∃ outcome, dumpCoverageFile flushFails start classes file arrays = some outcome ∧
      outcome.status = .flushFailed := by
  obtain ⟨after,text,printed⟩ : ∃ after text, coverageText flushFails start classes arrays = some (after,text) := by
    cases start with
    | true => exact ⟨_,_,rfl⟩
    | false =>
      obtain ⟨after,text,visited,-⟩ := visitClasses_clears classes arrays _ located
      exact ⟨after,text,visited⟩
  refine ⟨storeText flushFails (file.getD []) after text,?_,?_⟩
  · unfold dumpCoverageFile
    rw [printed]
    rfl
  · obtain ⟨rest,written,-⟩ := writeFully_reliable flushFails.writes (file.getD []) (bytesOf text) (by decide)
    unfold storeText
    rw [written]
    rfl

def coveredMethod : CoveredMethod := ⟨96,⟨"a.A","m","()V","A.java"⟩,twoUnits⟩

def coveredClass : CoveredClass := ⟨true,0,[coveredMethod],[]⟩

theorem coveredClass_located (data : List Byte) (length : data.length = 132) (klass : CoveredClass)
    (member : klass ∈ [coveredClass]) (method : CoveredMethod) (inside : method ∈ klass.methods) :
    method.Located data.length := by
  obtain rfl := List.mem_singleton.mp member
  obtain rfl : method = coveredMethod := List.mem_singleton.mp inside
  rw [length]
  decide

/-- The second code unit has been visited and the file holds the line of an earlier start: both are gone. -/
theorem failed_dump_loses : ∃ outcome,
    dumpCoverageFile flushFails false [coveredClass] (some (bytesOf "Start\t7\t0\n"))
    (fun _ => staleArray) = some outcome ∧
    outcome.status = .flushFailed ∧ outcome.file = some [] ∧
    VisitedUnit [coveredClass] (fun _ => staleArray) coveredClass coveredMethod 1 ∧
    ¬ (Recorded [] coveredMethod 1 ∨ Pending (outcome.arrays 0) coveredMethod 1) := by
  have located := coveredClass_located staleArray (by simp [staleArray])
  obtain ⟨outcome,dumped,failed⟩ := flushFails_status false [coveredClass] (some (bytesOf "Start\t7\t0\n"))
    (fun _ => staleArray) located
  have erased := (failed_dump_erases _ _ _ _ _ outcome dumped (.inr failed)).1
  have unit : VisitedUnit [coveredClass] (fun _ => staleArray) coveredClass coveredMethod 1 :=
    ⟨by simp,rfl,by simp [coveredClass,CoveredClass.methods],by decide,by decide,by decide +kernel⟩
  have survives := failed_dump_survives _ _ _ _ _ outcome located dumped (.inr failed) _ _ _ unit
  rw [erased] at survives
  exact ⟨outcome,dumped,failed,erased,unit,fun kept => absurd (survives.mp kept).1 (by decide)⟩

/-- At a start the second code unit, which has been visited, stays pending, and the file was empty. -/
theorem failed_dump_keeps_pending : ∃ outcome,
    dumpCoverageFile flushFails true [coveredClass] (some []) (fun _ => staleArray) = some outcome ∧
    outcome.status = .flushFailed ∧ Pending (outcome.arrays 0) coveredMethod 1 ∧
    NothingLost [coveredClass] [] (fun _ => staleArray) outcome := by
  have located := coveredClass_located staleArray (by simp [staleArray])
  obtain ⟨outcome,dumped,failed⟩ := flushFails_status true [coveredClass] (some []) (fun _ => staleArray) located
  have kept := (failed_dump_keeps_iff _ _ _ _ _ outcome located dumped (.inr failed)).mpr ⟨rfl,by
    rintro klass method k ⟨member,-,inside,-,bound,-⟩
    obtain rfl := List.mem_singleton.mp member
    obtain rfl : method = coveredMethod := List.mem_singleton.mp inside
    exact ⟨rfl,bound⟩⟩
  have unit : VisitedUnit [coveredClass] (fun _ => staleArray) coveredClass coveredMethod 1 :=
    ⟨by simp,rfl,by simp [coveredClass,CoveredClass.methods],by decide,by decide,by decide +kernel⟩
  have erased := (failed_dump_erases _ _ _ _ _ outcome dumped (.inr failed)).1
  have survives := kept.visited _ _ _ unit
  rw [erased] at survives
  exact ⟨outcome,dumped,failed,survives.resolve_left (not_recorded_nil _ _),kept⟩

end Aatt
