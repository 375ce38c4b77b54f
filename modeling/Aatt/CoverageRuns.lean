import Mathlib.Data.List.Induction
import Mathlib.Data.List.Pairwise
import Aatt.Coverage

/-! Coverage over whole runs of visits and dumps. The array is not cleared when it is allocated, and
a dump narrows the size of a method to 16 bits; where neither matters, a dump reports exactly what has
been visited since the one before it. -/
namespace Aatt

open Aatt.Lib

inductive CoverageAction where
  | visitPc (item : CodeItem) (dexPc : BitVec 32)
  | dump (item : CodeItem)
  deriving DecidableEq, Repr

def CoverageAction.item : CoverageAction → CodeItem
  | .visitPc item _ => item
  | .dump item => item

def coverageStep : CoverageAction → List Byte → Option (List Byte)
  | .visitPc item dexPc, data => visitPc item dexPc data
  | .dump item, data => (dumpCoverageData item data).map Prod.fst

/-- A dex file as coverage sees it: the dex file verifier has checked that code items lie in it. -/
structure DexFile where
  size : Nat
  codeItems : List CodeItem
  located : ∀ item ∈ codeItems, item.codeOff ≠ 0 ∧ item.Inside size
  disjoint : codeItems.Pairwise CodeItem.Disjoint

/-- The calls that the runtime makes for methods of the file. -/
def DexFile.Admits (file : DexFile) : CoverageAction → Prop
  | .visitPc item dexPc => item.codeOff = 0 ∨ item ∈ file.codeItems ∧ dexPc.toNat < item.size
  | .dump item => item.codeOff = 0 ∨ item ∈ file.codeItems

instance (file : DexFile) : ∀ action, Decidable (file.Admits action)
  | .visitPc _ _ => inferInstanceAs (Decidable (_ ∨ _))
  | .dump _ => inferInstanceAs (Decidable (_ ∨ _))

/-- What an action makes of the byte at an offset of a code item. -/
def CoverageAction.effect (item : CodeItem) (k : Nat) (old : Byte) : CoverageAction → Byte
  | .visitPc other dexPc => if other = item ∧ dexPc.toNat = k then 1 else old
  | .dump other => if other = item ∧ k < item.reach then 0 else old

instance : Std.Symm CodeItem.Disjoint := ⟨fun _ _ apart => Or.symm apart⟩

theorem DexFile.apart (file : DexFile) (a b : CodeItem) (inA : a ∈ file.codeItems) (inB : b ∈ file.codeItems)
    (differ : a ≠ b) : a.Disjoint b := file.disjoint.forall inA inB differ

theorem CodeItem.Disjoint.offset_ne {a b : CodeItem} (apart : a.Disjoint b) (i j : Nat) (inA : i < 16 + 2 * a.size)
    (inB : j < 16 + 2 * b.size) : a.base + i ≠ b.base + j := by
  unfold Disjoint stop at apart
  omega

/-- An action that the runtime makes stays in the array, and its effect on a code item depends on nothing
else. -/
theorem coverageStep_spec (file : DexFile) (action : CoverageAction) (data : List Byte) (admitted : file.Admits action)
    (length : data.length = file.size) :
    ∃ after, coverageStep action data = some after ∧ after.length = file.size ∧
      ∀ item ∈ file.codeItems, ∀ k < 16 + 2 * item.size,
        after.getD (item.base + k) 0 = action.effect item k (data.getD (item.base + k) 0) := by
  cases action with
  | visitPc other dexPc =>
    rcases admitted with native | ⟨member,valid⟩
    · refine ⟨data,if_pos native,length,fun item listed k _ => (if_neg ?_).symm⟩
      rintro ⟨rfl,-⟩
      exact (file.located other listed).1 native
    obtain ⟨code,inside⟩ := file.located other member
    obtain ⟨after,visited,kept,bytes⟩ := visitPc_spec other dexPc data code (length ▸ inside) valid
    refine ⟨after,visited,kept.trans length,fun item listed k bound => ?_⟩
    rw [bytes,CoverageAction.effect]
    by_cases own : other = item
    · subst own
      simp only [Nat.add_right_inj,true_and]
    · have elsewhere := (file.apart other item member listed own).offset_ne dexPc.toNat k (by omega) bound
      rw [if_neg elsewhere,if_neg fun both => own both.1]
  | dump other =>
    rcases admitted with native | member
    · refine ⟨data,by simp [coverageStep,dumpCoverageData,native],length,fun item listed k _ => (if_neg ?_).symm⟩
      rintro ⟨rfl,-⟩
      exact (file.located other listed).1 native
    obtain ⟨code,inside⟩ := file.located other member
    obtain ⟨after,line,dumped,kept,bytes,-⟩ := dumpCoverageData_spec other data code (length ▸ inside)
    refine ⟨after,by simp [coverageStep,dumped],kept.trans length,fun item listed k bound => ?_⟩
    rw [bytes,CoverageAction.effect]
    by_cases own : other = item
    · subst own
      simp only [Nat.le_add_right,Nat.add_lt_add_iff_left,true_and]
    · have outside : ¬ (other.base ≤ item.base + k ∧ item.base + k < other.base + other.reach) := by
        rintro ⟨low,high⟩
        have reach := other.reach_le
        have elsewhere := (file.apart other item member listed own).offset_ne (item.base + k - other.base) k (by omega)
          bound
        omega
      rw [if_neg outside,if_neg fun both => own both.1]

/-- The code unit has been visited, and the method not dumped after that. -/
def VisitedSince (item : CodeItem) (k : Nat) : List CoverageAction → Prop :=
  Since (fun action => ∃ dexPc, action = .visitPc item dexPc ∧ dexPc.toNat = k) (· = .dump item)

/-- The bytes of a method after any run. Those in the reach of its dumps tell what has been visited since
the last one; the others are never cleared. -/
theorem run_marked (file : DexFile) (initial : List Byte) (actions : List CoverageAction)
    (length : initial.length = file.size) (admitted : ∀ action ∈ actions, file.Admits action) :
    ∃ data, run coverageStep actions initial = some data ∧ data.length = file.size ∧
      ∀ item ∈ file.codeItems, ∀ k < 16 + 2 * item.size, (item.Marked data k ↔
        if k < item.reach then VisitedSince item k actions ∨ .dump item ∉ actions ∧ item.Marked initial k
        else (∃ dexPc, .visitPc item dexPc ∈ actions ∧ dexPc.toNat = k) ∨ item.Marked initial k) := by
  induction actions using List.reverseRecOn with
  | nil =>
    refine ⟨initial,rfl,length,fun item _ k _ => ?_⟩
    simp [VisitedSince,not_since_nil]
  | append_singleton actions action ih =>
    obtain ⟨data,ran,same,marked⟩ := ih fun action member => admitted action (by simp [member])
    obtain ⟨after,taken,kept,bytes⟩ := coverageStep_spec file action data (admitted action (by simp)) same
    refine ⟨after,by simp [run_append,run_cons,ran,taken],kept,fun item listed k bound => ?_⟩
    have before := marked item listed k bound
    unfold CodeItem.Marked at before ⊢
    rw [bytes item listed k bound,VisitedSince,since_concat,← VisitedSince]
    cases action with
    | visitPc other dexPc =>
      simp only [CoverageAction.effect]
      by_cases here : other = item ∧ dexPc.toNat = k
      · obtain ⟨rfl,rfl⟩ := here
        simp
      · rw [if_neg here,before]
        have missed : ¬ ∃ pc, CoverageAction.visitPc other dexPc = .visitPc item pc ∧ pc.toNat = k := by
          rintro ⟨pc,same,position⟩
          cases same
          exact here ⟨rfl,position⟩
        simp only [missed,false_or,reduceCtorEq,not_false_eq_true,true_and,List.mem_append,List.mem_singleton,or_false]
        have seen : (∃ pc, (CoverageAction.visitPc item pc ∈ actions ∨
            CoverageAction.visitPc item pc = .visitPc other dexPc) ∧ pc.toNat = k) ↔
            ∃ pc, CoverageAction.visitPc item pc ∈ actions ∧ pc.toNat = k := by
          constructor
          · rintro ⟨pc,early | last,position⟩
            · exact ⟨pc,early,position⟩
            · exact absurd ⟨pc,last.symm,position⟩ missed
          · rintro ⟨pc,early,position⟩
            exact ⟨pc,.inl early,position⟩
        rw [seen]
    | dump other =>
      simp only [CoverageAction.effect]
      by_cases own : other = item
      · subst own
        by_cases covered : k < other.reach
        · simp [covered]
        · rw [if_neg fun both => covered both.2,before,if_neg covered,if_neg covered]
          simp
      · rw [if_neg fun both => own both.1,before]
        simp [own,Ne.symm own]

theorem CodeItem.bit_iff (item : CodeItem) (data : List Byte) (k : Nat) :
    ((List.range item.reach).map fun k => decide (item.Marked data k))[k]? = some true ↔
      k < item.reach ∧ item.Marked data k := by
  simp only [List.getElem?_map,Option.map_eq_some_iff,List.getElem?_eq_some_iff,List.length_range,
    List.getElem_range,decide_eq_true_eq]
  constructor
  · rintro ⟨_,⟨bound,rfl⟩,marked⟩
    exact ⟨bound,marked⟩
  · rintro ⟨bound,marked⟩
    exact ⟨k,⟨bound,rfl⟩,marked⟩

/-- A dump of the method after the actions prints the line. -/
def Prints (initial : List Byte) (actions : List CoverageAction) (item : CodeItem) (line : CoverageLine) : Prop :=
  ∃ data after, run coverageStep actions initial = some data ∧ dumpCoverageData item data = some (after,some line)

/-- A dump of the method after the actions prints a 1 for the code unit. -/
def Reports (initial : List Byte) (actions : List CoverageAction) (item : CodeItem) (k : Nat) : Prop :=
  ∃ line, Prints initial actions item line ∧ line.bits[k]? = some true

section Dumps

variable (file : DexFile) (initial : List Byte) (actions : List CoverageAction) (item : CodeItem)
  (length : initial.length = file.size) (admitted : ∀ action ∈ actions, file.Admits action)
  (listed : item ∈ file.codeItems)
include length admitted listed

theorem prints_spec : ∃ data, (∀ line, Prints initial actions item line ↔
      item.reach ≠ 0 ∧ (∃ k < item.window, item.Marked data k) ∧
        line = ⟨item.insnsSizeInCodeUnits.setWidth 16,(List.range item.reach).map fun k =>
          decide (item.Marked data k)⟩) ∧
    ∀ k < 16 + 2 * item.size, (item.Marked data k ↔
      if k < item.reach then VisitedSince item k actions ∨ .dump item ∉ actions ∧ item.Marked initial k
      else (∃ dexPc, .visitPc item dexPc ∈ actions ∧ dexPc.toNat = k) ∨ item.Marked initial k) := by
  obtain ⟨data,ran,same,marks⟩ := run_marked file initial actions length admitted
  obtain ⟨code,inside⟩ := file.located item listed
  obtain ⟨after,printed,dumped,-,-,shape⟩ := dumpCoverageData_spec item data code (same ▸ inside)
  refine ⟨data,fun line => ?_,marks item listed⟩
  have only : Prints initial actions item line ↔ printed = some line := by
    constructor
    · rintro ⟨other,final,reached,dump⟩
      cases ran.symm.trans reached
      cases dumped.symm.trans dump
      rfl
    · rintro rfl
      exact ⟨data,after,ran,dumped⟩
  rw [only,shape]
  split
  · rename_i both
    simp [both.1,both.2,eq_comm]
  · rename_i neither
    simp only [reduceCtorEq,false_iff]
    exact fun ⟨some_,marked,_⟩ => neither ⟨some_,marked⟩

theorem prints_iff : (∃ line, Prints initial actions item line) ↔ item.reach ≠ 0 ∧ ∃ k < item.window,
    if k < item.reach then VisitedSince item k actions ∨ .dump item ∉ actions ∧ item.Marked initial k
    else (∃ dexPc, .visitPc item dexPc ∈ actions ∧ dexPc.toNat = k) ∨ item.Marked initial k := by
  obtain ⟨data,lines,marks⟩ := prints_spec file initial actions item length admitted listed
  have room := item.window_stop
  simp only [lines,exists_and_left,exists_eq,and_true,CodeItem.stop] at room ⊢
  refine and_congr_right fun _ => exists_congr fun k => and_congr_right fun bound => ?_
  exact marks k (by omega)

theorem reports_iff (k : Nat) : Reports initial actions item k ↔
    k < item.reach ∧ (VisitedSince item k actions ∨ .dump item ∉ actions ∧ item.Marked initial k) := by
  obtain ⟨data,lines,marks⟩ := prints_spec file initial actions item length admitted listed
  have reach := item.reach_le
  constructor
  · rintro ⟨line,printed,bit⟩
    obtain ⟨-,-,rfl⟩ := (lines line).mp printed
    obtain ⟨bound,marked⟩ := (item.bit_iff data k).mp bit
    rw [marks k (by omega),if_pos bound] at marked
    exact ⟨bound,marked⟩
  · rintro ⟨bound,visited⟩
    have marked : item.Marked data k := by rwa [marks k (by omega),if_pos bound]
    refine ⟨_,(lines _).mpr ⟨by omega,⟨k,Nat.lt_trans bound item.reach_lt_window,marked⟩,rfl⟩,?_⟩
    exact (item.bit_iff data k).mpr ⟨bound,marked⟩

theorem prints_length (line : CoverageLine) (printed : Prints initial actions item line) :
    line.bits.length = item.reach := by
  obtain ⟨data,lines,-⟩ := prints_spec file initial actions item length admitted listed
  obtain ⟨-,-,rfl⟩ := (lines line).mp printed
  simp

end Dumps

/-- In every run, a dump of the method prints only what has been visited since the dump before it. -/
def Sound (file : DexFile) (initial : List Byte) (item : CodeItem) : Prop :=
  ∀ actions, (∀ action ∈ actions, file.Admits action) → ∀ line, Prints initial actions item line →
    (∃ k < item.size, VisitedSince item k actions) ∧
      ∀ k, line.bits[k]? = some true → VisitedSince item k actions

theorem narrow_reach (item : CodeItem) (narrow : item.size < 2 ^ 16) : item.reach = item.size :=
  Nat.mod_eq_of_lt narrow

theorem dexPc_toNat (item : CodeItem) (k : Nat) (bound : k < item.size) : (BitVec.ofNat 32 k).toNat = k := by
  rw [BitVec.toNat_ofNat]
  exact Nat.mod_eq_of_lt (Nat.lt_trans bound item.insnsSizeInCodeUnits.isLt)

theorem DexFile.admits_visit (file : DexFile) (item : CodeItem) (k : Nat) (listed : item ∈ file.codeItems)
    (bound : k < item.size) : file.Admits (.visitPc item (BitVec.ofNat 32 k)) := by
  refine .inr ⟨listed,?_⟩
  rw [dexPc_toNat item k bound]
  exact bound

theorem DexFile.visit_valid (file : DexFile) (item : CodeItem) (dexPc : BitVec 32) (listed : item ∈ file.codeItems)
    (admitted : file.Admits (.visitPc item dexPc)) : dexPc.toNat < item.size := by
  obtain native | ⟨-,valid⟩ := admitted
  · exact absurd native (file.located item listed).1
  · exact valid

theorem wide_prints_again (file : DexFile) (initial : List Byte) (item : CodeItem)
    (length : initial.length = file.size) (listed : item ∈ file.codeItems) (some_ : item.reach ≠ 0)
    (wide : item.reach < item.size) : ¬ Sound file initial item := by
  intro sound
  have admitted : ∀ action ∈ [CoverageAction.visitPc item (BitVec.ofNat 32 item.reach),.dump item],
      file.Admits action := by
    simp only [List.mem_cons,List.not_mem_nil,or_false,forall_eq_or_imp,forall_eq]
    exact ⟨file.admits_visit item item.reach listed wide,.inr listed⟩
  obtain ⟨line,printed⟩ := (prints_iff file initial _ item length admitted listed).mpr
    ⟨some_,item.reach,item.reach_lt_window,by
      rw [if_neg (Nat.lt_irrefl _)]
      exact .inl ⟨_,List.mem_cons_self,dexPc_toNat item item.reach wide⟩⟩
  obtain ⟨k,-,visited⟩ := (sound _ admitted line printed).1
  rw [VisitedSince,show [CoverageAction.visitPc item (BitVec.ofNat 32 item.reach),.dump item] =
    [.visitPc item (BitVec.ofNat 32 item.reach)] ++ [.dump item] from rfl,since_concat] at visited
  simp at visited

/-- Dumps are sound if the allocated array has no mark where they look and the size fits 16 bits, and otherwise
only if they never print. -/
theorem coverage_sound_iff (file : DexFile) (initial : List Byte) (item : CodeItem)
    (length : initial.length = file.size) (listed : item ∈ file.codeItems) :
    Sound file initial item ↔
      item.reach = 0 ∨ item.size < 2 ^ 16 ∧ ∀ k < item.window, ¬ item.Marked initial k := by
  constructor
  · intro sound
    by_cases nothing : item.reach = 0
    · exact .inl nothing
    refine .inr ⟨?_,fun k bound marked => ?_⟩
    · by_contra wide
      have small : item.reach < 2 ^ 16 := Nat.mod_lt _ (by decide)
      exact wide_prints_again file initial item length listed nothing (by omega) sound
    · obtain ⟨line,printed⟩ := (prints_iff file initial [] item length nofun listed).mpr
        ⟨nothing,k,bound,by split <;> exact .inr (by simpa using marked)⟩
      obtain ⟨_,-,visited⟩ := (sound [] nofun line printed).1
      exact not_since_nil _ _ visited
  · rintro silent actions admitted line printed
    obtain ⟨some_,k,bound,marked⟩ := (prints_iff file initial actions item length admitted listed).mp ⟨line,printed⟩
    obtain never | ⟨narrow,clean⟩ := silent
    · exact absurd never some_
    have reach := narrow_reach item narrow
    constructor
    · refine ⟨k,?_⟩
      split at marked
      · rename_i covered
        obtain visited | ⟨-,stale⟩ := marked
        · exact ⟨reach ▸ covered,visited⟩
        · exact absurd stale (clean k bound)
      · rename_i beyond
        obtain ⟨dexPc,member,rfl⟩ | stale := marked
        · have valid := file.visit_valid item dexPc listed (admitted _ member)
          omega
        · exact absurd stale (clean k bound)
    · intro j bit
      obtain ⟨covered,visited | ⟨-,stale⟩⟩ :=
        (reports_iff file initial actions item length admitted listed j).mp ⟨line,printed,bit⟩
      · exact visited
      · exact absurd stale (clean j (Nat.lt_trans covered item.reach_lt_window))

/-- A method of two code units behind the header of a dex file. -/
def twoUnits : CodeItem := ⟨112,2⟩

def twoUnitsFile : DexFile := ⟨132,[twoUnits],by decide,by decide⟩

/-- The memory of the new array holds something else than 0 at the second code unit. -/
def staleArray : List Byte := (List.replicate 132 0).set 113 7

/-- The first dump reports a code unit of a method that has not run. -/
theorem stale_byte_reported : staleArray.length = twoUnitsFile.size ∧ twoUnits ∈ twoUnitsFile.codeItems ∧
    Prints staleArray [] twoUnits ⟨2,[false,true]⟩ ∧ ¬ VisitedSince twoUnits 1 [] :=
  ⟨by simp [staleArray,twoUnitsFile],by decide,⟨staleArray,List.replicate 132 0,rfl,by decide +kernel⟩,
    not_since_nil _ _⟩

theorem coverage_sound_zeroed : Sound twoUnitsFile (List.replicate 132 0) twoUnits :=
  (coverage_sound_iff twoUnitsFile (List.replicate 132 0) twoUnits (by simp [twoUnitsFile]) (by decide)).mpr
    (.inr ⟨by decide,by decide +kernel⟩)

/-- In every run, what is visited between two successive dumps of the method is reported by the second of them
and by no other one that it was not visited for, and a line has a digit for each code unit. -/
def Complete (file : DexFile) (initial : List Byte) (item : CodeItem) : Prop :=
  ∀ actions, (∀ action ∈ actions, file.Admits action) →
    (∀ before between after, actions = before ++ .dump item :: between ++ .dump item :: after → .dump item ∉ between →
      ∀ dexPc, .visitPc item dexPc ∈ between →
        Reports initial (before ++ .dump item :: between) item dexPc.toNat ∧
        ∀ front back, actions = front ++ .dump item :: back → front ≠ before ++ .dump item :: between →
          Reports initial front item dexPc.toNat → VisitedSince item dexPc.toNat front) ∧
    ∀ front back line, actions = front ++ .dump item :: back → Prints initial front item line →
      line.bits.length = item.size

/-- Dumps are complete if the size of the method fits 16 bits and the allocated array has no mark for it. -/
theorem coverage_complete_iff (file : DexFile) (initial : List Byte) (item : CodeItem)
    (length : initial.length = file.size) (listed : item ∈ file.codeItems) :
    Complete file initial item ↔ item.size < 2 ^ 16 ∧ ∀ k < item.size, ¬ item.Marked initial k := by
  constructor
  · intro complete
    have round : ∀ k < item.size, Reports initial [.dump item,.visitPc item (BitVec.ofNat 32 k)] item k ∧
        ¬ Reports initial [] item k := by
      intro k bound
      have position := dexPc_toNat item k bound
      have admitted : ∀ action ∈ [CoverageAction.dump item,.visitPc item (BitVec.ofNat 32 k),.dump item],
          file.Admits action := by
        simp only [List.mem_cons,List.not_mem_nil,or_false,forall_eq_or_imp,forall_eq]
        exact ⟨.inr listed,file.admits_visit item k listed bound,.inr listed⟩
      obtain ⟨reported,others⟩ := (complete _ admitted).1 [] [.visitPc item (BitVec.ofNat 32 k)] [] rfl (by simp)
        (BitVec.ofNat 32 k) List.mem_cons_self
      rw [position] at reported others
      exact ⟨reported,fun early => not_since_nil _ _ (others [] _ rfl nofun early)⟩
    have narrow : item.size < 2 ^ 16 := by
      by_contra wide
      have small : item.reach < 2 ^ 16 := Nat.mod_lt _ (by decide)
      have bound : item.size - 1 < item.size := by omega
      have admitted : ∀ action ∈ [CoverageAction.dump item,.visitPc item (BitVec.ofNat 32 (item.size - 1))],
          file.Admits action := by
        simp only [List.mem_cons,List.not_mem_nil,or_false,forall_eq_or_imp,forall_eq]
        exact ⟨.inr listed,file.admits_visit item _ listed bound⟩
      have reached := ((reports_iff file initial _ item length admitted listed _).mp (round _ bound).1).1
      omega
    refine ⟨narrow,fun k bound stale => (round k bound).2 ?_⟩
    rw [reports_iff file initial [] item length nofun listed,narrow_reach item narrow]
    exact ⟨bound,.inr ⟨nofun,stale⟩⟩
  · rintro ⟨narrow,clean⟩ actions admitted
    have reach := narrow_reach item narrow
    have part : ∀ front back, actions = front ++ back → ∀ action ∈ front, file.Admits action :=
      fun front back split action member => admitted action (by simp [split,member])
    constructor
    · intro before between after split undumped dexPc visited
      refine ⟨?_,fun front back cut _ reported => ?_⟩
      · have valid := file.visit_valid item dexPc listed (admitted _ (by rw [split]; simp [visited]))
        rw [reports_iff file initial _ item length (part _ _ split) listed,reach]
        obtain ⟨early,late,rfl⟩ := List.append_of_mem visited
        refine ⟨valid,.inl ⟨before ++ .dump item :: early,.visitPc item dexPc,late,by simp,⟨dexPc,rfl,rfl⟩,?_⟩⟩
        rintro action member rfl
        exact undumped (by simp [member])
      · obtain ⟨bound,visited | ⟨-,stale⟩⟩ :=
          (reports_iff file initial front item length (part _ _ cut) listed _).mp reported
        · exact visited
        · exact absurd stale (clean _ (reach ▸ bound))
    · intro front back line cut printed
      rw [prints_length file initial front item length (part _ _ cut) listed line printed,reach]

def wideMethod : CodeItem := ⟨112,65536⟩

def wideFile : DexFile := ⟨131200,[wideMethod],by decide,by decide⟩

/-- The narrowed size is 0, so that no dump of the method prints anything. -/
theorem wide_method_not_reported : wideMethod ∈ wideFile.codeItems ∧
    (∀ action ∈ [CoverageAction.dump wideMethod,.visitPc wideMethod 5,.dump wideMethod], wideFile.Admits action) ∧
    ¬ ∃ line, Prints (List.replicate 131200 0) [.dump wideMethod,.visitPc wideMethod 5] wideMethod line := by
  refine ⟨by decide,by decide,fun printed => ?_⟩
  have reach := ((prints_iff wideFile (List.replicate 131200 0) _ wideMethod List.length_replicate (by decide)
    (by decide)).mp printed).1
  exact reach (by decide)

theorem coverage_complete_zeroed : Complete twoUnitsFile (List.replicate 132 0) twoUnits :=
  (coverage_complete_iff twoUnitsFile (List.replicate 132 0) twoUnits (by simp [twoUnitsFile]) (by decide)).mpr
    ⟨by decide,by decide +kernel⟩

/-- The outcomes of the dumps of a method in a run. -/
def dumpsOf (item : CodeItem) : List CoverageAction → List Byte → Option (List (Option CoverageLine))
  | [], _ => some []
  | .visitPc other dexPc :: rest, data => do
    let data ← visitPc other dexPc data
    dumpsOf item rest data
  | .dump other :: rest, data => do
    let (data,line) ← dumpCoverageData other data
    let later ← dumpsOf item rest data
    return if other = item then line :: later else later

def SameItem (item : CodeItem) (a b : List Byte) : Prop :=
  ∀ k < 16 + 2 * item.size, a.getD (item.base + k) 0 = b.getD (item.base + k) 0

theorem dump_sameItem (file : DexFile) (item : CodeItem) (a b afterA afterB : List Byte)
    (lineA lineB : Option CoverageLine) (listed : item ∈ file.codeItems) (lengthA : a.length = file.size)
    (lengthB : b.length = file.size) (same : SameItem item a b) (dumpA : dumpCoverageData item a = some (afterA,lineA))
    (dumpB : dumpCoverageData item b = some (afterB,lineB)) : lineA = lineB := by
  obtain ⟨code,inside⟩ := file.located item listed
  obtain ⟨_,_,again,-,-,shapeA⟩ := dumpCoverageData_spec item a code (lengthA ▸ inside)
  cases dumpA.symm.trans again
  obtain ⟨_,_,again,-,-,shapeB⟩ := dumpCoverageData_spec item b code (lengthB ▸ inside)
  cases dumpB.symm.trans again
  have room := item.window_stop
  have marks : ∀ k < item.window, (item.Marked a k ↔ item.Marked b k) := by
    intro k bound
    unfold CodeItem.stop at room
    rw [CodeItem.Marked,CodeItem.Marked,same k (by omega)]
  have seen : (∃ k < item.window, item.Marked a k) ↔ ∃ k < item.window, item.Marked b k :=
    exists_congr fun k => and_congr_right (marks k)
  have bits : ((List.range item.reach).map fun k => decide (item.Marked a k)) =
      (List.range item.reach).map fun k => decide (item.Marked b k) := by
    refine List.map_congr_left fun k member => ?_
    rw [decide_eq_decide]
    exact marks k (Nat.lt_trans (List.mem_range.mp member) item.reach_lt_window)
  rw [shapeA,shapeB,bits]
  simp only [seen]

theorem dumpsOf_other (item : CodeItem) (action : CoverageAction) (rest : List CoverageAction) (data after : List Byte)
    (taken : coverageStep action data = some after) (other : action ≠ .dump item) :
    dumpsOf item (action :: rest) data = dumpsOf item rest after := by
  cases action with
  | visitPc visited dexPc =>
    have visit : visitPc visited dexPc data = some after := taken
    rw [dumpsOf,visit]
    rfl
  | dump dumped =>
    obtain ⟨⟨next,line⟩,dump,rfl⟩ := Option.map_eq_some_iff.mp taken
    have differ : dumped ≠ item := fun same => other (same ▸ rfl)
    rw [dumpsOf,dump]
    simp [differ]

theorem dumpsOf_own (item : CodeItem) (rest : List CoverageAction) (data after : List Byte) (line : Option CoverageLine)
    (dump : dumpCoverageData item data = some (after,line)) :
    dumpsOf item (.dump item :: rest) data = (dumpsOf item rest after).map (line :: ·) := by
  rw [dumpsOf,dump]
  cases later : dumpsOf item rest after <;> simp [later]

theorem sameItem_step (file : DexFile) (item : CodeItem) (listed : item ∈ file.codeItems) (action : CoverageAction)
    (a b afterA : List Byte) (lengthA : a.length = file.size) (admitted : file.Admits action) (same : SameItem item a b)
    (takenA : coverageStep action a = some afterA) :
    afterA.length = file.size ∧ (action.item ≠ item → SameItem item afterA b) ∧
      ∀ afterB, b.length = file.size → coverageStep action b = some afterB → SameItem item afterA afterB := by
  obtain ⟨_,again,length,bytesA⟩ := coverageStep_spec file action a admitted lengthA
  cases takenA.symm.trans again
  refine ⟨length,fun foreign k bound => ?_,fun afterB lengthB takenB k bound => ?_⟩
  · rw [bytesA item listed k bound,← same k bound]
    cases action with
    | visitPc other dexPc => exact if_neg fun both => foreign both.1
    | dump other => exact if_neg fun both => foreign both.1
  · obtain ⟨_,again,-,bytesB⟩ := coverageStep_spec file action b admitted lengthB
    cases takenB.symm.trans again
    rw [bytesA item listed k bound,bytesB item listed k bound,same k bound]

theorem dumpsOf_without (file : DexFile) (first second : CodeItem) (inSecond : second ∈ file.codeItems)
    (differ : first ≠ second) (actions : List CoverageAction) (a b : List Byte) (lengthA : a.length = file.size)
    (lengthB : b.length = file.size) (admitted : ∀ action ∈ actions, file.Admits action) (same : SameItem second a b) :
    ∃ lines, dumpsOf second actions a = some lines ∧
      dumpsOf second (actions.filter (·.item ≠ first)) b = some lines := by
  induction actions generalizing a b with
  | nil => exact ⟨[],rfl,rfl⟩
  | cons action rest ih =>
    have here := admitted action List.mem_cons_self
    have later : ∀ action ∈ rest, file.Admits action := fun other member =>
      admitted other (List.mem_cons_of_mem _ member)
    obtain ⟨afterA,takenA,-,-⟩ := coverageStep_spec file action a here lengthA
    obtain ⟨afterB,takenB,keptB,-⟩ := coverageStep_spec file action b here lengthB
    obtain ⟨keptA,foreign,both⟩ := sameItem_step file second inSecond action a b afterA lengthA here same takenA
    by_cases dropped : action.item = first
    · have other : action ≠ .dump second := by
        rintro rfl
        exact differ dropped.symm
      rw [List.filter_cons_of_neg (by simp [dropped]),dumpsOf_other second action rest a afterA takenA other]
      exact ih afterA b keptA lengthB later (foreign (dropped ▸ differ))
    · rw [List.filter_cons_of_pos (by simp [dropped])]
      obtain ⟨lines,linesA,linesB⟩ := ih afterA afterB keptA keptB later (both afterB lengthB takenB)
      by_cases own : action = .dump second
      · subst own
        obtain ⟨⟨_,lineA⟩,dumpA,rfl⟩ := Option.map_eq_some_iff.mp takenA
        obtain ⟨⟨_,lineB⟩,dumpB,rfl⟩ := Option.map_eq_some_iff.mp takenB
        have equal := dump_sameItem file second a b _ _ lineA lineB inSecond lengthA lengthB same dumpA dumpB
        refine ⟨lineA :: lines,?_,?_⟩
        · rw [dumpsOf_own second rest a _ lineA dumpA,linesA]
          rfl
        · rw [dumpsOf_own second _ b _ lineB dumpB,linesB,equal]
          rfl
      · refine ⟨lines,?_,?_⟩
        · rw [dumpsOf_other second action rest a afterA takenA own,linesA]
        · rw [dumpsOf_other second action _ b afterB takenB own,linesB]

/-- Everything that is done for a method stays in the array, and its visits and dumps can be left out of any run
without a change in what the dumps of another method print. -/
theorem coverage_separate (file : DexFile) (first second : CodeItem) (data : List Byte)
    (length : data.length = file.size) (inSecond : second ∈ file.codeItems) (differ : first ≠ second) :
    (∀ action, action.item = first → file.Admits action →
      ∃ after, coverageStep action data = some after ∧ after.length = file.size) ∧
    ∀ actions, (∀ action ∈ actions, file.Admits action) →
      ∃ lines, dumpsOf second actions data = some lines ∧
        dumpsOf second (actions.filter (·.item ≠ first)) data = some lines := by
  constructor
  · intro action _ admitted
    obtain ⟨after,taken,kept,-⟩ := coverageStep_spec file action data admitted length
    exact ⟨after,taken,kept⟩
  · intro actions admitted
    exact dumpsOf_without file first second inSecond differ actions data data length length admitted fun _ _ => rfl

/-- A one-unit method at the end of the file, after one of two units. -/
def lastUnit : CodeItem := ⟨132,1⟩

def twoMethodsFile : DexFile := ⟨150,[twoUnits,lastUnit],by decide,by decide⟩

theorem coverage_separate_last_unit :
    (∀ action, action.item = twoUnits → twoMethodsFile.Admits action →
      ∃ after, coverageStep action (List.replicate 150 0) = some after ∧ after.length = 150) ∧
    ∃ lines, dumpsOf lastUnit [.visitPc lastUnit 0,.visitPc twoUnits 1,.dump twoUnits,.dump lastUnit]
        (List.replicate 150 0) = some lines ∧
      dumpsOf lastUnit [.visitPc lastUnit 0,.dump lastUnit] (List.replicate 150 0) = some lines := by
  obtain ⟨inside,separate⟩ := coverage_separate twoMethodsFile twoUnits lastUnit (List.replicate 150 0)
    List.length_replicate (by decide) (by decide)
  exact ⟨inside,separate [.visitPc lastUnit 0,.visitPc twoUnits 1,.dump twoUnits,.dump lastUnit] (by decide)⟩

end Aatt
