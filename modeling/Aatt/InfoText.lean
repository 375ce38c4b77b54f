import Aatt.CoverageFile
import Aatt.ExitedThreads
import Aatt.Lib.Columns

/-! The text of the info log. `DumpList` writes four sections line by line, with columns separated by tabs
and no character escaped, so the text can be read back as far as the names leave lines and columns alone. -/
namespace Aatt

open Aatt.Lib

def threadLine (thread : Int × String) : String := toString thread.1 ++ "\t" ++ thread.2

def methodLine (method : Address × MethodText) : String :=
  pointerText method.1 ++ "\t" ++ method.2.declaringClass ++ "\t" ++ method.2.name ++ "\t" ++
    method.2.signature ++ "\t" ++
    method.2.sourceFile

def fieldLine (field : Address × FieldText) : String :=
  pointerText field.1 ++ "\t" ++ field.2.declaringClass ++ "\t" ++ field.2.name ++ "\t" ++ field.2.type

def kMiniTraceTokenChar : String := "*"

def sectionText (name : String) (lines : List String) : String :=
  kMiniTraceTokenChar ++ name ++ "\n" ++ String.join (lines.map (· ++ "\n"))

/-- `DumpList`, for the lines of `DumpThreadList` and those of the visited methods and fields. -/
def dumpListText (threads : List (Int × String)) (info : InfoLog) : String :=
  sectionText "threads" (threads.map threadLine) ++ sectionText "methods" (info.methods.map methodLine) ++
    sectionText "fields" (info.fields.map fieldLine) ++ sectionText "end" []

/-- The info log of a trace in a runtime with the given threads, if all its methods and fields can be read. -/
def infoText (s : ExitedThreads.State) (texts : MemberTexts) (t : MiniTrace) : String :=
  dumpListText (ExitedThreads.dumpThreadList s) (dumpList texts t)

def InColumn (name : String) : Prop := '\t' ∉ name.toList ∧ '\n' ∉ name.toList

def InLine (name : String) : Prop := '\n' ∉ name.toList

instance (name : String) : Decidable (InColumn name) := inferInstanceAs (Decidable (_ ∧ _))

instance (name : String) : Decidable (InLine name) := inferInstanceAs (Decidable (¬ _))

/-- Names keep to their columns, the names of threads and of source files, which are the last columns, to their
lines. -/
structure ReadableNames (threads : List (Int × String)) (info : InfoLog) : Prop where
  threads : ∀ thread ∈ threads, InLine thread.2
  methods : ∀ method ∈ info.methods,
    InColumn method.2.declaringClass ∧ InColumn method.2.name ∧ InColumn method.2.signature ∧ InLine method.2.sourceFile
  fields : ∀ field ∈ info.fields, InColumn field.2.declaringClass ∧ InColumn field.2.name ∧ InColumn field.2.type

def Numeral (text : String) : Prop := text ≠ "" ∧ ∀ c ∈ text.toList, c ≠ '\t' ∧ c ≠ '\n' ∧ c ≠ '*'

theorem digit_plain {base : Nat} (large : 1 < base) (few : base ≤ 16) {n : Nat} {c : Char}
    (member : c ∈ base.toDigits n) :
    c ≠ '\t' ∧ c ≠ '\n' ∧ c ≠ '*' := by
  obtain ⟨digit,below,rfl⟩ := exists_digit_of_mem_toDigits large member
  have all : ∀ i < 16, Nat.digitChar i ≠ '\t' ∧ Nat.digitChar i ≠ '\n' ∧ Nat.digitChar i ≠ '*' := by decide
  exact all digit (by omega)

theorem pointerText_numeral (pointer : Address) : Numeral (pointerText pointer) := by
  refine ⟨fun empty => ?_,fun c member => ?_⟩
  · simpa [pointerText] using congrArg String.toList empty
  · simp only [pointerText,String.toList_append,String.toList_ofList,List.mem_append] at member
    rcases member with mark | digit
    · have shown : c = '0' ∨ c = 'x' := by simpa using mark
      rcases shown with rfl | rfl <;> decide
    · exact digit_plain (by decide) (by decide) digit

theorem natRepr_plain (n : Nat) {c : Char} (member : c ∈ n.repr.toList) : c ≠ '\t' ∧ c ≠ '\n' ∧ c ≠ '*' := by
  rw [Nat.repr_eq_ofList_toDigits,String.toList_ofList] at member
  exact digit_plain (by decide) (by decide) member

theorem intText_numeral (tid : Int) : Numeral (toString tid) := by
  have shown : toString tid = tid.repr := rfl
  rw [shown,Int.repr_eq_if]
  split
  · exact ⟨Nat.repr_ne_empty,fun c => natRepr_plain _⟩
  · refine ⟨fun empty => ?_,fun c member => ?_⟩
    · simpa using congrArg String.toList empty
    · rcases List.mem_append.mp (String.toList_append ▸ member) with sign | digit
      · obtain rfl : c = '-' := List.mem_singleton.mp sign
        decide
      · exact natRepr_plain _ digit

theorem natText_inj {m n : Nat} (same : m.repr.toList = n.repr.toList) : m = n := by
  rw [Nat.repr_eq_ofList_toDigits,Nat.repr_eq_ofList_toDigits,String.toList_ofList,String.toList_ofList] at same
  exact toDigits_inj (by decide) (by decide) same

theorem minus_not_in_repr (n : Nat) : '-' ∉ n.repr.toList := by
  rw [Nat.repr_eq_ofList_toDigits,String.toList_ofList]
  intro member
  obtain ⟨digit,below,shown⟩ := exists_digit_of_mem_toDigits (by decide) member
  have all : ∀ i < 10, '-' ≠ Nat.digitChar i := by decide
  exact all digit below shown

theorem intText_inj {tid other : Int} (same : (toString tid).toList = (toString other).toList) : tid = other := by
  have shown : ∀ n : Int, toString n = n.repr := fun _ => rfl
  rw [shown,shown,Int.repr_eq_if,Int.repr_eq_if] at same
  have minus : ∀ n : Nat, ("-" ++ n.repr).toList = '-' :: n.repr.toList := fun n => by simp
  split at same <;> split at same
  · have digits := natText_inj same
    omega
  · rw [minus] at same
    exact absurd (same ▸ List.mem_cons_self) (minus_not_in_repr tid.toNat)
  · rw [minus] at same
    exact absurd (same ▸ List.mem_cons_self) (minus_not_in_repr other.toNat)
  · rw [minus,minus] at same
    have digits := natText_inj (List.cons.inj same).2
    omega

theorem pointerText_inj {pointer other : Address} (same : pointerText pointer = pointerText other) :
    pointer = other := by
  have digits := congrArg String.toList same
  simp only [pointerText,String.toList_append,String.toList_ofList,List.append_cancel_left_eq] at digits
  exact BitVec.eq_of_toNat_eq (toDigits_inj (by decide) (by decide) digits)

theorem Numeral.tab {text : String} (numeral : Numeral text) : '\t' ∉ text.toList :=
  fun member => (numeral.2 _ member).1 rfl

theorem Numeral.newline {text : String} (numeral : Numeral text) : '\n' ∉ text.toList :=
  fun member => (numeral.2 _ member).2.1 rfl

theorem Numeral.not_header {text : String} (numeral : Numeral text) (rest name : List Char) :
    '*' :: name ≠ text.toList ++ rest := by
  intro same
  obtain ⟨c,cs,shown⟩ := List.exists_cons_of_ne_nil (show text.toList ≠ [] by simpa using numeral.1)
  rw [shown] at same
  exact (numeral.2 c (by rw [shown]; exact List.mem_cons_self)).2.2 (List.cons.inj same).1.symm

theorem threadLine_toList (thread : Int × String) :
    (threadLine thread).toList = (toString thread.1).toList ++ '\t' :: thread.2.toList := by
  simp [threadLine]

theorem methodLine_toList (method : Address × MethodText) :
    (methodLine method).toList = (pointerText method.1).toList ++ '\t' :: (method.2.declaringClass.toList ++ '\t' ::
      (method.2.name.toList ++ '\t' :: (method.2.signature.toList ++ '\t' :: method.2.sourceFile.toList))) := by
  simp [methodLine]

theorem fieldLine_toList (field : Address × FieldText) :
    (fieldLine field).toList = (pointerText field.1).toList ++ '\t' :: (field.2.declaringClass.toList ++ '\t' ::
      (field.2.name.toList ++ '\t' :: field.2.type.toList)) := by
  simp [fieldLine]

theorem threadLine_not_header (thread : Int × String) (name : List Char) :
    '*' :: name ≠ (threadLine thread).toList := by
  rw [threadLine_toList]
  exact (intText_numeral thread.1).not_header _ name

theorem methodLine_not_header (method : Address × MethodText) (name : List Char) :
    '*' :: name ≠ (methodLine method).toList := by
  rw [methodLine_toList]
  exact (pointerText_numeral method.1).not_header _ name

theorem fieldLine_not_header (field : Address × FieldText) (name : List Char) :
    '*' :: name ≠ (fieldLine field).toList := by
  rw [fieldLine_toList]
  exact (pointerText_numeral field.1).not_header _ name

theorem threadLine_inj {thread other : Int × String} (same : (threadLine thread).toList = (threadLine other).toList) :
    thread = other := by
  rw [threadLine_toList,threadLine_toList] at same
  obtain ⟨tid,name⟩ := column_inj (intText_numeral _).tab (intText_numeral _).tab same
  exact Prod.ext (intText_inj tid) (String.toList_inj.mp name)

theorem methodLine_inj {method other : Address × MethodText}
    (same : (methodLine method).toList = (methodLine other).toList) (clean : InColumn method.2.declaringClass ∧
      InColumn method.2.name ∧ InColumn method.2.signature)
    (clean' : InColumn other.2.declaringClass ∧ InColumn other.2.name ∧ InColumn other.2.signature) :
    method = other := by
  obtain ⟨pointer,declaringClass,name,signature,sourceFile⟩ := method
  obtain ⟨pointer',declaringClass',name',signature',sourceFile'⟩ := other
  rw [methodLine_toList,methodLine_toList] at same
  obtain ⟨first,same⟩ := column_inj (pointerText_numeral _).tab (pointerText_numeral _).tab same
  obtain ⟨second,same⟩ := column_inj clean.1.1 clean'.1.1 same
  obtain ⟨third,same⟩ := column_inj clean.2.1.1 clean'.2.1.1 same
  obtain ⟨fourth,fifth⟩ := column_inj clean.2.2.1 clean'.2.2.1 same
  obtain rfl := pointerText_inj (String.toList_inj.mp first)
  obtain rfl := String.toList_inj.mp second
  obtain rfl := String.toList_inj.mp third
  obtain rfl := String.toList_inj.mp fourth
  obtain rfl := String.toList_inj.mp fifth
  rfl

theorem fieldLine_inj {field other : Address × FieldText} (same : (fieldLine field).toList = (fieldLine other).toList)
    (clean : InColumn field.2.declaringClass ∧ InColumn field.2.name)
    (clean' : InColumn other.2.declaringClass ∧ InColumn other.2.name) : field = other := by
  obtain ⟨pointer,declaringClass,name,type⟩ := field
  obtain ⟨pointer',declaringClass',name',type'⟩ := other
  rw [fieldLine_toList,fieldLine_toList] at same
  obtain ⟨first,same⟩ := column_inj (pointerText_numeral _).tab (pointerText_numeral _).tab same
  obtain ⟨second,same⟩ := column_inj clean.1.1 clean'.1.1 same
  obtain ⟨third,fourth⟩ := column_inj clean.2.1 clean'.2.1 same
  obtain rfl := pointerText_inj (String.toList_inj.mp first)
  obtain rfl := String.toList_inj.mp second
  obtain rfl := String.toList_inj.mp third
  obtain rfl := String.toList_inj.mp fourth
  rfl

def sectionLines (name : String) (lines : List String) : List (List Char) :=
  ('*' :: name.toList) :: lines.map String.toList

theorem sectionText_toList (name : String) (lines : List String) :
    (sectionText name lines).toList = terminated '\n' (sectionLines name lines) := by
  have body : (lines.map (· ++ "\n")).flatMap String.toList = terminated '\n' (lines.map String.toList) := by
    simp [terminated,List.flatMap_map]
  simp [sectionText,sectionLines,kMiniTraceTokenChar,terminated_cons,String.toList_join,body]

def infoLines (threads : List (Int × String)) (info : InfoLog) : List (List Char) :=
  sectionLines "threads" (threads.map threadLine) ++ (sectionLines "methods" (info.methods.map methodLine) ++
    (sectionLines "fields" (info.fields.map fieldLine) ++ sectionLines "end" []))

theorem dumpListText_toList (threads : List (Int × String)) (info : InfoLog) :
    (dumpListText threads info).toList = terminated '\n' (infoLines threads info) := by
  simp only [dumpListText,infoLines,String.toList_append,sectionText_toList,terminated_append,List.append_assoc]

theorem threadLine_inLine (thread : Int × String) (clean : InLine thread.2) : '\n' ∉ (threadLine thread).toList := by
  rw [threadLine_toList,List.mem_append,List.mem_cons,not_or,not_or]
  exact ⟨(intText_numeral _).newline,by decide,clean⟩

theorem methodLine_inLine (method : Address × MethodText) (clean : InColumn method.2.declaringClass ∧
    InColumn method.2.name ∧ InColumn method.2.signature ∧ InLine method.2.sourceFile) :
    '\n' ∉ (methodLine method).toList := by
  simp only [methodLine_toList,List.mem_append,List.mem_cons,not_or]
  exact ⟨(pointerText_numeral _).newline,by decide,clean.1.2,by decide,clean.2.1.2,by decide,clean.2.2.1.2,by decide,
    clean.2.2.2⟩

theorem fieldLine_inLine (field : Address × FieldText) (clean : InColumn field.2.declaringClass ∧
    InColumn field.2.name ∧ InColumn field.2.type) : '\n' ∉ (fieldLine field).toList := by
  simp only [fieldLine_toList,List.mem_append,List.mem_cons,not_or]
  exact ⟨(pointerText_numeral _).newline,by decide,clean.1.2,by decide,clean.2.1.2,by decide,clean.2.2.2⟩

theorem sectionLines_clean {name : String} {lines : List String} (clean : '\n' ∉ name.toList)
    (each : ∀ line ∈ lines, '\n' ∉ line.toList) : ∀ line ∈ sectionLines name lines, '\n' ∉ line := by
  rw [sectionLines,List.forall_mem_cons,List.forall_mem_map]
  exact ⟨fun member => clean ((List.mem_cons.mp member).resolve_left (by decide)),each⟩

theorem ReadableNames.lines {threads : List (Int × String)} {info : InfoLog} (names : ReadableNames threads info) :
    ∀ line ∈ infoLines threads info, '\n' ∉ line := by
  simp only [infoLines,List.forall_mem_append]
  refine ⟨sectionLines_clean (by decide) ?_,sectionLines_clean (by decide) ?_,sectionLines_clean (by decide) ?_,
    sectionLines_clean (by decide) nofun⟩
  all_goals rw [List.forall_mem_map]
  · exact fun thread member => threadLine_inLine thread (names.threads thread member)
  · exact fun method member => methodLine_inLine method (names.methods method member)
  · exact fun field member => fieldLine_inLine field (names.fields field member)

/-- Lines that are not headers, up to the header of the next section, determine the lists they are printed from. -/
theorem section_inj {α : Type} {line : α → String} {entries entries' : List α} {next : String}
    {rest rest' : List (List Char)} (plain : ∀ entry, '*' :: next.toList ≠ (line entry).toList)
    (injective : ∀ entry ∈ entries, ∀ other ∈ entries', (line entry).toList = (line other).toList → entry = other)
    (same : (entries.map line).map String.toList ++ ('*' :: next.toList) :: rest =
      (entries'.map line).map String.toList ++ ('*' :: next.toList) :: rest') : entries = entries' ∧ rest = rest' := by
  have absent : ∀ list : List α, '*' :: next.toList ∉ (list.map line).map String.toList := by
    intro list member
    obtain ⟨_,inside,shown⟩ := List.mem_map.mp member
    obtain ⟨entry,-,rfl⟩ := List.mem_map.mp inside
    exact plain entry shown.symm
  obtain ⟨lines,onward⟩ := column_inj (absent entries) (absent entries') same
  refine ⟨?_,onward⟩
  rw [List.map_map,List.map_map] at lines
  exact map_inj_of_mem lines injective

theorem dumpListText_inj {threads threads' : List (Int × String)} {info info' : InfoLog}
    (names : ReadableNames threads info) (names' : ReadableNames threads' info')
    (same : dumpListText threads info = dumpListText threads' info') : threads = threads' ∧ info = info' := by
  have lines := congrArg String.toList same
  rw [dumpListText_toList,dumpListText_toList] at lines
  have sections := terminated_inj names.lines names'.lines lines
  simp only [infoLines,sectionLines,List.cons_append,List.cons.injEq,true_and,List.map_nil] at sections
  obtain ⟨rfl,members⟩ := section_inj
    (fun thread => threadLine_not_header thread _) (fun thread _ other _ => threadLine_inj) sections
  obtain ⟨methods,others⟩ := section_inj
    (fun method => methodLine_not_header method _)
    (fun method inside other inside' same =>
      have clean := names.methods method inside
      have clean' := names'.methods other inside'
      methodLine_inj same ⟨clean.1,clean.2.1,clean.2.2.1⟩ ⟨clean'.1,clean'.2.1,clean'.2.2.1⟩) members
  obtain ⟨fields,-⟩ := section_inj
    (fun field => fieldLine_not_header field _)
    (fun field inside other inside' same =>
      have clean := names.fields field inside
      have clean' := names'.fields other inside'
      fieldLine_inj same ⟨clean.1,clean.2.1⟩ ⟨clean'.1,clean'.2.1⟩) others
  obtain ⟨methodLines,fieldLines⟩ := info
  obtain ⟨methodLines',fieldLines'⟩ := info'
  exact ⟨rfl,congrArg₂ InfoLog.mk methods fields⟩

/-- Two info logs with the same text list the same threads, methods and fields. -/
theorem infoText_inj (s s' : ExitedThreads.State) (texts texts' : MemberTexts) (t t' : MiniTrace)
    (names : ReadableNames (ExitedThreads.dumpThreadList s) (dumpList texts t))
    (names' : ReadableNames (ExitedThreads.dumpThreadList s') (dumpList texts' t'))
    (same : infoText s texts t = infoText s' texts' t') :
    ExitedThreads.dumpThreadList s = ExitedThreads.dumpThreadList s' ∧ t.visitedMethods = t'.visitedMethods ∧
      t.visitedFields = t'.visitedFields ∧ dumpList texts t = dumpList texts' t' := by
  obtain ⟨threads,info⟩ := dumpListText_inj names names' same
  refine ⟨threads,?_,?_,info⟩
  · exact (printed_dumpList texts t .method).symm.trans (info ▸ printed_dumpList texts' t' .method)
  · exact (printed_dumpList texts t .field).symm.trans (info ▸ printed_dumpList texts' t' .field)

/-- Live threads with the given thread ids and names. -/
def liveThreads (threads : List (Int × String)) : ExitedThreads.State :=
  ⟨threads.map fun thread => ⟨thread.1.toNat,thread.1,thread.2,false⟩,.empty,[],false⟩

/-- The name of one thread prints the line of another one; so does the name of a source file for a method. -/
theorem newline_in_name :
    (∀ texts t, infoText (liveThreads [(1,"a\n2\tb")]) texts t = infoText (liveThreads [(1,"a"),(2,"b")]) texts t) ∧
    ExitedThreads.dumpThreadList (liveThreads [(1,"a\n2\tb")]) ≠ ExitedThreads.dumpThreadList
      (liveThreads [(1,"a"),(2,"b")]) ∧
    dumpListText [] ⟨[(1,⟨"A","f","()V","A.java\n0x2\tB\tg\t()V\tB.java"⟩)],[]⟩ =
      dumpListText [] ⟨[(1,⟨"A","f","()V","A.java"⟩),(2,⟨"B","g","()V","B.java"⟩)],[]⟩ := by
  have threads : sectionText "threads" ((ExitedThreads.dumpThreadList (liveThreads [(1,"a\n2\tb")])).map threadLine) =
      sectionText "threads" ((ExitedThreads.dumpThreadList (liveThreads [(1,"a"),(2,"b")])).map threadLine) := by
    decide
  refine ⟨fun texts t => ?_,by decide,by decide +kernel⟩
  rw [infoText,dumpListText,threads,infoText,dumpListText]

/-- Tabs in the name of a thread and in that of a source file do no harm. -/
def sampleTexts : MemberTexts := ⟨fun _ _ => true,fun _ => ⟨"A","f","()V","A\t.java"⟩,fun _ => ⟨"A","x","I"⟩⟩

def sampleTrace : MiniTrace := { MiniTrace.new 0 with visitedMethods := {1}, visitedFields := {2} }

theorem sample_names : ReadableNames (ExitedThreads.dumpThreadList (liveThreads [(1,"main\t*")]))
    (dumpList sampleTexts sampleTrace) := by
  have methods : (dumpList sampleTexts sampleTrace).methods = [(1,⟨"A","f","()V","A\t.java"⟩)] := by
    simp [dumpList,dumpMethodList,sampleTexts,sampleTrace,inOrder]
  have fields : (dumpList sampleTexts sampleTrace).fields = [(2,⟨"A","x","I"⟩)] := by
    simp [dumpList,dumpFieldList,sampleTexts,sampleTrace,inOrder]
  refine ⟨?_,?_,?_⟩
  · decide
  · rw [methods]
    simp only [List.forall_mem_singleton]
    decide
  · rw [fields]
    simp only [List.forall_mem_singleton]
    decide

/-- The text does not depend on how full the buffer is. -/
theorem infoText_inj_sample :
    infoText (liveThreads [(1,"main\t*")]) sampleTexts sampleTrace =
      infoText (liveThreads [(1,"main\t*")]) sampleTexts { sampleTrace with curOffset := 16 } ∧
    dumpList sampleTexts sampleTrace = dumpList sampleTexts { sampleTrace with curOffset := 16 } :=
  ⟨rfl,(infoText_inj _ _ _ _ _ _ sample_names sample_names rfl).2.2.2⟩

end Aatt
