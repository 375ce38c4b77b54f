import Mathlib.Data.Int.Order.Basic
import Mathlib.Data.List.Nodup
import Aatt.Lib.OrderedMap
import Aatt.Lib.Transition

/-! Threads that come and go during a trace. `StoreExitingThreadInfo` remembers the name of a thread that
exits under its thread id, and `DumpThreadList` prints what is remembered and then the threads that
are registered. -/
namespace Aatt.ExitedThreads

open Aatt.Lib

/-- A registered thread; `self` is the `Thread*`. `stored` says that `Unregister` has called
`StoreExitingThreadInfo` and not yet removed the thread from the list. -/
structure Thread where
  self : Nat
  tid : Int
  name : String
  stored : Bool
  deriving DecidableEq, Repr

/-- The thread list and the part of the trace that remembers threads. `exits` records what each exit was, in
order, and `putFailed` that a DCHECK of `SafeMap::Put` has failed. -/
structure State where
  list : List Thread
  exitedThreads : OrderedMap Int String
  exits : List (Int × String)
  putFailed : Bool

/-- `Unregister` is its call of `StoreExitingThreadInfo` and, later, the removal from the list. -/
inductive Action where
  | register (self : Nat) (tid : Int) (name : String)
  | setThreadName (self : Nat) (name : String)
  | storeExitingThreadInfo (self : Nat)
  | remove (self : Nat)
  deriving DecidableEq, Repr

namespace State

def contains (s : State) (self : Nat) : Bool := s.list.any fun thread => thread.self == self

def find (s : State) (self : Nat) : Option Thread := s.list.find? fun thread => thread.self == self

/-- Rewriting the registered thread `self`. -/
def update (s : State) (self : Nat) (f : Thread → Thread) : State :=
  { s with list := s.list.map fun thread => if thread.self = self then f thread else thread }

end State

/-- `SafeMap::Put` keeps the old value of a key that is not new. -/
def storeExitingThreadInfo (thread : Thread) (s : State) : State :=
  let result := s.exitedThreads.emplace thread.tid thread.name
  { s with
    exitedThreads := result.1
    exits := s.exits ++ [(thread.tid,thread.name)]
    putFailed := s.putFailed || !result.2 }

def step : Action → State → Option State
  | .register self tid name,s =>
    if s.contains self then none else some { s with list := s.list ++ [⟨self,tid,name,false⟩] }
  | .setThreadName self name,s => do
    let thread ← s.find self
    if thread.stored then none else some (s.update self fun thread => { thread with name := name })
  | .storeExitingThreadInfo self,s => do
    let thread ← s.find self
    if thread.stored then none
    else some (storeExitingThreadInfo thread (s.update self fun thread => { thread with stored := true }))
  | .remove self,s => do
    let thread ← s.find self
    if thread.stored then some { s with list := s.list.filter fun thread => thread.self != self } else none

def dumpThreadList (s : State) : List (Int × String) :=
  s.exitedThreads.entries ++ s.list.map fun thread => (thread.tid,thread.name)

/-- A trace begins with nothing remembered. -/
structure Started (s : State) : Prop where
  exitedThreads : s.exitedThreads.entries = []
  exits : s.exits = []
  putFailed : s.putFailed = false

/-- Every exit is in the section, and every key was new. -/
def Remembered (s : State) : Prop := s.putFailed = false ∧ ∀ line ∈ s.exits, line ∈ dumpThreadList s

def First (line : Int × String) (exits : List (Int × String)) : Prop :=
  ∃ front back, exits = front ++ line :: back ∧ line.1 ∉ front.map Prod.fst

theorem First.mem {line : Int × String} {exits : List (Int × String)} (first : First line exits) : line ∈ exits := by
  obtain ⟨front,back,rfl,-⟩ := first
  simp

theorem exists_first {exits : List (Int × String)} {tid : Int} (occurs : tid ∈ exits.map Prod.fst) :
    ∃ name, First (tid,name) exits := by
  induction exits with
  | nil => exact absurd occurs List.not_mem_nil
  | cons line rest ih =>
    by_cases same : line.1 = tid
    · subst same
      exact ⟨line.2,[],rest,rfl,List.not_mem_nil⟩
    · have later : tid ∈ rest.map Prod.fst := (List.mem_cons.mp occurs).resolve_left (Ne.symm same)
      obtain ⟨name,front,back,rfl,new⟩ := ih later
      refine ⟨name,line :: front,back,rfl,?_⟩
      rw [List.map_cons,List.mem_cons,not_or]
      exact ⟨Ne.symm same,new⟩

theorem first_concat (line last : Int × String) (exits : List (Int × String)) :
    First line (exits ++ [last]) ↔ First line exits ∨ line = last ∧ last.1 ∉ exits.map Prod.fst := by
  constructor
  · rintro ⟨front,back,split,new⟩
    rcases List.eq_nil_or_concat back with rfl | ⟨middle,final,rfl⟩
    · obtain ⟨rfl,same⟩ := List.append_inj' split rfl
      cases same
      exact .inr ⟨rfl,new⟩
    · rw [List.concat_eq_append,← List.cons_append,← List.append_assoc] at split
      obtain ⟨rfl,-⟩ := List.append_inj' split rfl
      exact .inl ⟨front,middle,rfl,new⟩
  · rintro (⟨front,back,rfl,new⟩ | ⟨rfl,new⟩)
    · exact ⟨front,back ++ [last],by simp,new⟩
    · exact ⟨exits,[],rfl,new⟩

theorem first_of_nodup {exits : List (Int × String)} (distinct : (exits.map Prod.fst).Nodup) {line : Int × String}
    (member : line ∈ exits) : First line exits := by
  obtain ⟨front,back,rfl⟩ := List.append_of_mem member
  rw [List.map_append,List.map_cons] at distinct
  exact ⟨front,back,rfl,fun early => List.disjoint_of_nodup_append distinct early List.mem_cons_self⟩

/-- What the map holds, in every run: for each thread id that has exited, the name of the first exit. -/
structure State.Recorded (s : State) : Prop where
  entries : ∀ line, line ∈ s.exitedThreads.entries ↔ First line s.exits
  putFailed : s.putFailed = false ↔ (s.exits.map Prod.fst).Nodup

theorem Started.recorded {s : State} (started : Started s) : s.Recorded := by
  refine ⟨fun line => ?_,?_⟩
  · rw [started.exitedThreads,started.exits]
    refine ⟨fun member => absurd member List.not_mem_nil,fun first => absurd first.mem List.not_mem_nil⟩
  · rw [started.exits]
    exact iff_of_true started.putFailed List.nodup_nil

theorem State.Recorded.keys {s : State} (recorded : s.Recorded) (tid : Int) :
    tid ∈ s.exitedThreads.keys ↔ tid ∈ s.exits.map Prod.fst := by
  constructor
  · intro member
    obtain ⟨line,inside,rfl⟩ := List.mem_map.mp member
    exact List.mem_map_of_mem ((recorded.entries line).mp inside).mem
  · intro member
    obtain ⟨name,first⟩ := exists_first member
    exact List.mem_map_of_mem ((recorded.entries _).mpr first)

theorem State.Recorded.store {s : State} (recorded : s.Recorded) (thread : Thread) :
    (storeExitingThreadInfo thread s).Recorded := by
  have flag := s.exitedThreads.emplace_new thread.tid thread.name
  rw [recorded.keys] at flag
  constructor
  · intro line
    have last := first_concat line (thread.tid,thread.name) s.exits
    simp only [storeExitingThreadInfo]
    rw [last]
    by_cases used : thread.tid ∈ s.exits.map Prod.fst
    · rw [s.exitedThreads.emplace_present _ _ ((recorded.keys _).mpr used),recorded.entries]
      exact ⟨.inl,fun either => either.resolve_right fun new => new.2 used⟩
    · rw [s.exitedThreads.mem_emplace _ _ (fun key => used ((recorded.keys _).mp key)),recorded.entries,or_comm]
      exact or_congr_right (and_iff_left used).symm
  · simp only [storeExitingThreadInfo,Bool.or_eq_false_iff,Bool.not_eq_false',flag,recorded.putFailed,List.map_append,
      List.map_cons,List.map_nil]
    rw [List.nodup_append]
    refine and_congr_right fun _ => ⟨fun new => ⟨List.nodup_singleton _,?_⟩,fun apart member => ?_⟩
    · intro tid member other last
      rw [List.mem_singleton.mp last]
      exact fun same => new (same ▸ member)
    · exact apart.2 _ member _ (List.mem_singleton_self _) rfl

theorem recorded_step (action : Action) (s next : State) (recorded : s.Recorded) (taken : step action s = some next) :
    next.Recorded := by
  cases action with
  | register self tid name =>
    simp only [step] at taken
    split at taken <;> cases taken
    exact ⟨recorded.entries,recorded.putFailed⟩
  | setThreadName self name =>
    simp only [step,Option.bind_eq_bind,Option.bind_eq_some_iff] at taken
    obtain ⟨thread,-,done⟩ := taken
    split at done <;> cases done
    exact ⟨recorded.entries,recorded.putFailed⟩
  | storeExitingThreadInfo self =>
    simp only [step,Option.bind_eq_bind,Option.bind_eq_some_iff] at taken
    obtain ⟨thread,-,done⟩ := taken
    split at done <;> cases done
    have same : (s.update self fun thread => { thread with stored := true }).Recorded :=
      ⟨recorded.entries,recorded.putFailed⟩
    exact same.store thread
  | remove self =>
    simp only [step,Option.bind_eq_bind,Option.bind_eq_some_iff] at taken
    obtain ⟨thread,-,done⟩ := taken
    split at done <;> cases done
    exact ⟨recorded.entries,recorded.putFailed⟩

theorem recorded_run (actions : List Action) (s final : State) (started : Started s)
    (reached : run step actions s = some final) : final.Recorded := by
  exact (throughout_of_step State.Recorded recorded_step actions s started.recorded).final reached

/-- During a trace all exits are remembered exactly as long as no two of them have the same thread id. -/
theorem exits_remembered_iff (actions : List Action) (s final : State) (started : Started s)
    (reached : run step actions s = some final) : Remembered final ↔ (final.exits.map Prod.fst).Nodup := by
  have recorded := recorded_run actions s final started reached
  constructor
  · rintro ⟨passed,-⟩
    exact recorded.putFailed.mp passed
  · intro distinct
    refine ⟨recorded.putFailed.mpr distinct,fun line member => ?_⟩
    exact List.mem_append_left _ ((recorded.entries line).mpr (first_of_nodup distinct member))

def beginning : State := ⟨[],.empty,[],false⟩

/-- A native thread detaches and attaches again under another name: its second name is lost. -/
theorem reattached_thread_lost : Started beginning ∧ ∃ final,
    run step [.register 1 7 "a",.storeExitingThreadInfo 1,.remove 1,.register 2 7 "b",.storeExitingThreadInfo 2,
      .remove 2]
        beginning = some final ∧
      final.putFailed = true ∧ (7,"b") ∈ final.exits ∧ (7,"b") ∉ dumpThreadList final :=
  ⟨⟨rfl,rfl,rfl⟩,_,rfl,by decide +kernel⟩

def twoExits : List Action :=
  [.register 1 7 "a",.register 2 8 "b",.storeExitingThreadInfo 2,.remove 2,.storeExitingThreadInfo 1,.remove 1]

theorem exits_remembered_two : ∃ final,
    run step twoExits beginning = some final ∧ final.exits = [(8,"b"),(7,"a")] ∧ Remembered final := by
  obtain ⟨final,reached,exits⟩ : ∃ final, run step twoExits beginning = some final ∧ final.exits = [(8,"b"),(7,"a")] :=
    ⟨_,rfl,rfl⟩
  refine ⟨final,reached,exits,(exits_remembered_iff twoExits beginning final ⟨rfl,rfl,rfl⟩ reached).mpr ?_⟩
  rw [exits]
  decide

end Aatt.ExitedThreads
