import Aatt.Lib.Locks
import Aatt.ThreadList

/-! What a step of a thread can do: how it changes what the thread holds, and what the thread has tested before an
operation that others rely on. -/
namespace Aatt.ThreadList

open Aatt.Lib

variable {n : Nat}

/-- What a thread holds and is, by where it stands. -/
structure Flags where
  runs : Bool
  shares : Bool
  exclusive : Bool
  holdsList : Bool
  holdsCount : Bool
  counted : Bool
  deriving DecidableEq, Repr

def Pc.flags (pc : Pc n) : Flags :=
  ⟨pc.runs,pc.shares,pc.exclusive,pc.holdsList,pc.holdsCount,pc.counted⟩

/-- How an operation changes the flags of a thread that may use it. -/
def Op.Changes : Op n → Flags → Flags → Prop
  | .lockList,f,f' => f.holdsList = false ∧ f' = { f with holdsList := true }
  | .unlockList,f,f' => f.holdsList = true ∧ f' = { f with holdsList := false }
  | .lockCount,f,f' => f.holdsCount = false ∧ f' = { f with holdsCount := true }
  | .unlockCount,f,f' | .wait,f,f' => f.holdsCount = true ∧ f' = { f with holdsCount := false }
  | .sharedLock,f,f' => f.shares = false ∧ f' = { f with shares := true }
  | .sharedUnlock,f,f' => f.shares = true ∧ f' = { f with shares := false }
  | .exclusiveLock,f,f' => f.exclusive = false ∧ f' = { f with exclusive := true }
  | .exclusiveUnlock,f,f' => f.exclusive = true ∧ f' = { f with exclusive := false }
  | .setRunnable value,f,f' => f.runs = !value ∧ f' = { f with runs := value }
  | .countSuspendAll delta,f,f' =>
    delta = 1 ∧ f.counted = false ∧ f' = { f with counted := true } ∨
      delta = -1 ∧ f.counted = true ∧ f' = { f with counted := false }
  | .modify _ _,f,f' | .suspendOne _,f,f' | .resumeOne _,f,f' | .register,f,f' | .unregister,f,f' =>
    (f.holdsList = true ∧ f.holdsCount = true) ∧ f' = f
  | .skip,f,f' | .wake,f,f' | .broadcast,f,f' | .abort,f,f' => f' = f

theorem left_flags (next : Option (Mode n)) :
    (left next).flags = { (Pc.leaveUnlock next).flags with shares := false } := by
  cases next <;> rfl

theorem next_flags {m : Machine n} {t : Fin n} {pc pc' : Pc n} {op : Op n} (chosen : next m t pc = some (op,pc')) :
    op.Changes pc.flags pc'.flags := by
  revert chosen
  fun_cases next m t pc
  all_goals intro chosen
  all_goals cases chosen
  case case20.refl next => exact ⟨rfl,left_flags next⟩
  case case50.refl after => cases after <;> exact ⟨rfl,rfl⟩
  case case32.refl => exact .inl ⟨rfl,rfl,rfl⟩
  case case33.refl => exact .inr ⟨rfl,rfl,rfl⟩
  all_goals first | rfl | exact ⟨rfl,rfl⟩ | exact ⟨⟨rfl,rfl⟩,rfl⟩ | (split <;> rfl)

theorem choose_flags {m : Machine n} {a : Action n} {pc pc' : Pc n} {op : Op n}
    (chosen : choose m a pc = some (op,pc')) : op.Changes pc.flags pc'.flags := by
  revert chosen
  fun_cases choose m a pc
  case case12 => exact next_flags
  case case10 t =>
    intro chosen
    obtain ⟨x,-,same⟩ := Option.map_eq_some_iff.mp chosen
    cases same
    rfl
  all_goals intro chosen
  all_goals cases chosen
  all_goals first | rfl | exact ⟨rfl,rfl⟩ | exact ⟨⟨rfl,rfl⟩,rfl⟩

theorem step_spec {a : Action n} {m m' : Machine n} (taken : step a m = some m') :
    m.aborted = false ∧ ∃ op pc mid, choose m a (m.pc a.thread) = some (op,pc) ∧ m.perform a.thread op = some mid ∧
      m' = { mid with pc := Function.update mid.pc a.thread pc } := by
  unfold step at taken
  split at taken
  · nomatch taken
  · rename_i alive
    obtain ⟨⟨op,pc⟩,chosen,taken⟩ := Option.bind_eq_some_iff.mp taken
    obtain ⟨mid,performed,rfl⟩ := Option.map_eq_some_iff.mp taken
    exact ⟨by simpa using alive,op,pc,mid,chosen,performed,rfl⟩

/-- `ModifySuspendCount` and the loops of `Register` change the counts and flags only. -/
theorem modifySuspendCount_frame (m : Machine n) (t : Fin n) (delta : Int) : ∃ count request aborted,
    m.modifySuspendCount t delta = { m with suspendCount := count, suspendRequest := request, aborted := aborted } := by
  unfold Machine.modifySuspendCount
  split
  · exact ⟨m.suspendCount,m.suspendRequest,true,rfl⟩
  · exact ⟨_,_,m.aborted,rfl⟩

theorem raiseBy_frame (t : Fin n) (k : Nat) (m : Machine n) : ∃ count request aborted,
    m.raiseBy t k = { m with suspendCount := count, suspendRequest := request, aborted := aborted } := by
  induction k generalizing m with
  | zero => exact ⟨m.suspendCount,m.suspendRequest,m.aborted,rfl⟩
  | succ k ih =>
    obtain ⟨count,request,aborted,raised⟩ := ih (m.modifySuspendCount t 1)
    obtain ⟨count',request',aborted',modified⟩ := modifySuspendCount_frame m t 1
    refine ⟨count,request,aborted,?_⟩
    rw [Machine.raiseBy,raised,modified]

/-- The locks and the states of the threads are as the threads' places say. -/
structure Disciplined (m : Machine n) : Prop where
  list : Owned m.threadListLock fun t => (m.pc t).holdsList
  count : Owned m.threadSuspendCountLock fun t => (m.pc t).holdsCount
  mutator : ReadWrite m.mutatorLock (fun t => (m.pc t).shares) (fun t => (m.pc t).exclusive)
  runnable : ∀ t, m.runnable t = (m.pc t).runs
  suspendAll : m.suspendAllCount = census fun t => (m.pc t).counted

theorem disciplined_start : Disciplined (Machine.start n) where
  list := fun _ => ⟨nofun,nofun⟩
  count := fun _ => ⟨nofun,nofun⟩
  mutator := by
    have nobody : census (fun _ : Fin n => false) = 0 := census_eq_zero_iff.mpr fun _ => rfl
    refine ⟨?_,nofun,nofun⟩
    show (0 : Int) = (census fun _ : Fin n => false) - (census fun _ : Fin n => false)
    rw [nobody]
    rfl
  runnable := fun _ => rfl
  suspendAll := by
    have nobody : census (fun _ : Fin n => false) = 0 := census_eq_zero_iff.mpr fun _ => rfl
    show (0 : Int) = census fun _ : Fin n => false
    rw [nobody]
    rfl

/-- The thread `t` goes to `pc`. -/
def Machine.go (m : Machine n) (t : Fin n) (pc : Pc n) : Machine n := { m with pc := Function.update m.pc t pc }

@[simp] theorem go_pc_self (m : Machine n) (t : Fin n) (pc : Pc n) : (m.go t pc).pc t = pc := Function.update_self ..

theorem go_pc_other (m : Machine n) {t u : Fin n} (pc : Pc n) (other : u ≠ t) : (m.go t pc).pc u = m.pc u :=
  Function.update_of_ne other ..

theorem go_others (m : Machine n) (t : Fin n) (pc : Pc n) (f : Pc n → Bool) :
    SameBut t (fun u => f (m.pc u)) (fun u => f ((m.go t pc).pc u)) :=
  sameBut_update f m.pc t pc

section Discipline

variable {m mid : Machine n} {t : Fin n} {pc : Pc n} {op : Op n}

theorem Disciplined.list_go (d : Disciplined m) (same : pc.holdsList = (m.pc t).holdsList) :
    Owned m.threadListLock fun u => ((m.go t pc).pc u).holdsList :=
  d.list.keep (go_others m t pc Pc.holdsList) (by simpa using same)

theorem Disciplined.count_go (d : Disciplined m) (same : pc.holdsCount = (m.pc t).holdsCount) :
    Owned m.threadSuspendCountLock fun u => ((m.go t pc).pc u).holdsCount :=
  d.count.keep (go_others m t pc Pc.holdsCount) (by simpa using same)

theorem Disciplined.mutator_go (d : Disciplined m) (shares : pc.shares = (m.pc t).shares)
    (exclusive : pc.exclusive = (m.pc t).exclusive) :
    ReadWrite m.mutatorLock (fun u => ((m.go t pc).pc u).shares) (fun u => ((m.go t pc).pc u).exclusive) :=
  d.mutator.keep (go_others m t pc Pc.shares) (by simpa using shares) (go_others m t pc Pc.exclusive)
    (by simpa using exclusive)

theorem Disciplined.runnable_go (d : Disciplined m) (same : pc.runs = (m.pc t).runs) (u : Fin n) :
    m.runnable u = ((m.go t pc).pc u).runs := by
  by_cases acting : u = t
  · subst acting
    rw [go_pc_self,same]
    exact d.runnable u
  · rw [go_pc_other m pc acting]
    exact d.runnable u

theorem Disciplined.suspendAll_go (d : Disciplined m) (same : pc.counted = (m.pc t).counted) :
    m.suspendAllCount = census fun u => ((m.go t pc).pc u).counted := by
  rw [census_keep (go_others m t pc Pc.counted) (by simpa using same)]
  exact d.suspendAll

theorem Disciplined.keep (d : Disciplined m) (same : pc.flags = (m.pc t).flags) : Disciplined (m.go t pc) := by
  obtain ⟨runs,shares,exclusive,list,count,counted⟩ := Flags.mk.inj same
  exact ⟨d.list_go list,d.count_go count,d.mutator_go shares exclusive,d.runnable_go runs,d.suspendAll_go counted⟩

theorem Disciplined.frame (d : Disciplined m) (list : List (Fin n)) (suspendCount : Fin n → Int)
    (suspendRequest asleep : Fin n → Bool) (suspended : Fin n → Option (Fin n)) (aborted : Bool) :
    Disciplined { m with
      list := list, suspendCount := suspendCount, suspendRequest := suspendRequest
      asleep := asleep, suspended := suspended, aborted := aborted } :=
  ⟨d.list,d.count,d.mutator,d.runnable,d.suspendAll⟩

section Changes

variable (d : Disciplined m) {held : Bool}
include d

theorem Disciplined.with_list {lock : Option (Fin n)} (changed : pc.flags = { (m.pc t).flags with holdsList := held })
    (owned : pc.holdsList = held → Owned lock fun u => ((m.go t pc).pc u).holdsList) :
    Disciplined (Machine.go { m with threadListLock := lock } t pc) := by
  obtain ⟨runs,shares,exclusive,list,count,counted⟩ := Flags.mk.inj changed
  exact ⟨owned list,d.count_go count,d.mutator_go shares exclusive,d.runnable_go runs,d.suspendAll_go counted⟩

theorem Disciplined.with_count {lock : Option (Fin n)} (changed : pc.flags = { (m.pc t).flags with holdsCount := held })
    (owned : pc.holdsCount = held → Owned lock fun u => ((m.go t pc).pc u).holdsCount) :
    Disciplined (Machine.go { m with threadSuspendCountLock := lock } t pc) := by
  obtain ⟨runs,shares,exclusive,list,count,counted⟩ := Flags.mk.inj changed
  exact ⟨d.list_go list,owned count,d.mutator_go shares exclusive,d.runnable_go runs,d.suspendAll_go counted⟩

theorem Disciplined.with_shared {lock : Int} (changed : pc.flags = { (m.pc t).flags with shares := held })
    (locked : pc.shares = held →
      ReadWrite lock (fun u => ((m.go t pc).pc u).shares) (fun u => (m.pc u).exclusive)) :
    Disciplined (Machine.go { m with mutatorLock := lock } t pc) := by
  obtain ⟨runs,shares,exclusive,list,count,counted⟩ := Flags.mk.inj changed
  exact ⟨d.list_go list,d.count_go count,(locked shares).keep (fun _ _ => rfl) rfl (go_others m t pc Pc.exclusive)
    (by simpa [Pc.flags] using exclusive),d.runnable_go runs,d.suspendAll_go counted⟩

theorem Disciplined.with_exclusive {lock : Int} (changed : pc.flags = { (m.pc t).flags with exclusive := held })
    (locked : pc.exclusive = held →
      ReadWrite lock (fun u => (m.pc u).shares) (fun u => ((m.go t pc).pc u).exclusive)) :
    Disciplined (Machine.go { m with mutatorLock := lock } t pc) := by
  obtain ⟨runs,shares,exclusive,list,count,counted⟩ := Flags.mk.inj changed
  exact ⟨d.list_go list,d.count_go count,(locked exclusive).keep (go_others m t pc Pc.shares)
    (by simpa [Pc.flags] using shares) (fun _ _ => rfl) rfl,d.runnable_go runs,d.suspendAll_go counted⟩

theorem Disciplined.with_runnable (changed : pc.flags = { (m.pc t).flags with runs := held }) :
    Disciplined (Machine.go { m with runnable := Function.update m.runnable t held } t pc) := by
  obtain ⟨runs,shares,exclusive,list,count,counted⟩ := Flags.mk.inj changed
  refine ⟨d.list_go list,d.count_go count,d.mutator_go shares exclusive,fun u => ?_,d.suspendAll_go counted⟩
  by_cases acting : u = t
  · subst acting
    simp [Machine.go,runs]
  · simpa [Machine.go,acting] using d.runnable u

theorem Disciplined.with_suspendAll {all : Int} (changed : pc.flags = { (m.pc t).flags with counted := held })
    (total : pc.counted = held → all = census fun u => ((m.go t pc).pc u).counted) :
    Disciplined (Machine.go { m with suspendAllCount := all } t pc) := by
  obtain ⟨runs,shares,exclusive,list,count,counted⟩ := Flags.mk.inj changed
  exact ⟨d.list_go list,d.count_go count,d.mutator_go shares exclusive,d.runnable_go runs,total counted⟩

theorem Disciplined.after_countSuspendAll {delta : Int}
    (changed : Op.Changes (.countSuspendAll delta : Op n) (m.pc t).flags pc.flags) :
    Disciplined (Machine.go { m with suspendAllCount := m.suspendAllCount + delta } t pc) := by
  rcases changed with ⟨rfl,before,changed⟩ | ⟨rfl,before,changed⟩
  · refine d.with_suspendAll changed fun counted => ?_
    have one := census_add (go_others m t pc Pc.counted) before (by simpa using counted)
    rw [d.suspendAll]
    omega
  · refine d.with_suspendAll changed fun counted => ?_
    have one := census_remove (go_others m t pc Pc.counted) before (by simpa using counted)
    rw [d.suspendAll]
    omega

end Changes

theorem Disciplined.after (d : Disciplined m) (changed : op.Changes (m.pc t).flags pc.flags)
    (performed : m.perform t op = some mid) : Disciplined (mid.go t pc) := by
  cases op with
  | skip =>
    cases performed
    exact d.keep changed
  | lockList =>
    obtain ⟨free,performed⟩ := Option.ite_none_right_eq_some.mp performed
    cases performed
    exact d.with_list changed.2 fun held => d.list.take (go_others m t pc Pc.holdsList) free (by simpa using held)
  | unlockList =>
    cases performed
    exact d.with_list changed.2 fun held => d.list.drop (go_others m t pc Pc.holdsList) changed.1 (by simpa using held)
  | lockCount =>
    obtain ⟨free,performed⟩ := Option.ite_none_right_eq_some.mp performed
    cases performed
    exact d.with_count changed.2 fun held => d.count.take (go_others m t pc Pc.holdsCount) free (by simpa using held)
  | unlockCount =>
    cases performed
    exact d.with_count changed.2 fun held => d.count.drop (go_others m t pc Pc.holdsCount) changed.1
      (by simpa using held)
  | wait =>
    cases performed
    exact (d.with_count changed.2 fun held =>
      d.count.drop (go_others m t pc Pc.holdsCount) changed.1 (by simpa using held)).frame _ _ _ _ _ _
  | sharedLock =>
    obtain ⟨free,performed⟩ := Option.ite_none_right_eq_some.mp performed
    cases performed
    exact d.with_shared changed.2 fun held =>
      d.mutator.share free (go_others m t pc Pc.shares) changed.1 (by simpa using held)
  | sharedUnlock =>
    rw [Machine.perform,if_pos (d.mutator.shared changed.1)] at performed
    cases performed
    exact d.with_shared changed.2 fun held => d.mutator.unshare (go_others m t pc Pc.shares) changed.1
      (by simpa using held)
  | exclusiveLock =>
    obtain ⟨free,performed⟩ := Option.ite_none_right_eq_some.mp performed
    cases performed
    exact d.with_exclusive changed.2 fun held => d.mutator.acquire free (go_others m t pc Pc.exclusive)
      (by simpa using held)
  | exclusiveUnlock =>
    rw [Machine.perform,if_pos (d.mutator.written changed.1)] at performed
    cases performed
    exact d.with_exclusive changed.2 fun held =>
      d.mutator.release (go_others m t pc Pc.exclusive) changed.1 (by simpa using held)
  | setRunnable value =>
    cases performed
    exact d.with_runnable changed.2
  | countSuspendAll delta =>
    cases performed
    exact d.after_countSuspendAll changed
  | modify x delta | suspendOne x | resumeOne x =>
    obtain ⟨count,request,aborted,frame⟩ := modifySuspendCount_frame m x _
    rw [Machine.perform,frame] at performed
    cases performed
    exact (d.keep changed.2).frame _ _ _ _ _ _
  | register =>
    obtain ⟨count,request,aborted,frame⟩ := raiseBy_frame t m.suspendAllCount.toNat m
    rw [Machine.perform,frame] at performed
    cases performed
    exact (d.keep changed.2).frame _ _ _ _ _ _
  | unregister =>
    cases performed
    exact (d.keep changed.2).frame _ _ _ _ _ _
  | wake | broadcast | abort =>
    cases performed
    exact (d.keep changed).frame _ _ _ _ _ _

end Discipline

/-- What a thread knows of the list and of its own `suspended_thread`. -/
structure Pc.Meets (pc : Pc n) (m : Machine n) (t : Fin n) : Prop where
  remaining : ∀ rest, pc.remaining = some rest → rest <:+ m.list
  found : ∀ x, pc.found = some x → x ∈ m.list
  raised : ∀ x, pc.raised = some x → m.suspended t = some x
  polled : ∀ x, pc.polled = some x → x ≠ t ∧ (m.suspended t = none ∨ m.suspended t = some x)

theorem asks_nothing {α : Type} {asked : Option α} {p : α → Prop} (silent : asked = none) (a : α)
    (asks : asked = some a) : p a :=
  nomatch silent.symm.trans asks

theorem Pc.Meets.of_none {pc : Pc n} {m : Machine n} {t : Fin n} (remaining : pc.remaining = none)
    (found : pc.found = none) (raised : pc.raised = none) (polled : pc.polled = none) : pc.Meets m t :=
  ⟨asks_nothing remaining,asks_nothing found,asks_nothing raised,asks_nothing polled⟩

/-- A step that concerns no suspend count, no list and no sleeping thread. -/
structure Plain (m : Machine n) (t : Fin n) (pc : Pc n) (op : Op n) (pc' : Pc n) : Prop where
  stops : ∀ x, pc'.stops m.list t x = pc.stops m.list t x
  notifies : pc.notifies = true → pc'.notifies = true
  listed : (t ∈ m.list ↔ pc.listed = true) → pc'.listed = pc.listed
  meets : pc.Meets m t → pc'.Meets m t
  polled : pc.Meets m t → pc'.polled = none → pc.polled = none ∨ ∀ x, m.suspended t = some x → m.isSuspended x = true
  overdue : ∀ x, pc'.overdue = some x → m.isSuspended x = false
  awake : pc.waits = true → op = .wake ∨ m.asleep t = false
  goes : pc'.waits = false

theorem Plain.of_same {m : Machine n} {t : Fin n} {pc pc' : Pc n} {op : Op n}
    (stops : ∀ x, pc'.stops m.list t x = pc.stops m.list t x) (notifies : pc'.notifies = pc.notifies)
    (listed : pc'.listed = pc.listed) (remaining : pc'.remaining = none)
    (found : pc'.found = none ∨ pc'.found = pc.found) (raised : pc'.raised = none ∨ pc'.raised = pc.raised)
    (polled : pc'.polled = pc.polled) (overdue : pc'.overdue = none) (waits : pc.waits = false)
    (goes : pc'.waits = false) :
    Plain m t pc op pc' where
  stops := stops
  notifies := fun due => notifies.trans due
  listed := fun _ => listed
  meets := by
    intro meets
    refine ⟨fun rest asks => ?_,fun x asks => ?_,fun x asks => ?_,fun x asks => meets.polled x (polled.symm.trans asks)⟩
    · nomatch remaining.symm.trans asks
    · rcases found with silent | same
      · nomatch silent.symm.trans asks
      · exact meets.found x (same.symm.trans asks)
    · rcases raised with silent | same
      · nomatch silent.symm.trans asks
      · exact meets.raised x (same.symm.trans asks)
  polled := fun _ silent => .inl (polled.symm.trans silent)
  overdue := fun x asks => nomatch overdue.symm.trans asks
  awake := fun waiting => by simp [waits] at waiting
  goes := goes

def Op.plain : Op n → Bool
  | .modify _ _ | .suspendOne _ | .resumeOne _ | .register | .unregister | .setRunnable true | .wait | .broadcast
  | .abort => false
  | _ => true

/-- Every step, with what its thread has tested. -/
inductive Choice (m : Machine n) (t : Fin n) : Pc n → Op n → Pc n → Prop where
  | plain {pc pc' : Pc n} {op : Op n} (kind : op.plain = true) (facts : Plain m t pc op pc') : Choice m t pc op pc'
  | raise {x : Fin n} {rest : List (Fin n)} (other : x ≠ t) : Choice m t (.raise (x :: rest)) (.modify x 1)
    (.raise rest)
  | lower {x : Fin n} {rest : List (Fin n)} (other : x ≠ t) : Choice m t (.lower (x :: rest)) (.modify x (-1))
    (.lower rest)
  | suspendOne {x : Fin n} (idle : m.suspended t = none) (free : ¬ 0 < m.suspendCount t) :
    Choice m t (.body (.suspendThread x)) (.suspendOne x) (.check x)
  | resumeOne {x : Fin n} (present : x ∈ m.list) :
    Choice m t (.body (.resume x)) (.resumeOne x) (.unlockCount .broadcast)
  | timeout {x : Fin n} : Choice m t (.late x) (.resumeOne x) (.unlockCount (.leave (some .managed)))
  | register (new : t ∉ m.list) : Choice m t (.body .register) .register (.unlockCount .native)
  | unregister (free : m.isSuspended t = false) : Choice m t (.body .unregister) .unregister (.unlockCount .detached)
  | enter {mode : Mode n} (free : m.suspendRequest t = false) :
    Choice m t (.enterExchange mode) (.setRunnable true) (.running mode)
  | wait {mode : Mode n} (asked : m.suspendRequest t = true) : Choice m t (.enterTest mode) .wait (.enterWait mode)
  | broadcastAll : Choice m t (.lower []) .broadcast (.unlockCount .native)
  | broadcastOne : Choice m t .broadcast .broadcast .notified
  | lost {x : Fin n} (absent : x ∉ m.list) (busy : m.suspended t ≠ none) :
    Choice m t (.lookup (.suspendThread x)) .abort (.unlockList (.leave (some .managed)))
  | again (present : t ∈ m.list) : Choice m t (.body .register) .abort (.unlockCount .native)
  | mistaken {x : Fin n} (busy : m.suspended t ≠ none) (wrong : ¬ (m.suspended t = some x ∧ 0 < m.suspendCount x)) :
    Choice m t (.body (.suspendThread x)) .abort (.check x)
  | itself : Choice m t (.check t) .abort (.late t)

section Plain

variable {m : Machine n} {t : Fin n}

theorem plain_raise {rest : List (Fin n)} : Plain m t (.raise (t :: rest)) .skip (.raise rest) where
  stops := by
    intro x
    simp only [Pc.stops,List.mem_cons,decide_eq_decide]
    tauto
  notifies := nofun
  listed := fun _ => rfl
  meets := fun meets => ⟨fun _ same => Option.some.inj same ▸ (List.suffix_cons t rest).trans (meets.remaining _ rfl),
    nofun,nofun,nofun⟩
  polled := fun _ _ => .inl rfl
  overdue := nofun
  awake := nofun
  goes := rfl

theorem plain_lower {rest : List (Fin n)} : Plain m t (.lower (t :: rest)) .skip (.lower rest) where
  stops := by
    intro x
    simp only [Pc.stops,List.mem_cons,decide_eq_decide]
    tauto
  notifies := id
  listed := fun _ => rfl
  meets := fun meets => ⟨fun _ same => Option.some.inj same ▸ (List.suffix_cons t rest).trans (meets.remaining _ rfl),
    nofun,nofun,nofun⟩
  polled := fun _ _ => .inl rfl
  overdue := nofun
  awake := nofun
  goes := rfl

theorem plain_suspendAll : Plain m t (.body .suspendAll) (.countSuspendAll 1) (.raise m.list) where
  stops := by
    intro x
    simp only [Pc.stops,Pc.stopping,Task.stopping,Bool.false_and,decide_eq_false_iff_not]
    tauto
  notifies := nofun
  listed := fun _ => rfl
  meets := fun _ => ⟨fun _ same => by cases same; exact List.suffix_rfl,nofun,nofun,nofun⟩
  polled := fun _ _ => .inl rfl
  overdue := nofun
  awake := nofun
  goes := rfl

theorem plain_resumeAll : Plain m t (.body .resumeAll) (.countSuspendAll (-1)) (.lower m.list) where
  stops := by
    intro x
    simp [Pc.stops,Pc.stopping,Task.stopping]
  notifies := nofun
  listed := fun _ => rfl
  meets := fun _ => ⟨fun _ same => by cases same; exact List.suffix_rfl,nofun,nofun,nofun⟩
  polled := fun _ _ => .inl rfl
  overdue := nofun
  awake := nofun
  goes := rfl

theorem plain_lookup_unregister : Plain m t (.lookup .unregister) .skip
    (if t ∈ m.list then .lockCount .unregister else .unlockList .detached) := by
  split
  · exact .of_same (fun _ => rfl) rfl rfl rfl (.inl rfl) (.inl rfl) rfl rfl rfl rfl
  · rename_i absent
    exact {
      stops := fun _ => rfl
      notifies := nofun
      listed := fun listed => absurd (listed.mpr rfl) absent
      meets := fun _ => ⟨nofun,nofun,nofun,nofun⟩
      polled := fun _ _ => .inl rfl
      overdue := nofun
      awake := nofun
      goes := rfl }

/-- `SuspendThreadByThreadId` finds the thread, does not find it, finds its own request, or sees its answer. -/
theorem plain_found {x : Fin n} (present : x ∈ m.list) :
    Plain m t (.lookup (.suspendThread x)) .skip (.lockCount (.suspendThread x)) where
  stops := fun _ => rfl
  notifies := nofun
  listed := fun _ => rfl
  meets := fun meets => ⟨nofun,fun _ same => by cases same; exact present,nofun,meets.polled⟩
  polled := fun _ silent => .inl silent
  overdue := nofun
  awake := nofun
  goes := rfl

theorem plain_absent {x : Fin n} (idle : m.suspended t = none) :
    Plain m t (.lookup (.suspendThread x)) .skip (.unlockList (.leave (some .managed))) where
  stops := fun _ => rfl
  notifies := nofun
  listed := fun _ => rfl
  meets := fun _ => ⟨nofun,nofun,nofun,nofun⟩
  polled := fun _ _ => .inr fun y same => by simp [idle] at same
  overdue := nofun
  awake := nofun
  goes := rfl

theorem plain_requested {x : Fin n} (own : m.suspended t = some x) :
    Plain m t (.body (.suspendThread x)) .skip (.check x) where
  stops := fun _ => rfl
  notifies := nofun
  listed := fun _ => rfl
  meets := fun meets => ⟨nofun,meets.found,fun _ same => by cases same; exact own,meets.polled⟩
  polled := fun _ silent => .inl silent
  overdue := nofun
  awake := nofun
  goes := rfl

theorem plain_check {x : Fin n} : Plain m t (.check x) .skip
    (if m.isSuspended x then .unlockCount (.leave (some .managed)) else .late x) := by
  split
  · rename_i suspended
    exact {
      stops := fun _ => rfl
      notifies := nofun
      listed := fun _ => rfl
      meets := fun _ => ⟨nofun,nofun,nofun,nofun⟩
      polled := fun meets _ => .inr fun y same => by
        rw [meets.raised x rfl] at same
        cases same
        exact suspended
      overdue := nofun
      awake := nofun
      goes := rfl }
  · rename_i running
    exact {
      stops := fun _ => rfl
      notifies := nofun
      listed := fun _ => rfl
      meets := fun meets => ⟨nofun,meets.found,meets.raised,meets.polled⟩
      polled := nofun
      overdue := fun y same => by
        cases same
        simpa using running
      awake := nofun
      goes := rfl }

theorem plain_wake {mode : Mode n} {op : Op n} (woken : op = .wake ∨ m.asleep t = false) :
    Plain m t (.enterWait mode) op (.enterLockCount mode) where
  stops := fun _ => rfl
  notifies := nofun
  listed := fun _ => rfl
  meets := fun meets => ⟨nofun,nofun,nofun,meets.polled⟩
  polled := fun _ silent => .inl silent
  overdue := nofun
  awake := fun _ => woken
  goes := rfl

theorem plain_raised : Plain m t (.raise []) .skip (.unlockCount .exclusiveLock) := by
  refine .of_same (fun x => ?_) rfl rfl rfl (.inl rfl) (.inl rfl) rfl rfl rfl rfl
  simp [Pc.stops,Pc.stopping,After.stopping]

/-- The calls of `SuspendThreadByThreadId` and `Resume`. -/
theorem plain_suspendThread {x : Fin n} (other : x ≠ t) (idle : m.suspended t = none) :
    Plain m t (.running .managed) .skip (.leaveLoad (some (.polling x))) where
  stops := fun _ => rfl
  notifies := nofun
  listed := fun _ => rfl
  meets := fun _ => ⟨nofun,nofun,nofun,fun y same => by cases same; exact ⟨other,.inl idle⟩⟩
  polled := nofun
  overdue := nofun
  awake := nofun
  goes := rfl

theorem plain_resume {x : Fin n} (own : m.suspended t = some x) :
    Plain m t (.running .managed) .skip (.lockList (.resume x)) where
  stops := fun _ => rfl
  notifies := nofun
  listed := fun _ => rfl
  meets := fun _ => ⟨nofun,nofun,fun y same => by cases same; exact own,nofun⟩
  polled := fun _ _ => .inl rfl
  overdue := nofun
  awake := nofun
  goes := rfl

end Plain

theorem next_choice {m : Machine n} {t : Fin n} {pc pc' : Pc n} {op : Op n} (chosen : next m t pc = some (op,pc')) :
    Choice m t pc op pc' := by
  revert chosen
  fun_cases next m t pc
  all_goals intro chosen
  all_goals cases chosen
  case case8.refl asked => exact .wait asked
  case case11.refl awake => exact .plain rfl (plain_wake (.inr (by simpa using awake)))
  case case15.refl free => exact .enter (by simpa using free)
  case case20.refl next =>
    refine .plain rfl ?_
    cases next <;> exact .of_same (fun _ => rfl) rfl rfl rfl (.inl rfl) (.inl rfl) rfl rfl rfl rfl
  case case22.refl => exact .plain rfl plain_lookup_unregister
  case case23.refl present => exact .plain rfl (plain_found present)
  case case24.refl idle => exact .plain rfl (plain_absent idle)
  case case25.refl absent busy => exact .lost absent busy
  case case26.refl task _ other =>
    refine .plain rfl ?_
    cases task with
    | suspendThread x => exact absurd rfl (other x)
    | _ => exact .of_same (fun _ => rfl) rfl rfl rfl (.inl rfl) (.inr rfl) rfl rfl rfl rfl
  case case28.refl present => exact .again present
  case case29.refl new => exact .register new
  case case31.refl free => exact .unregister (by simpa using free)
  case case32.refl => exact .plain rfl plain_suspendAll
  case case33.refl => exact .plain rfl plain_resumeAll
  case case35.refl idle free => exact .suspendOne idle free
  case case36.refl own => exact .plain rfl (plain_requested own.1)
  case case37.refl busy wrong => exact .mistaken busy wrong
  case case38.refl present => exact .resumeOne present
  case case40.refl => exact .plain rfl plain_raised
  case case41.refl => exact .plain rfl plain_raise
  case case42.refl other => exact .raise other
  case case43.refl => exact .broadcastAll
  case case44.refl => exact .plain rfl plain_lower
  case case45.refl other => exact .lower other
  case case46.refl => exact .itself
  case case47.refl => exact .plain rfl plain_check
  case case50.refl after =>
    refine .plain rfl ?_
    cases after <;> exact .of_same (fun _ => rfl) rfl rfl rfl (.inl rfl) (.inl rfl) rfl rfl rfl rfl
  case case52.refl => exact .broadcastOne
  all_goals first
    | exact .plain rfl (.of_same (fun _ => rfl) rfl rfl rfl (.inl rfl) (.inl rfl) rfl rfl rfl rfl)
    | exact .plain rfl (.of_same (fun _ => rfl) rfl rfl rfl (.inr rfl) (.inr rfl) rfl rfl rfl rfl)
    | (refine .plain rfl ?_; split <;> exact .of_same (fun _ => rfl) rfl rfl rfl (.inl rfl) (.inl rfl) rfl rfl rfl rfl)

theorem choose_choice {m : Machine n} {a : Action n} {pc pc' : Pc n} {op : Op n}
    (chosen : choose m a pc = some (op,pc')) : Choice m a.thread pc op pc' := by
  revert chosen
  fun_cases choose m a pc
  all_goals intro chosen
  case case12 => exact next_choice chosen
  case case10 t =>
    obtain ⟨x,own,same⟩ := Option.map_eq_some_iff.mp chosen
    cases same
    exact .plain rfl (plain_resume own)
  all_goals cases chosen
  case case8.refl t x allowed => exact .plain rfl (plain_suspendThread allowed.1 allowed.2)
  case case15.refl => exact .plain rfl (plain_wake (.inl rfl))
  case case16.refl => exact .timeout
  all_goals exact .plain rfl (.of_same (fun _ => rfl) rfl rfl rfl (.inl rfl) (.inl rfl) rfl rfl rfl rfl)

end Aatt.ThreadList
