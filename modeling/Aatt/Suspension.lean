import Aatt.ThreadSteps

/-! Suspension is safe: between the return of `SuspendAll` and `ResumeAll` no other thread is Runnable, a thread that
`SuspendThreadByThreadId` has returned stays suspended until `Resume`, no CHECK of the protocol fails, and no thread
sleeps through its resumption. -/
namespace Aatt.ThreadList

open Aatt.Lib

variable {n : Nat}

namespace Machine

/-- How many calls of `SuspendAll` keep `x` suspended. -/
def stoppers (m : Machine n) (x : Fin n) : Nat := census fun t => (m.pc t).stops m.list t x

/-- How many calls of `SuspendThreadByThreadId` do. -/
def suspenders (m : Machine n) (x : Fin n) : Nat := census fun t => decide (m.suspended t = some x)

end Machine

structure Consistent (m : Machine n) : Prop extends Disciplined m where
  alive : m.aborted = false
  nodup : m.list.Nodup
  listed : ∀ t, t ∈ m.list ↔ (m.pc t).listed = true
  meets : ∀ t, (m.pc t).Meets m t
  counts : ∀ x, m.suspendCount x = m.stoppers x + m.suspenders x
  request : ∀ x, m.suspendRequest x = decide (m.suspendCount x ≠ 0)
  absent : ∀ x, x ∉ m.list → m.suspendCount x = 0
  asleep : ∀ t, m.asleep t = true → (m.pc t).waits = true ∧ (m.suspendRequest t = true ∨ ∃ u, (m.pc u).notifies = true)
  overdue : ∀ t x, (m.pc t).overdue = some x → m.asleep x = false
  answered : ∀ t x, m.suspended t = some x → (m.pc t).polled = none → m.runnable x = false

section Counts

variable {m : Machine n} {t x : Fin n}

theorem Consistent.stopped (c : Consistent m) (stops : (m.pc t).stops m.list t x = true) : 0 < m.suspendCount x := by
  have one : 0 < m.stoppers x := census_pos stops
  rw [c.counts x]
  omega

theorem Consistent.requested (c : Consistent m) (suspends : m.suspended t = some x) : 0 < m.suspendCount x := by
  have one : 0 < m.suspenders x := census_pos (t := t) (decide_eq_true suspends)
  rw [c.counts x]
  omega

theorem Consistent.asked (c : Consistent m) (pos : 0 < m.suspendCount x) : m.suspendRequest x = true := by
  rw [c.request x,decide_eq_true_iff]
  omega

theorem Consistent.present (c : Consistent m) (pos : 0 < m.suspendCount x) : x ∈ m.list := by
  by_contra absent
  rw [c.absent x absent] at pos
  omega

end Counts

theorem Pc.Meets.congr {pc : Pc n} {m m' : Machine n} {t : Fin n} (meets : pc.Meets m t) (list : m'.list = m.list)
    (suspended : m'.suspended t = m.suspended t) : pc.Meets m' t := by
  refine ⟨?_,?_,?_,?_⟩
  · rw [list]
    exact meets.remaining
  · rw [list]
    exact meets.found
  · rw [suspended]
    exact meets.raised
  · rw [suspended]
    exact meets.polled

section Step

variable {m mid : Machine n} {t x : Fin n} {pc : Pc n} {op : Op n}

theorem go_forall {P : Fin n → Pc n → Prop} {p : Pc n} (acting : P t p) (others : ∀ u, u ≠ t → P u (m.pc u)) :
    ∀ u, P u ((m.go t p).pc u) := by
  intro u
  by_cases same : u = t
  · subst same
    rw [go_pc_self]
    exact acting
  · rw [go_pc_other m p same]
    exact others u same

theorem perform_plain (d : Disciplined m) (kind : op.plain = true) (changed : op.Changes (m.pc t).flags pc.flags)
    (performed : m.perform t op = some mid) : ∃ mutatorLock listLock countLock suspendAllCount runnable asleep,
    mid = { m with
      mutatorLock := mutatorLock, threadListLock := listLock, threadSuspendCountLock := countLock
      suspendAllCount := suspendAllCount, runnable := runnable, asleep := asleep } ∧
    (∀ u, runnable u = true → m.runnable u = true) ∧ (∀ u, asleep u = true → m.asleep u = true) ∧
    (op = .wake → asleep t = false) := by
  cases op with
  | modify | suspendOne | resumeOne | register | unregister | wait | broadcast | abort => cases kind
  | skip | unlockList | unlockCount | countSuspendAll =>
    cases performed
    exact ⟨_,_,_,_,_,_,rfl,fun _ => id,fun _ => id,fun wake => by cases wake⟩
  | lockList | lockCount | sharedLock | exclusiveLock =>
    obtain ⟨-,performed⟩ := Option.ite_none_right_eq_some.mp performed
    cases performed
    exact ⟨_,_,_,_,_,_,rfl,fun _ => id,fun _ => id,fun wake => by cases wake⟩
  | sharedUnlock =>
    rw [Machine.perform,if_pos (d.mutator.shared changed.1)] at performed
    cases performed
    exact ⟨_,_,_,_,_,_,rfl,fun _ => id,fun _ => id,fun wake => by cases wake⟩
  | exclusiveUnlock =>
    rw [Machine.perform,if_pos (d.mutator.written changed.1)] at performed
    cases performed
    exact ⟨_,_,_,_,_,_,rfl,fun _ => id,fun _ => id,fun wake => by cases wake⟩
  | setRunnable value =>
    cases value with
    | true => cases kind
    | false =>
      cases performed
      refine ⟨_,_,_,_,_,_,rfl,fun u runs => ?_,fun _ => id,fun wake => by cases wake⟩
      by_cases acting : u = t
      · simp [acting] at runs
      · simpa [acting] using runs
  | wake =>
    cases performed
    refine ⟨_,_,_,_,_,_,rfl,fun _ => id,fun u sleeps => ?_,fun _ => Function.update_self ..⟩
    by_cases acting : u = t
    · simp [acting] at sleeps
    · simpa [acting] using sleeps

/-- What one thread adds to the count of `x`. -/
def weight (list : List (Fin n)) (t : Fin n) (pc : Pc n) (suspended : Option (Fin n)) (x : Fin n) : Int :=
  (pc.stops list t x).toNat + (decide (suspended = some x)).toNat

theorem Consistent.listed_go (c : Consistent m) (same : pc.listed = (m.pc t).listed) :
    ∀ u, u ∈ m.list ↔ ((m.go t pc).pc u).listed = true := by
  refine go_forall (P := fun u pc => u ∈ m.list ↔ pc.listed = true) ?_ fun u _ => c.listed u
  rw [same]
  exact c.listed t

theorem Consistent.meets_go (c : Consistent m) {m' : Machine n} (list : m'.list = m.list)
    (others : ∀ u, u ≠ t → m'.suspended u = m.suspended u) (meets : pc.Meets m' t) :
    ∀ u, ((m.go t pc).pc u).Meets m' u :=
  go_forall (P := fun u pc => pc.Meets m' u) meets fun u other => (c.meets u).congr list (others u other)

theorem Consistent.counts_go (c : Consistent m) {count : Fin n → Int} (own : Option (Fin n))
    (balance : ∀ y, count y + weight m.list t (m.pc t) (m.suspended t) y = m.suspendCount y + weight m.list t pc own y)
    (y : Fin n) : count y = (census fun u => ((m.go t pc).pc u).stops m.list u y) +
      census fun u => decide (Function.update m.suspended t own u = some y) := by
  have stoppers := census_change (t := t) (p := fun u => (m.pc u).stops m.list u y)
    (q := fun u => ((m.go t pc).pc u).stops m.list u y) fun u other =>
      congrArg (Pc.stops m.list u y) (go_pc_other m pc other)
  have suspenders := census_change (sameBut_update (fun s => decide (s = some y)) m.suspended t own)
  have before := c.counts y
  have change := balance y
  simp only [Machine.stoppers,Machine.suspenders,weight,go_pc_self,
    Function.update_self] at stoppers suspenders before change
  omega

theorem Consistent.counts_keep (c : Consistent m) (same : ∀ y, pc.stops m.list t y = (m.pc t).stops m.list t y)
    (y : Fin n) : m.suspendCount y = (census fun u => ((m.go t pc).pc u).stops m.list u y) + m.suspenders y := by
  rw [census_keep (p := fun u => (m.pc u).stops m.list u y) (t := t)]
  · exact c.counts y
  · exact fun u other => congrArg (Pc.stops m.list u y) (go_pc_other m pc other)
  · rw [go_pc_self]
    exact same y

theorem overdue_raised {pc : Pc n} (late : pc.overdue = some x) : pc.raised = some x := by
  cases pc
  case late => exact late
  all_goals cases late

theorem Consistent.running (c : Consistent m) (asked : 0 < m.suspendCount x) (busy : m.isSuspended x = false) :
    m.asleep x = false := by
  rw [Machine.isSuspended,c.asked asked,Bool.and_true,Bool.not_eq_false',c.runnable] at busy
  by_contra sleeps
  rw [Bool.not_eq_false] at sleeps
  obtain ⟨waits,-⟩ := c.asleep x sleeps
  cases place : m.pc x
  case enterWait =>
    rw [place] at busy
    cases busy
  all_goals
    rw [place] at waits
    cases waits

theorem Consistent.plain (c : Consistent m) (kind : op.plain = true) (facts : Plain m t (m.pc t) op pc)
    (changed : op.Changes (m.pc t).flags pc.flags) (performed : m.perform t op = some mid) :
    Consistent (mid.go t pc) := by
  have disciplined := c.toDisciplined.after changed performed
  obtain ⟨_,_,_,_,runnable,asleep,rfl,runs,sleeps,woken⟩ := perform_plain c.toDisciplined kind changed performed
  have meets := facts.meets (c.meets t)
  refine ⟨disciplined,c.alive,c.nodup,c.listed_go (facts.listed (c.listed t)),
    c.meets_go rfl (fun _ _ => rfl) (meets.congr rfl rfl),c.counts_keep facts.stops,c.request,c.absent,
    fun u (sleeping : asleep u = true) => ?_,fun u y late =>
      ?_,fun u y (suspends : m.suspended u = some y) answered => ?_⟩
  · obtain ⟨waiting,cause⟩ := c.asleep u (sleeps u sleeping)
    have other : u ≠ t := by
      rintro rfl
      rcases facts.awake waiting with rfl | awake
      · rw [woken rfl] at sleeping
        cases sleeping
      · have before := sleeps u sleeping
        rw [awake] at before
        cases before
    refine ⟨(congrArg Pc.waits (go_pc_other m pc other)).trans waiting,cause.imp_right fun ⟨v,due⟩ => ⟨v,?_⟩⟩
    exact go_forall (P := fun v pc' => (m.pc v).notifies = true → pc'.notifies = true) facts.notifies
      (fun _ _ => id) v due
  · have before : m.asleep y = false := by
      refine go_forall (P := fun _ pc' => pc'.overdue = some y → m.asleep y = false) (fun late => ?_)
        (fun u _ => c.overdue u y) u late
      exact c.running (c.requested (meets.raised y (overdue_raised late))) (facts.overdue y late)
    exact Bool.eq_false_of_not_eq_true fun after => Bool.false_ne_true (before.symm.trans (sleeps y after))
  · have before : m.runnable y = false := by
      refine go_forall (P := fun u pc' => m.suspended u = some y → pc'.polled = none → m.runnable y = false)
        (fun suspends answered => ?_) (fun u _ => c.answered u y) u suspends answered
      rcases facts.polled (c.meets t) answered with before | suspended
      · exact c.answered t y suspends before
      · have idle := suspended y suspends
        rw [Machine.isSuspended,Bool.and_eq_true,Bool.not_eq_true'] at idle
        exact idle.1
    exact Bool.eq_false_of_not_eq_true fun after => Bool.false_ne_true (before.symm.trans (runs y after))

/-- The count of `x` becomes `v`, on behalf of the thread `t`. -/
def Machine.recount (m : Machine n) (t x : Fin n) (v : Int) (own : Option (Fin n)) : Machine n :=
  { m with
    suspendCount := Function.update m.suspendCount x v
    suspendRequest := Function.update m.suspendRequest x (decide (v ≠ 0))
    suspended := Function.update m.suspended t own }

/-- A change of one count under both locks. A thread whose last request is withdrawn has a broadcast coming, or was
awake all the time. -/
theorem Consistent.recount (c : Consistent m) {v : Int} {own : Option (Fin n)}
    (disciplined : Disciplined ((m.recount t x v own).go t pc)) (present : x ∈ m.list)
    (listed : pc.listed = (m.pc t).listed) (meets : pc.Meets (m.recount t x v own) t)
    (balance : ∀ y, Function.update m.suspendCount x v y + weight m.list t (m.pc t) (m.suspended t) y =
      m.suspendCount y + weight m.list t pc own y)
    (waits : (m.pc t).waits = false) (notifies : (m.pc t).notifies = true → pc.notifies = true)
    (wakes : v ≠ 0 ∨ pc.notifies = true ∨ m.asleep x = false) (overdue : pc.overdue = none)
    (answered : ∀ y, own = some y → pc.polled = none → m.runnable y = false) :
    Consistent ((m.recount t x v own).go t pc) := by
  refine ⟨disciplined,c.alive,c.nodup,c.listed_go listed,
    c.meets_go rfl (fun _ other => Function.update_of_ne other ..) (meets.congr rfl rfl),c.counts_go
      own balance,fun y => ?_,
    fun y absent => ?_,fun u (sleeping : m.asleep u = true) => ?_,fun u y late => ?_,fun u y suspends polled => ?_⟩
  · by_cases same : y = x
    · subst same
      simp [Machine.go,Machine.recount]
    · simpa [Machine.go,Machine.recount,same] using c.request y
  · have other : y ≠ x := fun same => absent (same ▸ present)
    simpa [Machine.go,Machine.recount,other] using c.absent y absent
  · obtain ⟨waiting,cause⟩ := c.asleep u sleeping
    have other : u ≠ t := by
      rintro rfl
      rw [waits] at waiting
      cases waiting
    refine ⟨(congrArg Pc.waits (go_pc_other m pc other)).trans waiting,?_⟩
    have kept : (∃ w, (m.pc w).notifies = true) → ∃ w, ((m.go t pc).pc w).notifies = true := by
      rintro ⟨w,due⟩
      exact ⟨w,go_forall (P := fun w pc' => (m.pc w).notifies = true → pc'.notifies = true) notifies
        (fun _ _ => id) w due⟩
    by_cases same : u = x
    · subst same
      rcases wakes with more | due | awake
      · exact .inl (by simpa [Machine.go,Machine.recount] using more)
      · exact .inr ⟨t,(congrArg Pc.notifies (go_pc_self ..)).trans due⟩
      · rw [awake] at sleeping
        cases sleeping
    · exact cause.imp (fun asked => by simpa [Machine.go,Machine.recount,same] using asked) kept
  · refine go_forall (P := fun _ pc' => pc'.overdue = some y → m.asleep y = false) (fun late => ?_)
      (fun u _ => c.overdue u y) u late
    cases overdue.symm.trans late
  · by_cases acting : u = t
    · subst acting
      have own : own = some y := by simpa [Machine.go,Machine.recount] using suspends
      exact answered y own ((congrArg Pc.polled (go_pc_self (m.recount u x v _) u pc)).symm.trans polled)
    · have before : m.suspended u = some y := by simpa [Machine.go,Machine.recount,acting] using suspends
      exact c.answered u y before ((congrArg Pc.polled (go_pc_other m pc acting)).symm.trans polled)

theorem recount_self (m : Machine n) (t x : Fin n) (v : Int) : m.recount t x v (m.suspended t) =
    { m with
      suspendCount := Function.update m.suspendCount x v
      suspendRequest := Function.update m.suspendRequest x (decide (v ≠ 0)) } := by
  rw [Machine.recount,Function.update_eq_self]

theorem modifySuspendCount_up (m : Machine n) (x : Fin n) : m.modifySuspendCount x 1 =
    { m with
      suspendCount := Function.update m.suspendCount x (m.suspendCount x + 1)
      suspendRequest := Function.update m.suspendRequest x (decide (m.suspendCount x + 1 ≠ 0)) } :=
  if_neg fun ⟨negative,_⟩ => by omega

theorem modifySuspendCount_down (positive : 0 < m.suspendCount x) : m.modifySuspendCount x (-1) =
    { m with
      suspendCount := Function.update m.suspendCount x (m.suspendCount x - 1)
      suspendRequest := Function.update m.suspendRequest x (decide (m.suspendCount x - 1 ≠ 0)) } :=
  if_neg fun ⟨_,few⟩ => by omega

theorem Consistent.after_raise {rest : List (Fin n)} (c : Consistent m) (place : m.pc t = .raise (x :: rest))
    (other : x ≠ t) (disciplined : Disciplined (mid.go t (.raise rest)))
    (performed : m.perform t (.modify x 1) = some mid) : Consistent (mid.go t (.raise rest)) := by
  obtain rfl : m.recount t x (m.suspendCount x + 1) (m.suspended t) = mid := by
    rw [recount_self,← modifySuspendCount_up]
    exact Option.some.inj performed
  have remaining := (c.meets t).remaining (x :: rest) (congrArg Pc.remaining place)
  have present : x ∈ m.list := remaining.subset List.mem_cons_self
  have fresh : x ∉ rest := (List.nodup_cons.mp (c.nodup.sublist remaining.sublist)).1
  have count := c.counts x
  refine c.recount disciplined present (by rw [place]; rfl) ⟨?_,asks_nothing rfl,asks_nothing rfl,asks_nothing rfl⟩
    (fun y => ?_) (by rw [place]; rfl)
    (by rw [place]; rintro ⟨⟩) (.inl (by omega)) rfl fun y own _ => c.answered t y own (by rw [place]; rfl)
  · rintro _ ⟨⟩
    exact (List.suffix_cons x rest).trans remaining
  · by_cases same : y = x
    · subst same
      simp [weight,place,Pc.stops,present,fresh,other]
      omega
    · simp [weight,place,Pc.stops,same]

theorem Consistent.after_lower {rest : List (Fin n)} (c : Consistent m) (place : m.pc t = .lower (x :: rest))
    (other : x ≠ t) (disciplined : Disciplined (mid.go t (.lower rest)))
    (performed : m.perform t (.modify x (-1)) = some mid) : Consistent (mid.go t (.lower rest)) := by
  have positive : 0 < m.suspendCount x := c.stopped (t := t) (by simp [place,Pc.stops,other])
  obtain rfl : m.recount t x (m.suspendCount x - 1) (m.suspended t) = mid := by
    rw [recount_self,← modifySuspendCount_down positive]
    exact Option.some.inj performed
  have remaining := (c.meets t).remaining (x :: rest) (congrArg Pc.remaining place)
  have present : x ∈ m.list := remaining.subset List.mem_cons_self
  have fresh : x ∉ rest := (List.nodup_cons.mp (c.nodup.sublist remaining.sublist)).1
  refine c.recount disciplined present (by rw [place]; rfl) ⟨?_,asks_nothing rfl,asks_nothing rfl,asks_nothing rfl⟩
    (fun y => ?_) (by rw [place]; rfl)
    (fun _ => rfl) (.inr (.inl rfl)) rfl fun y own _ => c.answered t y own (by rw [place]; rfl)
  · rintro _ ⟨⟩
    exact (List.suffix_cons x rest).trans remaining
  · by_cases same : y = x
    · subst same
      simp [weight,place,Pc.stops,fresh,other]
      omega
    · simp [weight,place,Pc.stops,same]

theorem Consistent.after_suspendOne (c : Consistent m) (place : m.pc t = .body (.suspendThread x))
    (idle : m.suspended t = none) (disciplined : Disciplined (mid.go t (.check x)))
    (performed : m.perform t (.suspendOne x) = some mid) : Consistent (mid.go t (.check x)) := by
  obtain rfl : m.recount t x (m.suspendCount x + 1) (some x) = mid := by
    rw [Machine.perform,modifySuspendCount_up] at performed
    exact Option.some.inj performed
  have present := (c.meets t).found x (congrArg Pc.found place)
  have other := ((c.meets t).polled x (congrArg Pc.polled place)).1
  have own : (m.recount t x (m.suspendCount x + 1) (some x)).suspended t = some x := Function.update_self ..
  have count := c.counts x
  refine c.recount disciplined present (by rw [place]; rfl) ⟨asks_nothing rfl,?_,?_,?_⟩ (fun y => ?_)
    (by rw [place]; rfl)
    (by rw [place]; rintro ⟨⟩) (.inl (by omega)) rfl (fun _ _ polled => by cases polled)
  · rintro _ ⟨⟩
    exact present
  · rintro _ ⟨⟩
    exact own
  · rintro _ ⟨⟩
    exact ⟨other,.inr own⟩
  · by_cases same : y = x
    · subst same
      simp [weight,place,idle,Pc.stops,Pc.stopping,Task.stopping]
    · simp [weight,place,idle,Pc.stops,Pc.stopping,Task.stopping,same,Ne.symm same]

/-- `Resume`, or giving up: the own request is withdrawn. -/
theorem Consistent.after_resumeOne (c : Consistent m) (raised : m.suspended t = some x)
    (disciplined : Disciplined (mid.go t pc)) (performed : m.perform t (.resumeOne x) = some mid)
    (listed : pc.listed = (m.pc t).listed) (meets : pc.Meets (m.recount t x (m.suspendCount x - 1) none) t)
    (before : ∀ y, (m.pc t).stops m.list t y = false) (after : ∀ y, pc.stops m.list t y = false)
    (waits : (m.pc t).waits = false) (notifies : (m.pc t).notifies = true → pc.notifies = true)
    (wakes : pc.notifies = true ∨ m.asleep x = false) (overdue : pc.overdue = none) : Consistent (mid.go t pc) := by
  have positive := c.requested raised
  obtain rfl : m.recount t x (m.suspendCount x - 1) none = mid := by
    rw [Machine.perform,modifySuspendCount_down positive] at performed
    exact Option.some.inj performed
  refine c.recount disciplined (c.present positive) listed meets (fun y => ?_) waits notifies (.inr wakes) overdue
    (fun _ asked => by cases asked)
  by_cases same : y = x
  · subst same
    simp [weight,raised,before,after]
  · simp [weight,raised,before,after,same,Ne.symm same]

theorem remaining_holdsList {pc : Pc n} {rest : List (Fin n)} (loop : pc.remaining = some rest) :
    pc.holdsList = true := by
  cases pc
  case raise => rfl
  case lower => rfl
  all_goals cases loop

theorem found_holdsList {pc : Pc n} (found : pc.found = some x) : pc.holdsList = true := by
  cases pc
  case lockCount => rfl
  case body => rfl
  case check => rfl
  case late => rfl
  all_goals cases found

theorem overdue_holdsCount {pc : Pc n} (late : pc.overdue = some x) : pc.holdsCount = true := by
  cases pc
  case late => rfl
  all_goals cases late

/-- Outside the loops, a call of `SuspendAll` stops every other thread of the list. -/
theorem stops_of_free {pc : Pc n} {list : List (Fin n)} (free : pc.holdsList = false) :
    pc.stops list t x = (pc.stopping && decide (x ∈ list ∧ x ≠ t)) := by
  cases pc
  case raise => cases free
  case lower => cases free
  all_goals rfl

theorem counted_of_free {pc : Pc n} (free : pc.holdsList = false) : pc.counted = pc.stopping := by
  cases pc
  case raise => cases free
  all_goals rfl

theorem Disciplined.others_free (d : Disciplined m) (holds : (m.pc t).holdsList = true) {u : Fin n} (other : u ≠ t) :
    (m.pc u).holdsList = false := by
  by_contra held
  exact other (d.list.alone (Bool.not_eq_false _ ▸ held) holds)

theorem Pc.Meets.of_free {pc : Pc n} {m' : Machine n} {u : Fin n} (meets : pc.Meets m u) (free : pc.holdsList = false)
    (suspended : m'.suspended u = m.suspended u) : pc.Meets m' u := by
  refine ⟨fun rest loop => ?_,fun y found => ?_,?_,?_⟩
  · rw [remaining_holdsList loop] at free
    cases free
  · rw [found_holdsList found] at free
    cases free
  · rw [suspended]
    exact meets.raised
  · rw [suspended]
    exact meets.polled

theorem raiseBy_eq (k : Nat) (m : Machine n) (request : m.suspendRequest t = decide (m.suspendCount t ≠ 0)) :
    m.raiseBy t k =
      { m with
        suspendCount := Function.update m.suspendCount t (m.suspendCount t + k)
        suspendRequest := Function.update m.suspendRequest t (decide (m.suspendCount t + k ≠ 0)) } := by
  induction k generalizing m with
  | zero =>
    rw [Int.natCast_zero,Int.add_zero,← request,Function.update_eq_self,Function.update_eq_self]
    rfl
  | succ k ih =>
    rw [Machine.raiseBy,ih,modifySuspendCount_up]
    · simp only [Function.update_self,Function.update_idem]
      rw [Int.natCast_succ,Int.add_assoc,Int.add_comm 1]
    · rw [modifySuspendCount_up]
      simp only [Function.update_self]

theorem Consistent.after_enter {mode : Mode n} (c : Consistent m) (place : m.pc t = .enterExchange mode)
    (free : m.suspendRequest t = false)
    (disciplined : Disciplined (mid.go t (.running mode)))
    (performed : m.perform t (.setRunnable true) = some mid) : Consistent (mid.go t (.running mode)) := by
  cases performed
  have meets := c.meets t
  rw [place] at meets
  refine ⟨disciplined,c.alive,c.nodup,c.listed_go (by rw [place]; rfl),
    c.meets_go rfl (fun _ _ => rfl) ⟨asks_nothing rfl,asks_nothing rfl,asks_nothing rfl,
      meets.polled⟩,c.counts_keep fun _ => by rw [place]; rfl,c.request,
    c.absent,fun u sleeping => ?_,fun u y late => ?_,fun u y (suspends : m.suspended u = some y) polled => ?_⟩
  · obtain ⟨waiting,cause⟩ := c.asleep u sleeping
    have other : u ≠ t := by
      rintro rfl
      rw [place] at waiting
      cases waiting
    refine ⟨(congrArg Pc.waits (go_pc_other m _ other)).trans waiting,cause.imp_right fun ⟨v,due⟩ => ⟨v,?_⟩⟩
    refine go_forall (P := fun v pc' => (m.pc v).notifies = true → pc'.notifies = true) ?_ (fun _ _ => id) v due
    rw [place]
    rintro ⟨⟩
  · exact go_forall (P := fun _ pc' => pc'.overdue = some y → m.asleep y = false) (p := .running mode) nofun
      (fun u _ => c.overdue u y) u late
  · have other : y ≠ t := by
      rintro rfl
      rw [c.asked (c.requested suspends)] at free
      cases free
    have before := go_forall (P := fun u pc' => pc'.polled = none → (m.pc u).polled = none) (p := .running mode)
      (t := t)
      (m := m) (by rw [place]; exact id) (fun _ _ => id) u polled
    exact (Function.update_of_ne other ..).trans (c.answered u y suspends before)

theorem Consistent.after_wait {mode : Mode n} (c : Consistent m) (place : m.pc t = .enterTest mode)
    (asked : m.suspendRequest t = true) (disciplined : Disciplined (mid.go t (.enterWait mode)))
    (performed : m.perform t .wait = some mid) : Consistent (mid.go t (.enterWait mode)) := by
  cases performed
  have meets := c.meets t
  rw [place] at meets
  refine ⟨disciplined,c.alive,c.nodup,c.listed_go (by rw [place]; rfl),
    c.meets_go rfl (fun _ _ => rfl) ⟨asks_nothing rfl,asks_nothing rfl,asks_nothing rfl,
      meets.polled⟩,c.counts_keep fun _ => by rw [place]; rfl,c.request,
    c.absent,fun u sleeping => ?_,fun u y late => ?_,fun u y (suspends : m.suspended u = some y) polled => ?_⟩
  · by_cases acting : u = t
    · subst acting
      exact ⟨congrArg Pc.waits (go_pc_self ..),.inl asked⟩
    · obtain ⟨waiting,cause⟩ := c.asleep u ((Function.update_of_ne acting ..).symm.trans sleeping)
      refine ⟨(congrArg Pc.waits (go_pc_other m _ acting)).trans waiting,cause.imp_right fun ⟨v,due⟩ => ⟨v,?_⟩⟩
      refine go_forall (P := fun v pc' => (m.pc v).notifies = true → pc'.notifies = true) ?_ (fun _ _ => id) v due
      rw [place]
      rintro ⟨⟩
  · have held : (m.pc t).holdsCount = true := by rw [place]; rfl
    have before : u ≠ t ∧ (m.pc u).overdue = some y :=
      go_forall (P := fun u pc' => pc'.overdue = some y → u ≠ t ∧ (m.pc u).overdue = some y) (p := .enterWait mode)
        nofun (fun _ other late => ⟨other,late⟩) u late
    exact absurd (c.count.alone (overdue_holdsCount before.2) held) before.1
  · have before := go_forall (P := fun u pc' => pc'.polled = none → (m.pc u).polled = none) (p := .enterWait mode)
      (t := t)
      (m := m) (by rw [place]; exact id) (fun _ _ => id) u polled
    exact c.answered u y suspends before

theorem Consistent.after_broadcast (c : Consistent m) (disciplined : Disciplined (mid.go t pc))
    (performed : m.perform t .broadcast = some mid) (listed : pc.listed = (m.pc t).listed)
    (stops : ∀ y, pc.stops m.list t y = (m.pc t).stops m.list t y) (meets : pc.Meets m t)
    (polled : (m.pc t).polled = none) : Consistent (mid.go t pc) := by
  cases performed
  refine ⟨disciplined,c.alive,c.nodup,c.listed_go listed,c.meets_go rfl (fun _ _ => rfl) (meets.congr rfl rfl),
    c.counts_keep stops,c.request,c.absent,nofun,fun _ _ _ => rfl,
    fun u y (suspends : m.suspended u = some y) answered => ?_⟩
  exact c.answered u y suspends (go_forall (P := fun u pc' => pc'.polled = none → (m.pc u).polled = none)
    (fun _ => polled) (fun _ _ => id) u answered)

/-- The list changes at the thread `t`, which holds its lock. -/
theorem Consistent.relist (c : Consistent m) {list : List (Fin n)} {count : Fin n → Int} {request : Fin n → Bool}
    (disciplined : Disciplined ({ m with list := list, suspendCount := count, suspendRequest := request }.go t pc))
    (nodup : list.Nodup) (others : ∀ u, u ≠ t → (u ∈ list ↔ u ∈ m.list)) (listed : t ∈ list ↔ pc.listed = true)
    (holds : (m.pc t).holdsList = true) (meets : ∀ m', pc.Meets m' t)
    (counts : ∀ u, u ≠ t → count u = m.suspendCount u)
    (own : count t = (census fun u => ((m.go t pc).pc u).stops list u t) + m.suspenders t)
    (requests : ∀ u, request u = decide (count u ≠ 0)) (absent : t ∉ list → count t = 0)
    (before : ∀ y, (m.pc t).stops m.list t y = false) (after : ∀ y, pc.stops list t y = false)
    (notifies : (m.pc t).notifies = false) (waits : (m.pc t).waits = false) (overdue : pc.overdue = none)
    (polled : (m.pc t).polled = none) :
    Consistent ({ m with list := list, suspendCount := count, suspendRequest := request }.go t pc) := by
  refine ⟨disciplined,c.alive,nodup,?_,?_,fun y => ?_,requests,fun y gone => ?_,
    fun u (sleeping : m.asleep u = true) => ?_,
    fun u y late => ?_,fun u y (suspends : m.suspended u = some y) answered => ?_⟩
  · exact go_forall (P := fun u pc => u ∈ list ↔ pc.listed = true) listed fun u other =>
      (others u other).trans (c.listed u)
  · exact go_forall (P := fun u pc' => pc'.Meets _ u) (meets _) fun u other =>
      (c.meets u).of_free (c.others_free holds other) rfl
  · by_cases same : y = t
    · subst same
      exact own
    · have stoppers : (fun u => ((m.go t pc).pc u).stops list u y) = fun u => (m.pc u).stops m.list u y := by
        funext u
        refine go_forall (P := fun u pc' => pc'.stops list u y = (m.pc u).stops m.list u y) ?_ (fun u other => ?_) u
        · rw [before,after]
        · have free := c.others_free holds other
          simp only [stops_of_free free,others y same]
      show count y = (census fun u => ((m.go t pc).pc u).stops list u y) + m.suspenders y
      rw [stoppers,counts y same]
      exact c.counts y
  · by_cases same : y = t
    · subst same
      exact absent gone
    · exact (counts y same).trans (c.absent y fun present => gone ((others y same).mpr present))
  · obtain ⟨waiting,cause⟩ := c.asleep u sleeping
    have other : u ≠ t := by
      rintro rfl
      rw [waits] at waiting
      cases waiting
    refine ⟨(congrArg Pc.waits (go_pc_other m _ other)).trans waiting,cause.imp (fun asked => ?_) fun ⟨v,due⟩ => ⟨v,?_⟩⟩
    · exact (requests u).trans (by rw [counts u other,← c.request u,asked])
    · refine go_forall (P := fun v pc' => (m.pc v).notifies = true → pc'.notifies = true) ?_ (fun _ _ => id) v due
      rw [notifies]
      rintro ⟨⟩
  · refine go_forall (P := fun _ pc' => pc'.overdue = some y → m.asleep y = false) (fun late => ?_)
      (fun u _ => c.overdue u y) u late
    cases overdue.symm.trans late
  · exact c.answered u y suspends (go_forall (P := fun u pc' => pc'.polled = none → (m.pc u).polled = none)
      (fun _ => polled) (fun _ _ => id) u answered)

/-- `Register` gives the new thread one request for every call of `SuspendAll` under way. -/
theorem Consistent.after_register (c : Consistent m) (place : m.pc t = .body .register) (new : t ∉ m.list)
    (disciplined : Disciplined (mid.go t (.unlockCount .native))) (performed : m.perform t .register = some mid) :
    Consistent (mid.go t (.unlockCount .native)) := by
  have holds : (m.pc t).holdsList = true := by rw [place]; rfl
  have count := c.absent t new
  obtain rfl : { m with
      list := m.list ++ [t]
      suspendCount := Function.update m.suspendCount t m.suspendAllCount.toNat
      suspendRequest := Function.update m.suspendRequest t (decide ((m.suspendAllCount.toNat : Int) ≠ 0)) } = mid := by
    rw [Machine.perform,raiseBy_eq _ _ (c.request t),count,Int.zero_add] at performed
    exact Option.some.inj performed
  have total : (m.suspendAllCount.toNat : Int) =
      census fun u => ((m.go t (.unlockCount .native)).pc u).stops (m.list ++ [t]) u t := by
    rw [c.suspendAll,Int.toNat_natCast]
    refine congrArg (fun p => ((census p : Nat) : Int)) (funext fun u => ?_)
    refine go_forall (P := fun u pc' => (m.pc u).counted = pc'.stops (m.list ++ [t]) u t) ?_ (fun u other => ?_) u
    · rw [place]
      rfl
    · have free := c.others_free holds other
      rw [stops_of_free free,counted_of_free free]
      simp [Ne.symm other]
  have unsuspended : m.suspenders t = 0 := by
    have sum := c.counts t
    omega
  refine c.relist disciplined ?_ (fun u other => ?_) (by simp; rfl) holds (fun _ => .of_none rfl rfl rfl rfl)
    (fun u other => Function.update_of_ne other ..) ?_ (fun u => ?_) (by simp) (fun y => by rw [place]; rfl)
      (fun _ => rfl)
    (by rw [place]; rfl) (by rw [place]; rfl) rfl (by rw [place]; rfl)
  · refine List.nodup_append.mpr ⟨c.nodup,List.nodup_singleton t,fun y present z last same => ?_⟩
    rw [List.mem_singleton.mp last] at same
    exact new (same ▸ present)
  · simp [other]
  · rw [Function.update_self,unsuspended,total]
    rfl
  · by_cases same : u = t
    · subst same
      simp only [Function.update_self]
    · simpa [same] using c.request u

theorem Consistent.after_unregister (c : Consistent m) (place : m.pc t = .body .unregister)
    (free : m.isSuspended t = false) (disciplined : Disciplined (mid.go t (.unlockCount .detached)))
    (performed : m.perform t .unregister = some mid) :
    Consistent (mid.go t (.unlockCount .detached)) := by
  have holds : (m.pc t).holdsList = true := by rw [place]; rfl
  have unasked : m.suspendCount t = 0 := by
    rw [Machine.isSuspended,c.runnable,place,c.request] at free
    simpa [Pc.runs,Task.runs] using free
  obtain rfl := Option.some.inj performed
  have gone : t ∉ m.list.filter (· ≠ t) := by simp
  refine c.relist disciplined (c.nodup.filter _) (fun u other => by simp [other]) ?_ holds
    (fun _ => .of_none rfl rfl rfl rfl)
    (fun _ _ => rfl) ?_ c.request (fun _ => unasked) (fun y => by rw [place]; rfl) (fun _ => rfl) (by rw [place]; rfl)
    (by rw [place]; rfl) rfl (by rw [place]; rfl)
  · exact ⟨fun present => absurd present gone,nofun⟩
  · have stoppers : (fun u => ((m.go t (.unlockCount .detached)).pc u).stops (m.list.filter (· ≠ t)) u t) =
        fun _ => false := by
      funext u
      refine go_forall (P := fun u pc' => pc'.stops (m.list.filter (· ≠ t)) u t = false) rfl (fun u other => ?_) u
      rw [stops_of_free (c.others_free holds other)]
      simp
    have sum := c.counts t
    rw [stoppers,unasked,census_eq_zero_iff.mpr fun _ => rfl]
    omega

theorem Consistent.after (c : Consistent m) (choice : Choice m t (m.pc t) op pc)
    (changed : op.Changes (m.pc t).flags pc.flags) (performed : m.perform t op = some mid) :
    Consistent (mid.go t pc) := by
  have disciplined := c.toDisciplined.after changed performed
  have meets := c.meets t
  generalize place : m.pc t = before at choice changed meets
  cases choice with
  | plain kind facts => exact c.plain kind (place ▸ facts) (place ▸ changed) performed
  | raise other => exact c.after_raise place other disciplined performed
  | lower other => exact c.after_lower place other disciplined performed
  | suspendOne idle _ => exact c.after_suspendOne place idle disciplined performed
  | resumeOne present =>
    exact c.after_resumeOne (meets.raised _ rfl) disciplined performed (by rw [place]; rfl) (.of_none rfl rfl rfl rfl)
      (fun _ => by rw [place]; rfl) (fun _ => rfl) (by rw [place]; rfl) (fun _ => rfl) (.inl rfl) rfl
  | timeout =>
    exact c.after_resumeOne (meets.raised _ rfl) disciplined performed (by rw [place]; rfl) (.of_none rfl rfl rfl rfl)
      (fun _ => by rw [place]; rfl) (fun _ => rfl) (by rw [place]; rfl) (by rw [place]; rintro ⟨⟩)
      (.inr (c.overdue t _ (by rw [place]; rfl))) rfl
  | register new => exact c.after_register place new disciplined performed
  | unregister free => exact c.after_unregister place free disciplined performed
  | enter free => exact c.after_enter place free disciplined performed
  | wait asked => exact c.after_wait place asked disciplined performed
  | broadcastAll =>
    exact c.after_broadcast disciplined performed (by rw [place]; rfl)
      (fun _ => by simp [place,Pc.stops,Pc.stopping,After.stopping]) (.of_none rfl rfl rfl rfl) (by rw [place]; rfl)
  | broadcastOne =>
    exact c.after_broadcast disciplined performed (by rw [place]; rfl) (fun _ => by rw [place]; rfl)
      (.of_none rfl rfl rfl rfl) (by rw [place]; rfl)
  | lost absent busy =>
    obtain idle | own := (meets.polled _ rfl).2
    · exact absurd idle busy
    · exact absurd (c.present (c.requested own)) absent
  | again present =>
    have listed := (c.listed t).mp present
    rw [place] at listed
    cases listed
  | mistaken busy wrong =>
    obtain idle | own := (meets.polled _ rfl).2
    · exact absurd idle busy
    · exact absurd ⟨own,c.requested own⟩ wrong
  | itself => exact absurd rfl (meets.polled _ rfl).1

end Step

theorem consistent_start : Consistent (Machine.start n) where
  toDisciplined := disciplined_start
  alive := rfl
  nodup := List.nodup_nil
  listed := fun _ => ⟨nofun,nofun⟩
  meets := fun _ => .of_none rfl rfl rfl rfl
  counts := fun x => by
    have nobody : census (fun _ : Fin n => false) = 0 := census_eq_zero_iff.mpr fun _ => rfl
    show (0 : Int) = ((census fun _ : Fin n => false : Nat) : Int) + (census fun _ : Fin n => false : Nat)
    rw [nobody]
    rfl
  request := fun _ => rfl
  absent := fun _ _ => rfl
  asleep := nofun
  overdue := nofun
  answered := nofun

theorem Consistent.step {m m' : Machine n} {a : Action n} (c : Consistent m) (taken : step a m = some m') :
    Consistent m' := by
  obtain ⟨-,op,pc,mid,chosen,performed,rfl⟩ := step_spec taken
  exact c.after (choose_choice chosen) (choose_flags chosen) performed

theorem consistent_throughout (actions : List (Action n)) :
    Throughout (Aatt.ThreadList.step (n := n)) Consistent actions (Machine.start n) :=
  throughout_of_step Consistent (fun _ _ _ c taken => c.step taken) actions _ consistent_start

theorem shares_of_runs {pc : Pc n} (runs : pc.runs = true) : pc.shares = true := by
  cases pc
  case enterReload => rfl
  case enterExchange => rfl
  case enterUndo => rfl
  case leaveUnlock => rfl
  all_goals exact runs

/-- Between the return of `SuspendAll` and `ResumeAll` nobody else is Runnable, whoever attaches, detaches or tries to
enter meanwhile, and no CHECK has failed. -/
theorem suspendAll_excludes (actions : List (Action n)) :
    Throughout ThreadList.step (fun m => m.aborted = false ∧ ∀ t, m.pc t = .allSuspended → ∀ u, u ≠ t →
      m.runnable u = false ∧ m.pc u ≠ .allSuspended ∧ (u ∈ m.list → m.isSuspended u = true)) actions
        (Machine.start n) := by
  intro front back m split reached
  have c := consistent_throughout actions front back m split reached
  refine ⟨c.alive,fun t place u other => ?_⟩
  have exclusive : (m.pc t).exclusive = true := by rw [place]; rfl
  have idle : m.runnable u = false := by
    rw [c.runnable]
    exact Bool.eq_false_of_not_eq_true fun runs =>
      Bool.false_ne_true ((c.mutator.apart t u exclusive).symm.trans (shares_of_runs runs))
  refine ⟨idle,fun same => ?_,fun listed => ?_⟩
  · exact other (c.mutator.alone t u exclusive (by rw [same]; rfl)).symm
  · have stopped := c.stopped (t := t) (x := u) (by simp [place,Pc.stops,Pc.stopping,listed,other])
    rw [Machine.isSuspended,idle,c.asked stopped]
    rfl

/-- Two threads attach and the second enters; `SuspendAll` of the first returns when the second has followed its
request. -/
example : (run ThreadList.step (List.flatten [[.attach 0],.replicate 6 (.step 0),[.attach 1],.replicate 6 (.step 1),
    [.enter 1],.replicate 4 (.step 1),[.suspendAll 0],.replicate 9 (.step 0),[.suspendCheck 1],.replicate 3 (.step 1),
    [.step 0]]) (Machine.start 2)).map (fun m => (m.pc 0,m.list,m.isSuspended 1)) =
    some (.allSuspended,[0,1],true) := by decide +kernel

/-- The count of a thread is the number of calls that keep it suspended. A thread that sleeps on `resume_cond_`
is kept suspended by one of them, or a broadcast is due. -/
theorem suspendCount_exact (actions : List (Action n)) :
    Throughout ThreadList.step (fun m => ∀ x, m.suspendCount x = m.stoppers x + m.suspenders x ∧
      (m.asleep x = true → 0 < m.stoppers x + m.suspenders x ∨ ∃ u, (m.pc u).notifies = true)) actions
      (Machine.start n) := by
  intro front back m split reached x
  have c := consistent_throughout actions front back m split reached
  refine ⟨c.counts x,fun sleeps => (c.asleep x sleeps).2.imp_left fun asked => ?_⟩
  have count := c.counts x
  rw [c.request,decide_eq_true_iff] at asked
  omega

/-- The thread that `SuspendThreadByThreadId` has returned is suspended until its caller calls `Resume`. -/
theorem suspendThread_holds (actions : List (Action n)) :
    Throughout ThreadList.step (fun m => ∀ t x, m.suspended t = some x → (m.pc t).polled = none →
      x ∈ m.list ∧ m.isSuspended x = true) actions (Machine.start n) := by
  intro front back m split reached t x suspends answered
  have c := consistent_throughout actions front back m split reached
  have positive := c.requested suspends
  refine ⟨c.present positive,?_⟩
  rw [Machine.isSuspended,c.answered t x suspends answered,c.asked positive]
  rfl

section Cycles

variable {m mid : Machine n} {t : Fin n} {op : Op n}

theorem perform_suspended (performed : m.perform t op = some mid) : mid.suspended = m.suspended ∨
    (∃ x, op = .suspendOne x ∧ mid.suspended = Function.update m.suspended t (some x)) ∨
    mid.suspended = Function.update m.suspended t none := by
  cases op with
  | suspendOne x =>
    cases performed
    obtain ⟨_,_,_,frame⟩ := modifySuspendCount_frame m x 1
    exact .inr (.inl ⟨x,rfl,by rw [frame]⟩)
  | resumeOne x =>
    cases performed
    obtain ⟨_,_,_,frame⟩ := modifySuspendCount_frame m x (-1)
    exact .inr (.inr (by rw [frame]))
  | modify x delta =>
    cases performed
    obtain ⟨_,_,_,frame⟩ := modifySuspendCount_frame m x delta
    exact .inl (by rw [frame])
  | register =>
    cases performed
    obtain ⟨_,_,_,frame⟩ := raiseBy_frame t m.suspendAllCount.toNat m
    exact .inl (by rw [frame])
  | lockList | lockCount | sharedLock | exclusiveLock =>
    obtain ⟨-,performed⟩ := Option.ite_none_right_eq_some.mp performed
    cases performed
    exact .inl rfl
  | sharedUnlock | exclusiveUnlock =>
    rw [Machine.perform] at performed
    split at performed
    all_goals
      cases performed
      exact .inl rfl
  | skip | unlockList | unlockCount | setRunnable | wait | wake | broadcast | countSuspendAll | unregister | abort =>
    cases performed
    exact .inl rfl

end Cycles

/-- Calls of `SuspendThreadByThreadId` never wait for each other in a circle. -/
theorem suspendThread_acyclic (actions : List (Action n)) :
    Throughout ThreadList.step (fun m => Acyclic fun t x => m.suspended t = some x) actions (Machine.start n) := by
  have both : Throughout ThreadList.step (fun m : Machine n => Consistent m ∧ Acyclic fun t x => m.suspended t = some x)
      actions (Machine.start n) := by
    refine throughout_of_step _ (fun a m m' before taken => ?_) actions _ ⟨consistent_start,fun t cycle => ?_⟩
    · obtain ⟨c,acyclic⟩ := before
      refine ⟨c.step taken,?_⟩
      obtain ⟨-,op,pc,mid,chosen,performed,rfl⟩ := step_spec taken
      show Acyclic fun t x => mid.suspended t = some x
      rcases perform_suspended performed with same | ⟨x,rfl,requested⟩ | withdrawn
      · rwa [same]
      · have choice := choose_choice chosen
        generalize place : m.pc a.thread = before at choice
        cases choice with
        | plain kind => cases kind
        | suspendOne idle free =>
          have other := ((c.meets a.thread).polled x (congrArg Pc.polled place)).1
          refine acyclic.extend (t := a.thread) (fun u v different waits => ?_) fun u waits => ?_
          · simpa [requested,different] using waits
          · by_cases own : u = a.thread
            · subst own
              simp [requested] at waits
              exact other waits
            · exact free (c.requested (t := u) (by simpa [requested,own] using waits))
      · refine acyclic.mono fun u v waits => ?_
        by_cases own : u = a.thread
        · simp [withdrawn,own] at waits
        · simpa [withdrawn,own] using waits
    · cases cycle with
      | single first => cases first
      | tail _ last => cases last
  exact fun front back m split reached => (both front back m split reached).2

end Aatt.ThreadList
