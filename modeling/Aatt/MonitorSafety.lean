import Aatt.Lib.Locks
import Aatt.Monitors

/-! Monitors exclude each other across inflation and deflation: the lock word or the monitor names the thread inside
and how often it has entered, no deflated monitor is used, nobody sleeps on a free monitor, and the identity hash code
of the object does not change. -/
namespace Aatt.Monitors

open Aatt.Lib

variable {n : Nat}

/-- Counted in `num_waiters_` by `Wait`. -/
def Locker.waits : Locker → Bool
  | .enter => false
  | .wait _ => true

namespace Pc

/-- Counted in `num_waiters_` by `Lock`. -/
def contends : Pc n → Bool
  | .contend _ _ | .blocked _ _ => true
  | _ => false

def blocks : Pc n → Bool
  | .blocked _ _ => true
  | _ => false

def waits : Pc n → Bool
  | .waiting _ _ | .restore _ _ => true
  | .lock _ locker | .contend _ locker | .blocked _ locker => locker.waits
  | _ => false

end Pc

namespace Shared

/-- How often a thread has entered, by the lock word and the monitor. -/
def depth (s : Shared n) (t : Fin n) : Nat :=
  match s.lockWord with
  | .thin owner count => if owner = t then count + 1 else 0
  | .fat _ => if s.monitor.owner = some t then s.monitor.lockCount + 1 else 0
  | _ => 0

/-- The identity hash code of the object, 0 if it has none yet. -/
def hash (s : Shared n) : Nat :=
  match s.lockWord with
  | .fat _ => s.monitor.hashCode
  | .hash code => code
  | _ => 0

def Sound (s : Shared n) : Prop :=
  match s.lockWord with
  | .unlocked => True
  | .thin _ count => count ≤ kThinLockMaxCount
  | .fat _ => (s.monitor.owner = none → s.monitor.lockCount = 0) ∧ s.monitor.hashCode ≤ kMaxHash
  | .hash code => code ≠ 0 ∧ code ≤ kMaxHash

end Shared

/-- The lock word that `Install` may find. -/
def LockWord.Inflatable : LockWord n → Option (Fin n) → Nat → Prop
  | .unlocked,_,_ => False
  | .thin x _,owner,_ => owner = some x
  | .fat _,_,_ => True
  | .hash found,owner,code => owner = none ∧ code = found

/-- The thread holds what its calls have left it, at a monitor it may have the object's. -/
def Locker.Fits (s : Shared n) (t : Fin n) : Locker → Prop
  | .enter => s.depth t = s.held t
  | .wait saved => s.depth t = 0 ∧ s.held t = saved + 1

def Fits (s : Shared n) (t : Fin n) : Pc n → Prop
  | .idle | .load _ | .compareThin _ | .resume _ _ => s.depth t = s.held t
  | .thrown | .findOwner _ => s.depth t = s.held t ∧ s.held t = 0
  | .recurse count => s.depth t = s.held t ∧ s.lockWord = .thin t count ∧ count + 1 ≤ kThinLockMaxCount
  | .release count => s.depth t = s.held t ∧ s.lockWord = .thin t count
  | .compareHash code => s.depth t = s.held t ∧ code ≠ 0 ∧ code ≤ kMaxHash
  | .answer code => s.depth t = s.held t ∧ code ≠ 0 ∧ s.hash = code
  | .suspend _ code _ | .recheck _ code _ => s.depth t = s.held t ∧ code ≤ kMaxHash
  | .create owner code _ | .install owner code _ =>
    s.depth t = s.held t ∧ code ≤ kMaxHash ∧ s.lockWord.Inflatable owner code
  | .publish owner code word _ =>
    s.depth t = s.held t ∧ code ≤ kMaxHash ∧ s.lockWord.Inflatable owner code ∧ word.Inflatable owner code ∧
      ∀ k, word ≠ .fat k
  | .published _ _ => s.depth t = s.held t ∧ ∃ k, s.lockWord = .fat k
  | .lock k locker | .contend k locker | .blocked k locker => locker.Fits s t ∧ s.lockWord = .fat k
  | .unlock k | .wait k | .notify k _ | .getHashCode k => s.depth t = s.held t ∧ s.lockWord = .fat k
  | .compareCode k code => s.depth t = s.held t ∧ s.lockWord = .fat k ∧ code ≠ 0 ∧ code ≤ kMaxHash
  | .waiting k saved => (s.depth t = 0 ∧ s.held t = saved + 1) ∧ s.lockWord = .fat k
  | .restore k saved => (s.depth t = 1 ∧ s.held t = saved + 1) ∧ s.lockWord = .fat k

structure Queues (s : Shared n) (pc : Fin n → Pc n) : Prop where
  waiters : s.monitor.numWaiters = (census fun t => (pc t).contends) + census fun t => (pc t).waits
  wake : ∀ t, s.asleep t = true → s.monitor.owner ≠ none ∨ ∃ u, (pc u).contends = true ∧ s.asleep u = false
  nodup : s.monitor.waitSet.Nodup
  members : ∀ t ∈ s.monitor.waitSet, (pc t).waits = true

structure Consistent (m : Machine n) : Prop where
  alive : m.aborted ≠ some .inconsistent
  fits : ∀ t, Fits m.toShared t (m.pc t)
  suspends : ∀ t x, (m.pc t).suspends t = some x → (m.pc x).safe = true
  sound : m.Sound
  asleep : ∀ t, m.asleep t = true → (m.pc t).blocks = true
  queues : ∀ k, m.lockWord = .fat k → Queues m.toShared m.pc
  hashes : ∀ code ∈ m.hashes, code ≠ 0 ∧ m.hash = code

/-- What a step of the thread `t` can do to the lock word. -/
inductive Moves (m : Machine n) (t : Fin n) : LockWord n → LockWord n → Prop where
  | same (word : LockWord n) : Moves m t word word
  | take : Moves m t .unlocked (.thin t 0)
  | hash (code : Nat) : Moves m t .unlocked (.hash code)
  | own (runs : (m.pc t).safe = false) (count : Nat) (word : LockWord n) : Moves m t (.thin t count) word
  | inflate {x : Fin n} (still : x = t ∨ (m.pc t).suspends t = some x) (count k : Nat) :
    Moves m t (.thin x count) (.fat k)
  | inflateHash (code k : Nat) : Moves m t (.hash code) (.fat k)

section Step

variable {m : Machine n} {t u : Fin n} {s : Shared n} {pc : Pc n}

theorem Moves.fat {word : LockWord n} {k : Nat} (moves : Moves m t (.fat k) word) : word = .fat k := by
  cases moves
  rfl

theorem Consistent.thin_kept (c : Consistent m) (other : u ≠ t) (runs : (m.pc u).safe = false) {count : Nat}
    {word : LockWord n} (moves : Moves m t (.thin u count) word) : word = .thin u count := by
  cases moves with
  | same => rfl
  | own => exact absurd rfl other
  | inflate still =>
    rcases still with same | suspended
    · exact absurd same other
    · rw [c.suspends t u suspended] at runs
      nomatch runs

theorem Consistent.inflatable_kept (c : Consistent m) (other : u ≠ t) {owner : Option (Fin n)} {code : Nat}
    (still : ∀ x, owner = some x → x = u ∨ (m.pc u).suspends u = some x) {word word' : LockWord n}
    (moves : Moves m t word word') (fits : word.Inflatable owner code) : word'.Inflatable owner code := by
  cases moves with
  | same => exact fits
  | take | hash => exact fits.elim
  | own runs =>
    rcases still t fits with same | suspended
    · exact absurd same.symm other
    · rw [c.suspends u t suspended] at runs
      nomatch runs
  | inflate | inflateHash => trivial

theorem still_of (x : Fin n) : x = u ∨ (some x).filter (· ≠ u) = some x := by
  by_cases same : x = u
  · exact .inl same
  · exact .inr (by simp [same])

theorem Consistent.fits_kept (c : Consistent m) (other : u ≠ t) (moves : Moves m t m.lockWord s.lockWord)
    (held : s.held u = m.held u) (depth : s.depth u = m.depth u) (hash : m.hash ≠ 0 → s.hash = m.hash) :
    Fits s u (m.pc u) := by
  have fits := c.fits u
  have fat : ∀ k, m.lockWord = .fat k → s.lockWord = .fat k := by
    intro k word
    rw [word] at moves
    exact moves.fat
  have locker : ∀ l : Locker, l.Fits m.toShared u → l.Fits s u := by
    intro l
    cases l with
    | enter => simp only [Locker.Fits,held,depth,imp_self]
    | wait => simp only [Locker.Fits,held,depth,imp_self]
  have thin : (m.pc u).safe = false → ∀ count, m.lockWord = .thin u count → s.lockWord = .thin u count := by
    intro runs count word
    rw [word] at moves
    exact c.thin_kept other runs moves
  have inflatable : ∀ owner code, (∀ x, owner = some x → x = u ∨ (m.pc u).suspends u = some x) →
      m.lockWord.Inflatable owner code → s.lockWord.Inflatable owner code :=
    fun _ _ still => c.inflatable_kept other still moves
  cases place : m.pc u with
  | idle | load | compareThin | resume | thrown | findOwner | suspend | recheck | compareHash =>
    rw [place] at fits
    simpa only [Fits,held,depth] using fits
  | recurse count =>
    rw [place] at fits thin
    obtain ⟨same,word,small⟩ := fits
    exact ⟨by rw [depth,held,same],thin rfl count word,small⟩
  | release count =>
    rw [place] at fits thin
    obtain ⟨same,word⟩ := fits
    exact ⟨by rw [depth,held,same],thin rfl count word⟩
  | answer code =>
    rw [place] at fits
    obtain ⟨same,nonzero,code⟩ := fits
    exact ⟨by rw [depth,held,same],nonzero,by rw [hash (by rw [code]; exact nonzero),code]⟩
  | create owner code | install owner code =>
    rw [place] at fits inflatable
    obtain ⟨same,small,word⟩ := fits
    exact ⟨by rw [depth,held,same],small,inflatable owner code (by rintro x rfl; exact still_of x) word⟩
  | publish owner code word call =>
    rw [place] at fits inflatable
    obtain ⟨same,small,found,expected,thin⟩ := fits
    exact ⟨by rw [depth,held,same],small,inflatable owner code (by rintro x rfl; exact still_of x) found,expected,thin⟩
  | published =>
    rw [place] at fits
    obtain ⟨same,k,word⟩ := fits
    exact ⟨by rw [depth,held,same],k,fat k word⟩
  | lock k l | contend k l | blocked k l =>
    rw [place] at fits
    exact ⟨locker l fits.1,fat k fits.2⟩
  | unlock k | wait k | notify k | getHashCode k | compareCode k | waiting k | restore k =>
    rw [place] at fits
    simp only [Fits,held,depth] at fits ⊢
    tauto

/-- The invariant after a step of the thread `t`, from what the step does to the thread itself and to what all share. -/
theorem Consistent.after (c : Consistent m) (alive : s.aborted ≠ some .inconsistent)
    (moves : Moves m t m.lockWord s.lockWord) (held : ∀ u, u ≠ t → s.held u = m.held u)
    (depth : ∀ u, u ≠ t → s.depth u = m.depth u) (hash : m.hash ≠ 0 → s.hash = m.hash) (fits : Fits s t pc)
    (suspends : ∀ x, pc.suspends t = some x → x ≠ t ∧ (m.pc x).safe = true)
    (runs : pc.safe = true ∨ ∀ u, (m.pc u).suspends u ≠ some t) (sound : s.Sound)
    (asleep : ∀ u, s.asleep u = true → (Function.update m.pc t pc u).blocks = true)
    (queues : ∀ k, s.lockWord = .fat k → Queues s (Function.update m.pc t pc))
    (hashes : ∀ code ∈ s.hashes, code ∈ m.hashes ∨ code ≠ 0 ∧ s.hash = code) :
    Consistent { s with pc := Function.update m.pc t pc } := by
  refine ⟨alive,fun u => ?_,fun u x => ?_,sound,asleep,queues,fun code member => ?_⟩
  · by_cases acting : u = t
    · subst acting
      simpa only [Function.update_self] using fits
    · simpa only [Function.update_of_ne acting] using c.fits_kept acting moves (held u acting) (depth u acting) hash
  · intro suspended
    have before : x ≠ t → (m.pc x).safe = true := by
      intro other
      by_cases acting : u = t
      · subst acting
        simp only [Function.update_self] at suspended
        exact (suspends x suspended).2
      · simp only [Function.update_of_ne acting] at suspended
        exact c.suspends u x suspended
    by_cases own : x = t
    · subst own
      simp only [Function.update_self]
      by_cases acting : u = x
      · subst acting
        simp only [Function.update_self] at suspended
        exact absurd rfl (suspends u suspended).1
      · simp only [Function.update_of_ne acting] at suspended
        exact runs.resolve_right fun free => free u suspended
    · simpa only [Function.update_of_ne own] using before own
  · rcases hashes code member with old | new
    · obtain ⟨nonzero,same⟩ := c.hashes code old
      exact ⟨nonzero,(hash (by rw [same]; exact nonzero)).trans same⟩
    · exact new

theorem Queues.keep {monitor : Monitor n} {place : Fin n → Pc n} (q : Queues m.toShared place)
    (owner : m.monitor.owner ≠ none → monitor.owner ≠ none) (waiters : monitor.numWaiters = m.monitor.numWaiters)
    (set : monitor.waitSet = m.monitor.waitSet) (contends : pc.contends = (place t).contends)
    (waits : pc.waits = (place t).waits) :
    Queues { m.toShared with monitor := monitor } (Function.update place t pc) := by
  have contenders : ∀ u, (Function.update place t pc u).contends = (place u).contends := by
    intro u
    by_cases acting : u = t
    · subst acting
      rw [Function.update_self,contends]
    · rw [Function.update_of_ne acting]
  have waiting : ∀ u, (Function.update place t pc u).waits = (place u).waits := by
    intro u
    by_cases acting : u = t
    · subst acting
      rw [Function.update_self,waits]
    · rw [Function.update_of_ne acting]
  refine ⟨?_,fun u sleeps => ?_,?_,fun u member => ?_⟩
  · simp only [contenders,waiting,waiters]
    exact q.waiters
  · simp only [contenders]
    exact (q.wake u sleeps).imp_left owner
  · simp only [set]
    exact q.nodup
  · rw [waiting]
    simp only [set] at member
    exact q.members u member

theorem Consistent.awake (c : Consistent m) (place : (m.pc t).blocks = false) : m.asleep t = false := by
  by_contra sleeps
  rw [c.asleep t (Bool.not_eq_false _ ▸ sleeps)] at place
  nomatch place

theorem Consistent.asleep_go (c : Consistent m) (awake : m.asleep t = false) :
    ∀ u, m.asleep u = true → (Function.update m.pc t pc u).blocks = true := by
  intro u sleeps
  have other : u ≠ t := by
    rintro rfl
    rw [awake] at sleeps
    nomatch sleeps
  rw [Function.update_of_ne other]
  exact c.asleep u sleeps

theorem Consistent.skip (c : Consistent m) (blocks : (m.pc t).blocks = false) (fits : Fits m.toShared t pc)
    (suspends : ∀ x, pc.suspends t = some x → x ≠ t ∧ (m.pc x).safe = true)
    (runs : pc.safe = true ∨ ∀ u, (m.pc u).suspends u ≠ some t) (contends : pc.contends = (m.pc t).contends)
    (waits : pc.waits = (m.pc t).waits) : Consistent { m.toShared with pc := Function.update m.pc t pc } :=
  c.after c.alive (.same _) (fun _ _ => rfl) (fun _ _ => rfl) (fun _ => rfl) fits suspends runs c.sound
    (c.asleep_go (c.awake blocks))
    (fun k word => (c.queues k word).keep id rfl rfl contends waits) fun _ member => .inl member

theorem dispatch_fits (maxSpins : Nat) {fresh : Nat} {call : Call} (depth : s.depth t = s.held t) (sound : s.Sound)
    (nonzero : fresh ≠ 0) (small : fresh ≤ kMaxHash) : Fits s t (dispatch maxSpins t fresh call s.lockWord) := by
  have outside : ∀ x, s.lockWord = x → (x = .unlocked ∨ (∃ code, x = .hash code) ∨ ∃ y count, x = .thin y count ∧
    y ≠ t) →
      s.held t = 0 := by
    rintro x word (rfl | ⟨code,rfl⟩ | ⟨y,count,rfl,other⟩)
    · rw [← depth,Shared.depth,word]
    · rw [← depth,Shared.depth,word]
    · rw [← depth,Shared.depth,word]
      exact if_neg other
  cases word : s.lockWord with
  | unlocked =>
    have free := outside _ word (.inl rfl)
    cases call with
    | enter => exact depth
    | exit | wait | notify => exact ⟨depth,free⟩
    | identityHashCode => exact ⟨depth,nonzero,small⟩
  | thin owner count =>
    by_cases own : owner = t
    · subst own
      cases call with
      | enter contention =>
        by_cases room : count + 1 ≤ kThinLockMaxCount
        · rw [dispatch,if_pos rfl,if_pos room]
          exact ⟨depth,word,room⟩
        · rw [dispatch,if_pos rfl,if_neg room]
          exact ⟨depth,Nat.zero_le _,by rw [word]; rfl⟩
      | exit =>
        rw [dispatch,if_pos rfl]
        exact ⟨depth,word⟩
      | wait =>
        rw [dispatch,if_pos rfl]
        exact ⟨depth,Nat.zero_le _,by rw [word]; rfl⟩
      | notify =>
        rw [dispatch,if_pos rfl]
        exact depth
      | identityHashCode =>
        rw [dispatch,if_pos rfl]
        exact ⟨depth,small,by rw [word]; rfl⟩
    · have free := outside _ word (.inr (.inr ⟨owner,count,rfl,own⟩))
      cases call with
      | enter contention =>
        rw [dispatch,if_neg own]
        split
        · exact depth
        · exact ⟨depth,Nat.zero_le _⟩
      | exit | wait | notify =>
        rw [dispatch,if_neg own]
        exact ⟨depth,free⟩
      | identityHashCode =>
        rw [dispatch,if_neg own]
        exact ⟨depth,small⟩
  | fat k =>
    cases call with
    | enter | exit | wait | notify | identityHashCode => exact ⟨depth,word⟩
  | hash code =>
    have free := outside _ word (.inr (.inl ⟨code,rfl⟩))
    rw [Shared.Sound,word] at sound
    cases call with
    | enter => exact ⟨depth,sound.2,by rw [word]; exact ⟨rfl,rfl⟩⟩
    | exit | wait | notify => exact ⟨depth,free⟩
    | identityHashCode => exact ⟨depth,sound.1,by rw [Shared.hash,word]⟩

theorem dispatch_quiet (maxSpins : Nat) (fresh : Nat) (call : Call) (word : LockWord n) :
    (dispatch maxSpins t fresh call word).suspends t = none ∧ (dispatch maxSpins t fresh call word).contends = false ∧
      (dispatch maxSpins t fresh call word).waits = false := by
  cases call <;> cases word <;> simp only [dispatch]
  all_goals (try split_ifs) <;> simp [Pc.suspends,Pc.contends,Pc.waits,Locker.waits]

theorem inflated_fits (owner : Option (Fin n)) (call : Call) (depth : s.depth t = s.held t) :
    Fits s t (inflated t owner call) := by
  unfold inflated
  split
  · exact depth
  · split
    · exact depth
    · exact depth

/-- After `Inflate` a thread that was suspended for it still is. -/
theorem inflated_suspends (owner : Option (Fin n)) (call : Call) :
    (inflated t owner call).suspends t = (Pc.published owner call).suspends t := by
  cases owner with
  | none => rfl
  | some x =>
    by_cases own : x = t
    · simp [inflated,own,Pc.suspends,Option.filter_some]
    · simp [inflated,own,Pc.suspends]

theorem inflated_quiet (owner : Option (Fin n)) (call : Call) :
    (inflated t owner call).contends = false ∧ (inflated t owner call).waits = false := by
  unfold inflated
  split
  · exact ⟨rfl,rfl⟩
  · split
    · exact ⟨rfl,rfl⟩
    · exact ⟨rfl,rfl⟩

theorem suspends_other {pc : Pc n} {x : Fin n} (suspended : pc.suspends t = some x) : x ≠ t := by
  cases pc
  case recheck | resume =>
    simp only [Pc.suspends,Option.filter_some] at suspended
    grind
  case create | install | publish | published => simpa using (Option.filter_eq_some_iff.mp suspended).2
  all_goals nomatch suspended

theorem Consistent.suspended_kept (c : Consistent m) (same : pc.suspends t = (m.pc t).suspends t) (x : Fin n)
    (suspended : pc.suspends t = some x) : x ≠ t ∧ (m.pc x).safe = true :=
  ⟨suspends_other suspended,c.suspends t x (same ▸ suspended)⟩

theorem fits_monitor {pc : Pc n} {k : Nat} (fits : Fits s t pc) (refers : pc.monitor = some k) :
    s.lockWord = .fat k := by
  cases pc
  case lock | contend | blocked | unlock | wait | waiting | restore | notify | getHashCode =>
    cases refers
    exact fits.2
  case compareCode =>
    cases refers
    exact fits.2.1
  all_goals nomatch refers

theorem monitor_of_contends {pc : Pc n} (contends : pc.contends = true) : ∃ k, pc.monitor = some k := by
  cases pc
  case contend k _ => exact ⟨k,rfl⟩
  case blocked k _ => exact ⟨k,rfl⟩
  all_goals nomatch contends

theorem monitor_of_waits {pc : Pc n} (waits : pc.waits = true) : ∃ k, pc.monitor = some k := by
  cases pc
  case lock k _ => exact ⟨k,rfl⟩
  case contend k _ => exact ⟨k,rfl⟩
  case blocked k _ => exact ⟨k,rfl⟩
  case waiting k _ => exact ⟨k,rfl⟩
  case restore k _ => exact ⟨k,rfl⟩
  all_goals nomatch waits

theorem contends_of_blocks {pc : Pc n} (blocks : pc.blocks = true) : pc.contends = true := by
  cases pc
  case blocked => rfl
  all_goals nomatch blocks

theorem Consistent.quiet (c : Consistent m) (thin : ∀ k, m.lockWord ≠ .fat k) (u : Fin n) :
    (m.pc u).contends = false ∧ (m.pc u).waits = false := by
  refine ⟨Bool.eq_false_of_not_eq_true fun contends => ?_,Bool.eq_false_of_not_eq_true fun waits => ?_⟩
  · obtain ⟨k,refers⟩ := monitor_of_contends contends
    exact thin k (fits_monitor (c.fits u) refers)
  · obtain ⟨k,refers⟩ := monitor_of_waits waits
    exact thin k (fits_monitor (c.fits u) refers)

theorem Consistent.after_compareThin (c : Consistent m) {contention : Nat} (place : m.pc t = .compareThin contention)
    (word : m.lockWord = .unlocked) : Consistent
      { m with
        lockWord := .thin t 0
        held := Function.update m.held t (m.held t + 1)
        pc := Function.update m.pc t .idle } := by
  have fits := c.fits t
  rw [place] at fits
  have held : m.held t = 0 := by
    rw [← show m.depth t = m.held t from fits,Shared.depth,word]
  refine c.after (s := { m.toShared with lockWord := .thin t 0, held := Function.update m.held t (m.held t + 1) })
    c.alive (word ▸ .take) (fun u other => Function.update_of_ne other ..) (fun u other => ?_)
      (fun nonzero => ?_) ?_ nofun
    (.inl rfl) (Nat.zero_le _) (c.asleep_go (c.awake (by rw [place]; rfl))) nofun fun _ member => .inl member
  · simp [Shared.depth,word,Ne.symm other]
  · rw [Shared.hash,word] at nonzero
    exact absurd rfl nonzero
  · simp [Fits,Shared.depth,held]

theorem Consistent.after_own (c : Consistent m) {count held : Nat} {word : LockWord n} (runs : (m.pc t).safe = false)
    (blocks : (m.pc t).blocks = false) (own : m.lockWord = .thin t count)
    (depth : ∀ s : Shared n, s.lockWord = word → s.depth t = held ∧ (∀ u, u ≠ t → s.depth u = 0) ∧ s.Sound)
    (thin : ∀ k, word ≠ .fat k) : Consistent
      { m with
        lockWord := word
        held := Function.update m.held t held
        pc := Function.update m.pc t .idle } := by
  obtain ⟨mine,others,sound⟩ := depth { m.toShared with lockWord := word, held := Function.update m.held t held } rfl
  refine c.after (s := { m.toShared with lockWord := word, held := Function.update m.held t held }) c.alive
    (own ▸ .own runs count word) (fun u other => Function.update_of_ne other ..) (fun u other => ?_)
      (fun nonzero => ?_) ?_
    nofun (.inl rfl) sound (c.asleep_go (c.awake blocks)) (fun k fat => absurd fat (thin k)) fun _ member => .inl member
  · rw [others u other]
    simp [Shared.depth,own,Ne.symm other]
  · rw [Shared.hash,own] at nonzero
    exact absurd rfl nonzero
  · simp [Fits,mine]

theorem Consistent.after_compareHash (c : Consistent m) {code : Nat} (place : m.pc t = .compareHash code)
    (word : m.lockWord = .unlocked) (runs : ∀ u, (m.pc u).suspends u ≠ some t) : Consistent
      { m with lockWord := .hash code, pc := Function.update m.pc t (.answer code) } := by
  have fits := c.fits t
  rw [place] at fits
  obtain ⟨depth,nonzero,small⟩ := fits
  refine c.after (s := { m.toShared with lockWord := .hash code }) c.alive (word ▸ .hash code) (fun _ _ => rfl)
    (fun u _ => ?_) (fun hashed => ?_) ⟨?_,nonzero,rfl⟩ nofun (.inr runs) ⟨nonzero,small⟩
    (c.asleep_go (c.awake (by rw [place]; rfl))) nofun fun _ member => .inl member
  · simp [Shared.depth,word]
  · rw [Shared.hash,word] at hashed
    exact absurd rfl hashed
  · rw [← depth]
    simp [Shared.depth,word]

theorem Consistent.after_publish (c : Consistent m) {owner : Option (Fin n)} {code : Nat} {call : Call}
    (place : m.pc t = .publish owner code m.lockWord call) (runs : ∀ u, (m.pc u).suspends u ≠ some t) : Consistent
      { m with
        lockWord := .fat m.created
        monitor := ⟨owner,m.lockWord.count,0,[],code⟩
        created := m.created + 1
        pc := Function.update m.pc t (.published owner call) } := by
  have fits := c.fits t
  rw [place] at fits
  obtain ⟨same,small,inflatable,-,thin⟩ := fits
  have quiet := c.quiet thin
  have depth : ∀ u, Shared.depth { m.toShared with
      lockWord := .fat m.created, monitor := ⟨owner,m.lockWord.count,0,[],code⟩, created := m.created + 1 } u =
        m.depth u := by
    intro u
    cases word : m.lockWord with
    | unlocked =>
      rw [word] at inflatable
      exact inflatable.elim
    | thin x count =>
      rw [word] at inflatable
      simp [Shared.depth,word,show owner = some x from inflatable,LockWord.count]
    | fat k => exact absurd word (thin k)
    | hash found =>
      rw [word] at inflatable
      simp [Shared.depth,word,inflatable.1]
  have still : ∀ x, owner = some x → x = t ∨ (m.pc t).suspends t = some x := by
    rintro x rfl
    rw [place]
    exact still_of x
  refine c.after c.alive ?_ (fun _ _ => rfl) (fun u _ => depth u) (fun nonzero => ?_) ⟨(depth t).trans same,_,rfl⟩
    (c.suspended_kept (by rw [place]; rfl)) (.inr runs) ⟨fun unowned => ?_,small⟩
    (c.asleep_go (c.awake (by rw [place]; rfl))) (fun k _ => ⟨?_,fun u sleeps => ?_,List.nodup_nil,nofun⟩)
    fun _ member => .inl member
  · cases word : m.lockWord with
    | unlocked =>
      rw [word] at inflatable
      exact inflatable.elim
    | thin x count =>
      rw [word] at inflatable
      exact .inflate (still x inflatable) count m.created
    | fat k => exact absurd word (thin k)
    | hash found => exact .inflateHash found m.created
  · cases word : m.lockWord with
    | unlocked | thin => exact absurd (by rw [Shared.hash,word]) nonzero
    | fat k => exact absurd word (thin k)
    | hash found =>
      rw [word] at inflatable
      simp [Shared.hash,word,inflatable.2]
  · cases word : m.lockWord with
    | unlocked | fat | hash => rfl
    | thin x count =>
      rw [word] at inflatable
      nomatch (show owner = some x from inflatable).symm.trans unowned
  · have contends : ∀ u, (Function.update m.pc t (.published owner call) u).contends = false := by
      intro u
      by_cases acting : u = t
      · rw [acting,Function.update_self]
        rfl
      · rw [Function.update_of_ne acting]
        exact (quiet u).1
    have waits : ∀ u, (Function.update m.pc t (.published owner call) u).waits = false := by
      intro u
      by_cases acting : u = t
      · rw [acting,Function.update_self]
        rfl
      · rw [Function.update_of_ne acting]
        exact (quiet u).2
    rw [census_eq_zero_iff.mpr contends,census_eq_zero_iff.mpr waits]
  · have contends := contends_of_blocks (c.asleep u sleeps)
    rw [(quiet u).1] at contends
    nomatch contends

/-- The monitor changes in a critical section of the thread `t`, or in what is the same for every owner. -/
theorem Consistent.after_monitor (c : Consistent m) {k : Nat} {monitor : Monitor n} {asleep : Fin n → Bool}
    {held : Fin n → Nat} (word : m.lockWord = .fat k) (others : ∀ u, u ≠ t → held u = m.held u)
    (mine : monitor.owner = m.monitor.owner ∧ monitor.lockCount = m.monitor.lockCount ∨
      ∀ u, u ≠ t → monitor.owner ≠ some u ∧ m.monitor.owner ≠ some u)
    (free : monitor.owner = none → monitor.lockCount = 0) (small : monitor.hashCode ≤ kMaxHash)
    (hash : m.monitor.hashCode ≠ 0 → monitor.hashCode = m.monitor.hashCode)
    (fits : Fits { m.toShared with monitor := monitor, asleep := asleep, held := held } t pc)
    (suspends : pc.suspends t = none) (runs : pc.safe = true ∨ ∀ u, (m.pc u).suspends u ≠ some t)
    (sleepers : ∀ u, asleep u = true → (Function.update m.pc t pc u).blocks = true)
    (queues : Queues { m.toShared with monitor := monitor, asleep := asleep, held := held }
      (Function.update m.pc t pc)) :
    Consistent { m with monitor := monitor, asleep := asleep, held := held, pc := Function.update m.pc t pc } := by
  refine c.after (s := { m.toShared with monitor := monitor, asleep := asleep, held := held }) c.alive (.same _) others
    (fun u other => ?_) (fun nonzero => ?_) fits (fun x suspended => nomatch suspends.symm.trans suspended)
      runs ?_ sleepers
    (fun _ _ => queues) fun _ member => .inl member
  · rcases mine with ⟨owner,count⟩ | apart
    · simp [Shared.depth,word,owner,count]
    · simp [Shared.depth,word,(apart u other).1,(apart u other).2]
  · simp only [Shared.hash,word] at nonzero ⊢
    exact hash nonzero
  · simp only [Shared.Sound,word]
    exact ⟨free,small⟩

theorem Consistent.fat_sound (c : Consistent m) {k : Nat} (word : m.lockWord = .fat k) :
    (m.monitor.owner = none → m.monitor.lockCount = 0) ∧ m.monitor.hashCode ≤ kMaxHash := by
  have sound := c.sound
  rw [Shared.Sound,word] at sound
  exact sound

theorem depth_fat {k : Nat} (word : s.lockWord = .fat k) (u : Fin n) :
    s.depth u = if s.monitor.owner = some u then s.monitor.lockCount + 1 else 0 := by
  rw [Shared.depth,word]

theorem Queues.waiters_go {place : Fin n → Pc n} (q : Queues s place) {waiters : Nat}
    (balance : waiters + ((place t).contends.toNat + (place t).waits.toNat) =
      s.monitor.numWaiters + (pc.contends.toNat + pc.waits.toNat)) :
    waiters = (census fun u => (Function.update place t pc u).contends) +
      census fun u => (Function.update place t pc u).waits := by
  have contenders := census_change (sameBut_update Pc.contends place t pc)
  have waiting := census_change (sameBut_update Pc.waits place t pc)
  have before := q.waiters
  simp only [Function.update_self] at contenders waiting
  omega

theorem Queues.members_go {place : Fin n → Pc n} (q : Queues s place) {set : List (Fin n)}
    (old : ∀ u ∈ set, u ≠ t → u ∈ s.monitor.waitSet) (own : t ∈ set → pc.waits = true) :
    ∀ u ∈ set, (Function.update place t pc u).waits = true := by
  intro u member
  by_cases acting : u = t
  · subst acting
    rw [Function.update_self]
    exact own member
  · rw [Function.update_of_ne acting]
    exact q.members u (old u member acting)

/-- `Monitor::Lock` from its first attempt or after a contention; `w` is `num_waiters_` without this contention. -/
theorem Consistent.after_tryLock (c : Consistent m) {k w : Nat} {locker : Locker} (word : m.lockWord = .fat k)
    (fits : locker.Fits m.toShared t) (awake : m.asleep t = false) (waits : (m.pc t).waits = locker.waits)
    (count : w + (m.pc t).contends.toNat = m.monitor.numWaiters)
    (taken : { m.toShared with monitor := { m.monitor with numWaiters := w } }.tryLock t k locker = (s,pc))
    (runs : pc.safe = true ∨ ∀ u, (m.pc u).suspends u ≠ some t) :
    Consistent { s with pc := Function.update m.pc t pc } := by
  obtain ⟨free,small⟩ := c.fat_sound word
  have queues := c.queues k word
  have sleepers : ∀ pc : Pc n, ∀ u, m.asleep u = true → (Function.update m.pc t pc u).blocks = true :=
    fun _ => c.asleep_go awake
  have depth := depth_fat word t
  have same : ∀ u, u ≠ t → some t ≠ some u := fun u other same => other (Option.some.inj same).symm
  unfold Shared.tryLock at taken
  simp only at taken
  split at taken
  · rename_i unowned
    rw [if_pos (free unowned)] at taken
    rw [if_neg (by rw [unowned]; nofun)] at depth
    have mine : ∀ u, u ≠ t → some t ≠ some u ∧ m.monitor.owner ≠ some u := fun u other =>
      ⟨same u other,by rw [unowned]; nofun⟩
    cases locker with
    | enter =>
      cases taken
      have zero : m.held t = 0 := (show m.depth t = m.held t from fits).symm.trans depth
      refine c.after_monitor word (fun u other => Function.update_of_ne other ..) (.inr mine) nofun small
        (fun _ => rfl) ?_
        rfl (.inl rfl) (sleepers _) ⟨?_,fun _ _ => .inl nofun,queues.nodup,?_⟩
      · simp [Fits,Shared.depth,word,free unowned,zero]
      · refine queues.waiters_go ?_
        rw [waits]
        show w + (_ + 0) = _ + (0 + 0)
        omega
      · exact queues.members_go (fun _ member _ => member) fun member =>
          absurd (queues.members t member) (by rw [waits]; nofun)
    | wait saved =>
      cases taken
      refine c.after_monitor word (fun _ _ => rfl) (.inr mine) nofun small (fun _ => rfl) ⟨⟨?_,fits.2⟩,word⟩
        rfl runs (sleepers _) ⟨?_,fun _ _ => .inl nofun,queues.nodup,?_⟩
      · simp [Shared.depth,word,free unowned]
      · refine queues.waiters_go ?_
        rw [waits]
        show w + (_ + 1) = _ + (0 + 1)
        omega
      · exact queues.members_go (fun _ member _ => member) fun _ => rfl
  · rename_i x owned
    split at taken
    · rename_i own
      subst own
      rw [if_pos owned] at depth
      have mine : ∀ u, u ≠ x → m.monitor.owner ≠ some u ∧ m.monitor.owner ≠ some u := fun u other => by
        rw [owned]
        exact ⟨same u other,same u other⟩
      cases locker with
      | enter =>
        cases taken
        have count' : m.depth x = m.held x := fits
        refine c.after_monitor word (fun u other => Function.update_of_ne other ..) (.inr mine)
          (fun unowned => nomatch owned.symm.trans unowned) small (fun _ => rfl) ?_
          rfl (.inl rfl) (sleepers _) ⟨?_,fun _ _ => .inl (by rw [owned]; nofun),queues.nodup,?_⟩
        · simp [Fits,Shared.depth,word,owned,← count']
        · refine queues.waiters_go ?_
          rw [waits]
          show w + (_ + 0) = _ + (0 + 0)
          omega
        · exact queues.members_go (fun _ member _ => member) fun member =>
            absurd (queues.members x member) (by rw [waits]; nofun)
      | wait saved => nomatch fits.1.symm.trans depth
    · cases taken
      refine c.after_monitor word (fun _ _ => rfl) (.inl ⟨rfl,rfl⟩) free small (fun _ => rfl) ⟨?_,word⟩
        rfl runs (sleepers _) ⟨?_,fun _ _ => .inl (by rw [owned]; nofun),queues.nodup,?_⟩
      · cases locker with
        | enter =>
          have same : m.depth t = m.held t := fits
          simpa [Locker.Fits,Shared.depth,word] using same
        | wait saved => simpa [Locker.Fits,Shared.depth,word] using fits
      · refine queues.waiters_go ?_
        rw [waits]
        show w + 1 + _ = _ + (1 + locker.waits.toNat)
        omega
      · exact queues.members_go (fun _ member _ => member) fun member => waits.symm.trans (queues.members t member)

theorem signal_spec {woken : Fin n} {s' : Shared n} (signalled : s.signal woken = some s') :
    ∃ asleep, s' = { s with asleep := asleep } ∧ (∀ u, asleep u = true → s.asleep u = true) ∧
      ∀ u, asleep u = true → ∃ v, s.asleep v = true ∧ asleep v = false := by
  unfold Shared.signal at signalled
  split at signalled
  · rename_i sleeps
    cases signalled
    refine ⟨_,rfl,fun u still => ?_,fun u _ => ⟨woken,sleeps,Function.update_self ..⟩⟩
    by_cases same : u = woken
    · simp [same] at still
    · simpa [same] using still
  · split at signalled
    · nomatch signalled
    · rename_i nobody
      cases signalled
      exact ⟨_,rfl,fun _ => id,fun u sleeps => absurd ⟨u,sleeps⟩ nobody⟩

theorem Consistent.after_signal (c : Consistent m) {k : Nat} {monitor : Monitor n} {held : Fin n → Nat} {woken : Fin n}
    (signalled : { m.toShared with monitor := monitor, held := held }.signal woken = some s)
    (word : m.lockWord = .fat k) (owned : m.monitor.owner = some t) (blocks : (m.pc t).blocks = false)
    (others : ∀ u, u ≠ t → held u = m.held u) (unowned : monitor.owner = none) (count : monitor.lockCount = 0)
    (hash : monitor.hashCode = m.monitor.hashCode)
    (fits : ∀ asleep, Fits { m.toShared with monitor := monitor, asleep := asleep, held := held } t pc)
    (safe : pc.safe = true) (suspends : pc.suspends t = none)
    (balance : monitor.numWaiters + ((m.pc t).contends.toNat + (m.pc t).waits.toNat) =
      m.monitor.numWaiters + (pc.contends.toNat + pc.waits.toNat))
    (nodup : monitor.waitSet.Nodup) (members : ∀ u ∈ monitor.waitSet, (Function.update m.pc t pc u).waits = true) :
    Consistent { s with pc := Function.update m.pc t pc } := by
  obtain ⟨asleep,rfl,fewer,one⟩ := signal_spec signalled
  have awake := c.awake blocks
  refine c.after_monitor word others (.inr fun u other => ⟨by rw [unowned]; nofun,?_⟩) (fun _ => count) ?_
    (fun _ => hash)
    (fits asleep) suspends (.inl safe) (fun u sleeps => c.asleep_go awake u (fewer u sleeps))
    ⟨(c.queues k word).waiters_go balance,fun u sleeps => ?_,nodup,members⟩
  · rw [owned]
    exact fun same => other (Option.some.inj same).symm
  · rw [hash]
    exact (c.fat_sound word).2
  · obtain ⟨v,slept,woken⟩ := one u sleeps
    have blocked : (Function.update m.pc t pc v).blocks = true := c.asleep_go awake v slept
    exact .inr ⟨v,contends_of_blocks blocked,woken⟩

theorem Consistent.after_unlock (c : Consistent m) {k : Nat} {maxSpins fresh : Nat} {woken : Fin n}
    (place : m.pc t = .unlock k) (taken : next maxSpins m t fresh woken (.unlock k) = some (s,pc))
    (runs : pc.safe = true ∨ ∀ u, (m.pc u).suspends u ≠ some t) :
    Consistent { s with pc := Function.update m.pc t pc } := by
  have fits := c.fits t
  rw [place] at fits
  obtain ⟨same,word⟩ := fits
  have queues := c.queues k word
  have depth := depth_fat word t
  rw [same] at depth
  have members : ∀ u ∈ m.monitor.waitSet, (Function.update m.pc t .idle u).waits = true :=
    queues.members_go (fun _ member _ => member) fun member => absurd (queues.members t member) (by rw [place]; nofun)
  rw [next] at taken
  split at taken
  · rename_i owned
    rw [if_pos owned] at depth
    split at taken
    · rename_i zero
      obtain ⟨s',signalled,taken⟩ := Option.map_eq_some_iff.mp taken
      cases taken
      refine c.after_signal signalled word owned (by rw [place]; rfl) (fun u other => Function.update_of_ne other ..)
        rfl zero
        rfl (fun asleep => ?_) rfl rfl (by rw [place]; rfl) queues.nodup members
      simp [Fits,Shared.depth,word,depth,zero]
    · rename_i more
      cases taken
      refine c.after_monitor word (fun u other => Function.update_of_ne other ..) (.inr fun u other => ?_)
        (fun unowned => nomatch owned.symm.trans unowned) (c.fat_sound word).2 (fun _ => rfl) ?_ rfl (.inl rfl)
        (c.asleep_go (c.awake (by rw [place]; rfl)))
        ⟨queues.waiters_go (by rw [place]; rfl),fun _ _ => .inl (by rw [owned]; nofun),queues.nodup,members⟩
      · rw [owned]
        exact ⟨fun same => other (Option.some.inj same).symm,fun same => other (Option.some.inj same).symm⟩
      · simp [Fits,Shared.depth,word,owned,depth]
        omega
  · rename_i notOwned
    rw [if_neg notOwned] at depth
    cases taken
    exact c.skip (by rw [place]; rfl) ⟨same,depth⟩ nofun runs (by rw [place]; rfl) (by rw [place]; rfl)

theorem Consistent.after_wait (c : Consistent m) {k : Nat} {maxSpins fresh : Nat} {woken : Fin n}
    (place : m.pc t = .wait k) (taken : next maxSpins m t fresh woken (.wait k) = some (s,pc))
    (runs : pc.safe = true ∨ ∀ u, (m.pc u).suspends u ≠ some t) :
    Consistent { s with pc := Function.update m.pc t pc } := by
  have fits := c.fits t
  rw [place] at fits
  obtain ⟨same,word⟩ := fits
  have queues := c.queues k word
  have depth := depth_fat word t
  rw [same] at depth
  rw [next] at taken
  split at taken
  · rename_i owned
    rw [if_pos owned] at depth
    obtain ⟨s',signalled,taken⟩ := Option.map_eq_some_iff.mp taken
    cases taken
    have absent : t ∉ m.monitor.waitSet := fun member => absurd (queues.members t member) (by rw [place]; nofun)
    refine c.after_signal signalled word owned (by rw [place]; rfl) (fun _ _ => rfl) rfl rfl rfl
      (fun asleep => ?_) rfl rfl
      (by rw [place]; rfl) ?_ (queues.members_go (fun u member other => ?_) fun _ => rfl)
    · exact ⟨⟨by simp [Shared.depth,word],depth⟩,word⟩
    · exact List.nodup_append.mpr ⟨queues.nodup,List.nodup_singleton t,fun y present z last same =>
        absent (List.mem_singleton.mp last ▸ same ▸ present)⟩
    · simpa [other] using member
  · rename_i notOwned
    rw [if_neg notOwned] at depth
    cases taken
    exact c.skip (by rw [place]; rfl) ⟨same,depth⟩ nofun runs (by rw [place]; rfl) (by rw [place]; rfl)

theorem Consistent.after_restore (c : Consistent m) {k saved : Nat} (place : m.pc t = .restore k saved) : Consistent
      { m with
        monitor := { m.monitor with
          owner := some t, lockCount := saved, numWaiters := m.monitor.numWaiters - 1
          waitSet := m.monitor.waitSet.erase t }
        pc := Function.update m.pc t .idle } := by
  have fits := c.fits t
  rw [place] at fits
  obtain ⟨⟨one,held⟩,word⟩ := fits
  have queues := c.queues k word
  have depth := depth_fat word t
  rw [one] at depth
  have owned : m.monitor.owner = some t := by
    by_contra other
    rw [if_neg other] at depth
    nomatch depth
  have counted : 0 < m.monitor.numWaiters := by
    have waiting := census_pos (p := fun u => (m.pc u).waits) (t := t) (by rw [place]; rfl)
    have all := queues.waiters
    omega
  refine c.after_monitor word (fun _ _ => rfl) (.inr fun u other => ?_) nofun (c.fat_sound word).2 (fun _ => rfl) ?_ rfl
    (.inl rfl) (c.asleep_go (c.awake (by rw [place]; rfl)))
    ⟨queues.waiters_go ?_,fun _ _ => .inl nofun,queues.nodup.erase t,
      queues.members_go (fun u member _ => ?_) fun member => ?_⟩
  · rw [owned]
    exact ⟨fun same => other (Option.some.inj same).symm,fun same => other (Option.some.inj same).symm⟩
  · simp [Fits,Shared.depth,word,held]
  · rw [place]
    show m.monitor.numWaiters - 1 + (0 + 1) = m.monitor.numWaiters + (0 + 0)
    omega
  · exact List.mem_of_mem_erase member
  · exact absurd member (List.Nodup.not_mem_erase queues.nodup)

theorem notifyOne_sublist (waiting : Fin n → Bool) (set : List (Fin n)) : (notifyOne waiting set).Sublist set := by
  induction set with
  | nil => exact .slnil
  | cons x rest ih =>
    unfold notifyOne
    split
    · exact List.sublist_cons_self x rest
    · exact ih.cons x

theorem Consistent.after_notify (c : Consistent m) {k : Nat} {all : Bool} {maxSpins fresh : Nat} {woken : Fin n}
    (place : m.pc t = .notify k all) (taken : next maxSpins m t fresh woken (.notify k all) = some (s,pc))
    (runs : pc.safe = true ∨ ∀ u, (m.pc u).suspends u ≠ some t) :
    Consistent { s with pc := Function.update m.pc t pc } := by
  have fits := c.fits t
  rw [place] at fits
  obtain ⟨same,word⟩ := fits
  have queues := c.queues k word
  rw [next] at taken
  split at taken
  · rename_i owned
    cases taken
    have fewer : (if all then [] else notifyOne (fun x => (m.pc x).waitMonitor) m.monitor.waitSet).Sublist
        m.monitor.waitSet := by
      split
      · exact List.nil_sublist _
      · exact notifyOne_sublist ..
    refine c.after_monitor word (fun _ _ => rfl) (.inl ⟨rfl,rfl⟩) (c.fat_sound word).1 (c.fat_sound word).2
      (fun _ => rfl) ?_
      rfl (.inl rfl) (c.asleep_go (c.awake (by rw [place]; rfl)))
      ⟨queues.waiters_go (by rw [place]; rfl),fun _ _ => .inl (by rw [owned]; nofun),queues.nodup.sublist fewer,
        queues.members_go (fun u member _ => fewer.subset member) fun member => ?_⟩
    · simpa [Fits,Shared.depth,word] using same
    · exact absurd (queues.members t (fewer.subset member)) (by rw [place]; nofun)
  · rename_i notOwned
    have depth := depth_fat word t
    rw [same,if_neg notOwned] at depth
    cases taken
    exact c.skip (by rw [place]; rfl) ⟨same,depth⟩ nofun runs (by rw [place]; rfl) (by rw [place]; rfl)

theorem Consistent.after_compareCode (c : Consistent m) {k code : Nat} (place : m.pc t = .compareCode k code)
    (zero : m.monitor.hashCode = 0) (runs : ∀ u, (m.pc u).suspends u ≠ some t) : Consistent
      { m with monitor := { m.monitor with hashCode := code }, pc := Function.update m.pc t (.getHashCode k) } := by
  have fits := c.fits t
  rw [place] at fits
  obtain ⟨same,word,-,small⟩ := fits
  refine c.after_monitor word (fun _ _ => rfl) (.inl ⟨rfl,rfl⟩) (c.fat_sound word).1 small
    (fun nonzero => absurd zero nonzero)
    ⟨by simpa [Shared.depth,word] using same,word⟩ rfl (.inr runs) (c.asleep_go (c.awake (by rw [place]; rfl))) ?_
  exact (c.queues k word).keep id rfl rfl (by rw [place]; rfl) (by rw [place]; rfl)

theorem Consistent.after_answer (c : Consistent m) {code : Nat} (place : m.pc t = .answer code) : Consistent
      { m with hashes := m.hashes ++ [code], pc := Function.update m.pc t .idle } := by
  have fits := c.fits t
  rw [place] at fits
  obtain ⟨same,nonzero,hash⟩ := fits
  refine c.after (s := { m.toShared with hashes := m.hashes ++ [code] }) c.alive (.same _) (fun _ _ => rfl)
    (fun _ _ => rfl)
    (fun _ => rfl) same nofun (.inl rfl) c.sound (c.asleep_go (c.awake (by rw [place]; rfl))) (fun k word => ?_)
    fun found member => ?_
  · have queues : Queues { m.toShared with monitor := m.monitor } (Function.update m.pc t .idle) :=
      (c.queues k word).keep id rfl rfl (by rw [place]; rfl) (by rw [place]; rfl)
    exact ⟨queues.waiters,queues.wake,queues.nodup,queues.members⟩
  · rcases List.mem_append.mp member with old | new
    · exact .inl old
    · rw [List.mem_singleton.mp new]
      exact .inr ⟨nonzero,hash⟩

theorem Consistent.after_contend (c : Consistent m) {k : Nat} {locker : Locker} (place : m.pc t = .contend k locker) :
    Consistent
      { m with
        asleep := Function.update m.asleep t m.monitor.owner.isSome
        pc := Function.update m.pc t (.blocked k locker) } := by
  have fits := c.fits t
  rw [place] at fits
  obtain ⟨same,word⟩ := fits
  have queues := c.queues k word
  have awake := c.awake (t := t) (by rw [place]; rfl)
  refine c.after_monitor word (fun _ _ => rfl) (.inl ⟨rfl,rfl⟩) (c.fat_sound word).1
    (c.fat_sound word).2 (fun _ => rfl) ⟨?_,word⟩ rfl (.inl rfl) (fun u sleeps => ?_)
    ⟨queues.waiters_go (by rw [place]; rfl),fun u sleeps => ?_,queues.nodup,
      queues.members_go (fun _ member _ => member) fun member => ?_⟩
  · cases locker with
    | enter => exact same
    | wait saved => exact same
  · by_cases acting : u = t
    · rw [acting,Function.update_self]
      rfl
    · rw [Function.update_of_ne acting] at sleeps ⊢
      exact c.asleep u sleeps
  · cases owner : m.monitor.owner with
    | some x => exact .inl (by simp)
    | none => exact .inr ⟨t,by rw [Function.update_self]; rfl,by simp⟩
  · have waits := queues.members t member
    rw [place] at waits
    exact waits

/-- A step from the place `p` that changes nothing the threads share and suspends nobody. -/
theorem Consistent.look (c : Consistent m) {p : Pc n} (place : m.pc t = p) (blocks : p.blocks = false)
    (fits : Fits m.toShared t pc) (suspends : pc.suspends t = none ∨ pc.suspends t = p.suspends t)
    (runs : pc.safe = true ∨ ∀ u, (m.pc u).suspends u ≠ some t) (contends : pc.contends = p.contends)
    (waits : pc.waits = p.waits) : Consistent { m.toShared with pc := Function.update m.pc t pc } := by
  subst place
  refine c.skip blocks fits (fun x suspended => ?_) runs contends waits
  rcases suspends with quiet | same
  · nomatch quiet.symm.trans suspended
  · exact c.suspended_kept same x suspended

section Places

variable {maxSpins fresh : Nat} {woken : Fin n}

theorem Consistent.after_load (c : Consistent m) {call : Call} (place : m.pc t = .load call)
    (taken : next maxSpins m t fresh woken (.load call) = some (s,pc))
    (runs : pc.safe = true ∨ ∀ u, (m.pc u).suspends u ≠ some t) :
    Consistent { s with pc := Function.update m.pc t pc } := by
  have fits := c.fits t
  rw [place] at fits
  obtain ⟨⟨nonzero,small⟩,taken⟩ := Option.ite_none_right_eq_some.mp taken
  cases taken
  obtain ⟨quiet,contends,waits⟩ := dispatch_quiet (t := t) maxSpins fresh call m.lockWord
  exact c.look place rfl (dispatch_fits maxSpins fits c.sound nonzero small) (.inl quiet) runs contends waits

theorem Consistent.after_recurse (c : Consistent m) {count : Nat} (place : m.pc t = .recurse count)
    (taken : next maxSpins m t fresh woken (.recurse count) = some (s,pc)) :
    Consistent { s with pc := Function.update m.pc t pc } := by
  have fits := c.fits t
  rw [place] at fits
  obtain ⟨depth,word,room⟩ := fits
  rw [next,if_pos room] at taken
  cases taken
  refine c.after_own (by rw [place]; rfl) (by rw [place]; rfl) word (fun s same => ⟨?_,fun u other => ?_,?_⟩) nofun
  · rw [← depth]
    simp [Shared.depth,same,word]
  · simp [Shared.depth,same,Ne.symm other]
  · rw [Shared.Sound,same]
    exact room

theorem lowered_depth {count : Nat} (same : s.lockWord = .lowered t count) :
    s.depth t = count ∧ ∀ u, u ≠ t → s.depth u = 0 := by
  cases count with
  | zero => simp [Shared.depth,show s.lockWord = .unlocked from same]
  | succ count =>
    have word : s.lockWord = .thin t count := same
    refine ⟨?_,fun u other => ?_⟩
    · simp [Shared.depth,word]
    · simp [Shared.depth,word,Ne.symm other]

theorem lowered_sound {count : Nat} (room : count - 1 ≤ kThinLockMaxCount) (same : s.lockWord = .lowered t count) :
    s.Sound := by
  cases count with
  | zero => simp [Shared.Sound,show s.lockWord = .unlocked from same]
  | succ count =>
    rw [Shared.Sound,show s.lockWord = .thin t count from same]
    exact room

theorem Consistent.after_release (c : Consistent m) {count : Nat} (place : m.pc t = .release count)
    (taken : next maxSpins m t fresh woken (.release count) = some (s,pc)) :
    Consistent { s with pc := Function.update m.pc t pc } := by
  have fits := c.fits t
  rw [place] at fits
  obtain ⟨depth,word⟩ := fits
  have sound := c.sound
  rw [Shared.Sound,word] at sound
  have room : count - 1 ≤ kThinLockMaxCount := (Nat.sub_le count 1).trans sound
  rw [next,if_pos room] at taken
  cases taken
  have held : m.held t - 1 = count := by
    rw [← depth]
    simp [Shared.depth,word]
  refine c.after_own (by rw [place]; rfl) (by rw [place]; rfl) word (fun s same => ?_) ?_
  · rw [held]
    exact ⟨(lowered_depth same).1,(lowered_depth same).2,lowered_sound room same⟩
  · cases count with
    | zero => exact nofun
    | succ count => exact nofun

theorem Consistent.after_findOwner (c : Consistent m) {x : Fin n} (place : m.pc t = .findOwner x)
    (taken : next maxSpins m t fresh woken (.findOwner x) = some (s,pc))
    (runs : pc.safe = true ∨ ∀ u, (m.pc u).suspends u ≠ some t) :
    Consistent { s with pc := Function.update m.pc t pc } := by
  have fits := c.fits t
  rw [place] at fits
  rw [next] at taken
  split at taken
  · cases taken
    exact c.look place rfl fits (.inl rfl) runs rfl rfl
  · cases taken
    have idle : Consistent { m.toShared with pc := Function.update m.pc t .idle } :=
      c.look place rfl fits.1 (.inl rfl) (.inl rfl) rfl rfl
    refine ⟨nofun,idle.fits,idle.suspends,idle.sound,idle.asleep,fun k word => ?_,idle.hashes⟩
    obtain ⟨waiters,wake,nodup,members⟩ := idle.queues k word
    exact ⟨waiters,wake,nodup,members⟩

theorem Consistent.after_suspend (c : Consistent m) {x : Fin n} {code : Nat} {call : Call}
    (place : m.pc t = .suspend x code call) (taken : next maxSpins m t fresh woken (.suspend x code call) = some (s,pc))
    (runs : pc.safe = true ∨ ∀ u, (m.pc u).suspends u ≠ some t) :
    Consistent { s with pc := Function.update m.pc t pc } := by
  have fits := c.fits t
  rw [place] at fits
  obtain ⟨safe,taken⟩ := Option.ite_none_right_eq_some.mp taken
  cases taken
  refine c.skip (by rw [place]; rfl) fits (fun y suspended => ?_) runs (by rw [place]; rfl) (by rw [place]; rfl)
  have same : x = y := by
    simp only [Pc.suspends,Option.filter_some] at suspended
    grind
  exact ⟨suspends_other suspended,same ▸ safe⟩

theorem Consistent.after_recheck (c : Consistent m) {x : Fin n} {code : Nat} {call : Call}
    (place : m.pc t = .recheck x code call) (taken : next maxSpins m t fresh woken (.recheck x code call) = some (s,pc))
    (runs : pc.safe = true ∨ ∀ u, (m.pc u).suspends u ≠ some t) :
    Consistent { s with pc := Function.update m.pc t pc } := by
  have fits := c.fits t
  rw [place] at fits
  obtain ⟨depth,small⟩ := fits
  rw [next] at taken
  split at taken
  · rename_i owner count word
    cases taken
    by_cases same : owner = x
    · subst same
      rw [if_pos rfl] at runs ⊢
      exact c.look place rfl ⟨depth,small,by rw [word]; rfl⟩ (.inr rfl) runs rfl rfl
    · rw [if_neg same] at runs ⊢
      exact c.look place rfl depth (.inr rfl) runs rfl rfl
  · cases taken
    exact c.look place rfl depth (.inr rfl) runs rfl rfl

theorem Consistent.after_create (c : Consistent m) {owner : Option (Fin n)} {code : Nat} {call : Call}
    (place : m.pc t = .create owner code call) (taken : next maxSpins m t fresh woken (.create owner code call) =
      some (s,pc))
    (runs : pc.safe = true ∨ ∀ u, (m.pc u).suspends u ≠ some t) :
    Consistent { s with pc := Function.update m.pc t pc } := by
  have fits := c.fits t
  rw [place] at fits
  have still : ∀ x, owner = some x → x = t ∨ (m.pc x).safe = true := by
    rintro x rfl
    refine (still_of x).imp_right fun suspended => c.suspends t x ?_
    rw [place]
    exact suspended
  rw [next,if_pos still] at taken
  cases taken
  exact c.look place rfl fits (.inr rfl) runs rfl rfl

/-- `Inflate` returns from the place `p`. -/
theorem Consistent.after_inflated (c : Consistent m) {p : Pc n} {owner : Option (Fin n)} {call : Call}
    (place : m.pc t = p) (blocks : p.blocks = false) (contends : p.contends = false) (waits : p.waits = false)
    (depth : m.depth t = m.held t) (suspends : (Pc.published owner call).suspends t = p.suspends t)
    (runs : (inflated t owner call).safe = true ∨ ∀ u, (m.pc u).suspends u ≠ some t) :
    Consistent { m.toShared with pc := Function.update m.pc t (inflated t owner call) } := by
  obtain ⟨contends',waits'⟩ := inflated_quiet (t := t) owner call
  exact c.look place blocks (inflated_fits owner call depth) (.inr ((inflated_suspends owner call).trans suspends)) runs
    (contends'.trans contends.symm) (waits'.trans waits.symm)

theorem Consistent.after_install (c : Consistent m) {owner : Option (Fin n)} {code : Nat} {call : Call}
    (place : m.pc t = .install owner code call)
    (taken : next maxSpins m t fresh woken (.install owner code call) = some (s,pc))
    (runs : pc.safe = true ∨ ∀ u, (m.pc u).suspends u ≠ some t) :
    Consistent { s with pc := Function.update m.pc t pc } := by
  have fits := c.fits t
  rw [place] at fits
  obtain ⟨depth,small,inflatable⟩ := fits
  rw [next] at taken
  split at taken
  · rename_i x count word
    have own := inflatable
    rw [word] at own
    rw [if_pos (show owner = some x from own)] at taken
    cases taken
    exact c.look place rfl ⟨depth,small,inflatable,own,nofun⟩ (.inr rfl) runs rfl rfl
  · rename_i found word
    have own := inflatable
    rw [word] at own
    rw [if_pos own.2] at taken
    cases taken
    exact c.look place rfl ⟨depth,small,inflatable,own,nofun⟩ (.inr rfl) runs rfl rfl
  · cases taken
    exact c.after_inflated place rfl rfl rfl depth rfl runs
  · rename_i word
    rw [word] at inflatable
    exact inflatable.elim

theorem Consistent.after_exchange (c : Consistent m) {owner : Option (Fin n)} {code : Nat} {word : LockWord n}
    {call : Call} (place : m.pc t = .publish owner code word call)
    (taken : next maxSpins m t fresh woken (.publish owner code word call) = some (s,pc))
    (runs : pc.safe = true ∨ ∀ u, (m.pc u).suspends u ≠ some t) :
    Consistent { s with pc := Function.update m.pc t pc } := by
  have fits := c.fits t
  rw [place] at fits
  rw [next] at taken
  split at taken
  · rename_i same
    subst same
    cases taken
    exact c.after_publish place (runs.resolve_left nofun)
  · cases taken
    exact c.after_inflated place rfl rfl rfl fits.1 rfl runs

theorem Consistent.after_published (c : Consistent m) {owner : Option (Fin n)} {call : Call}
    (place : m.pc t = .published owner call) (taken : next maxSpins m t fresh woken (.published owner call) =
      some (s,pc))
    (runs : pc.safe = true ∨ ∀ u, (m.pc u).suspends u ≠ some t) :
    Consistent { s with pc := Function.update m.pc t pc } := by
  have fits := c.fits t
  rw [place] at fits
  obtain ⟨depth,k,word⟩ := fits
  rw [next,word] at taken
  cases taken
  exact c.after_inflated place rfl rfl rfl depth rfl runs

theorem Consistent.after_blocked (c : Consistent m) {k : Nat} {locker : Locker} (place : m.pc t = .blocked k locker)
    (taken : next maxSpins m t fresh woken (.blocked k locker) = some (s,pc))
    (runs : pc.safe = true ∨ ∀ u, (m.pc u).suspends u ≠ some t) :
    Consistent { s with pc := Function.update m.pc t pc } := by
  have fits := c.fits t
  rw [place] at fits
  obtain ⟨awake,taken⟩ := Option.ite_none_left_eq_some.mp taken
  have counted : 0 < m.monitor.numWaiters := by
    have contending := census_pos (p := fun u => (m.pc u).contends) (t := t) (by rw [place]; rfl)
    have all := (c.queues k fits.2).waiters
    omega
  refine c.after_tryLock (w := m.monitor.numWaiters - 1) fits.2 fits.1 (by simpa using awake) (by rw [place]; rfl) ?_
    (Option.some.inj taken) runs
  rw [place]
  exact Nat.sub_add_cancel counted

theorem Consistent.after_getHashCode (c : Consistent m) {k : Nat} (place : m.pc t = .getHashCode k)
    (taken : next maxSpins m t fresh woken (.getHashCode k) = some (s,pc))
    (runs : pc.safe = true ∨ ∀ u, (m.pc u).suspends u ≠ some t) :
    Consistent { s with pc := Function.update m.pc t pc } := by
  have fits := c.fits t
  rw [place] at fits
  rw [next] at taken
  split at taken
  · rename_i nonzero
    cases taken
    exact c.look place rfl ⟨fits.1,nonzero,by rw [Shared.hash,fits.2]⟩ (.inl rfl) runs rfl rfl
  · obtain ⟨⟨nonzero,small⟩,taken⟩ := Option.ite_none_right_eq_some.mp taken
    cases taken
    exact c.look place rfl ⟨fits.1,fits.2,nonzero,small⟩ (.inl rfl) runs rfl rfl

theorem Consistent.after_next (c : Consistent m) (taken : next maxSpins m t fresh woken (m.pc t) = some (s,pc))
    (runs : pc.safe = true ∨ ∀ u, (m.pc u).suspends u ≠ some t) :
    Consistent { s with pc := Function.update m.pc t pc } := by
  have fits := c.fits t
  generalize place : m.pc t = p at taken fits
  cases p with
  | idle => nomatch taken
  | thrown =>
    cases taken
    exact c.look place rfl fits.1 (.inl rfl) runs rfl rfl
  | resume x call | waiting k saved =>
    cases taken
    exact c.look place rfl fits (.inl rfl) runs rfl rfl
  | answer code =>
    cases taken
    exact c.after_answer place
  | restore k saved =>
    cases taken
    exact c.after_restore place
  | contend k locker =>
    cases taken
    exact c.after_contend place
  | compareThin contention =>
    rw [next] at taken
    split at taken
    · rename_i word
      cases taken
      exact c.after_compareThin place word
    · cases taken
      exact c.look place rfl fits (.inl rfl) runs rfl rfl
  | compareHash code =>
    rw [next] at taken
    split at taken
    · rename_i word
      cases taken
      exact c.after_compareHash place word (runs.resolve_left nofun)
    · cases taken
      exact c.look place rfl fits.1 (.inl rfl) runs rfl rfl
  | compareCode k code =>
    rw [next] at taken
    split at taken
    · rename_i zero
      cases taken
      exact c.after_compareCode place zero (runs.resolve_left nofun)
    · cases taken
      exact c.look place rfl ⟨fits.1,fits.2.1⟩ (.inl rfl) runs rfl rfl
  | lock k locker =>
    exact c.after_tryLock (w := m.monitor.numWaiters) fits.2 fits.1 (c.awake (by rw [place]; rfl)) (by rw [place]; rfl)
      (by rw [place]; rfl) (Option.some.inj taken) runs
  | load call => exact c.after_load place taken runs
  | recurse count => exact c.after_recurse place taken
  | release count => exact c.after_release place taken
  | findOwner x => exact c.after_findOwner place taken runs
  | suspend x code call => exact c.after_suspend place taken runs
  | recheck x code call => exact c.after_recheck place taken runs
  | create owner code call => exact c.after_create place taken runs
  | install owner code call => exact c.after_install place taken runs
  | publish owner code word call => exact c.after_exchange place taken runs
  | published owner call => exact c.after_published place taken runs
  | blocked k locker => exact c.after_blocked place taken runs
  | unlock k => exact c.after_unlock place taken runs
  | wait k => exact c.after_wait place taken runs
  | notify k all => exact c.after_notify place taken runs
  | getHashCode k => exact c.after_getHashCode place taken runs

end Places

theorem Consistent.after_failure (c : Consistent m) (failed : failure m t (m.pc t) = some pc)
    (runs : pc.safe = true ∨ ∀ u, (m.pc u).suspends u ≠ some t) :
    Consistent { m.toShared with pc := Function.update m.pc t pc } := by
  have fits := c.fits t
  generalize place : m.pc t = p at failed fits
  cases p with
  | compareThin =>
    cases failed
    exact c.skip (by rw [place]; rfl) fits nofun runs (by rw [place]; rfl) (by rw [place]; rfl)
  | compareHash | suspend =>
    cases failed
    exact c.skip (by rw [place]; rfl) fits.1 nofun runs (by rw [place]; rfl) (by rw [place]; rfl)
  | publish owner code word call =>
    cases failed
    exact c.after_inflated place rfl rfl rfl fits.1 rfl runs
  | findOwner x =>
    obtain ⟨-,failed⟩ := Option.ite_none_right_eq_some.mp failed
    cases failed
    exact c.look place rfl fits (.inl rfl) runs rfl rfl
  | compareCode =>
    cases failed
    exact c.skip (by rw [place]; rfl) ⟨fits.1,fits.2.1⟩ nofun runs (by rw [place]; rfl) (by rw [place]; rfl)
  | _ => nomatch failed

theorem fits_asleep (asleep : Fin n → Bool) (fits : Fits s t pc) : Fits { s with asleep := asleep } t pc := by
  cases pc
  case lock k locker | contend k locker | blocked k locker => cases locker <;> exact fits
  all_goals exact fits

theorem Consistent.after_wake (c : Consistent m) (sleeps : m.asleep t = true) :
    Consistent { m with asleep := Function.update m.asleep t false } := by
  have fewer : ∀ u, Function.update m.asleep t false u = true → m.asleep u = true := by
    intro u still
    by_cases same : u = t
    · simp [same] at still
    · simpa [same] using still
  refine ⟨c.alive,fun u => fits_asleep _ (c.fits u),c.suspends,c.sound,fun u still => c.asleep u (fewer u still),
    fun k word => ?_,c.hashes⟩
  obtain ⟨waiters,wake,nodup,members⟩ := c.queues k word
  exact ⟨waiters,fun u _ => .inr ⟨t,contends_of_blocks (c.asleep t sleeps),Function.update_self ..⟩,nodup,members⟩

/-- A thread that is not Runnable and is not counted in `num_waiters_` refers to no monitor. -/
theorem fits_safe {s' : Shared n} (safe : pc.safe = true) (contends : pc.contends = false) (waits : pc.waits = false)
    (fits : Fits s t pc) (depth : s'.depth t = s.depth t) (held : s'.held t = s.held t) : Fits s' t pc := by
  cases pc
  case idle | suspend => simpa only [Fits,depth,held] using fits
  case contend | blocked => nomatch contends
  case waiting => nomatch waits
  all_goals nomatch safe

theorem Consistent.after_word (c : Consistent m) {k : Nat} {word : LockWord n} (fat : m.lockWord = .fat k)
    (safe : ∀ t, (m.pc t).safe = true) (unused : m.monitor.numWaiters = 0)
    (depth : ∀ u, Shared.depth { m.toShared with lockWord := word } u = m.depth u)
    (hash : Shared.hash { m.toShared with lockWord := word } = m.hash)
    (sound : Shared.Sound { m.toShared with lockWord := word }) (thin : ∀ k, word ≠ .fat k) :
    Consistent { m with lockWord := word } := by
  have queues := c.queues k fat
  have sum := queues.waiters
  have contends : ∀ u, (m.pc u).contends = false := census_eq_zero_iff.mp (by omega)
  have waits : ∀ u, (m.pc u).waits = false := census_eq_zero_iff.mp (by omega)
  refine ⟨c.alive,fun u => ?_,c.suspends,sound,c.asleep,fun k same => absurd same (thin k),fun code member => ?_⟩
  · exact fits_safe (safe u) (contends u) (waits u) (c.fits u) (depth u) rfl
  · exact ⟨(c.hashes code member).1,hash.trans (c.hashes code member).2⟩

theorem Consistent.after_deflate (c : Consistent m) (safe : ∀ t, (m.pc t).safe = true) :
    Consistent { m with toShared := deflate m.toShared } := by
  unfold deflate
  split
  · rename_i k fat
    obtain ⟨free,small⟩ := c.fat_sound fat
    split
    · exact c
    · rename_i unused
      have unused : m.monitor.numWaiters = 0 := by omega
      split
      · rename_i x owned
        split
        · exact c
        · rename_i zero
          have zero : m.monitor.hashCode = 0 := by omega
          split
          · exact c
          · rename_i room
            refine c.after_word fat safe unused (fun u => ?_) ?_ (Nat.not_lt.mp room) nofun
            · simp [Shared.depth,fat,owned]
            · simp [Shared.hash,fat,zero]
      · rename_i unowned
        split
        · rename_i nonzero
          refine c.after_word fat safe unused (fun u => ?_) ?_ ⟨nonzero,small⟩ nofun
          · simp [Shared.depth,fat,unowned]
          · simp [Shared.hash,fat]
        · rename_i zero
          have zero : m.monitor.hashCode = 0 := by omega
          refine c.after_word fat safe unused (fun u => ?_) ?_ trivial nofun
          · simp [Shared.depth,fat,unowned]
          · simp [Shared.hash,fat,zero]
  · exact c

theorem go_spec {m' : Machine n} {after : Shared n × Pc n} (gone : m.go t after = some m') :
    m' = { after.1 with pc := Function.update m.pc t after.2 } ∧
      (after.2.safe = true ∨ ∀ u, (m.pc u).suspends u ≠ some t) := by
  obtain ⟨free,same⟩ := Option.ite_none_left_eq_some.mp gone
  refine ⟨(Option.some.inj same).symm,?_⟩
  by_cases safe : after.2.safe = true
  · exact .inl safe
  · exact .inr fun u suspended => free ⟨by simpa using safe,u,suspended⟩

/-- The ways in which an action is taken. -/
inductive Taken (maxSpins : Nat) (m : Machine n) : Action n → Machine n → Prop where
  | call (t : Fin n) {call begun : Call} (place : m.pc t = .idle) (same : begun = .exit → call = .exit)
    (runs : (Pc.load begun : Pc n).safe = true ∨ ∀ u, (m.pc u).suspends u ≠ some t) :
    Taken maxSpins m (.call t call) { m with pc := Function.update m.pc t (.load begun) }
  | step (t : Fin n) {fresh : Nat} {woken : Fin n} {s : Shared n} {pc : Pc n}
    (made : next maxSpins m t fresh woken (m.pc t) = some (s,pc))
    (runs : pc.safe = true ∨ ∀ u, (m.pc u).suspends u ≠ some t) :
    Taken maxSpins m (.step t fresh woken) { s with pc := Function.update m.pc t pc }
  | fail (t : Fin n) {pc : Pc n} (failed : failure m t (m.pc t) = some pc)
    (runs : pc.safe = true ∨ ∀ u, (m.pc u).suspends u ≠ some t) :
    Taken maxSpins m (.fail t) { m.toShared with pc := Function.update m.pc t pc }
  | wake (t : Fin n) (sleeps : m.asleep t = true) :
    Taken maxSpins m (.wake t) { m with asleep := Function.update m.asleep t false }
  | deflate (safe : ∀ t, (m.pc t).safe = true) : Taken maxSpins m .deflate { m with toShared := deflate m.toShared }

theorem Consistent.taken {m' : Machine n} {maxSpins : Nat} {a : Action n} (c : Consistent m)
    (done : Monitors.step maxSpins a m = some m') : Taken maxSpins m a m' := by
  replace done := (Option.ite_none_left_eq_some.mp done).2
  cases a with
  | call t call =>
    simp only at done
    split at done
    · rename_i place
      obtain ⟨rfl,runs⟩ := go_spec done
      exact .call t place nofun runs
    · rename_i place _
      obtain ⟨rfl,runs⟩ := go_spec done
      exact .call t place id runs
    · nomatch done
  | step t fresh woken =>
    have gone : (next maxSpins m t fresh woken (m.pc t)).bind (m.go t) = some m' := by
      simp only at done
      split at done
      · rename_i k refers
        rwa [if_pos (fits_monitor (c.fits t) refers)] at done
      · exact done
    obtain ⟨⟨s,pc⟩,made,gone⟩ := Option.bind_eq_some_iff.mp gone
    obtain ⟨rfl,runs⟩ := go_spec gone
    exact .step t made runs
  | fail t =>
    obtain ⟨pc,failed,gone⟩ := Option.bind_eq_some_iff.mp done
    obtain ⟨rfl,runs⟩ := go_spec gone
    exact .fail t failed runs
  | wake t =>
    obtain ⟨sleeps,done⟩ := Option.ite_none_right_eq_some.mp done
    cases done
    exact .wake t sleeps
  | deflate =>
    obtain ⟨safe,done⟩ := Option.ite_none_right_eq_some.mp done
    cases done
    exact .deflate safe

theorem Consistent.step {m' : Machine n} {maxSpins : Nat} {a : Action n} (c : Consistent m)
    (done : Monitors.step maxSpins a m = some m') : Consistent m' := by
  cases c.taken done with
  | call t place same runs =>
    have fits := c.fits t
    rw [place] at fits
    exact c.look place rfl fits (.inl rfl) runs rfl rfl
  | step t made runs => exact c.after_next made runs
  | fail t failed runs => exact c.after_failure failed runs
  | wake t sleeps => exact c.after_wake sleeps
  | deflate safe => exact c.after_deflate safe

end Step

theorem consistent_start : Consistent (Machine.start n) where
  alive := nofun
  fits := fun _ => rfl
  suspends := nofun
  sound := trivial
  asleep := nofun
  queues := nofun
  hashes := nofun

theorem consistent_throughout (maxSpins : Nat) (actions : List (Action n)) :
    Throughout (Monitors.step maxSpins) Consistent actions (Machine.start n) :=
  throughout_of_step Consistent (fun _ _ _ c taken => c.step taken) actions _ consistent_start

/-- A thread outside `Wait` has entered as often as the lock word or the monitor says. -/
theorem fits_depth {s : Shared n} {t : Fin n} {pc : Pc n} (fits : Fits s t pc) (waits : pc.waits = false) :
    s.depth t = s.held t := by
  cases pc
  case idle | load | compareThin | resume => exact fits
  case lock k locker | contend k locker | blocked k locker =>
    cases locker with
    | enter => exact fits.1
    | wait => nomatch waits
  case waiting | restore => nomatch waits
  all_goals exact fits.1

theorem depth_owner {s : Shared n} {t u : Fin n} (first : 0 < s.depth t) (second : 0 < s.depth u) : t = u := by
  unfold Shared.depth at first second
  split at first
  · rename_i owner count word
    simp only [word] at second
    grind
  · rename_i k word
    simp only [word] at second
    grind
  · omega

/-- `MonitorExit` is under way and has not found the lock its own. -/
def Pc.exits : Pc n → Bool
  | .load call | .suspend _ _ call | .recheck _ _ call | .resume _ call | .create _ _ call | .install _ _ call
  | .publish _ _ _ call | .published _ call => call = .exit
  | .findOwner _ => true
  | _ => false

/-- What a step of the thread `t` from the place `p` does to the counts of entries and to the process. -/
structure Changes (m : Machine n) (t : Fin n) (p : Pc n) (s : Shared n) (pc : Pc n) : Prop where
  held : s.held = m.held ∨ pc = .idle ∧ ∀ u, u ≠ t → s.held u = m.held u
  aborted : s.aborted = m.aborted ∨ s.aborted = some .inconsistent ∨ ∃ x, p = .findOwner x
  exits : pc.exits = true → p.exits = true

section Changes

variable {m : Machine n} {t : Fin n} {p pc : Pc n} {s : Shared n}

theorem Changes.look (exits : pc.exits = true → p.exits = true) : Changes m t p m.toShared pc :=
    ⟨.inl rfl,.inl rfl,exits⟩

theorem Changes.abort : Changes m t p m.abort .idle := ⟨.inl rfl,.inr (.inl rfl),nofun⟩

theorem dispatch_exits (maxSpins fresh : Nat) (call : Call) (word : LockWord n)
    (exits : (dispatch maxSpins t fresh call word).exits = true) : call = .exit := by
  by_contra other
  cases call with
  | exit => exact other rfl
  | enter | wait | notify | identityHashCode =>
    cases word <;> simp only [dispatch] at exits
    all_goals (try split_ifs at exits) <;> simp [Pc.exits] at exits

theorem inflated_exits (owner : Option (Fin n)) (call : Call) (exits : (inflated t owner call).exits = true) :
    (Pc.published owner call).exits = true := by
  unfold inflated at exits
  split at exits
  · exact exits
  · split at exits
    · exact exits
    · exact exits

theorem tryLock_changes {s s' : Shared n} {k : Nat} {locker : Locker} (held : s.held = m.held)
    (aborted : s.aborted = m.aborted) (taken : s.tryLock t k locker = (s',pc)) : Changes m t p s' pc := by
  have acquires : ∀ {s : Shared n}, s.acquired t k locker = (s',pc) → s.held = m.held → s.aborted = m.aborted →
      Changes m t p s' pc := by
    intro s taken held aborted
    cases locker with
    | enter =>
      cases taken
      refine ⟨.inr ⟨rfl,fun u other => ?_⟩,.inl aborted,nofun⟩
      rw [← held]
      exact Function.update_of_ne other ..
    | wait =>
      cases taken
      exact ⟨.inl held,.inl aborted,nofun⟩
  unfold Shared.tryLock at taken
  split at taken
  · split at taken
    · exact acquires taken held aborted
    · cases taken
      exact ⟨.inl held,.inr (.inl rfl),nofun⟩
  · split at taken
    · exact acquires taken held aborted
    · cases taken
      exact ⟨.inl held,.inl aborted,nofun⟩

theorem next_changes {maxSpins fresh : Nat} {woken : Fin n} (taken : next maxSpins m t fresh woken p = some (s,pc)) :
    Changes m t p s pc := by
  cases p with
  | idle => nomatch taken
  | thrown | resume | waiting | contend | answer | restore =>
    cases taken
    exact ⟨.inl rfl,.inl rfl,id⟩
  | load call =>
    obtain ⟨-,taken⟩ := Option.ite_none_right_eq_some.mp taken
    cases taken
    exact .look fun exits => decide_eq_true (dispatch_exits maxSpins fresh call m.lockWord exits)
  | suspend x code call =>
    obtain ⟨-,taken⟩ := Option.ite_none_right_eq_some.mp taken
    cases taken
    exact .look id
  | compareThin | recurse | release =>
    rw [next] at taken
    split at taken
    · cases taken
      exact ⟨.inr ⟨rfl,fun u other => Function.update_of_ne other ..⟩,.inl rfl,nofun⟩
    · cases taken
      first
        | exact .abort
        | exact .look nofun
  | findOwner x =>
    rw [next] at taken
    split at taken
    · cases taken
      exact .look nofun
    · cases taken
      exact ⟨.inl rfl,.inr (.inr ⟨x,rfl⟩),nofun⟩
  | compareHash | compareCode =>
    rw [next] at taken
    split at taken
    · cases taken
      exact ⟨.inl rfl,.inl rfl,nofun⟩
    · cases taken
      exact .look nofun
  | recheck x code call =>
    rw [next] at taken
    split at taken
    · cases taken
      refine .look fun exits => ?_
      split at exits
      · exact exits
      · exact exits
    · cases taken
      exact .look id
  | create owner code call =>
    rw [next] at taken
    split at taken
    · cases taken
      exact .look id
    · cases taken
      exact .abort
  | install owner code call =>
    rw [next] at taken
    split at taken
    · split at taken
      · cases taken
        exact .look id
      · cases taken
        exact .abort
    · split at taken
      · cases taken
        exact .look id
      · cases taken
        exact .abort
    · cases taken
      exact .look fun exits => inflated_exits owner call exits
    · cases taken
      exact .abort
  | publish owner code word call =>
    rw [next] at taken
    split at taken
    · cases taken
      exact ⟨.inl rfl,.inl rfl,id⟩
    · cases taken
      exact .look fun exits => inflated_exits owner call exits
  | published owner call =>
    rw [next] at taken
    split at taken
    · cases taken
      exact .look fun exits => inflated_exits owner call exits
    · cases taken
      exact .abort
  | lock k locker => exact tryLock_changes rfl rfl (Option.some.inj taken)
  | blocked k locker =>
    obtain ⟨-,taken⟩ := Option.ite_none_left_eq_some.mp taken
    exact tryLock_changes
      (s := { m.toShared with monitor := { m.monitor with numWaiters := m.monitor.numWaiters - 1 } })
      rfl rfl (Option.some.inj taken)
  | unlock k =>
    rw [next] at taken
    split at taken
    · split at taken
      · obtain ⟨s',signalled,taken⟩ := Option.map_eq_some_iff.mp taken
        cases taken
        obtain ⟨asleep,rfl,-⟩ := signal_spec signalled
        exact ⟨.inr ⟨rfl,fun u other => Function.update_of_ne other ..⟩,.inl rfl,nofun⟩
      · cases taken
        exact ⟨.inr ⟨rfl,fun u other => Function.update_of_ne other ..⟩,.inl rfl,nofun⟩
    · cases taken
      exact .look nofun
  | wait k =>
    rw [next] at taken
    split at taken
    · obtain ⟨s',signalled,taken⟩ := Option.map_eq_some_iff.mp taken
      cases taken
      obtain ⟨asleep,rfl,-⟩ := signal_spec signalled
      exact ⟨.inl rfl,.inl rfl,nofun⟩
    · cases taken
      exact .look nofun
  | notify k all =>
    rw [next] at taken
    split at taken
    · cases taken
      exact ⟨.inl rfl,.inl rfl,nofun⟩
    · cases taken
      exact .look nofun
  | getHashCode k =>
    rw [next] at taken
    split at taken
    · cases taken
      exact .look nofun
    · obtain ⟨-,taken⟩ := Option.ite_none_right_eq_some.mp taken
      cases taken
      exact .look nofun

theorem failure_exits (failed : failure m t p = some pc) (exits : pc.exits = true) : p.exits = true := by
  cases p with
  | compareThin | compareHash | compareCode =>
    cases failed
    nomatch exits
  | publish owner code word call =>
    cases failed
    exact inflated_exits owner call exits
  | suspend x code call =>
    cases failed
    exact exits
  | findOwner => rfl
  | _ => nomatch failed

theorem deflate_frame (s : Shared n) : (deflate s).held = s.held ∧
    ((deflate s).aborted = s.aborted ∨ (deflate s).aborted = some .inconsistent) := by
  unfold deflate
  split
  · split
    · exact ⟨rfl,.inl rfl⟩
    · split
      · split_ifs
        all_goals exact ⟨rfl,.inl rfl⟩
      · split_ifs
        · exact ⟨rfl,.inl rfl⟩
        · exact ⟨rfl,.inr rfl⟩
        · exact ⟨rfl,.inl rfl⟩
  · exact ⟨rfl,.inl rfl⟩

theorem exits_go {held : Fin n → Nat} (own : pc.exits = true → 0 < held t)
    (others : ∀ u, u ≠ t → (m.pc u).exits = true → 0 < held u) (u : Fin n)
    (exits : (Function.update m.pc t pc u).exits = true) : 0 < held u := by
  by_cases acting : u = t
  · subst acting
    rw [Function.update_self] at exits
    exact own exits
  · rw [Function.update_of_ne acting] at exits
    exact others u acting exits

end Changes

/-- A thread that calls `MonitorExit` has entered the monitor. -/
def ExitsInside (action : Action n) (m : Machine n) : Prop := ∀ t, action = .call t .exit → 0 < m.held t

/-- No thread that leaves the monitor is outside. -/
structure Inside (m : Machine n) : Prop where
  consistent : Consistent m
  alive : m.aborted = none
  exits : ∀ t, (m.pc t).exits = true → 0 < m.held t

theorem Inside.after_step {m : Machine n} {t : Fin n} {s : Shared n} {pc : Pc n} {maxSpins fresh : Nat} {woken : Fin n}
    (i : Inside m) (made : next maxSpins m t fresh woken (m.pc t) = some (s,pc))
    (c : Consistent { s with pc := Function.update m.pc t pc }) :
    Inside { s with pc := Function.update m.pc t pc } := by
  have changes := next_changes made
  have kept : ∀ u, u ≠ t ∨ pc ≠ .idle → s.held u = m.held u := by
    intro u which
    rcases changes.held with same | ⟨idle,others⟩
    · rw [same]
    · exact others u (which.resolve_right (absurd idle))
  refine ⟨c,?_,exits_go (fun exits => ?_) fun u other exits => ?_⟩
  · rcases changes.aborted with same | failed | ⟨x,place⟩
    · exact same.trans i.alive
    · exact absurd failed c.alive
    · have fits := i.consistent.fits t
      have inside := i.exits t
      rw [place] at fits inside
      exact absurd fits.2 (inside rfl).ne'
  · rw [kept t (.inr (by rintro rfl; nomatch exits))]
    exact i.exits t (changes.exits exits)
  · rw [kept u (.inl other)]
    exact i.exits u exits

theorem Inside.step {m m' : Machine n} {maxSpins : Nat} {a : Action n} (i : Inside m) (inside : ExitsInside a m)
    (done : Monitors.step maxSpins a m = some m') : Inside m' := by
  have c := i.consistent.step done
  cases i.consistent.taken done with
  | call t place same =>
    refine ⟨c,i.alive,exits_go (fun exits => inside t ?_) fun u _ => i.exits u⟩
    rw [same (of_decide_eq_true exits)]
  | step t made => exact i.after_step made c
  | fail t failed =>
    exact ⟨c,i.alive,exits_go (fun exits => i.exits t (failure_exits failed exits)) fun u _ => i.exits u⟩
  | wake t => exact ⟨c,i.alive,i.exits⟩
  | deflate =>
    obtain ⟨held,aborted⟩ := deflate_frame m.toShared
    refine ⟨c,(aborted.resolve_right c.alive).trans i.alive,fun u exits => ?_⟩
    rw [held]
    exact i.exits u exits

theorem inside_start : Inside (Machine.start n) := ⟨consistent_start,rfl,nofun⟩

/-- At most one thread is inside the monitor, as often as it has entered and not left; it is asked to wait, notify and
leave without an exception. No monitor is used after its deflation, and no CHECK fails but that of
`FindThreadByThreadId`, which only a call of `MonitorExit` from outside can meet. -/
theorem monitor_excludes (maxSpins : Nat) (actions : List (Action n)) :
    Throughout (Monitors.step maxSpins) (fun m => m.aborted ≠ some .inconsistent ∧
      (∀ t, (m.pc t).waits = false → m.depth t = m.held t) ∧ (∀ t, m.pc t = .thrown → m.held t = 0) ∧
      ∀ t u, (m.pc t).waits = false → (m.pc u).waits = false → 0 < m.held t → 0 < m.held u → t = u) actions
      (Machine.start n) ∧
    (EachStep (Monitors.step maxSpins) ExitsInside actions (Machine.start n) →
      Throughout (Monitors.step maxSpins) (fun m => m.aborted = none) actions (Machine.start n)) := by
  refine ⟨fun front back m split reached => ?_,fun each front back m split reached => ?_⟩
  · have c := consistent_throughout maxSpins actions front back m split reached
    have depth := fun t waits => fits_depth (c.fits t) waits
    refine ⟨c.alive,depth,fun t place => ?_,fun t u outside outside' inside inside' => ?_⟩
    · have fits := c.fits t
      rw [place] at fits
      exact fits.2
    · exact depth_owner (s := m.toShared) (depth t outside ▸ inside) (depth u outside' ▸ inside')
  · exact (throughout_of_each Inside (fun _ _ _ i inside done => i.step inside done) actions _ each inside_start
      front back m
      split reached).alive

instance (action : Action n) (m : Machine n) : Decidable (ExitsInside action m) :=
  inferInstanceAs (Decidable (∀ t, action = .call t .exit → 0 < m.held t))

/-- The second thread contends, inflates the lock of the first and gets it. -/
def contendedActions : List (Action 2) :=
  List.flatten [[.call 0 (.enter 0)],.replicate 2 (.step 0 7 1),[.call 1 (.enter 0)],.replicate 11 (.step 1 7 1),
    [.call 0 .exit],.replicate 2 (.step 0 7 1),[.step 1 7 1,.call 1 .exit],.replicate 2 (.step 1 7 1)]

theorem monitor_excludes_contended : (run (Monitors.step 0) contendedActions (Machine.start 2)).isSome = true ∧
    Throughout (Monitors.step 0) (fun m => m.aborted = none) contendedActions (Machine.start 2) :=
  ⟨by decide +kernel,(monitor_excludes 0 contendedActions).2 (eachStep_of_check ExitsInside _ _ (by decide +kernel))⟩

/-- A thread leaves the thin lock of another one that runs. -/
example : (run (Monitors.step 0) [.call 0 (.enter 0),.step 0 7 1,.step 0 7 1,.call 1 .exit,.step 1 7 1,.step 1 7 1]
    (Machine.start 2)).map (fun m => m.aborted) = some (some .ownerRuns) := by decide +kernel

/-- While a contender sleeps, somebody owns the monitor, or another contender is awake and will try to lock it. -/
theorem contenders_woken (maxSpins : Nat) (actions : List (Action n)) :
    Throughout (Monitors.step maxSpins) (fun m => ∀ t, m.asleep t = true →
      m.monitor.owner ≠ none ∨ ∃ u, (m.pc u).contends = true ∧ m.asleep u = false) actions (Machine.start n) := by
  intro front back m split reached t sleeps
  have c := consistent_throughout maxSpins actions front back m split reached
  obtain ⟨k,refers⟩ := monitor_of_contends (contends_of_blocks (c.asleep t sleeps))
  exact (c.queues k (fits_monitor (c.fits t) refers)).wake t sleeps

/-- The wait set holds threads that are in `Wait`, each once. -/
theorem waitSet_waits (maxSpins : Nat) (actions : List (Action n)) :
    Throughout (Monitors.step maxSpins) (fun m => ∀ k, m.lockWord = .fat k → m.monitor.waitSet.Nodup ∧
      ∀ t ∈ m.monitor.waitSet, (m.pc t).waits = true) actions (Machine.start n) := by
  intro front back m split reached k word
  have queues := (consistent_throughout maxSpins actions front back m split reached).queues k word
  exact ⟨queues.nodup,queues.members⟩

/-- All calls of `IdentityHashCode` return the same, whether the lock word, a monitor or a later lock word holds it. -/
theorem identityHashCode_stable (maxSpins : Nat) (actions : List (Action n)) :
    Throughout (Monitors.step maxSpins) (fun m => ∀ first ∈ m.hashes, ∀ second ∈ m.hashes, first = second ∧ first ≠ 0)
      actions (Machine.start n) := by
  intro front back m split reached first member second member'
  have c := consistent_throughout maxSpins actions front back m split reached
  obtain ⟨nonzero,same⟩ := c.hashes first member
  exact ⟨same.symm.trans (c.hashes second member').2,nonzero⟩

/-- The second thread contends, inflates the lock of the first and gets it; the monitor is deflated, inflated again for
a hash code and deflated once more. -/
example : (run (Monitors.step 0) (List.flatten [[.call 0 (.enter 0)],.replicate 2 (.step 0 7 1),[.call 1 (.enter 0)],
    .replicate 11 (.step 1 7 1),[.call 0 .exit],.replicate 2 (.step 0 7 1),[.step 1 7 1,.deflate,
      .call 1 .identityHashCode],
    .replicate 8 (.step 1 7 1),[.call 1 .exit],.replicate 2 (.step 1 7 1),[.deflate,.call 0 .identityHashCode],
    .replicate 2 (.step 0 7 1)]) (Machine.start 2)).map (fun m => (m.lockWord,m.created,m.hashes)) =
    some (.hash 7,2,[7,7]) := by decide +kernel

end Aatt.Monitors
