import Aatt.Reservation
import Aatt.Sequential

/-! Records under interleaving. The calls whose compare-and-swap succeeded since the last reset
of the offset form the current epoch; their slots lie one after the other in the buffer, each
holding its record up to the stores its writer still owes. As long as no flush starts while a
store is owed and no slot is handed out during a flush, every flush moves one whole epoch to the
data file. -/
namespace Aatt.Threads

open Aatt.Lib

/-- How far a flush has come: copying the buffer, or done copying. -/
inductive Flush where
  | writing (curOffset written : Nat)
  | copied
  deriving DecidableEq, Repr

namespace Pc

def flush : Pc → Option Flush
  | .flushWrite _ _ curOffset written => some (.writing curOffset written)
  | .flushVisit .. => some .copied
  | .flushStore .. => some .copied
  | _ => none

/-- The slot of the thread and the stores it still owes, if any. -/
def owed : Pc → Option (Nat × List Store)
  | .write oldOffset (store :: rest) => some (oldOffset,store :: rest)
  | _ => none

theorem plain_flush {pc : Pc} (plain : pc.plain) : pc.flush = none := by
  cases pc <;> first | rfl | cases plain

theorem plain_owed {pc : Pc} (plain : pc.plain) : pc.owed = none := by
  cases pc <;> first | rfl | cases plain

theorem resting_flush {pc : Pc} (resting : pc.resting) : pc.flush = none := by
  cases pc <;> first | rfl | cases resting

theorem resting_owed {pc : Pc} (resting : pc.resting) : pc.owed = none := by
  cases pc with
  | write oldOffset remaining =>
    cases remaining with
    | nil => rfl
    | cons store rest => cases resting
  | _ => rfl

theorem flush_critical {pc : Pc} (flushes : pc.flush ≠ none) : pc.critical := by
  cases pc <;> first | rfl | exact absurd rfl flushes

theorem flush_owed {pc : Pc} (flushes : pc.flush ≠ none) : pc.owed = none := by
  cases pc <;> first | rfl | exact absurd rfl flushes

end Pc

/-- Only the owner of `trace_lock_` is between taking and releasing it. -/
def Exclusive (m : Machine n) : Prop := ∀ t, (m.threads t).critical → m.lock = some t

theorem Exclusive.move {m : Machine n} (exclusive : Exclusive m) (t : Fin n) (pc : Pc)
    (held : pc.critical → (m.threads t).critical) (u : Fin n) (critical : ((m.setPc t pc).threads u).critical) :
    m.lock = some u := by
  by_cases same : u = t
  · subst same
    exact exclusive u (held (by simpa using critical))
  · rw [Machine.setPc_of_ne m t u pc same] at critical
    exact exclusive u critical

theorem exclusive_step (a : Action n) (m next : Machine n) (exclusive : Exclusive m)
    (effect : Effect a m next) : Exclusive next := by
  cases effect with
  | skip => exact exclusive
  | move t pc before after same => exact exclusive.move t pc fun critical => same ▸ critical
  | count t pc before after held => exact exclusive.move t pc fun _ => held
  | writeError t job oldOffset action held => exact exclusive.move t _ fun _ => held
  | beginFlush t job oldOffset action before => exact exclusive.move t _ fun _ => by rw [before]; rfl
  | wrote t job oldOffset curOffset written count pc before => exact exclusive.move t _ fun _ => by rw [before]; rfl
  | visit t job oldOffset curOffset index trace before => exact exclusive.move t _ fun _ => by rw [before]; rfl
  | visited t job oldOffset curOffset index before => exact exclusive.move t _ fun _ => by rw [before]; rfl
  | reset t job oldOffset before => exact exclusive.move t _ fun _ => by rw [before]; rfl
  | reserve t => exact exclusive.move t _ nofun
  | store t => exact exclusive.move t _ nofun
  | acquire t pc before after free =>
    intro u critical
    by_cases same : u = t
    · exact same ▸ rfl
    · simp only [Machine.setPc_of_ne m t u _ same] at critical
      exact absurd ((exclusive u critical).symm.trans free) nofun
  | release t pc before after held leaves =>
    intro u critical
    by_cases same : u = t
    · subst same
      simp [leaves] at critical
    · simp only [Machine.setPc_of_ne m t u _ same] at critical
      exact absurd (Option.some.inj ((exclusive u critical).symm.trans (exclusive t held))) same

theorem Exclusive.alone {m : Machine n} (exclusive : Exclusive m) {t : Fin n} (held : (m.threads t).critical)
    (u : Fin n) (apart : u ≠ t) : (m.threads u).flush = none := by
  by_contra flushes
  exact apart (Option.some.inj ((exclusive u (Pc.flush_critical flushes)).symm.trans (exclusive t held)))

structure Slots (m : Machine n) (epoch : List (List Byte)) : Prop where
  offset : m.curOffset = kMiniTraceRecordSize * epoch.length
  inside : m.curOffset ≤ m.bufferSize
  pending : ∀ t oldOffset remaining, (m.threads t).owed = some (oldOffset,remaining) →
    StoresIn 0 kMiniTraceRecordSize remaining ∧ ∃ i, oldOffset = kMiniTraceRecordSize * i ∧
      epoch[i]? = some (writeStores (slot m.buf oldOffset kMiniTraceRecordSize) remaining)
  written : ∀ i, i < epoch.length →
    (∀ t remaining, (m.threads t).owed ≠ some (kMiniTraceRecordSize * i,remaining)) →
    epoch[i]? = some (slot m.buf (kMiniTraceRecordSize * i) kMiniTraceRecordSize)
  apart : ∀ t u oldOffset remaining remaining', (m.threads t).owed = some (oldOffset,remaining) →
    (m.threads u).owed = some (oldOffset,remaining') → t = u

/-- The file and the buffer as the thread that flushes has left them. -/
def Flush.Holds (flushed : List (List Byte)) (trace : MiniTrace) : Flush → Prop
  | .writing curOffset written =>
    curOffset = trace.curOffset ∧ trace.traceDataFile = flushed.flatten ++ trace.buf.take written
  | .copied => trace.traceDataFile = flushed.flatten ++ trace.buf.take trace.curOffset

/-- The data file: the flushed records, and what a flush in progress has copied. -/
structure Files (m : Machine n) (flushed : List (List Byte)) : Prop where
  settled : (∀ t, (m.threads t).flush = none) → m.traceDataFile = flushed.flatten
  quiet : ∀ t, (m.threads t).flush ≠ none → ∀ u, (m.threads u).owed = none
  holds : ∀ t flush, (m.threads t).flush = some flush → flush.Holds flushed m.toMiniTrace

theorem Slots.congr {m next : Machine n} {epoch : List (List Byte)} (slots : Slots m epoch)
    (buf : next.buf = m.buf) (offset : next.curOffset = m.curOffset)
    (owed : ∀ t, (next.threads t).owed = (m.threads t).owed) : Slots next epoch := by
  constructor
  · rw [offset]
    exact slots.offset
  · rw [offset,MiniTrace.bufferSize,buf]
    exact slots.inside
  · simp only [owed,buf]
    exact slots.pending
  · simp only [owed,buf]
    exact slots.written
  · simp only [owed]
    exact slots.apart

theorem Files.congr {m next : Machine n} {flushed : List (List Byte)} (files : Files m flushed)
    (buf : next.buf = m.buf) (offset : next.curOffset = m.curOffset) (file : next.traceDataFile = m.traceDataFile)
    (owed : ∀ t, (next.threads t).owed = (m.threads t).owed)
    (flush : ∀ t, (next.threads t).flush = (m.threads t).flush) : Files next flushed := by
  constructor
  · simp only [flush,file]
    exact files.settled
  · simp only [flush,owed]
    exact files.quiet
  · intro t at_t held
    have before := files.holds t at_t (by rw [← flush,held])
    cases at_t <;> simp only [Flush.Holds,buf,offset,file] at before ⊢ <;> exact before

theorem setPc_owed (m : Machine n) (t : Fin n) (pc : Pc) (same : pc.owed = (m.threads t).owed) (u : Fin n) :
    ((m.setPc t pc).threads u).owed = (m.threads u).owed := by
  by_cases eq : u = t
  · subst eq
    simpa using same
  · rw [Machine.setPc_of_ne m t u pc eq]

theorem setPc_flush (m : Machine n) (t : Fin n) (pc : Pc) (same : pc.flush = (m.threads t).flush) (u : Fin n) :
    ((m.setPc t pc).threads u).flush = (m.threads u).flush := by
  by_cases eq : u = t
  · subst eq
    simpa using same
  · rw [Machine.setPc_of_ne m t u pc eq]

/-- What holds in every state of an undisturbed run. -/
structure Consistent (m : Machine n) : Prop where
  exclusive : Exclusive m
  epochs : ∃ flushed epoch, m.accepted = flushed ++ epoch ∧ Slots m epoch ∧ Files m flushed
  sized : ∀ record ∈ m.accepted, record.length = kMiniTraceRecordSize

theorem Slots.buffer_eq {m : Machine n} {epoch : List (List Byte)} (slots : Slots m epoch)
    (quiet : ∀ t, (m.threads t).owed = none) : m.buf.take m.curOffset = epoch.flatten := by
  have records : epoch = recordsOf m.buf epoch.length := by
    apply List.ext_getElem?
    intro i
    by_cases bound : i < epoch.length
    · rw [slots.written i bound (by simp [quiet]),recordsOf,blocks,List.getElem?_map,List.getElem?_range bound]
      rfl
    · rw [List.getElem?_eq_none (by omega),List.getElem?_eq_none (by simp [recordsOf,blocks]; omega)]
  rw [slots.offset,← blocks_flatten]
  exact congrArg List.flatten records.symm

theorem owed_write (oldOffset : Nat) (remaining : List Store) (slot : Nat × List Store)
    (owes : (Pc.write oldOffset remaining).owed = some slot) : slot = (oldOffset,remaining) := by
  cases remaining with
  | nil => cases owes
  | cons store rest => exact (Option.some.inj owes).symm

theorem Slots.reserve {m : Machine n} {epoch : List (List Byte)} (slots : Slots m epoch) (t : Fin n) (job : Job)
    (oldOffset : Nat) (before : m.threads t = .exchange job oldOffset) (unchanged : m.curOffset = oldOffset)
    (fits : oldOffset + kMiniTraceRecordSize ≤ m.bufferSize) :
    Slots { m.setPc t (.write oldOffset job.stores) with
      curOffset := oldOffset + kMiniTraceRecordSize
      accepted := m.accepted ++ [writeStores (slot m.buf oldOffset kMiniTraceRecordSize) job.stores] }
      (epoch ++ [writeStores (slot m.buf oldOffset kMiniTraceRecordSize) job.stores]) := by
  have position : oldOffset = kMiniTraceRecordSize * epoch.length := unchanged ▸ slots.offset
  have others : ∀ u, u ≠ t → ∀ other, ((m.setPc t (.write oldOffset job.stores)).threads u).owed = other →
      (m.threads u).owed = other := by
    intro u apart other owes
    rwa [Machine.setPc_of_ne m t u _ apart] at owes
  have earlier : ∀ u old remaining, (m.threads u).owed = some (old,remaining) → old ≠ oldOffset := by
    intro u old remaining owes same
    obtain ⟨-,i,index,stored⟩ := slots.pending u old remaining owes
    obtain ⟨bound,-⟩ := List.getElem?_eq_some_iff.mp stored
    simp only [kMiniTraceRecordSize] at index position
    omega
  constructor
  · simp only [position,List.length_append,List.length_singleton,Nat.mul_succ]
  · exact fits
  · intro u old remaining owes
    by_cases same : u = t
    · subst same
      obtain ⟨rfl,rfl⟩ := Prod.mk.inj (owed_write oldOffset job.stores _ (by simpa using owes))
      refine ⟨stores_inside job.call job.action,epoch.length,position,?_⟩
      rw [List.getElem?_append_right (Nat.le_refl _),Nat.sub_self]
      rfl
    · obtain ⟨range,i,index,stored⟩ := slots.pending u old remaining (others u same _ owes)
      obtain ⟨bound,-⟩ := List.getElem?_eq_some_iff.mp stored
      exact ⟨range,i,index,by rw [List.getElem?_append_left bound]; exact stored⟩
  · intro i bound unowed
    by_cases last : i = epoch.length
    · subst last
      rw [List.getElem?_append_right (Nat.le_refl _),Nat.sub_self,← position]
      have empty : job.stores = [] := by
        by_contra filled
        obtain ⟨store,rest,eq⟩ := List.exists_cons_of_ne_nil filled
        exact unowed t job.stores (by simp [eq,Pc.owed,position])
      simp [empty]
    · rw [List.length_append,List.length_singleton] at bound
      rw [List.getElem?_append_left (by omega)]
      refine slots.written i (by omega) fun u remaining owes => ?_
      by_cases same : u = t
      · subst same
        rw [before] at owes
        cases owes
      · exact unowed u remaining (by simp only [Machine.setPc_of_ne m t u _ same]; exact owes)
  · intro u v old remaining remaining' owes owes'
    by_cases first : u = t
    · by_cases second : v = t
      · rw [first,second]
      · subst first
        obtain ⟨rfl,-⟩ := Prod.mk.inj (owed_write oldOffset job.stores _ (by simpa using owes))
        exact absurd rfl (earlier v _ _ (others v second _ owes'))
    · by_cases second : v = t
      · subst second
        obtain ⟨rfl,-⟩ := Prod.mk.inj (owed_write oldOffset job.stores _ (by simpa using owes'))
        exact absurd rfl (earlier u _ _ (others u first _ owes))
      · exact slots.apart u v old remaining remaining' (others u first _ owes) (others v second _ owes')

theorem slot_set_apart (buf : List Byte) (i j offset : Nat) (byte : Byte) (apart : i ≠ j)
    (inside : offset < kMiniTraceRecordSize) :
    slot (buf.set (kMiniTraceRecordSize * j + offset) byte) (kMiniTraceRecordSize * i) kMiniTraceRecordSize =
      slot buf (kMiniTraceRecordSize * i) kMiniTraceRecordSize := by
  apply slot_set_outside
  simp only [kMiniTraceRecordSize] at inside ⊢
  omega

theorem Slots.store {m : Machine n} {epoch : List (List Byte)} (slots : Slots m epoch) (t : Fin n)
    (oldOffset : Nat) (store : Store) (rest : List Store)
    (before : m.threads t = .write oldOffset (store :: rest)) :
    Slots { m.setPc t (.write oldOffset rest) with buf := m.buf.set (oldOffset + store.1) store.2 } epoch := by
  have owed : (m.threads t).owed = some (oldOffset,store :: rest) := by
    rw [before]
    rfl
  obtain ⟨range,j,rfl,stored⟩ := slots.pending t oldOffset (store :: rest) owed
  have inside := (range store List.mem_cons_self).2
  have mine : epoch[j]? = some (writeStores
      (slot (m.buf.set (kMiniTraceRecordSize * j + store.1) store.2) (kMiniTraceRecordSize * j) kMiniTraceRecordSize)
      rest) := by
    rw [slot_set_inside]
    exact stored
  have others : ∀ u, u ≠ t → ∀ other, ((m.setPc t (.write (kMiniTraceRecordSize * j) rest)).threads u).owed = other →
      (m.threads u).owed = other := by
    intro u apart other owes
    rwa [Machine.setPc_of_ne m t u _ apart] at owes
  constructor
  · exact slots.offset
  · simpa [MiniTrace.bufferSize] using slots.inside
  · intro u old remaining owes
    by_cases same : u = t
    · subst same
      obtain ⟨rfl,rfl⟩ := Prod.mk.inj (owed_write _ rest _ (by simpa using owes))
      exact ⟨fun other member => range other (List.mem_cons_of_mem _ member),j,rfl,mine⟩
    · have owesBefore := others u same _ owes
      obtain ⟨within,i,rfl,held⟩ := slots.pending u old remaining owesBefore
      have distinct : i ≠ j := by
        rintro rfl
        exact same (slots.apart u t _ _ _ owesBefore owed)
      exact ⟨within,i,rfl,by rw [slot_set_apart _ i j _ _ distinct inside]; exact held⟩
  · intro i bound unowed
    by_cases same : i = j
    · subst same
      have empty : rest = [] := by
        by_contra filled
        obtain ⟨next,later,eq⟩ := List.exists_cons_of_ne_nil filled
        exact unowed t rest (by simp [eq,Pc.owed])
      rw [empty] at mine
      exact mine
    · rw [slot_set_apart _ i j _ _ same inside]
      refine slots.written i bound fun u remaining owes => ?_
      by_cases owner : u = t
      · subst owner
        rw [owed] at owes
        simp only [Option.some.injEq,Prod.mk.injEq,kMiniTraceRecordSize] at owes
        omega
      · exact unowed u remaining (by simp only [Machine.setPc_of_ne m t u _ owner]; exact owes)
  · have earlier : ∀ u old remaining,
        ((m.setPc t (.write (kMiniTraceRecordSize * j) rest)).threads u).owed = some (old,remaining) →
        ∃ more, (m.threads u).owed = some (old,more) := by
      intro u old remaining owes
      by_cases same : u = t
      · subst same
        obtain ⟨rfl,-⟩ := Prod.mk.inj (owed_write _ rest _ (by simpa using owes))
        exact ⟨_,owed⟩
      · exact ⟨remaining,others u same _ owes⟩
    intro u v old remaining remaining' owes owes'
    obtain ⟨more,first⟩ := earlier u old remaining owes
    obtain ⟨more',second⟩ := earlier v old remaining' owes'
    exact slots.apart u v old more more' first second

theorem Slots.reset {next : Machine n} (offset : next.curOffset = 0) (quiet : ∀ t, (next.threads t).owed = none) :
    Slots next [] := by
  constructor
  · exact offset
  · rw [offset]
    exact Nat.zero_le _
  · simp [quiet]
  · nofun
  · simp [quiet]

theorem Files.of_flusher {next : Machine n} {flushed : List (List Byte)} (t : Fin n) (flush : Flush)
    (flusher : (next.threads t).flush = some flush) (alone : ∀ u, u ≠ t → (next.threads u).flush = none)
    (quiet : ∀ u, (next.threads u).owed = none) (file : flush.Holds flushed next.toMiniTrace) :
    Files next flushed := by
  have owner : ∀ u, (next.threads u).flush ≠ none → u = t := fun u flushes =>
    not_not.mp fun apart => flushes (alone u apart)
  constructor
  · intro settled
    rw [settled t] at flusher
    cases flusher
  · intro u flushes
    exact quiet
  · intro u other flushes
    obtain rfl := owner u (by simp [flushes])
    obtain rfl := Option.some.inj (flusher.symm.trans flushes)
    exact file

theorem Files.of_settled {next : Machine n} {flushed : List (List Byte)}
    (settled : ∀ t, (next.threads t).flush = none) (file : next.traceDataFile = flushed.flatten) :
    Files next flushed := by
  constructor
  · exact fun _ => file
  · exact fun t flushes => absurd (settled t) flushes
  · intro t flush flushes
    rw [settled t] at flushes
    cases flushes

/-- No flush starts while a store is owed, and no slot is handed out during a flush or beyond
the buffer. -/
def Undisturbed (m : Machine n) : Pc → Prop
  | .flushLoad .. => ∀ u, (m.threads u).owed = none
  | .exchange _ oldOffset => m.curOffset = oldOffset →
    oldOffset + kMiniTraceRecordSize ≤ m.bufferSize ∧ ∀ u, (m.threads u).flush = none
  | _ => True

/-- Every step is undisturbed and no `write` call fails. -/
def Orderly : Action n → Machine n → Prop
  | .step t, m => Undisturbed m (m.threads t)
  | .writeError _, _ => False
  | _, _ => True

instance (m : Machine n) : (pc : Pc) → Decidable (Undisturbed m pc)
  | .flushLoad .. => inferInstanceAs (Decidable (∀ u, (m.threads u).owed = none))
  | .exchange _ oldOffset => inferInstanceAs (Decidable (m.curOffset = oldOffset →
    oldOffset + kMiniTraceRecordSize ≤ m.bufferSize ∧ ∀ u, (m.threads u).flush = none))
  | .idle | .load .. | .check .. | .overflow .. | .acquire .. | .locked .. | .flushWrite .. | .flushVisit ..
  | .flushStore .. | .release .. | .write .. => instDecidableTrue

instance : (a : Action n) → (m : Machine n) → Decidable (Orderly a m)
  | .step t, m => inferInstanceAs (Decidable (Undisturbed m (m.threads t)))
  | .writeError _, _ => instDecidableFalse
  | .call .., _ | .spurious .., _ | .wrote .., _ => instDecidableTrue

theorem Consistent.settle {m next : Machine n} {t : Fin n} {pc : Pc} (consistent : Consistent m)
    (exclusive : Exclusive next) (before : (m.threads t).resting) (after : pc.plain)
    (buf : next.buf = m.buf) (offset : next.curOffset = m.curOffset) (file : next.traceDataFile = m.traceDataFile)
    (accepted : next.accepted = m.accepted) (threads : next.threads = (m.setPc t pc).threads) :
    Consistent next := by
  obtain ⟨flushed,epoch,split,slots,files⟩ := consistent.epochs
  have owed : ∀ u, (next.threads u).owed = (m.threads u).owed := by
    rw [threads]
    exact setPc_owed m t pc (by rw [Pc.plain_owed after,Pc.resting_owed before])
  have flush : ∀ u, (next.threads u).flush = (m.threads u).flush := by
    rw [threads]
    exact setPc_flush m t pc (by rw [Pc.plain_flush after,Pc.resting_flush before])
  refine ⟨exclusive,⟨flushed,epoch,?_,slots.congr buf offset owed,files.congr buf offset file owed flush⟩,?_⟩
  · rw [accepted,split]
  · rw [accepted]
    exact consistent.sized

theorem Consistent.flushStep {m next : Machine n} {t : Fin n} {pc : Pc} {flushed epoch : List (List Byte)}
    (consistent : Consistent m) (flush : Flush) (exclusive : Exclusive next)
    (split : m.accepted = flushed ++ epoch) (slots : Slots m epoch) (held : (m.threads t).critical)
    (quiet : ∀ u, (m.threads u).owed = none) (after : pc.flush = some flush)
    (buf : next.buf = m.buf) (offset : next.curOffset = m.curOffset) (accepted : next.accepted = m.accepted)
    (threads : next.threads = (m.setPc t pc).threads) (file : flush.Holds flushed next.toMiniTrace) :
    Consistent next := by
  have owed : ∀ u, (next.threads u).owed = (m.threads u).owed := by
    rw [threads]
    exact setPc_owed m t pc (by rw [quiet t,Pc.flush_owed (by simp [after])])
  refine ⟨exclusive,⟨flushed,epoch,?_,slots.congr buf offset owed,Files.of_flusher t flush ?_ ?_ ?_ file⟩,?_⟩
  · rw [accepted,split]
  · rw [threads,Machine.setPc_self,after]
  · intro u apart
    rw [threads,Machine.setPc_of_ne m t u pc apart]
    exact consistent.exclusive.alone held u apart
  · intro u
    rw [owed,quiet]
  · rw [accepted]
    exact consistent.sized

section Steps

variable {m : Machine n} {t : Fin n} {job : Job} {oldOffset : Nat} (consistent : Consistent m)
include consistent

theorem Consistent.after_beginFlush (before : m.threads t = .flushLoad job oldOffset)
    (quiet : ∀ u, (m.threads u).owed = none) (exclusive : Exclusive
      (m.setPc t (.flushWrite job oldOffset m.curOffset 0))) :
    Consistent (m.setPc t (.flushWrite job oldOffset m.curOffset 0)) := by
  obtain ⟨flushed,epoch,split,slots,files⟩ := consistent.epochs
  have held : (m.threads t).critical := by rw [before]; rfl
  have idleFile : m.traceDataFile = flushed.flatten := by
    apply files.settled
    intro u
    by_cases same : u = t
    · rw [same,before]
      rfl
    · exact consistent.exclusive.alone held u same
  exact consistent.flushStep (.writing m.curOffset 0) exclusive split slots held quiet rfl rfl rfl rfl rfl
    ⟨rfl,by simpa using idleFile⟩

theorem Consistent.after_wrote {curOffset written count : Nat} {pc : Pc}
    (before : m.threads t = .flushWrite job oldOffset curOffset written)
    (after : pc = .flushWrite job oldOffset curOffset (written + count) ∨
      written + count = curOffset ∧ pc = .flushVisit job oldOffset curOffset 0)
    (exclusive : Exclusive { m.setPc t pc with traceDataFile := m.traceDataFile ++ slot m.buf written count }) :
    Consistent { m.setPc t pc with traceDataFile := m.traceDataFile ++ slot m.buf written count } := by
  obtain ⟨flushed,epoch,split,slots,files⟩ := consistent.epochs
  have flushes : (m.threads t).flush = some (.writing curOffset written) := by rw [before]; rfl
  have held : (m.threads t).critical := by rw [before]; rfl
  have quiet := files.quiet t (by simp [flushes])
  obtain ⟨rfl,file⟩ := files.holds t _ flushes
  have copied : m.traceDataFile ++ slot m.buf written count = flushed.flatten ++ m.buf.take (written + count) := by
    rw [file,take_add_slot,List.append_assoc]
  rcases after with rfl | ⟨whole,rfl⟩
  · exact consistent.flushStep (.writing m.curOffset (written + count)) exclusive split slots held quiet rfl rfl rfl
      rfl rfl ⟨rfl,copied⟩
  · rw [whole] at copied
    exact consistent.flushStep .copied exclusive split slots held quiet rfl rfl rfl rfl rfl copied

theorem Consistent.after_visit {curOffset index : Nat} {pc : Pc} {trace : MiniTrace}
    (before : m.threads t = .flushVisit job oldOffset curOffset index) (after : pc.flush = some .copied)
    (buf : trace.buf = m.buf) (offset : trace.curOffset = m.curOffset) (file : trace.traceDataFile = m.traceDataFile)
    (exclusive : Exclusive { m.setPc t pc with toMiniTrace := trace }) :
    Consistent { m.setPc t pc with toMiniTrace := trace } := by
  obtain ⟨flushed,epoch,split,slots,files⟩ := consistent.epochs
  have flushes : (m.threads t).flush = some .copied := by rw [before]; rfl
  have held : (m.threads t).critical := by rw [before]; rfl
  have copied : trace.traceDataFile = flushed.flatten ++ trace.buf.take trace.curOffset := by
    rw [file,buf,offset]
    exact files.holds t _ flushes
  exact consistent.flushStep .copied exclusive split slots held (files.quiet t (by simp [flushes])) after
    buf offset rfl rfl
    copied

theorem Consistent.after_reset (before : m.threads t = .flushStore job oldOffset)
    (exclusive : Exclusive { m.setPc t (.release job oldOffset true) with curOffset := 0 }) :
    Consistent { m.setPc t (.release job oldOffset true) with curOffset := 0 } := by
  obtain ⟨flushed,epoch,split,slots,files⟩ := consistent.epochs
  have flushes : (m.threads t).flush = some .copied := by rw [before]; rfl
  have held : (m.threads t).critical := by rw [before]; rfl
  have quiet := files.quiet t (by simp [flushes])
  refine ⟨exclusive,⟨flushed ++ epoch,[],by simpa using split,Slots.reset rfl ?_,Files.of_settled ?_ ?_⟩,
    consistent.sized⟩
  · intro u
    exact (setPc_owed m t _ (by rw [quiet t]; rfl) u).trans (quiet u)
  · intro u
    by_cases same : u = t
    · subst same
      simp [Pc.flush]
    · simp only [Machine.setPc_of_ne m t u _ same]
      exact consistent.exclusive.alone held u same
  · rw [List.flatten_append,← slots.buffer_eq quiet]
    exact files.holds t _ flushes

theorem Consistent.after_reserve (before : m.threads t = .exchange job oldOffset) (unchanged : m.curOffset = oldOffset)
    (fits : oldOffset + kMiniTraceRecordSize ≤ m.bufferSize) (settled : ∀ u, (m.threads u).flush = none)
    (exclusive : Exclusive { m.setPc t (.write oldOffset job.stores) with
      curOffset := oldOffset + kMiniTraceRecordSize
      accepted := m.accepted ++ [writeStores (slot m.buf oldOffset kMiniTraceRecordSize) job.stores] }) :
    Consistent { m.setPc t (.write oldOffset job.stores) with
      curOffset := oldOffset + kMiniTraceRecordSize
      accepted := m.accepted ++ [writeStores (slot m.buf oldOffset kMiniTraceRecordSize) job.stores] } := by
  obtain ⟨flushed,epoch,split,slots,files⟩ := consistent.epochs
  refine ⟨exclusive,⟨flushed,_,?_,slots.reserve t job oldOffset before unchanged fits,Files.of_settled ?_ ?_⟩,?_⟩
  · rw [split,List.append_assoc]
  · intro u
    exact (setPc_flush m t _ (by rw [before]; rfl) u).trans (settled u)
  · exact files.settled settled
  · intro record member
    rcases List.mem_append.mp member with earlier | last
    · exact consistent.sized record earlier
    · rw [List.mem_singleton.mp last,writeStores_length,slot_length _ _ _ fits]

theorem Consistent.after_store {store : Store} {rest : List Store}
    (before : m.threads t = .write oldOffset (store :: rest))
    (exclusive : Exclusive { m.setPc t (.write oldOffset rest) with buf := m.buf.set (oldOffset + store.1) store.2 }) :
    Consistent { m.setPc t (.write oldOffset rest) with buf := m.buf.set (oldOffset + store.1) store.2 } := by
  obtain ⟨flushed,epoch,split,slots,files⟩ := consistent.epochs
  have owes : (m.threads t).owed ≠ none := by rw [before]; nofun
  have settled : ∀ u, (m.threads u).flush = none := fun u => not_not.mp fun flushes => owes (files.quiet u flushes t)
  refine ⟨exclusive,⟨flushed,epoch,split,slots.store t oldOffset store rest before,Files.of_settled ?_ ?_⟩,
    consistent.sized⟩
  · intro u
    exact (setPc_flush m t _ (by rw [before]; rfl) u).trans (settled u)
  · exact files.settled settled

end Steps

theorem consistent_step (a : Action n) (m next : Machine n) (consistent : Consistent m) (orderly : Orderly a m)
    (taken : step a m = some next) : Consistent next := by
  have effect := step_effect a m next taken
  have exclusive := exclusive_step a m next consistent.exclusive effect
  cases effect with
  | skip => exact consistent
  | move t pc before after same => exact consistent.settle exclusive before after rfl rfl rfl rfl rfl
  | acquire t pc before after free => exact consistent.settle exclusive before after rfl rfl rfl rfl rfl
  | count t pc before after held => exact consistent.settle exclusive before after rfl rfl rfl rfl rfl
  | release t pc before after held leaves => exact consistent.settle exclusive before after rfl rfl rfl rfl rfl
  | writeError t job oldOffset action =>
    subst action
    cases orderly
  | beginFlush t job oldOffset action before =>
    subst action
    exact consistent.after_beginFlush before (by simpa only [Orderly,Undisturbed,before] using orderly) exclusive
  | wrote t job oldOffset curOffset written count pc before inside after =>
    exact consistent.after_wrote before after exclusive
  | visit t job oldOffset curOffset index trace before visits =>
    exact consistent.after_visit before rfl visits.buf_eq (by rw [visits.frame]) (by rw [visits.frame]) exclusive
  | visited t job oldOffset curOffset index before => exact consistent.after_visit before rfl rfl rfl rfl exclusive
  | reset t job oldOffset before => exact consistent.after_reset before exclusive
  | reserve t job oldOffset action before unchanged =>
    subst action
    simp only [Orderly,Undisturbed,before] at orderly
    obtain ⟨fits,settled⟩ := orderly unchanged
    exact consistent.after_reserve before unchanged fits settled exclusive
  | store t oldOffset store rest before => exact consistent.after_store before exclusive

theorem consistent_start (n bufferSize : Nat) : Consistent (Machine.start n bufferSize) := by
  refine ⟨nofun,⟨[],[],rfl,Slots.reset rfl fun _ => rfl,Files.of_settled (fun _ => rfl) rfl⟩,nofun⟩

/-- The trace once no call is in progress, as the final flush sees it. -/
def Machine.session (m : Machine n) (writes : List WriteOutcome) : Session :=
  { m.toMiniTrace with writes := writes, spurious := [] }

/-- In every orderly run of any number of threads, once no call is in progress and a final flush
has returned, the records in the data file are those of the calls whose compare-and-swap
succeeded. -/
theorem orderly_run_keeps_records (n bufferSize : Nat) (actions : List (Action n)) (final : Machine n)
    (writes : List WriteOutcome) (session : Session) (result : Bool)
    (orderly : EachStep step Orderly actions (Machine.start n bufferSize))
    (reached : run step actions (Machine.start n bufferSize) = some final)
    (idle : ∀ t, final.threads t = .idle) (reliable : Reliable writes)
    (flush : flushBuffer (final.session writes) = .ok (session,result)) :
    Multiset.ofList (recordsOf session.traceDataFile (session.traceDataFile.length / kMiniTraceRecordSize)) =
      Multiset.ofList final.accepted := by
  have consistent := run_invariant Consistent consistent_step actions _ final orderly
    (consistent_start n bufferSize) reached
  obtain ⟨flushed,epoch,split,slots,files⟩ := consistent.epochs
  obtain rfl := flushBuffer_reliable _ session result reliable flush
  have quiet : ∀ t, (final.threads t).owed = none := fun t => by rw [idle t]; rfl
  have settled : ∀ t, (final.threads t).flush = none := fun t => by rw [idle t]; rfl
  have file : session.traceDataFile = final.accepted.flatten := by
    rw [(flushBuffer_flushed _ session flush).file_eq,split,List.flatten_append,← files.settled settled,
      ← slots.buffer_eq quiet]
    rfl
  have count : session.traceDataFile.length / kMiniTraceRecordSize = final.accepted.length := by
    rw [file,flatten_length kMiniTraceRecordSize _ consistent.sized,Nat.mul_div_cancel_left _ (by decide)]
  rw [count,file,recordsOf,blocks_of_flatten _ _ consistent.sized]

/-- Thread 0 reserves the only slot and is preempted; thread 1 finds the buffer full, flushes the
slot that is not written yet, gets the same slot and writes it; then thread 0 writes. -/
def lostRun : List (Action 2) :=
  .call 0 (.monitor 10 8 0 true) :: List.replicate 3 (.step 0) ++
    .call 1 (.monitor 11 8 0 true) :: List.replicate 6 (.step 1) ++
    .wrote 1 14 :: List.replicate 19 (.step 1) ++ List.replicate 11 (.step 0)

/-- The file has a record of zeros that no call wrote, and the record of thread 1 is lost. -/
theorem interleaving_loses_record : ∃ final session, run step lostRun (Machine.start 2 14) = some final ∧
    (∀ t, final.threads t = .idle) ∧ flushBuffer (final.session []) = .ok (session,true) ∧
    List.replicate 14 0 ∈ recordsOf session.traceDataFile 2 ∧ List.replicate 14 0 ∉ final.accepted ∧
    Multiset.ofList (recordsOf session.traceDataFile (session.traceDataFile.length / kMiniTraceRecordSize)) ≠
      Multiset.ofList final.accepted := by
  refine ⟨_,_,rfl,by decide,rfl,?_⟩
  decide

/-- Two threads one after the other, with a flush in between. -/
def orderlyRun : List (Action 2) :=
  .call 0 (.monitor 10 8 0 true) :: List.replicate 14 (.step 0) ++
    .call 1 (.monitor 11 8 0 true) :: List.replicate 6 (.step 1) ++
    .wrote 1 14 :: List.replicate 19 (.step 1)

theorem orderly_run_keeps_two_records : ∃ final session, run step orderlyRun (Machine.start 2 14) = some final ∧
    flushBuffer (final.session []) = .ok (session,true) ∧
    Multiset.ofList (recordsOf session.traceDataFile (session.traceDataFile.length / kMiniTraceRecordSize)) =
      Multiset.ofList final.accepted := by
  refine ⟨_,_,rfl,rfl,?_⟩
  exact orderly_run_keeps_records 2 14 orderlyRun _ [] _ true (eachStep_of_check Orderly _ _ (by decide)) rfl
    (by decide) (by decide) rfl

end Aatt.Threads
