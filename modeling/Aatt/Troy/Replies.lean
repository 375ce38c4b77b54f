import Mathlib.Data.List.Sort
import Aatt.Lib.Transition
import Aatt.Troy.Commands
import Aatt.Troy.Views

/-! The replies of the driver. Every received line is handled by a thread of its own, all of them write to one stream,
and a message does not say to which line it replies. The handlers share `history`, a `LinkedList` without a lock: most
commands add to it and then print it, and an iteration throws when the list has changed since it began. -/
namespace Aatt.Troy

open Aatt.Lib

def encodedUnit (c : UInt16) : Nat := if 1 ≤ c ∧ c ≤ 0x7F then 1 else if c ≤ 0x7FF then 2 else 3

def encodedLength (text : JavaString) : Nat := (text.map encodedUnit).sum

namespace Replies

/-- What a handler meets when it executes its command. `sems` has the keys of `__SEMS`, unless the class or its field is
missing, which leaves the field of the driver null. `raises` says that a call into the toolkit or the app throws. -/
structure Surroundings where
  views : List View
  activity : Activity
  sems : Option (List Int)
  raises : Bool

/-- The string that `getViews` sends. -/
def viewsReply (views : List View) : JavaString := if views = [] then units "empty" else report views

/-- The string that `getBlcokingThreads` sends. -/
def idList (ids : List Int) : JavaString := ids.foldl (fun result id => result ++ units "_" ++ intText id) (units "ID:")

/-- The message that the method writes to the stream, if it gets to its `writeUTF`. The other methods have none. -/
def reply {φ : Type} (meets : Surroundings) : Call φ → Option JavaString
  | .getViews => if meets.raises then none else some (viewsReply meets.views)
  | .getActivities => if meets.raises then none else some (getActivities meets.views.isEmpty meets.activity)
  | .setDefaultText _ => if meets.raises then none else some (units "OK")
  | .getBlcokingThreads => meets.sems.map idList
  | .unblockThreadAll0 => meets.sems.map fun _ => units "OK"
  | .tearDown => some (units "finish")
  | _ => none

/-- Where a handler stands: before its command, in `history.offer`, behind it, in the loop of `printLog` with the
fields of the iterator, before the method of its command, or before its `writeUTF`. A handler that has ended with an
exception is finished as well. -/
inductive Status where
  | running
  | offering
  | logging
  | printing (expectedModCount nextIndex : Nat)
  | executing
  | replying (message : JavaString)
  | finished
  deriving DecidableEq, Repr

structure Handler where
  line : JavaString
  status : Status
  deriving DecidableEq, Repr

/-- The fields of the list. `torn` says that two calls of `offer` have overlapped, which may leave it damaged. -/
structure History where
  size : Nat
  modCount : Nat
  torn : Bool
  deriving DecidableEq, Repr

/-- The handlers in the order of their lines, and the messages. Each message is kept with the place of its sender, which
is not in the stream. -/
structure State where
  handlers : List Handler
  history : History
  sent : List (Nat × JavaString)
  deriving DecidableEq, Repr

def start : State := ⟨[],⟨0,0,false⟩,[]⟩

/-- The next step of a handler is `begin`, `offer`, `iterator`, `next`, `execute` or `write`. `damaged` is a step of an
iterator in a damaged list, and `abandon` an exception in a handler that is owed no reply. -/
inductive Action where
  | receive (line : JavaString)
  | begin (h : Nat)
  | offer (h : Nat)
  | iterator (h : Nat)
  | next (h : Nat)
  | damaged (h : Nat)
  | execute (h : Nat) (meets : Surroundings)
  | write (h : Nat)
  | abandon (h : Nat)

def lineCommand (line : JavaString) : Except Exception Command := do
  Command.valueOf (← part (split [underscore] line) 0)

def replies : Command → Bool
  | .getviews | .getactivities | .setdefaulttext | .getBlcokingThreadsID | .unblockThreadAll | .finish => true
  | _ => false

def owed (line : JavaString) : Bool :=
  match lineCommand line with
  | .ok command => replies command
  | .error _ => false

/-- The arguments that are read before `history.offer`, if the command has one. -/
def beforeOffer : Command → Option (List Kind)
  | .getviews | .getactivities | .appropauseresume | .approstopstart | .approrelaunch | .faithrelaunch | .settimepicker
  | .setdatepicker | .setnavigationdrawer | .finish | .getBlcokingThreadsID | .unblockThread | .unblockThreadAll
  | .setSemInitValue => none
  | .clicklist | .clicklonglist => some [.text,.text]
  | .scrollandclick => some [.text,.text,.text]
  | command => some command.arguments

def entry (line : JavaString) : Status :=
  match lineCommand line with
  | .error _ => .finished
  | .ok command =>
    match beforeOffer command with
    | none => .executing
    | some kinds => if fitAll kinds (split [underscore] line).tail then .offering else .finished

/-- `unlock` does not print the history. -/
def prints (line : JavaString) : Bool :=
  match lineCommand line with
  | .ok .unlock => false
  | _ => true

section Machine

variable {φ : Type} (floatValue : JavaString → φ)

/-- The message of the handler of a line, if its decoding and its method get as far as that. -/
def message (line : JavaString) (meets : Surroundings) : Option JavaString :=
  match handleLine floatValue line with
  | .ok call => reply meets call
  | .error _ => none

def State.setStatus (s : State) (h : Nat) (status : Status) : State :=
  { s with handlers := s.handlers.modify h fun handler => { handler with status := status } }

/-- Some handler is in `history.offer`. -/
def State.offering (s : State) : Bool := s.handlers.any fun handler => handler.status == .offering

def step : Action → State → Option State
  | .receive line,s => some { s with handlers := s.handlers ++ [⟨line,.running⟩] }
  | .begin h,s =>
    match s.handlers[h]? with
    | some ⟨line,.running⟩ =>
      let torn := s.history.torn || entry line == .offering && s.offering
      some { s.setStatus h (entry line) with history := { s.history with torn := torn } }
    | _ => none
  | .offer h,s =>
    match s.handlers[h]? with
    | some ⟨line,.offering⟩ => some { s.setStatus h (if prints line then .logging else .executing) with
        history := { s.history with size := s.history.size + 1, modCount := s.history.modCount + 1 } }
    | _ => none
  | .iterator h,s =>
    match s.handlers[h]? with
    | some ⟨_,.logging⟩ => some (s.setStatus h (.printing s.history.modCount 0))
    | _ => none
  | .next h,s =>
    match s.handlers[h]? with
    | some ⟨_,.printing expected index⟩ =>
      if index < s.history.size then
        -- a ConcurrentModificationException ends the handler
        some (s.setStatus h (if expected = s.history.modCount then .printing expected (index + 1) else .finished))
      else some (s.setStatus h .executing)
    | _ => none
  | .damaged h,s =>
    match s.handlers[h]? with
    | some ⟨_,.printing _ _⟩ => if s.history.torn then some (s.setStatus h .finished) else none
    | _ => none
  | .execute h meets,s =>
    match s.handlers[h]? with
    | some ⟨line,.executing⟩ =>
      match message floatValue line meets with
      | some text => some (s.setStatus h (.replying text))
      | none => some (s.setStatus h .finished)
    | _ => none
  | .write h,s =>
    match s.handlers[h]? with
    | some ⟨_,.replying text⟩ =>
      -- `writeUTF` throws for a long string, and the exception is caught
      let sent := if encodedLength text ≤ 65535 then s.sent ++ [(h,text)] else s.sent
      some { s.setStatus h .finished with sent := sent }
    | _ => none
  | .abandon h,s =>
    match s.handlers[h]? with
    | some ⟨line,status⟩ => if owed line || status == .offering then none else some (s.setStatus h .finished)
    | none => none

end Machine

/-- No exception and no string that is too long comes between the command and its reply. -/
def calm (meets : Surroundings) : Command → Bool
  | .getviews => !meets.raises && encodedLength (viewsReply meets.views) ≤ 65535
  | .getactivities => !meets.raises && encodedLength (getActivities meets.views.isEmpty meets.activity) ≤ 65535
  | .setdefaulttext => !meets.raises
  | .getBlcokingThreadsID => meets.sems.any fun ids => encodedLength (idList ids) ≤ 65535
  | .unblockThreadAll => meets.sems.isSome
  | _ => true

/-- A line that is owed a reply has its arguments, and its handler is not disturbed. -/
def Undisturbed (line : JavaString) (meets : Surroundings) : Prop :=
  ∀ command, lineCommand line = .ok command → replies command = true → WellFormed line ∧ calm meets command = true

instance (line : JavaString) (meets : Surroundings) : Decidable (Undisturbed line meets) :=
  match named : lineCommand line with
  | .error _ => isTrue fun command other => by rw [named] at other; nomatch other
  | .ok command => decidable_of_iff (replies command = true → WellFormed line ∧ calm meets command = true)
    ⟨fun fits other same => by rw [named] at same; cases same; exact fits,fun fits => fits command named⟩

/-- The handler at the place is there and has finished. -/
def State.finishedAt (s : State) (h : Nat) : Bool := (s.handlers[h]?.map Handler.status) == some .finished

/-- The handler at the place is there and owes a reply. -/
def State.owedAt (s : State) (h : Nat) : Bool := (s.handlers[h]?.map fun handler => owed handler.line) == some true

/-- The handler is in the loop of `printLog`. -/
def Status.prints : Status → Bool
  | .printing _ _ => true
  | _ => false

/-- Handlers are not disturbed: calls of `history.offer` do not overlap, and none ends while a handler that is owed a
reply prints the history. One that writes finds the handlers of all earlier lines that are owed a reply finished. -/
def InTurn : Action → State → Prop
  | .begin h,s => ∀ handler ∈ s.handlers[h]?, (owed handler.line = true → WellFormed handler.line) ∧
    (entry handler.line = .offering → s.offering = false)
  | .offer _,s => ∀ handler ∈ s.handlers, owed handler.line = true → handler.status.prints = false
  | .execute h meets,s => ∀ handler ∈ s.handlers[h]?, Undisturbed handler.line meets
  | .write h,s => ∀ k < h, s.owedAt k = true → s.finishedAt k = true
  | _,_ => True

instance : ∀ action s, Decidable (InTurn action s)
  | .begin h,s => inferInstanceAs (Decidable (∀ handler ∈ s.handlers[h]?, _ ∧ _))
  | .offer _,s => inferInstanceAs (Decidable (∀ handler ∈ s.handlers, _))
  | .execute h _,s => inferInstanceAs (Decidable (∀ handler ∈ s.handlers[h]?, _))
  | .write h,_ => inferInstanceAs (Decidable (∀ k < h, _))
  | .receive _,_ | .iterator _,_ | .next _,_ | .damaged _,_ | .abandon _,_ => isTrue trivial

/-- Once all handlers have finished there is one message for each line that is owed a reply, in the order of the
lines. -/
def Matched (s : State) : Prop :=
  (∀ handler ∈ s.handlers, handler.status = .finished) →
    s.sent.map Prod.fst = (List.range s.handlers.length).filter fun h => s.owedAt h

section Machine

variable {φ : Type} (floatValue : JavaString → φ)

theorem handleLine_eq (line : JavaString) :
    handleLine floatValue line = lineCommand line >>= fun command =>
      command.decode floatValue (split [underscore] line) := by
  simp only [handleLine,lineCommand,bind_assoc]

theorem decode_silent {command : Command} {cmds : List JavaString} {call : Call φ} (meets : Surroundings)
    (silent : replies command = false) (decoded : command.decode floatValue cmds = .ok call) :
    reply meets call = none := by
  cases command <;> simp only [replies,reduceCtorEq] at silent <;>
    simp only [Command.decode,bind_pure_comp,bind_eq_ok,map_eq_ok,part_eq_ok] at decoded
  all_goals
    repeat obtain ⟨_,_,decoded⟩ := decoded
    rfl

theorem message_silent {line : JavaString} (silent : owed line = false) (meets : Surroundings) :
    message floatValue line meets = none := by
  unfold message
  split
  · rename_i call handled
    rw [handleLine_eq,bind_eq_ok] at handled
    obtain ⟨command,named,decoded⟩ := handled
    rw [owed,named] at silent
    exact decode_silent floatValue meets silent decoded
  · rfl

theorem message_undisturbed {line : JavaString} (due : owed line = true) {meets : Surroundings}
    (undisturbed : Undisturbed line meets) :
    ∃ text, message floatValue line meets = some text ∧ encodedLength text ≤ 65535 := by
  cases named : lineCommand line with
  | error e => simp [owed,named] at due
  | ok command =>
    rw [owed,named] at due
    obtain ⟨formed,clear⟩ := undisturbed command named due
    obtain ⟨call,handled⟩ := (exists_ok_iff _).mpr ((handleLine_isOk_iff floatValue line).mpr formed)
    have decoded : command.decode floatValue (split [underscore] line) = .ok call := by
      rw [← handled,handleLine_eq,named]
      rfl
    simp only [message,handled]
    cases command <;> simp only [replies,reduceCtorEq] at due
    case getviews | getactivities =>
      cases decoded
      simp only [calm,Bool.and_eq_true,Bool.not_eq_true',decide_eq_true_eq] at clear
      simp [reply,clear.1,clear.2]
    case setdefaulttext =>
      have written : ∃ text, call = .setDefaultText text := by
        simp only [Command.decode,bind_eq_ok] at decoded
        obtain ⟨text,-,same⟩ := decoded
        exact ⟨text,(Except.ok.inj same).symm⟩
      obtain ⟨text,rfl⟩ := written
      simp only [calm,Bool.not_eq_true'] at clear
      exact ⟨units "OK",by simp [reply,clear],by decide⟩
    case getBlcokingThreadsID =>
      cases decoded
      obtain ⟨ids,found,short⟩ := (Option.any_eq_true _ _).mp clear
      exact ⟨idList ids,by simp [reply,found],of_decide_eq_true short⟩
    case unblockThreadAll =>
      cases decoded
      obtain ⟨ids,found⟩ := Option.isSome_iff_exists.mp clear
      exact ⟨units "OK",by simp [reply,found],by decide⟩
    case finish =>
      cases decoded
      exact ⟨units "finish",rfl,by decide⟩

theorem owed_of_message {line : JavaString} {meets : Surroundings} (undisturbed : Undisturbed line meets)
    {text : JavaString} (written : message floatValue line meets = some text) :
    owed line = true ∧ encodedLength text ≤ 65535 := by
  cases due : owed line with
  | false =>
    rw [message_silent floatValue due] at written
    nomatch written
  | true =>
    obtain ⟨other,same,short⟩ := message_undisturbed floatValue due undisturbed
    rw [written] at same
    cases same
    exact ⟨rfl,short⟩

theorem silent_of_message {line : JavaString} {meets : Surroundings} (undisturbed : Undisturbed line meets)
    (unwritten : message floatValue line meets = none) : owed line = false := by
  refine Bool.eq_false_iff.mpr fun due => ?_
  obtain ⟨text,written,-⟩ := message_undisturbed floatValue due undisturbed
  rw [unwritten] at written
  nomatch written

end Machine

theorem lineCommand_named {line : JavaString} {command : Command} {parts : List JavaString}
    (shown : split [underscore] line = units command.name :: parts) : lineCommand line = .ok command := by
  rw [lineCommand,bind_eq_ok]
  exact ⟨units command.name,part_eq_ok.mpr (by rw [shown]; rfl),valueOf_eq_ok.mpr rfl⟩

theorem entry_cases (line : JavaString) : entry line = .offering ∨ entry line = .executing ∨
    entry line = .finished := by
  unfold entry
  split
  · exact .inr (.inr rfl)
  · split
    · exact .inr (.inl rfl)
    · split_ifs
      · exact .inl rfl
      · exact .inr (.inr rfl)

theorem entry_ne_finished {line : JavaString} (due : owed line = true) (formed : WellFormed line) :
    entry line ≠ .finished := by
  obtain ⟨command,parts,shown,fit⟩ := formed
  have named := lineCommand_named shown
  rw [owed,named] at due
  rw [entry,named,shown]
  cases command <;> simp only [replies,reduceCtorEq] at due
  case setdefaulttext =>
    change (if fitAll Command.setdefaulttext.arguments parts = true then Status.offering else .finished) ≠ .finished
    rw [if_pos fit]
    decide
  all_goals exact Status.noConfusion

section State

variable (s : State)

@[simp] theorem getElem?_setStatus (h k : Nat) (status : Status) : (s.setStatus h status).handlers[k]? =
    s.handlers[k]?.map fun handler => if h = k then { handler with status := status } else handler := by
  simp [State.setStatus,List.getElem?_modify]

@[simp] theorem owedAt_setStatus (h k : Nat) (status : Status) : (s.setStatus h status).owedAt k = s.owedAt k := by
  unfold State.owedAt
  rw [getElem?_setStatus,Option.map_map]
  congr 2
  funext handler
  simp only [Function.comp_apply]
  split_ifs <;> rfl

theorem finishedAt_setStatus {h : Nat} {handler : Handler} (present : s.handlers[h]? = some handler)
    (status : Status) (k : Nat) :
    (s.setStatus h status).finishedAt k = if h = k then status == .finished else s.finishedAt k := by
  unfold State.finishedAt
  rw [getElem?_setStatus]
  split_ifs with same
  · subst same
    simp [present]
  · simp

theorem finishedAt_lt {s : State} {h : Nat} (finished : s.finishedAt h = true) : h < s.handlers.length := by
  by_contra outside
  simp [State.finishedAt,List.getElem?_eq_none (Nat.not_lt.mp outside)] at finished

end State

/-- What holds of a handler of the line: an iterator is as new as the list, and a message can be sent. -/
def State.Fits (s : State) (line : JavaString) : Status → Prop
  | .printing expected _ => owed line = true → expected = s.history.modCount
  | .replying text => owed line = true ∧ encodedLength text ≤ 65535
  | _ => True

/-- The replies so far are those of the finished handlers that owed one, in the order of their lines, and these handlers
are the first that owe one. -/
structure State.Ordered (s : State) : Prop where
  ascending : (s.sent.map Prod.fst).Pairwise (· < ·)
  members : ∀ h, h ∈ s.sent.map Prod.fst ↔ s.owedAt h = true ∧ s.finishedAt h = true
  closed : ∀ h k, h < k → s.owedAt h = true → s.owedAt k = true → s.finishedAt k = true → s.finishedAt h = true
  whole : s.history.torn = false
  fits : ∀ (h : Nat) (handler : Handler), s.handlers[h]? = some handler → s.Fits handler.line handler.status

theorem State.Ordered.matched {s : State} (ordered : s.Ordered) : Matched s := by
  intro done
  have finished : ∀ h < s.handlers.length, s.finishedAt h = true := by
    intro h inside
    simp [State.finishedAt,List.getElem?_eq_getElem inside,done _ (List.getElem_mem inside)]
  refine ordered.ascending.eq_of_mem_iff (List.pairwise_lt_range.filter _) fun h => ?_
  rw [ordered.members,List.mem_filter,List.mem_range]
  constructor
  · rintro ⟨due,ended⟩
    exact ⟨finishedAt_lt ended,due⟩
  · rintro ⟨inside,due⟩
    exact ⟨due,finished h inside⟩

theorem State.Ordered.receive {s : State} (ordered : s.Ordered) (line : JavaString) :
    State.Ordered { s with handlers := s.handlers ++ [⟨line,.running⟩] } := by
  set next : State := { s with handlers := s.handlers ++ [⟨line,.running⟩] } with shown
  have finished : ∀ h, next.finishedAt h = s.finishedAt h := by
    intro h
    unfold State.finishedAt
    rcases Nat.lt_or_ge h s.handlers.length with inside | outside
    · simp [shown,List.getElem?_append_left inside]
    · rw [shown,List.getElem?_append_right outside,List.getElem?_eq_none outside]
      cases h - s.handlers.length <;> rfl
  have due : ∀ h, h < s.handlers.length → next.owedAt h = s.owedAt h := by
    intro h inside
    simp [shown,State.owedAt,List.getElem?_append_left inside]
  constructor
  · exact ordered.ascending
  · intro h
    rw [finished,ordered.members]
    refine and_congr_left fun ended => ?_
    rw [due h (finishedAt_lt ended)]
  · intro h k before owes owes' ended
    rw [finished] at ended ⊢
    have inside := finishedAt_lt ended
    rw [due h (before.trans inside)] at owes
    rw [due k inside] at owes'
    exact ordered.closed h k before owes owes' ended
  · exact ordered.whole
  · intro h handler found
    rcases Nat.lt_or_ge h s.handlers.length with inside | outside
    · rw [shown,List.getElem?_append_left inside] at found
      exact ordered.fits h handler found
    · rw [shown,List.getElem?_append_right outside] at found
      rw [List.mem_singleton.mp (List.mem_of_getElem? found)]
      trivial

theorem State.Ordered.fits_setStatus {s : State} (ordered : s.Ordered) {h : Nat} {line : JavaString}
    {before after : Status} (present : s.handlers[h]? = some (Handler.mk line before)) (fit : s.Fits line after)
    (k : Nat) (handler : Handler) (found : (s.setStatus h after).handlers[k]? = some handler) :
    s.Fits handler.line handler.status := by
  rw [getElem?_setStatus] at found
  split_ifs at found with same
  · subst same
    rw [present] at found
    cases found
    exact fit
  · exact ordered.fits k handler (by simpa using found)

theorem State.Ordered.move {s : State} (ordered : s.Ordered) {h : Nat} {line : JavaString} {before after : Status}
    (present : s.handlers[h]? = some (Handler.mk line before)) (active : owed line = true → before ≠ .finished)
    (fit : s.Fits line after) (silent : after = .finished → owed line = false) : (s.setStatus h after).Ordered := by
  have finished : ∀ k, s.owedAt k = true → (s.setStatus h after).finishedAt k = s.finishedAt k := by
    intro k due
    rw [finishedAt_setStatus s present]
    split_ifs with same
    · subst same
      have due : owed line = true := by simpa [State.owedAt,present] using due
      have goes : after ≠ .finished := fun ended => by simp [silent ended] at due
      simp [State.finishedAt,present,goes,active due]
    · rfl
  constructor
  · exact ordered.ascending
  · intro k
    rw [owedAt_setStatus]
    refine (ordered.members k).trans (and_congr_right fun due => ?_)
    rw [finished k due]
  · intro k k' before due due'
    rw [owedAt_setStatus] at due due'
    rw [finished k due,finished k' due']
    exact ordered.closed k k' before due due'
  · exact ordered.whole
  · exact ordered.fits_setStatus present fit

theorem State.Ordered.advance {s : State} (ordered : s.Ordered) {h : Nat} {line : JavaString} {before after : Status}
    (present : s.handlers[h]? = some (Handler.mk line before)) (active : before ≠ .finished) (goes : after ≠ .finished)
    (fit : s.Fits line after) : (s.setStatus h after).Ordered :=
  ordered.move present (fun _ => active) fit fun ended => absurd ended goes

theorem State.Ordered.offer {s : State} (ordered : s.Ordered)
    (quiet : ∀ handler ∈ s.handlers, owed handler.line = true → handler.status.prints = false) (size modCount : Nat) :
    State.Ordered { s with history := { s.history with size := size, modCount := modCount } } := by
  refine ⟨ordered.ascending,ordered.members,ordered.closed,ordered.whole,fun h handler found => ?_⟩
  have fit := ordered.fits h handler found
  have unprinted := quiet handler (List.mem_of_getElem? found)
  cases place : handler.status with
  | printing expected index =>
    intro due
    rw [place] at unprinted
    nomatch unprinted due
  | replying text =>
    rw [place] at fit
    exact fit
  | _ => trivial

theorem State.Ordered.write {s : State} (ordered : s.Ordered) {h : Nat} {line text : JavaString}
    (present : s.handlers[h]? = some (Handler.mk line (.replying text)))
    (turn : ∀ k < h, s.owedAt k = true → s.finishedAt k = true) :
    State.Ordered { s.setStatus h .finished with sent := s.sent ++ [(h,text)] } := by
  have due : s.owedAt h = true := by simp [State.owedAt,present,(ordered.fits h _ present).1]
  have unfinished : s.finishedAt h = false := by simp [State.finishedAt,present]
  have finished : ∀ k, (s.setStatus h .finished).finishedAt k = true ↔ k = h ∨ s.finishedAt k = true := by
    intro k
    rw [finishedAt_setStatus s present]
    split_ifs with same
    · simp [same]
    · simp [Ne.symm same]
  have last : ∀ k ∈ s.sent.map Prod.fst, k < h := by
    intro k member
    obtain ⟨owes,ended⟩ := (ordered.members k).mp member
    by_contra behind
    rcases Nat.eq_or_lt_of_not_lt behind with rfl | later
    · rw [unfinished] at ended
      nomatch ended
    · have early := ordered.closed h k later due owes ended
      rw [unfinished] at early
      nomatch early
  constructor
  · rw [List.map_append,List.pairwise_append]
    exact ⟨ordered.ascending,List.pairwise_singleton _ _,fun k member k' here =>
      List.mem_singleton.mp here ▸ last k member⟩
  · intro k
    change k ∈ (s.sent ++ [(h,text)]).map Prod.fst ↔ (s.setStatus h .finished).owedAt k = true ∧
      (s.setStatus h .finished).finishedAt k = true
    rw [List.map_append,List.mem_append,ordered.members,finished,owedAt_setStatus]
    simp only [List.map_cons,List.map_nil,List.mem_singleton]
    constructor
    · rintro (⟨owes,ended⟩ | rfl)
      · exact ⟨owes,.inr ended⟩
      · exact ⟨due,.inl rfl⟩
    · rintro ⟨owes,rfl | ended⟩
      · exact .inr rfl
      · exact .inl ⟨owes,ended⟩
  · intro k k' before owes owes' ended
    change (s.setStatus h .finished).owedAt k = true at owes
    change (s.setStatus h .finished).owedAt k' = true at owes'
    rw [owedAt_setStatus] at owes owes'
    refine (finished k).mpr (.inr ?_)
    rcases (finished k').mp ended with rfl | ended
    · exact turn k before owes
    · exact ordered.closed k k' before owes owes' ended
  · exact ordered.whole
  · exact ordered.fits_setStatus present trivial

/-- A handler begins while no other is in `history.offer`, with all the arguments if it owes a reply. -/
theorem State.Ordered.begin {s : State} (ordered : s.Ordered) {h : Nat} {line : JavaString}
    (present : s.handlers[h]? = some (Handler.mk line .running))
    (turn : (owed line = true → WellFormed line) ∧ (entry line = .offering → s.offering = false)) :
    State.Ordered { s.setStatus h (entry line) with
      history := { s.history with torn := s.history.torn || entry line == .offering && s.offering } } := by
  have alone : (s.history.torn || entry line == .offering && s.offering) = s.history.torn := by
    rw [ordered.whole,Bool.false_or,Bool.and_eq_false_imp]
    exact fun offers => turn.2 (eq_of_beq offers)
  rw [alone]
  refine ordered.move present (fun _ => Status.noConfusion) ?_ fun ended => ?_
  · rcases entry_cases line with entered | entered | entered <;>
      (rw [entered]; trivial)
  · exact Bool.eq_false_iff.mpr fun due => entry_ne_finished due (turn.1 due) ended

theorem ordered_step {φ : Type} (floatValue : JavaString → φ) (action : Action) (s next : State) (ordered : s.Ordered)
    (turn : InTurn action s) (taken : step floatValue action s = some next) : next.Ordered := by
  cases action with
  | receive line =>
    cases taken
    exact ordered.receive line
  | begin h =>
    simp only [step] at taken
    split at taken
    · rename_i line present
      cases taken
      exact ordered.begin present (turn _ present)
    · nomatch taken
  | offer h =>
    simp only [step] at taken
    split at taken
    · rename_i line present
      cases taken
      have added := ordered.offer turn (s.history.size + 1) (s.history.modCount + 1)
      cases prints line with
      | false => exact added.advance present Status.noConfusion Status.noConfusion trivial
      | true => exact added.advance present Status.noConfusion Status.noConfusion trivial
    · nomatch taken
  | iterator h =>
    simp only [step] at taken
    split at taken
    · rename_i line present
      cases taken
      exact ordered.advance present Status.noConfusion Status.noConfusion fun _ => rfl
    · nomatch taken
  | next h =>
    simp only [step] at taken
    split at taken
    · rename_i line expected index present
      have current : owed line = true → expected = s.history.modCount := ordered.fits h _ present
      split_ifs at taken with inside unchanged
      · cases taken
        exact ordered.advance present Status.noConfusion Status.noConfusion current
      · cases taken
        refine ordered.move present (fun _ => Status.noConfusion) trivial fun _ => ?_
        exact Bool.eq_false_iff.mpr fun due => unchanged (current due)
      · cases taken
        exact ordered.advance present Status.noConfusion Status.noConfusion trivial
    · nomatch taken
  | damaged h =>
    simp only [step,ordered.whole] at taken
    split at taken <;> nomatch taken
  | abandon h =>
    simp only [step] at taken
    split at taken
    · rename_i line status present
      split_ifs at taken with barred
      cases taken
      have silent : owed line = false := by
        rw [Bool.or_eq_true,not_or,Bool.not_eq_true] at barred
        exact barred.1
      exact ordered.move present (fun due => by simp [silent] at due) trivial fun _ => silent
    · nomatch taken
  | execute h meets =>
    simp only [step] at taken
    split at taken
    · rename_i line present
      have undisturbed : Undisturbed line meets := turn _ present
      split at taken
      · rename_i text written
        cases taken
        exact ordered.advance present Status.noConfusion Status.noConfusion
          (owed_of_message floatValue undisturbed written)
      · rename_i unwritten
        cases taken
        refine ordered.move present (fun _ => Status.noConfusion) trivial fun _ => ?_
        exact silent_of_message floatValue undisturbed unwritten
    · nomatch taken
  | write h =>
    simp only [step] at taken
    split at taken
    · rename_i line text present
      rw [if_pos (ordered.fits h _ present).2] at taken
      cases taken
      exact ordered.write present turn
    · nomatch taken

theorem start_ordered : start.Ordered := by
  constructor <;> simp [start,State.finishedAt]

theorem length_le_encodedLength (text : JavaString) : text.length ≤ encodedLength text := by
  unfold encodedLength
  induction text with
  | nil => exact Nat.le_refl _
  | cons c text ih =>
    have one : 1 ≤ encodedUnit c := by
      unfold encodedUnit
      split_ifs <;> decide
    rw [List.map_cons,List.sum_cons,List.length_cons]
    omega

theorem textField_length_le (view : View) (shown : view.isShown = true) : view.textField.length ≤
    (viewsReply [view]).length := by
  have one : viewsReply [view] = view.entry 0 := by
    rw [viewsReply,if_neg (List.cons_ne_nil _ _),report_eq _ (List.cons_ne_nil _ _)]
    simp [entries,tail,lastShown,shown]
  rw [one,entry_eq]
  simp only [List.length_append]
  omega

def written (text : JavaString) : View := { textView "" true with text := ⟨text,true⟩ }

theorem written_textField {text : JavaString} (filled : text ≠ []) : (written text).textField = text := by
  have branch : (written text).branch = .textView := rfl
  have chars : (written text).text = ⟨text,true⟩ := rfl
  rw [View.textField,branch,chars]
  simp [CharSequence.equalsString,filled]

/-- The report of a screen with a long text is too long for `writeUTF`. -/
theorem report_long {text : JavaString} (long : 65535 < text.length) :
    65535 < encodedLength (viewsReply [written text]) := by
  have filled : text ≠ [] := List.ne_nil_of_length_pos (by omega)
  have size := (textField_length_le (written text) rfl).trans (length_le_encodedLength _)
  rw [written_textField filled] at size
  exact long.trans_le size

def longText : JavaString := List.replicate 65536 97

def emptyScreen : Surroundings := ⟨[],keyActivity,some [],false⟩

/-- Two lines that are owed a reply with one between them that is not. The handlers begin in another order, and the one
that is owed nothing ends when the history changes under it. -/
def inTurnActions : List Action :=
  [.receive (units "getviews"),.receive (units "pressbackkey"),.receive (units "setdefaulttext_a"),.begin 1,
    .offer 1,.iterator 1,.begin 2,.offer 2,.next 1,.iterator 2,.next 2,.next 2,.next 2,.execute 2 emptyScreen,
    .begin 0,.execute 0 emptyScreen,.write 0,.write 2]

end Replies

end Aatt.Troy
