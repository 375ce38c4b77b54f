import Aatt.Lib.Behaviour
import Aatt.Troy.Numerals

/-! `UiAutomatorTestCase.test` on one connection: the two loops that read command lines until the flag `finished`
is set. At the end of the stream `readLine` returns null each time it is called. -/
namespace Aatt.UiDriver

open Aatt.Lib Aatt.Troy

/-- The orders of `Cmds`, as they are tested. -/
inductive Order where
  | click
  | clearTextField
  | clickBottomRight
  | clickTopLeft
  | longClick
  | longClickBottomRight
  | longClickTopLeft
  | setText
  | swipeDown
  | swipeLeft
  | swipeRight
  | swipeUp
  deriving DecidableEq, Repr

def Order.word : Order → String
  | .click => "click"
  | .clearTextField => "clearTextField"
  | .clickBottomRight => "clickBottomRight"
  | .clickTopLeft => "clickTopLeft"
  | .longClick => "longClick"
  | .longClickBottomRight => "longClickBottomRight"
  | .longClickTopLeft => "longClickTopLeft"
  | .setText => "setText"
  | .swipeDown => "swipeDown"
  | .swipeLeft => "swipeLeft"
  | .swipeRight => "swipeRight"
  | .swipeUp => "swipeUp"

def Order.values : List Order :=
  [.click,.clearTextField,.clickBottomRight,.clickTopLeft,.longClick,.longClickBottomRight,.longClickTopLeft,.setText,
    .swipeDown,.swipeLeft,.swipeRight,.swipeUp]

def Order.ofWord (word : JavaString) : Option Order := Order.values.find? fun order => units order.word == word

/-- The calls of the toolkit, with the instance of the object. Swipes have 100 steps. -/
inductive UiAction where
  | dumpWindowHierarchy
  | act (index : Int) (order : Order)
  | setText (index : Int) (text : JavaString)
  deriving DecidableEq

/-- How the reading of a connection ends: the loops are left with the value of `finished`, an exception gets out of the
method, or the process exits. -/
inductive Ending where
  | left (finished : Bool)
  | exception (e : Exception)
  | exit
  deriving DecidableEq, Repr

inductive Report where
  | action (action : UiAction)
  | written (line : JavaString)
  deriving DecidableEq

def STOP : JavaString := units "stop"

def DUMP : JavaString := units "dump"

def okay : JavaString := units "okay"

def space : UInt16 := 32

def thrown {α : Type} (result : Except Exception α) : Except Ending α := result.mapError .exception

/-- The branches below the test for an order, with the parameters of the line. -/
def applyOrder (params : List JavaString) (index : Int) : Option Order → Except Ending UiAction
  | none => .error .exit
  | some .setText => do pure (.setText index (← thrown (part params 2)))
  | some order => pure (.act index order)

/-- The action of a line other than `stop`. All actions of the toolkit succeed. -/
def perform (content : JavaString) : Except Ending UiAction :=
  if content = DUMP then pure .dumpWindowHierarchy
  else do
    let params := split [space] content
    let index ← thrown (do parseInt (← part params 0))
    let word ← thrown (part params 1)
    applyOrder params index (Order.ofWord word)

/-- The loop that the driver is in: the test of `finished` comes next, or the next call of `readLine`. -/
inductive Loop where
  | flag
  | reading
  deriving DecidableEq, Repr

/-- `lines` have not been read yet. -/
structure State where
  loop : Loop
  lines : List JavaString
  finished : Bool
  deriving DecidableEq, Repr

def start (lines : List JavaString) : State := ⟨.flag,lines,false⟩

def step (s : State) : Move State Report Ending :=
  match s.loop with
  | .flag => if s.finished then ⟨[],.inr (.left s.finished)⟩ else ⟨[],.inl { s with loop := .reading }⟩
  | .reading =>
    match s.lines with
    | [] => ⟨[],.inl { s with loop := .flag }⟩
    | content :: rest =>
      if content = STOP then ⟨[],.inl ⟨.flag,rest,true⟩⟩
      else match perform content with
        | .ok action => ⟨[.action action,.written okay],.inl { s with lines := rest }⟩
        | .error ending => ⟨[],.inr ending⟩

/-- The commands other than `stop`. -/
inductive UiCommand where
  | dump
  | act (index : IntNumeral) (order : Order) (plain : order ≠ .setText)
  | setText (index : IntNumeral) (text : JavaString)

def UiCommand.line : UiCommand → JavaString
  | .dump => DUMP
  | .act index order _ => [space].intercalate [index.text,units order.word]
  | .setText index text => [space].intercalate [index.text,units Order.setText.word,text]

def UiCommand.action : UiCommand → UiAction
  | .dump => .dumpWindowHierarchy
  | .act index order _ => .act index.value order
  | .setText index text => .setText index.value text

inductive CommandLine where
  | stop
  | command (command : UiCommand)

def CommandLine.line : CommandLine → JavaString
  | .stop => STOP
  | .command other => other.line

def CommandLine.isStop : CommandLine → Bool
  | .stop => true
  | .command _ => false

/-- The commands up to the first `stop`. -/
def executed : List CommandLine → List UiCommand
  | [] | .stop :: _ => []
  | .command command :: rest => command :: executed rest

def reports (commands : List UiCommand) : List Report :=
  commands.flatMap fun command => [.action command.action,.written okay]

/-- The driver executes the commands up to the first `stop`, confirms them and leaves its loops, to finish after `stop`
and to connect again without it. -/
def Completes (commands : List CommandLine) : Prop :=
  Ends step (start (commands.map CommandLine.line)) (reports (executed commands))
    (.left (commands.any CommandLine.isStop))

/-- The text of the command, if it has one, is not empty and has no space. -/
def UiCommand.Plain : UiCommand → Prop
  | .setText _ text => text ≠ [] ∧ space ∉ text
  | _ => True

theorem ofWord_word (order : Order) : Order.ofWord (units order.word) = some order := by
  cases order <;> rfl

theorem word_filled (order : Order) : units order.word ≠ [] := by
  cases order <;> decide

theorem word_foreign (order : Order) : space ∉ units order.word := by
  cases order <;> decide

theorem index_foreign (index : IntNumeral) : space ∉ index.text := index.foreign (by decide)

theorem space_mem_line (index : IntNumeral) (field : JavaString) (rest : List JavaString) :
    space ∈ [space].intercalate (index.text :: field :: rest) := by
  rw [List.intercalate_cons_cons]
  simp

theorem ne_of_space {line : JavaString} (member : space ∈ line) : line ≠ STOP ∧ line ≠ DUMP := by
  constructor <;> rintro rfl <;> revert member <;> decide

theorem perform_order {content : JavaString} {index : IntNumeral} {order : Order} {rest : List JavaString}
    (other : content ≠ DUMP) (shown : split [space] content = index.text :: units order.word :: rest) :
    perform content = applyOrder (index.text :: units order.word :: rest) index.value (some order) := by
  unfold perform
  rw [if_neg other,shown]
  have first : part (index.text :: units order.word :: rest) 0 = .ok index.text := rfl
  have second : part (index.text :: units order.word :: rest) 1 = .ok (units order.word) := rfl
  simp only [first,second,index.parsed,ofWord_word,thrown,Except.mapError,bind,Except.bind]

theorem applyOrder_plain (params : List JavaString) (index : Int) {order : Order} (plain : order ≠ .setText) :
    applyOrder params index (some order) = .ok (.act index order) := by
  cases order with
  | setText => exact absurd rfl plain
  | _ => rfl

theorem applyOrder_setText (params : List JavaString) (index : Int) (text : JavaString) :
    applyOrder params index (some .setText) = .ok (.setText index text) ↔ params[2]? = some text := by
  rw [← part_eq_ok]
  simp only [applyOrder,thrown]
  cases part params 2 with
  | error e => exact ⟨nofun,nofun⟩
  | ok other =>
    constructor
    · intro same
      cases same
      rfl
    · intro same
      cases same
      rfl

theorem perform_line_iff (command : UiCommand) : perform command.line = .ok command.action ↔ command.Plain := by
  cases command with
  | dump => exact iff_of_true rfl trivial
  | act index order plain =>
    have other := (ne_of_space (space_mem_line index (units order.word) [])).2
    have foreign : ∀ field ∈ [] ++ [index.text], space ∉ field := by simpa using index_foreign index
    have shown := split_behind foreign index.filled (units order.word)
    rw [parts_of_plain (word_filled order) (word_foreign order)] at shown
    refine iff_of_true ?_ trivial
    exact (perform_order other shown).trans (applyOrder_plain _ index.value plain)
  | setText index text =>
    have other := (ne_of_space (space_mem_line index (units Order.setText.word) [text])).2
    have foreign : ∀ field ∈ [index.text] ++ [units Order.setText.word], space ∉ field := by
      simpa using And.intro (index_foreign index) (word_foreign .setText)
    have shown := split_behind foreign (word_filled .setText) text
    have performed := perform_order other shown
    have handed := applyOrder_setText (index.text :: units Order.setText.word :: dropTrailingEmpty
      (splitAll [space] text))
      index.value text
    have same : perform (UiCommand.setText index text).line = .ok (.setText index.value text) ↔
        (dropTrailingEmpty (splitAll [space] text))[0]? = some text :=
      ⟨fun done => handed.mp (performed.symm.trans done),fun first => performed.trans (handed.mpr first)⟩
    exact same.trans (first_part_iff text)

theorem reports_cons (command : UiCommand) (commands : List UiCommand) :
    reports (command :: commands) = [.action command.action,.written okay] ++ reports commands := rfl

/-- All lines have been read, and none of them was `stop`. -/
def Idle (s : State) : Prop := s.lines = [] ∧ s.finished = false

theorem idle_never_ends {s : State} (idle : Idle s) (reports : List Report) (ending : Ending) :
    ¬ Ends step s reports ending := by
  have trapped : ∀ s, Idle s → ∃ reports next, step s = ⟨reports,.inl next⟩ ∧ Idle next := by
    rintro ⟨loop,lines,finished⟩ ⟨rfl,rfl⟩
    cases loop with
    | flag => exact ⟨[],⟨.reading,[],false⟩,rfl,rfl,rfl⟩
    | reading => exact ⟨[],⟨.flag,[],false⟩,rfl,rfl,rfl⟩
  exact not_ends_of_trapped trapped idle reports ending

/-- After `stop` the loops are left. -/
theorem stop_ends_iff (rest : List JavaString) (reports : List Report) (ending : Ending) :
    Ends step ⟨.reading,STOP :: rest,false⟩ reports ending ↔ reports = [] ∧ ending = .left true := by
  have read : step ⟨.reading,STOP :: rest,false⟩ = ⟨[],.inl ⟨.flag,rest,true⟩⟩ := rfl
  have left : step ⟨.flag,rest,true⟩ = ⟨[],.inr (.left true)⟩ := rfl
  rw [ends_next read]
  constructor
  · rintro ⟨late,same,ends⟩
    obtain ⟨rfl,rfl⟩ := (ends_end left late ending).mp ends
    exact ⟨same,rfl⟩
  · rintro ⟨rfl,rfl⟩
    exact ⟨[],rfl,(ends_end left [] _).mpr ⟨rfl,rfl⟩⟩

theorem command_ends_iff (command : UiCommand) (rest : List JavaString) (late : List Report) (finished : Bool) :
    Ends step ⟨.reading,command.line :: rest,false⟩ ([.action command.action,.written okay] ++ late) (.left finished) ↔
      command.Plain ∧ Ends step ⟨.reading,rest,false⟩ late (.left finished) := by
  have other : command.line ≠ STOP := by
    cases command with
    | dump => decide
    | act index order => exact (ne_of_space (space_mem_line index (units order.word) [])).1
    | setText index text => exact (ne_of_space (space_mem_line index (units Order.setText.word) [text])).1
  rw [← perform_line_iff]
  cases performed : perform command.line with
  | error ending =>
    have taken : step ⟨.reading,command.line :: rest,false⟩ = ⟨[],.inr ending⟩ := by
      simp only [step,if_neg other,performed]
    rw [ends_end taken]
    exact ⟨nofun,nofun⟩
  | ok action =>
    have taken : step ⟨.reading,command.line :: rest,false⟩ =
        ⟨[.action action,.written okay],.inl ⟨.reading,rest,false⟩⟩ := by
      simp only [step,if_neg other,performed]
    rw [ends_next taken]
    constructor
    · rintro ⟨others,same,ends⟩
      obtain ⟨confirmed,rfl⟩ := List.append_inj same rfl
      cases confirmed
      exact ⟨rfl,ends⟩
    · rintro ⟨same,ends⟩
      cases same
      exact ⟨late,rfl,ends⟩

theorem reading_completes_iff (commands : List CommandLine) :
    Ends step ⟨.reading,commands.map CommandLine.line,false⟩ (reports (executed commands))
        (.left (commands.any CommandLine.isStop)) ↔
      commands.any CommandLine.isStop = true ∧ ∀ command ∈ executed commands, command.Plain := by
  induction commands with
  | nil => exact iff_of_false (idle_never_ends ⟨rfl,rfl⟩ _ _) fun stopped => Bool.noConfusion stopped.1
  | cons first rest ih =>
    cases first with
    | stop => exact iff_of_true ((stop_ends_iff _ _ _).mpr ⟨rfl,rfl⟩) ⟨rfl,nofun⟩
    | command command =>
      rw [executed,reports_cons,List.forall_mem_cons]
      exact (command_ends_iff command _ _ _).trans ((and_congr_right fun _ => ih).trans and_left_comm)

/-- The driver completes a connection exactly if there is a `stop` among its lines and the texts before it are plain. -/
theorem completes_iff (commands : List CommandLine) :
    Completes commands ↔ commands.any CommandLine.isStop = true ∧ ∀ command ∈ executed commands, command.Plain := by
  have first : step (start (commands.map CommandLine.line)) =
    ⟨[],.inl ⟨.reading,commands.map CommandLine.line,false⟩⟩ := rfl
  rw [Completes,ends_next first,← reading_completes_iff]
  exact ⟨fun ⟨_,same,ends⟩ => same ▸ ends,fun ends => ⟨_,rfl,ends⟩⟩

/-- Without `stop` the driver reads for ever; of a text with a space only the front is set; an empty text throws. -/
theorem connection_not_completed :
    (∀ seen ending, ¬ Ends step (start [DUMP]) seen ending) ∧
    Ends step (start [UiCommand.line (.setText (.ofInt 3 (by decide) (by decide)) (units "a b")),STOP])
      [.action (.setText 3 (units "a")),.written okay] (.left true) ∧
    Ends step (start [UiCommand.line (.setText (.ofInt 3 (by decide) (by decide)) []),STOP])
      [] (.exception .arrayIndexOutOfBounds) := by
  refine ⟨fun seen ending ends => ?_,⟨4,by decide⟩,⟨2,by decide⟩⟩
  have first : step (start [DUMP]) = ⟨[],.inl ⟨.reading,[DUMP],false⟩⟩ := rfl
  have second : step ⟨.reading,[DUMP],false⟩ = ⟨[.action .dumpWindowHierarchy,.written okay],
    .inl ⟨.reading,[],false⟩⟩ := rfl
  obtain ⟨_,-,ends⟩ := (ends_next first seen ending).mp ends
  obtain ⟨_,-,ends⟩ := (ends_next second _ ending).mp ends
  exact idle_never_ends ⟨rfl,rfl⟩ _ ending ends

end Aatt.UiDriver
