import Aatt.Troy.Numerals

/-! The commands of the driver. A received line is split at underscores, its first part names the command and
the others are the arguments; an exception while they are read ends the handler thread uncaught. -/
namespace Aatt.Troy

open Aatt.Lib

inductive Command where
  | getviews
  | getactivities
  | clickonscreen
  | longclickonscreen
  | clickonview
  | doubleclickonscreen
  | longclickonview
  | finish
  | pressbackkey
  | presssearchkey
  | setbarvalue
  | scrollup
  | scrolldown
  | scrollleft
  | scrollright
  | rotate2landscape
  | rotate2portrait
  | appropauseresume
  | approstopstart
  | faithrelaunch
  | approrelaunch
  | settext
  | settimepicker
  | setdatepicker
  | scrolldownlist
  | setprogressbar
  | pressmenuitem
  | unlock
  | scroll
  | clickactionbarhome
  | clickactionbar
  | clicklist
  | clicklonglist
  | setnavigationdrawer
  | setdefaulttext
  | scrollandclick
  | getBlcokingThreadsID
  | unblockThread
  | unblockThreadAll
  | setSemInitValue
  deriving DecidableEq, Repr

def Command.name : Command → String
  | .getviews => "getviews"
  | .getactivities => "getactivities"
  | .clickonscreen => "clickonscreen"
  | .longclickonscreen => "longclickonscreen"
  | .clickonview => "clickonview"
  | .doubleclickonscreen => "doubleclickonscreen"
  | .longclickonview => "longclickonview"
  | .finish => "finish"
  | .pressbackkey => "pressbackkey"
  | .presssearchkey => "presssearchkey"
  | .setbarvalue => "setbarvalue"
  | .scrollup => "scrollup"
  | .scrolldown => "scrolldown"
  | .scrollleft => "scrollleft"
  | .scrollright => "scrollright"
  | .rotate2landscape => "rotate2landscape"
  | .rotate2portrait => "rotate2portrait"
  | .appropauseresume => "appropauseresume"
  | .approstopstart => "approstopstart"
  | .faithrelaunch => "faithrelaunch"
  | .approrelaunch => "approrelaunch"
  | .settext => "settext"
  | .settimepicker => "settimepicker"
  | .setdatepicker => "setdatepicker"
  | .scrolldownlist => "scrolldownlist"
  | .setprogressbar => "setprogressbar"
  | .pressmenuitem => "pressmenuitem"
  | .unlock => "unlock"
  | .scroll => "scroll"
  | .clickactionbarhome => "clickactionbarhome"
  | .clickactionbar => "clickactionbar"
  | .clicklist => "clicklist"
  | .clicklonglist => "clicklonglist"
  | .setnavigationdrawer => "setnavigationdrawer"
  | .setdefaulttext => "setdefaulttext"
  | .scrollandclick => "scrollandclick"
  | .getBlcokingThreadsID => "getBlcokingThreadsID"
  | .unblockThread => "unblockThread"
  | .unblockThreadAll => "unblockThreadAll"
  | .setSemInitValue => "setSemInitValue"

/-- `Command.values()`. -/
def Command.values : List Command :=
  [.getviews,.getactivities,.clickonscreen,.longclickonscreen,.clickonview,.doubleclickonscreen,.longclickonview,
    .finish,.pressbackkey,.presssearchkey,.setbarvalue,.scrollup,.scrolldown,.scrollleft,.scrollright,
    .rotate2landscape,.rotate2portrait,.appropauseresume,.approstopstart,.faithrelaunch,.approrelaunch,.settext,
    .settimepicker,.setdatepicker,.scrolldownlist,.setprogressbar,.pressmenuitem,.unlock,.scroll,.clickactionbarhome,
    .clickactionbar,.clicklist,.clicklonglist,.setnavigationdrawer,.setdefaulttext,.scrollandclick,
    .getBlcokingThreadsID,.unblockThread,.unblockThreadAll,.setSemInitValue]

def Command.valueOf (text : JavaString) : Except Exception Command :=
  match Command.values.find? fun command => units command.name == text with
  | some command => .ok command
  | none => .error .illegalArgument

/-- What a handler executes: the methods of the driver with their arguments. The sign of `y` decides between the
one click and the two of `clickonscreen`. -/
inductive Call (φ : Type) where
  | getViews
  | getActivities
  | clickOnScreen (x y : φ)
  | doubleClickOnScreen (x y : φ)
  | longClickOnScreen (x y : φ)
  | clickOnView (viewText : JavaString)
  | longClickOnView (viewText : JavaString)
  | pressBack
  | pressSearch
  | setBarValue (barId value : Int)
  | scrollUp
  | scrollDown
  | scrollLeft
  | scrollRight
  | rotate2landscape
  | rotate2portrait
  | approPauseResume
  | approStopStart
  | approRelaunch
  | faithRelaunch
  | setText (index : Int) (text : JavaString)
  | setTimePicker (index hour minute : Int)
  | setDatePicker (index year month day : Int)
  | scrollDownList (index : Int)
  | setProgressBar (index barValue : Int)
  | pressMenuItem (index : Int)
  | unLock
  | drag (x1 y1 x2 y2 : φ)
  | clickOnActionBarHomeButton
  | clickOnActionBarItem (actionBarId : Int)
  | clickInList (list line : Int)
  | clickLongInList (list line : Int)
  | setNavigationDrawer (index item : Int)
  | tearDown
  | setDefaultText (text : JavaString)
  | scrollAndClick (list : Int) (x y : φ)
  | getBlcokingThreads
  | unblockThread (id : Int)
  | unblockThreadAll0
  | setSemInitValue0
  deriving DecidableEq

section Decoding

variable {φ : Type} (floatValue : JavaString → φ)

/-- `Float.parseFloat(text)`, with the values of the literals given. -/
def parseFloat (text : JavaString) : Except Exception φ :=
  if floatLiteral text then .ok (floatValue text) else .error .numberFormat

/-- The cases of the `switch`. The `default` case is never reached: `valueOf` throws for any other name. -/
def Command.decode (cmds : List JavaString) : Command → Except Exception (Call φ)
  | .getviews => pure .getViews
  | .getactivities => pure .getActivities
  | .clickonscreen => do
    let x ← parseFloat floatValue (← part cmds 1)
    let y ← parseFloat floatValue (← part cmds 2)
    pure (.clickOnScreen x y)
  | .doubleclickonscreen => do
    let x ← parseFloat floatValue (← part cmds 1)
    let y ← parseFloat floatValue (← part cmds 2)
    pure (.doubleClickOnScreen x y)
  | .longclickonscreen => do
    let x ← parseFloat floatValue (← part cmds 1)
    let y ← parseFloat floatValue (← part cmds 2)
    pure (.longClickOnScreen x y)
  | .clickonview => do pure (.clickOnView (← part cmds 1))
  | .longclickonview => do pure (.longClickOnView (← part cmds 1))
  | .pressbackkey => pure .pressBack
  | .presssearchkey => pure .pressSearch
  | .setbarvalue => do
    let barId ← parseInt (← part cmds 1)
    let value ← parseInt (← part cmds 2)
    pure (.setBarValue barId value)
  | .scrollup => pure .scrollUp
  | .scrolldown => pure .scrollDown
  | .scrollleft => pure .scrollLeft
  | .scrollright => pure .scrollRight
  | .rotate2landscape => pure .rotate2landscape
  | .rotate2portrait => pure .rotate2portrait
  | .appropauseresume => pure .approPauseResume
  | .approstopstart => pure .approStopStart
  | .approrelaunch => pure .approRelaunch
  | .faithrelaunch => pure .faithRelaunch
  | .settext => do
    let index ← parseInt (← part cmds 1)
    pure (.setText index (← part cmds 2))
  | .settimepicker => do
    let index ← parseInt (← part cmds 1)
    let hour ← parseInt (← part cmds 2)
    let minute ← parseInt (← part cmds 3)
    pure (.setTimePicker index hour minute)
  | .setdatepicker => do
    let index ← parseInt (← part cmds 1)
    let year ← parseInt (← part cmds 2)
    let month ← parseInt (← part cmds 3)
    let day ← parseInt (← part cmds 4)
    pure (.setDatePicker index year month day)
  | .scrolldownlist => do pure (.scrollDownList (← parseInt (← part cmds 1)))
  | .setprogressbar => do
    let index ← parseInt (← part cmds 1)
    let barValue ← parseInt (← part cmds 2)
    pure (.setProgressBar index barValue)
  | .pressmenuitem => do pure (.pressMenuItem (← parseInt (← part cmds 1)))
  | .unlock => pure .unLock
  | .scroll => do
    let x1 ← parseFloat floatValue (← part cmds 1)
    let y1 ← parseFloat floatValue (← part cmds 2)
    let x2 ← parseFloat floatValue (← part cmds 3)
    let y2 ← parseFloat floatValue (← part cmds 4)
    pure (.drag x1 y1 x2 y2)
  | .clickactionbarhome => pure .clickOnActionBarHomeButton
  | .clickactionbar => do pure (.clickOnActionBarItem (← parseInt (← part cmds 1)))
  | .clicklist => do
    let list ← part cmds 1
    let line ← part cmds 2
    pure (.clickInList (← parseInt list) (← parseInt line))
  | .clicklonglist => do
    let list ← part cmds 1
    let line ← part cmds 2
    pure (.clickLongInList (← parseInt list) (← parseInt line))
  | .setnavigationdrawer => do
    let index ← parseInt (← part cmds 1)
    let item ← parseInt (← part cmds 2)
    pure (.setNavigationDrawer index item)
  | .finish => pure .tearDown
  | .setdefaulttext => do pure (.setDefaultText (← part cmds 1))
  | .scrollandclick => do
    let list ← part cmds 1
    let x ← part cmds 2
    let y ← part cmds 3
    pure (.scrollAndClick (← parseInt list) (← parseFloat floatValue x) (← parseFloat floatValue y))
  | .getBlcokingThreadsID => pure .getBlcokingThreads
  | .unblockThread => do pure (.unblockThread (← parseInt (← part cmds 1)))
  | .unblockThreadAll => pure .unblockThreadAll0
  | .setSemInitValue => pure .setSemInitValue0

def underscore : UInt16 := 95

/-- The handler of a received line up to the call of the method that it executes. -/
def handleLine (line : JavaString) : Except Exception (Call φ) := do
  let cmds := split [underscore] line
  let command ← Command.valueOf (← part cmds 0)
  command.decode floatValue cmds

inductive Kind where
  | int
  | float
  | text
  deriving DecidableEq, Repr

def Kind.fits : Kind → JavaString → Bool
  | .int,numeral => (parseInt numeral).isOk
  | .float,numeral => floatLiteral numeral
  | .text,_ => true

def Command.arguments : Command → List Kind
  | .clickonscreen | .longclickonscreen | .doubleclickonscreen => [.float,.float]
  | .clickonview | .longclickonview | .setdefaulttext => [.text]
  | .setbarvalue | .setprogressbar | .clicklist | .clicklonglist | .setnavigationdrawer => [.int,.int]
  | .settext => [.int,.text]
  | .settimepicker => [.int,.int,.int]
  | .setdatepicker => [.int,.int,.int,.int]
  | .scrolldownlist | .pressmenuitem | .clickactionbar | .unblockThread => [.int]
  | .scroll => [.float,.float,.float,.float]
  | .scrollandclick => [.int,.float,.float]
  | _ => []

/-- There is a part for each argument, and it fits. Further parts do no harm. -/
def fitAll : List Kind → List JavaString → Bool
  | [],_ => true
  | _ :: _,[] => false
  | kind :: kinds,text :: parts => kind.fits text && fitAll kinds parts

/-- The line names a command and has arguments for it. -/
def WellFormed (line : JavaString) : Prop :=
  ∃ command : Command, ∃ parts, split [underscore] line = units command.name :: parts ∧
    fitAll command.arguments parts = true

@[simp] theorem isOk_pure {α : Type} (value : α) : (pure value : Except Exception α).isOk = true := rfl

@[simp] theorem exists_ok_iff {α : Type} (result : Except Exception α) : (∃ value, result = .ok value) ↔
    result.isOk = true := by
  cases result <;> simp [Except.isOk,Except.toBool]

@[simp] theorem isOk_bind {α β : Type} (result : Except Exception α) (next : α → Except Exception β) :
    (result >>= next).isOk = true ↔ ∃ value, result = .ok value ∧ (next value).isOk = true := by
  simp only [← exists_ok_iff,bind_eq_ok]
  constructor
  · rintro ⟨final,value,found,done⟩
    exact ⟨value,found,final,done⟩
  · rintro ⟨value,found,final,done⟩
    exact ⟨final,value,found,done⟩

@[simp] theorem isOk_map {α β : Type} (result : Except Exception α) (f : α → β) :
    (f <$> result).isOk = result.isOk := by
  cases result <;> rfl

@[simp] theorem part_isOk (cmds : List JavaString) (i : Nat) : (part cmds i).isOk = true ↔
    ∃ text, cmds[i]? = some text := by
  rw [← exists_ok_iff]
  simp only [part_eq_ok]

@[simp] theorem parseFloat_isOk (text : JavaString) : (parseFloat floatValue text).isOk = floatLiteral text := by
  unfold parseFloat
  cases floatLiteral text <;> rfl

@[simp] theorem fitAll_nil (parts : List JavaString) : fitAll [] parts = true := by
  cases parts <;> rfl

theorem fitAll_cons (kind : Kind) (kinds : List Kind) (parts : List JavaString) :
    fitAll (kind :: kinds) parts = true ↔
      ∃ text, parts[0]? = some text ∧ kind.fits text = true ∧ fitAll kinds parts.tail = true := by
  cases parts with
  | nil => simp [fitAll]
  | cons text parts => simp [fitAll]

theorem decode_isOk_iff (command : Command) (name : JavaString) (parts : List JavaString) :
    (command.decode floatValue (name :: parts)).isOk = true ↔ fitAll command.arguments parts = true := by
  cases command <;>
    simp only [Command.decode,Command.arguments,fitAll_cons,fitAll_nil,Kind.fits,isOk_pure,isOk_bind,isOk_map,part_isOk,
      part_eq_ok,parseFloat_isOk,exists_ok_iff,exists_and_right,bind_pure_comp,List.getElem?_cons_succ,
      List.getElem?_tail,Nat.zero_add,Nat.reduceAdd,and_self,and_true]
  case clicklist | clicklonglist =>
    constructor
    · rintro ⟨list,found,line,found',parsed,parsed'⟩
      exact ⟨list,found,parsed,line,found',parsed'⟩
    · rintro ⟨list,found,parsed,line,found',parsed'⟩
      exact ⟨list,found,line,found',parsed,parsed'⟩
  case scrollandclick =>
    constructor
    · rintro ⟨list,found,x,foundX,y,foundY,parsed,parsedX,parsedY⟩
      exact ⟨list,found,parsed,x,foundX,parsedX,y,foundY,parsedY⟩
    · rintro ⟨list,found,parsed,x,foundX,parsedX,y,foundY,parsedY⟩
      exact ⟨list,found,x,foundX,y,foundY,parsed,parsedX,parsedY⟩

theorem mem_values (command : Command) : command ∈ Command.values := by
  cases command <;> decide

theorem valueOf_values : ∀ command ∈ Command.values, Command.valueOf (units command.name) = .ok command := by
  decide +kernel

theorem valueOf_name (command : Command) : Command.valueOf (units command.name) = .ok command :=
  valueOf_values command (mem_values command)

theorem valueOf_eq_ok {text : JavaString} {command : Command} :
    Command.valueOf text = .ok command ↔ text = units command.name := by
  constructor
  · intro named
    unfold Command.valueOf at named
    split at named
    · rename_i found
      cases named
      have same := List.find?_some found
      exact (eq_of_beq same).symm
    · nomatch named
  · rintro rfl
    exact valueOf_name command

theorem handleLine_named {line : JavaString} {command : Command} {parts : List JavaString}
    (shown : split [underscore] line = units command.name :: parts) :
    handleLine floatValue line = command.decode floatValue (units command.name :: parts) := by
  have first : part (units command.name :: parts) 0 = .ok (units command.name) := rfl
  simp only [handleLine,shown,first,valueOf_name,bind,Except.bind]

theorem handleLine_isOk_iff (line : JavaString) : (handleLine floatValue line).isOk = true ↔ WellFormed line := by
  constructor
  · intro done
    simp only [handleLine,isOk_bind,part_eq_ok,valueOf_eq_ok] at done
    obtain ⟨_,first,command,rfl,done⟩ := done
    cases shown : split [underscore] line with
    | nil => simp [shown] at first
    | cons name parts =>
      rw [shown] at first done
      cases first
      exact ⟨command,parts,shown,(decode_isOk_iff floatValue command _ parts).mp done⟩
  · rintro ⟨command,parts,shown,fit⟩
    rw [handleLine_named floatValue shown,decode_isOk_iff]
    exact fit

end Decoding

instance (line : JavaString) : Decidable (WellFormed line) :=
    decidable_of_iff _ (handleLine_isOk_iff (fun _ => ()) line)

/-- The commands with a text behind their numeric arguments. -/
inductive TextCommand where
  | settext (index : IntNumeral)
  | setdefaulttext
  | clickonview
  | longclickonview

def TextCommand.command : TextCommand → Command
  | .settext _ => .settext
  | .setdefaulttext => .setdefaulttext
  | .clickonview => .clickonview
  | .longclickonview => .longclickonview

def TextCommand.front : TextCommand → List JavaString
  | .settext index => [units "settext",index.text]
  | .setdefaulttext => [units "setdefaulttext"]
  | .clickonview => [units "clickonview"]
  | .longclickonview => [units "longclickonview"]

def TextCommand.line (command : TextCommand) (text : JavaString) : JavaString :=
  [underscore].intercalate (command.front ++ [text])

def TextCommand.call {φ : Type} (text : JavaString) : TextCommand → Call φ
  | .settext index => .setText index.value text
  | .setdefaulttext => .setDefaultText text
  | .clickonview => .clickOnView text
  | .longclickonview => .longClickOnView text

theorem front_foreign (command : TextCommand) : ∀ field ∈ command.front, underscore ∉ field := by
  cases command with
  | settext index =>
    simp only [TextCommand.front,List.forall_mem_cons]
    exact ⟨by decide,index.foreign (by decide),nofun⟩
  | setdefaulttext | clickonview | longclickonview =>
    simp only [TextCommand.front,List.forall_mem_singleton]
    decide

theorem front_filled (command : TextCommand) : ∃ init last, command.front = init ++ [last] ∧ last ≠ [] := by
  cases command with
  | settext index => exact ⟨[units "settext"],index.text,rfl,index.filled⟩
  | setdefaulttext => exact ⟨[],units "setdefaulttext",rfl,by decide⟩
  | clickonview => exact ⟨[],units "clickonview",rfl,by decide⟩
  | longclickonview => exact ⟨[],units "longclickonview",rfl,by decide⟩

theorem split_line (command : TextCommand) (text : JavaString) :
    split [underscore] (command.line text) = command.front ++ dropTrailingEmpty (splitAll [underscore] text) := by
  obtain ⟨init,last,shown,filled⟩ := front_filled command
  have foreign := front_foreign command
  unfold TextCommand.line
  rw [shown] at foreign ⊢
  exact split_behind foreign filled text

theorem text_handed_over_iff {φ : Type} (floatValue : JavaString → φ) (command : TextCommand) (text : JavaString) :
    handleLine floatValue (command.line text) = .ok (command.call text) ↔ text ≠ [] ∧ underscore ∉ text := by
  have named : split [underscore] (command.line text) =
      units command.command.name :: (command.front.tail ++ dropTrailingEmpty (splitAll [underscore] text)) := by
    rw [split_line]
    cases command <;> rfl
  rw [← first_part_iff,handleLine_named floatValue named]
  cases command with
  | settext index => simp [TextCommand.command,TextCommand.front,Command.decode,TextCommand.call,index.parsed]
  | setdefaulttext | clickonview | longclickonview =>
    simp [TextCommand.command,TextCommand.front,Command.decode,TextCommand.call]

/-- A line is decoded without an exception exactly if it is well formed, and the text of a text command arrives as it is
exactly if it is not empty and has no underscore. -/
theorem lines_decoded_iff {φ : Type} (floatValue : JavaString → φ) :
    (∀ line, (handleLine floatValue line).isOk = true ↔ WellFormed line) ∧
      ∀ (command : TextCommand) (text : JavaString),
        handleLine floatValue (command.line text) = .ok (command.call text) ↔ text ≠ [] ∧ underscore ∉ text :=
  ⟨handleLine_isOk_iff floatValue,text_handed_over_iff floatValue⟩

/-- Unknown names, missing parts and malformed numbers end the handler; an underscore cuts the text off, and an empty
text is a missing part. -/
theorem lines_end_handler :
    handleLine (fun _ => ()) (units "hello") = .error .illegalArgument ∧
    handleLine (fun _ => ()) (units "clickonscreen_1") = .error .arrayIndexOutOfBounds ∧
    handleLine (fun _ => ()) (units "scrolldownlist_1.5") = .error .numberFormat ∧
    handleLine (fun _ => ()) (TextCommand.setdefaulttext.line (units "a_b")) = .ok (.setDefaultText (units "a")) ∧
    handleLine (fun _ => ()) (TextCommand.line (.settext (.ofInt (-1) (by decide) (by decide))) []) =
      .error .arrayIndexOutOfBounds := by
  decide +kernel

end Aatt.Troy
