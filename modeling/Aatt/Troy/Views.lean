import Mathlib.Data.List.Forall2
import Aatt.Troy.ListenerInfo

/-! The report of `getViews`: one entry for each shown view, with fields separated by `___` and entries by
`VIEW_SIG_P`. Texts and class names go in as they are. -/
namespace Aatt.Troy

open Aatt.Lib

/-- A `CharSequence`; only a `String` is equal to a `String`. -/
structure CharSequence where
  chars : JavaString
  isString : Bool
  deriving DecidableEq

def CharSequence.equalsString (sequence : CharSequence) (string : JavaString) : Bool :=
  sequence.isString && sequence.chars == string

/-- `text` is read for text views only. -/
structure View where
  className : JavaString
  widget : Widget
  isMenuItem : Bool
  id : Int
  locationX : Int
  locationY : Int
  width : Int
  height : Int
  isClickable : Bool
  canScrollLeft : Bool
  canScrollRight : Bool
  canScrollUp : Bool
  canScrollDown : Bool
  isInEditMode : Bool
  isShown : Bool
  text : CharSequence
  listeners : Listeners widget

/-- The branches that format an entry, in the order in which they are tried. -/
inductive Branch where
  | timePicker | datePicker | listView | editText | menuItem | progressBar | textView | others
  deriving DecidableEq, Repr

def View.branch (view : View) : Branch :=
  if view.widget = .timePicker then .timePicker
  else if view.widget = .datePicker then .datePicker
  else if view.widget = .listView || view.widget = .expandableListView then .listView
  else if view.widget = .editText then .editText
  else if view.isMenuItem || units "MenuItem" <:+: view.className then .menuItem
  else if view.widget = .progressBar || view.widget = .seekBar || view.widget = .ratingBar then .progressBar
  else if view.widget = .textView then .textView
  else .others

def fieldSep : JavaString := units "___"

def VIEW_SIG_P : JavaString := units "LQWVSP"

def noText : JavaString := units "~~~"

/-- The class name; a progress bar has its kind behind it. -/
def View.nameField (view : View) : JavaString :=
  if view.branch = .progressBar then
    view.className ++ units (match view.widget with
      | .seekBar => ".SeekBar"
      | .ratingBar => ".RatingBar"
      | _ => ".ProgressBar")
  else view.className

/-- The fields between class name and text; `number` counts the views of the branch. -/
def View.numbers (view : View) (number : Nat) : List JavaString :=
  [intText view.id,intText number,intText view.locationX,intText view.locationY,intText view.width,intText view.height,
    booleanText view.isClickable,booleanText view.canScrollLeft,booleanText view.canScrollRight,
    booleanText view.canScrollUp,booleanText view.canScrollDown,booleanText view.isInEditMode]

/-- `ty`. -/
def View.ty (view : View) (number : Nat) : JavaString := fieldSep.intercalate (view.nameField :: view.numbers number)

/-- What the branch appends behind `ty` and a separator. -/
def View.textField (view : View) : JavaString :=
  match view.branch with
  | .editText => if view.text.chars.length = 0 then noText else view.text.chars
  | .textView => if view.text.equalsString [] then noText else view.text.chars
  | _ => noText

def View.listenerField (view : View) : JavaString := Troy.listenerField (listenerSignature view.listeners)

abbrev Counters := Branch → Nat

def Counters.increment (counters : Counters) (branch : Branch) : Counters :=
  fun other => if other = branch then counters other + 1 else counters other

/-- The loop over the views. The separator is left out behind the last view of the list. -/
def viewLoop : List View → Counters → JavaString → JavaString
  | [],_,result => result
  | view :: rest,counters,result =>
    if view.isShown then
      let result := result ++ view.ty (counters view.branch) ++ fieldSep ++ view.textField
      let result := result ++ fieldSep ++ view.listenerField
      let result := if rest ≠ [] then result ++ VIEW_SIG_P else result
      viewLoop rest (counters.increment view.branch) result
    else viewLoop rest counters result

/-- The string that `getViews` sends for a list of views that is not empty. -/
def report (views : List View) : JavaString := viewLoop views (fun _ => 0) []

def View.formatsText (view : View) : Bool := view.branch == .editText || view.branch == .textView

def View.expectedText (view : View) : JavaString :=
  if view.formatsText ∧ view.text.chars ≠ [] then view.text.chars else noText

/-- The piece of the report is an entry for the view. -/
structure Describes (view : View) (piece : JavaString) : Prop where
  fields : (splitAll fieldSep piece).length = 15
  text : (splitAll fieldSep piece)[13]? = some view.expectedText
  listener : (splitAll fieldSep piece)[14]? = some view.listenerField

def Decodable (views : List View) : Prop :=
  List.Forall₂ Describes (views.filter View.isShown) (splitAll VIEW_SIG_P (report views))

def Plain (string : JavaString) : Prop := ¬ fieldSep <:+: string ∧ ¬ VIEW_SIG_P <:+: string

instance (string : JavaString) : Decidable (Plain string) := inferInstanceAs (Decidable (_ ∧ _))

/-- The strings that get into the entry leave its structure alone. -/
structure View.Harmless (view : View) : Prop where
  className : Plain view.className
  text : view.formatsText = true → view.text.chars ≠ [] → Plain view.text.chars ∧ ¬ units "_" <:+ view.text.chars
  emptyText : view.branch = .textView → view.text.chars = [] → view.text.isString = true
  listener : ∀ signature ∈ ListenerInterface.all.filterMap view.listeners.sent, Plain signature

def View.entryFields (view : View) (number : Nat) : List JavaString :=
  view.nameField :: view.numbers number ++ [view.textField,view.listenerField]

def View.entry (view : View) (number : Nat) : JavaString := fieldSep.intercalate (view.entryFields number)

theorem entry_eq (view : View) (number : Nat) :
    view.entry number = view.ty number ++ fieldSep ++ view.textField ++ fieldSep ++ view.listenerField := by
  have fields : view.entryFields number =
      ((view.nameField :: view.numbers number) ++ [view.textField]) ++ [view.listenerField] :=
        by simp [View.entryFields]
  rw [View.entry,fields,intercalate_concat _ _ _ (by simp),intercalate_concat _ _ _ (by simp),View.ty]

def entries : List View → Counters → List JavaString
  | [],_ => []
  | view :: rest,counters =>
    if view.isShown then view.entry (counters view.branch) :: entries rest (counters.increment view.branch)
    else entries rest counters

def lastShown (views : List View) : Bool := (views.getLast?.map View.isShown).getD false

/-- A hidden view at the end of the list leaves a separator without an entry behind it. -/
def tail (views : List View) : List JavaString := if lastShown views then [] else [[]]

theorem lastShown_cons (view next : View) (rest : List View) :
    lastShown (view :: next :: rest) = lastShown (next :: rest) := by
  simp [lastShown]

theorem tail_cons (view next : View) (rest : List View) : tail (view :: next :: rest) = tail (next :: rest) := by
  rw [tail,lastShown_cons,tail]

theorem entries_tail_ne_nil (views : List View) (filled : views ≠ []) (counters : Counters) :
    entries views counters ++ tail views ≠ [] := by
  induction views generalizing counters with
  | nil => exact absurd rfl filled
  | cons view rest ih =>
    cases rest with
    | nil => cases shown : view.isShown <;> simp [entries,tail,lastShown,shown]
    | cons next rest =>
      rw [tail_cons,entries]
      split
      · exact List.cons_ne_nil _ _
      · exact ih (List.cons_ne_nil _ _) counters

theorem viewLoop_eq (views : List View) (filled : views ≠ []) (counters : Counters) (result : JavaString) :
    viewLoop views counters result = result ++ VIEW_SIG_P.intercalate (entries views counters ++ tail views) := by
  induction views generalizing counters result with
  | nil => exact absurd rfl filled
  | cons view rest ih =>
    cases rest with
    | nil => cases shown : view.isShown <;> simp [viewLoop,entries,tail,lastShown,shown,entry_eq]
    | cons next rest =>
      have more := ih (List.cons_ne_nil next rest)
      have filled := entries_tail_ne_nil (next :: rest) (List.cons_ne_nil next rest)
      rw [tail_cons,viewLoop,entries]
      split
      · simp only [ne_eq,reduceCtorEq,not_false_eq_true,if_true]
        rw [more,List.cons_append,List.intercalate_cons_of_ne_nil (filled _),entry_eq]
        simp only [List.append_assoc]
      · exact more counters result

theorem report_eq (views : List View) (filled : views ≠ []) :
    report views = VIEW_SIG_P.intercalate (entries views (fun _ => 0) ++ tail views) := by
  rw [report,viewLoop_eq views filled,List.nil_append]

theorem entries_length (views : List View) (counters : Counters) :
    (entries views counters).length = (views.filter View.isShown).length := by
  induction views generalizing counters with
  | nil => rfl
  | cons view rest ih =>
    rw [entries]
    cases shown : view.isShown with
    | true => simp [shown,ih]
    | false => simp [shown,ih]

theorem fieldSep_ne_nil : fieldSep ≠ [] := by decide

theorem viewSep_ne_nil : VIEW_SIG_P ≠ [] := by decide

theorem fieldSep_eq : fieldSep = List.replicate 3 95 := by decide

theorem viewSep_foreign : ∀ c ∈ fieldSep, c ∉ VIEW_SIG_P := forall_unit (by decide)

theorem viewSep_borderFree : BorderFree VIEW_SIG_P := by
  intro left right split found
  have all : ∀ k < 7, VIEW_SIG_P.drop k <+: VIEW_SIG_P → k = 0 ∨ k = 6 := by decide
  have size : left.length + right.length = 6 := by
    rw [← List.length_append,← split]
    decide
  have dropped : VIEW_SIG_P.drop left.length = right := by
    rw [split]
    exact List.drop_left
  rcases all left.length (by omega) (dropped.symm ▸ found) with zero | six
  · exact .inl (List.length_eq_zero_iff.mp zero)
  · exact .inr (List.length_eq_zero_iff.mp (by omega))

/-- A string without any character of the separators. -/
def Foreign (string : JavaString) : Prop := ∀ c ∈ string, c ∉ fieldSep ∧ c ∉ VIEW_SIG_P

theorem Foreign.clean {string : JavaString} (foreign : Foreign string) : Clean fieldSep string :=
  clean_of_foreign fieldSep_ne_nil fun c member => (foreign c member).1

theorem Foreign.plain {string : JavaString} (foreign : Foreign string) : Plain string :=
  ⟨foreign.clean.absent,(clean_of_foreign viewSep_ne_nil fun c member => (foreign c member).2).absent⟩

theorem intText_foreign (n : Int) : Foreign (intText n) := by
  have all : Foreign (units "-0123456789") := forall_unit (by decide)
  exact fun c member => all c (mem_intText member)

theorem booleanText_foreign (b : Bool) : Foreign (booleanText b) := by
  have all : Foreign (units "truefals") := forall_unit (by decide)
  exact fun c member => all c (mem_booleanText member)

theorem numbers_foreign (view : View) (number : Nat) : ∀ field ∈ view.numbers number, Foreign field := by
  simp only [View.numbers,List.forall_mem_cons]
  simp [intText_foreign,booleanText_foreign]

theorem noText_foreign : Foreign noText := forall_unit (by decide)

theorem trailing (c : UInt16) (string : JavaString) :
    ∃ front count, string = front ++ List.replicate count c ∧ ¬ [c] <:+ front := by
  induction string using List.reverseRecOn with
  | nil => exact ⟨[],0,rfl,by simp⟩
  | append_singleton string last ih =>
    by_cases same : last = c
    · obtain ⟨front,count,split,ends⟩ := ih
      refine ⟨front,count + 1,?_,ends⟩
      rw [List.replicate_succ',← List.append_assoc,← split,same]
    · refine ⟨string ++ [last],0,by simp,fun found => same ?_⟩
      obtain ⟨before,split⟩ := found
      exact (List.cons.inj (List.append_inj' split rfl).2).1.symm

theorem clean_of_end {string : JavaString} (absent : ¬ fieldSep <:+: string) (ends : ¬ units "_" <:+ string) :
    Clean fieldSep string := by
  rcases List.eq_nil_or_concat string with rfl | ⟨front,last,rfl⟩
  · exact clean_nil fieldSep_ne_nil
  · rw [List.concat_eq_append] at absent ends ⊢
    refine clean_concat fieldSep_ne_nil (fun member => ends ?_) absent
    rw [fieldSep_eq] at member
    rw [List.eq_of_mem_replicate member]
    exact List.suffix_append front [95]

theorem ends_of_clean {string : JavaString} (clean : Clean fieldSep string) : ¬ units "_" <:+ string := by
  rintro ⟨front,rfl⟩
  refine clean ⟨front,[],?_⟩
  rw [List.append_nil,List.append_assoc]
  rfl

theorem intText_ne_nil (n : Int) : intText n ≠ [] := by
  have shown : intText n = units n.repr := rfl
  rw [shown,Int.repr_eq_if]
  split
  · simp [units]
  · simp [units]

theorem intercalate_cons_append (gap front field : JavaString) (rest : List JavaString) :
    gap.intercalate ((front ++ field) :: rest) = front ++ gap.intercalate (field :: rest) := by
  cases rest with
  | nil => simp
  | cons next rest => simp [List.intercalate_cons_cons]

theorem clean_underscores {count : Nat} (few : count < 3) {string : JavaString} (filled : string ≠ [])
    (foreign : Foreign string) :
    Clean fieldSep (List.replicate count 95 ++ string) := by
  have absent : ¬ fieldSep <:+: List.replicate count 95 ++ string := by
    obtain ⟨d,rest,rfl⟩ := List.exists_cons_of_ne_nil filled
    rw [infix_append_cons (foreign d List.mem_cons_self).1,not_or]
    constructor
    · intro found
      have size := found.length_le
      rw [fieldSep_eq,List.length_replicate,List.length_replicate] at size
      omega
    · exact Clean.absent (clean_of_foreign fieldSep_ne_nil fun c member =>
        (foreign c (List.mem_cons_of_mem d member)).1)
  obtain ⟨before,c,rfl⟩ := (List.eq_nil_or_concat string).resolve_left filled
  rw [List.concat_eq_append] at foreign absent ⊢
  rw [← List.append_assoc] at absent ⊢
  exact clean_concat fieldSep_ne_nil (foreign c (by simp)).1 absent

theorem splitAll_fields (name second : JavaString) (middle : List JavaString) (last : JavaString)
    (absent : ¬ fieldSep <:+: name) (filled : second ≠ []) (foreign : Foreign second)
    (clean : ∀ field ∈ middle, Clean fieldSep field) (absentLast : ¬ fieldSep <:+: last) :
    ∃ first other, splitAll fieldSep (fieldSep.intercalate (name :: second :: middle ++ [last])) =
      first :: other :: middle ++ [last] := by
  obtain ⟨front,count,rfl,ends⟩ := trailing 95 name
  have few : count < 3 := by
    by_contra many
    refine absent (fieldSep_eq ▸ ?_)
    obtain ⟨more,rfl⟩ := Nat.exists_eq_add_of_le (Nat.not_lt.mp many)
    rw [List.replicate_add]
    exact ⟨front,List.replicate more 95,by simp⟩
  have front_clean : Clean fieldSep front :=
    clean_of_end (fun found => absent (found.trans (List.prefix_append _ _).isInfix)) ends
  have moved : List.replicate count 95 ++ fieldSep = fieldSep ++ List.replicate count 95 := by
    rw [fieldSep_eq,← List.replicate_add,← List.replicate_add,Nat.add_comm]
  refine ⟨front,List.replicate count 95 ++ second,?_⟩
  rw [List.cons_append,List.cons_append,List.intercalate_cons_cons,List.append_assoc,List.append_assoc,
    ← List.append_assoc _ fieldSep,moved,List.append_assoc,← intercalate_cons_append,
    splitAll_append fieldSep_ne_nil front_clean]
  have rest := splitAll_intercalate fieldSep_ne_nil ((List.replicate count 95 ++ second) :: middle) last
    (List.forall_mem_cons.mpr ⟨clean_underscores few filled foreign,clean⟩) absentLast
  rw [List.cons_append] at rest
  rw [rest]
  rfl

theorem plain_nameField (view : View) : Plain view.nameField ↔ Plain view.className := by
  have kind : ∀ word, (46 : UInt16) ∉ word → ∀ rest : JavaString, ¬ word <:+: rest →
      (word <:+: view.className ++ 46 :: rest ↔ word <:+: view.className) := by
    intro word foreign rest absent
    rw [infix_append_cons foreign]
    simp [absent]
  have each : ∀ rest : JavaString, Plain rest → (Plain (view.className ++ 46 :: rest) ↔ Plain view.className) := by
    intro rest plain
    rw [Plain,kind fieldSep (by decide) rest plain.1,kind VIEW_SIG_P (by decide +kernel) rest plain.2,Plain]
  unfold View.nameField
  split
  · split
    · exact each (units "SeekBar") (by decide)
    · exact each (units "RatingBar") (by decide)
    · exact each (units "ProgressBar") (by decide)
  · exact Iff.rfl

theorem plain_listenerField (view : View) :
    Plain view.listenerField ↔ ∀ signature ∈ ListenerInterface.all.filterMap view.listeners.sent, Plain signature := by
  have shapes : ∀ signature ∈ ListenerInterface.all.filterMap view.listeners.sent, ∃ middle, signature =
    60 :: (middle ++ [62]) := by
    intro signature member
    obtain ⟨field,-,shown⟩ := List.mem_filterMap.mp member
    exact sent_shape shown
  rw [View.listenerField,listenerField_eq,Plain,
    infix_signatureList fieldSep_ne_nil (by decide) (by decide +kernel) (by decide +kernel)
      (by decide +kernel) _ shapes,
    infix_signatureList viewSep_ne_nil (by decide) (by decide +kernel) (by decide +kernel) (by decide +kernel) _ shapes]
  simp only [not_exists,not_and,Plain,← forall_and]

/-- The text that is sent is the expected one, unless an empty text of a text view is not a `String`. -/
theorem textField_eq (view : View) :
    (view.textField = view.expectedText) ∨
      view.textField = [] ∧ view.branch = .textView ∧ view.text.chars = [] ∧ view.text.isString = false := by
  unfold View.textField View.expectedText View.formatsText
  cases view.branch <;> by_cases empty : view.text.chars = [] <;> cases string : view.text.isString <;>
    simp [empty,string,CharSequence.equalsString]

theorem fifteen {fields : List JavaString} {text listener : JavaString} (size : fields.length = 15)
    (fourteenth : fields[13]? = some text) (fifteenth : fields[14]? = some listener) :
    ∃ front, front ≠ [] ∧ fields = front ++ [text,listener] := by
  refine ⟨fields.take 13,?_,?_⟩
  · intro empty
    have short := congrArg List.length empty
    rw [List.length_take,size] at short
    cases short
  · obtain ⟨inside,rfl⟩ := List.getElem?_eq_some_iff.mp fourteenth
    obtain ⟨inside',rfl⟩ := List.getElem?_eq_some_iff.mp fifteenth
    have rest : fields.drop 13 = [fields[13],fields[14]] := by
      rw [List.drop_eq_getElem_cons inside,List.drop_eq_getElem_cons inside',List.drop_eq_nil_of_le (by omega)]
    rw [← rest,List.take_append_drop]

theorem entryFields_length (view : View) (number : Nat) : (view.entryFields number).length = 15 := rfl

theorem describes_iff (view : View) (number : Nat) :
    Describes view (view.entry number) ↔ ¬ fieldSep <:+: view.nameField ∧ Clean fieldSep view.textField ∧
      view.textField = view.expectedText ∧ ¬ fieldSep <:+: view.listenerField := by
  constructor
  · rintro ⟨size,text,listener⟩
    have absent := fields_absent fieldSep_ne_nil (view.entryFields number) (by simp [View.entryFields])
      ((le_of_eq size).trans (entryFields_length view number).ge)
    obtain ⟨front,filled,pieces⟩ := fifteen size text listener
    have clean : Clean fieldSep view.expectedText := piece_clean fieldSep_ne_nil pieces
    have same := intercalate_splitAll fieldSep_ne_nil (view.entry number)
    rw [pieces,show front ++ [view.expectedText,view.listenerField] = (front ++ [view.expectedText]) ++
      [view.listenerField] by simp,
      intercalate_concat _ _ _ (by simp),intercalate_concat _ _ _ filled,entry_eq,List.append_cancel_right_eq,
      List.append_cancel_right_eq] at same
    have sent : view.textField = view.expectedText := by
      rcases textField_eq view with equal | ⟨empty,-,unset,-⟩
      · exact equal
      · have ends := congrArg List.getLast? same
        rw [empty,View.expectedText,if_neg (fun both => both.2 unset)] at ends
        simp [noText,fieldSep_eq,units] at ends
    exact ⟨absent _ (by simp [View.entryFields]),sent ▸ clean,sent,absent _ (by simp [View.entryFields])⟩
  · rintro ⟨name,text,sent,listener⟩
    obtain ⟨first,other,pieces⟩ := splitAll_fields view.nameField (intText view.id) ((view.numbers number).tail ++
      [view.textField])
      view.listenerField name (intText_ne_nil _) (intText_foreign _) (by
        rw [List.forall_mem_append]
        exact ⟨fun field member => (numbers_foreign view number field (List.mem_of_mem_tail member)).clean,
          fun field member => List.mem_singleton.mp member ▸ text⟩) listener
    have shown : splitAll fieldSep (view.entry number) =
        first :: other :: ((view.numbers number).tail ++ [view.textField]) ++ [view.listenerField] := pieces
    refine ⟨by rw [shown]; rfl,by rw [shown,sent]; rfl,by rw [shown]; rfl⟩

theorem viewSep_entry (view : View) (number : Nat) : ¬ VIEW_SIG_P <:+: view.entry number ↔
    ¬ VIEW_SIG_P <:+: view.nameField ∧ ¬ VIEW_SIG_P <:+: view.textField ∧ ¬ VIEW_SIG_P <:+: view.listenerField := by
  have numbers : ∀ field ∈ view.numbers number, ¬ VIEW_SIG_P <:+: field := fun field member =>
    (numbers_foreign view number field member).plain.2
  rw [View.entry,infix_intercalate fieldSep_ne_nil viewSep_foreign _ (by simp [View.entryFields])]
  simp only [not_exists,not_and,View.entryFields,List.cons_append,List.forall_mem_cons,List.forall_mem_append]
  constructor
  · rintro ⟨name,-,text,listener,-⟩
    exact ⟨name,text,listener⟩
  · rintro ⟨name,text,listener⟩
    exact ⟨name,numbers,text,listener,nofun⟩

theorem text_harmless_iff (view : View) :
    (Clean fieldSep view.textField ∧ view.textField = view.expectedText ∧ ¬ VIEW_SIG_P <:+: view.textField) ↔
      (view.formatsText = true → view.text.chars ≠ [] → Plain view.text.chars ∧ ¬ units "_" <:+ view.text.chars) ∧
        (view.branch = .textView → view.text.chars = [] → view.text.isString = true) := by
  constructor
  · rintro ⟨clean,sent,absent⟩
    refine ⟨fun formats filled => ?_,fun branch empty => ?_⟩
    · rw [sent,View.expectedText,if_pos ⟨formats,filled⟩] at clean absent
      exact ⟨⟨clean.absent,absent⟩,ends_of_clean clean⟩
    · by_contra other
      have formats : view.textField = [] := by
        simp [View.textField,branch,empty,CharSequence.equalsString,other]
      rw [formats,View.expectedText,if_neg (fun both => both.2 empty)] at sent
      exact absurd sent (by decide)
  · rintro ⟨text,string⟩
    have sent : view.textField = view.expectedText := by
      rcases textField_eq view with equal | ⟨-,branch,empty,other⟩
      · exact equal
      · rw [string branch empty] at other
        cases other
    rw [sent,View.expectedText]
    split
    · rename_i both
      obtain ⟨plain,ends⟩ := text both.1 both.2
      exact ⟨clean_of_end plain.1 ends,rfl,plain.2⟩
    · exact ⟨noText_foreign.clean,rfl,noText_foreign.plain.2⟩

theorem harmless_iff (view : View) (number : Nat) :
    Describes view (view.entry number) ∧ ¬ VIEW_SIG_P <:+: view.entry number ↔ view.Harmless := by
  rw [describes_iff,viewSep_entry]
  constructor
  · rintro ⟨⟨name,clean,sent,listener⟩,name',text,listener'⟩
    obtain ⟨harmless,string⟩ := (text_harmless_iff view).mp ⟨clean,sent,text⟩
    exact ⟨(plain_nameField view).mp ⟨name,name'⟩,harmless,string,(plain_listenerField view).mp ⟨listener,listener'⟩⟩
  · rintro ⟨className,text,string,listener⟩
    obtain ⟨clean,sent,absent⟩ := (text_harmless_iff view).mpr ⟨text,string⟩
    obtain ⟨name,name'⟩ := (plain_nameField view).mpr className
    obtain ⟨field,field'⟩ := (plain_listenerField view).mpr listener
    exact ⟨⟨name,clean,sent,field⟩,name',absent,field'⟩

theorem entries_harmless_iff (views : List View) (counters : Counters) :
    (List.Forall₂ Describes (views.filter View.isShown) (entries views counters) ∧
      ∀ entry ∈ entries views counters, ¬ VIEW_SIG_P <:+: entry) ↔ ∀ view ∈ views, view.isShown = true →
        view.Harmless := by
  induction views generalizing counters with
  | nil => simp [entries]
  | cons view rest ih =>
    rw [entries,List.forall_mem_cons]
    cases shown : view.isShown with
    | true =>
      rw [List.filter_cons_of_pos shown,if_pos rfl,List.forall_mem_cons,List.forall₂_cons,
        ← harmless_iff view (counters view.branch),← ih (counters.increment view.branch)]
      simp only [true_implies]
      exact and_and_and_comm
    | false =>
      rw [List.filter_cons_of_neg (by simp [shown]),if_neg (by simp),ih]
      simp

/-- The report of a list of views can be decoded exactly if the last view of the list is shown and the strings of the
shown views are harmless. -/
theorem decodable_iff (views : List View) (nonempty : views ≠ []) :
    Decodable views ↔ lastShown views = true ∧ ∀ view ∈ views, view.isShown = true → view.Harmless := by
  have filled := entries_tail_ne_nil views nonempty fun _ => 0
  have tail_eq : tail views = [] ↔ lastShown views = true := by simp [tail]
  rw [Decodable,report_eq views nonempty,← entries_harmless_iff views fun _ => 0]
  constructor
  · intro describes
    have count := describes.length_eq.symm
    rw [← entries_length views fun _ => 0] at count
    have absent := fields_absent viewSep_ne_nil _ filled
      (count.le.trans (by rw [List.length_append]; exact Nat.le_add_right _ _))
    rw [viewSep_borderFree.splitAll_intercalate viewSep_ne_nil _ filled absent] at describes count
    rw [List.length_append,Nat.add_eq_left,List.length_eq_zero_iff] at count
    rw [count,List.append_nil] at describes absent
    exact ⟨tail_eq.mp count,describes,absent⟩
  · rintro ⟨last,describes,absent⟩
    rw [tail_eq.mpr last,List.append_nil] at filled ⊢
    rwa [viewSep_borderFree.splitAll_intercalate viewSep_ne_nil _ filled absent]

def noListeners : Listeners .textView := ⟨fun _ => none,nofun⟩

def textView (text : String) (isShown : Bool) : View where
  className := units "android.widget.TextView"
  widget := .textView
  isMenuItem := false
  id := -1
  locationX := 0
  locationY := 50
  width := 480
  height := 40
  isClickable := false
  canScrollLeft := false
  canScrollRight := false
  canScrollUp := false
  canScrollDown := false
  isInEditMode := false
  isShown := isShown
  text := ⟨units text,true⟩
  listeners := noListeners

/-- A hidden view at the end makes a second, empty entry; an underscore at the end of a text goes to the listener. -/
theorem report_misread :
    splitAll VIEW_SIG_P (report [textView "a" true,textView "b" false]) = [(textView "a" true).entry 0,[]] ∧
    ([textView "a" true,textView "b" false].filter View.isShown).length = 1 ∧
    (splitAll fieldSep (report [textView "a_" true])).drop 13 = [units "a",units "_none"] ∧
    (textView "a_" true).expectedText = units "a_" := by
  decide +kernel

/-- The text may begin with underscores. -/
theorem decodable_sample : Decodable [textView "" false,textView "__a" true,textView "" true] := by
  refine (decodable_iff _ (List.cons_ne_nil _ _)).mpr ⟨by decide,?_⟩
  rw [List.forall_mem_cons,List.forall_mem_cons,List.forall_mem_singleton]
  refine ⟨fun shown => Bool.noConfusion shown,fun _ => ?_,fun _ => ?_⟩
  all_goals exact ⟨by decide,by decide +kernel,by decide +kernel,by decide +kernel⟩

end Aatt.Troy
