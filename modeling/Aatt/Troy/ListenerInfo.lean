import Aatt.Troy.JavaString

/-! The listeners that the driver reports for a view and for the current activity. They are fetched by
reflection, cast, and looked up in their class. -/
namespace Aatt.Troy

open Aatt.Lib

/-- The listener interfaces of the fields that the driver reads. -/
inductive ListenerInterface where
  | onClick | onLongClick | onItemClick | onItemLongClick | onScroll | onChildClick
  deriving DecidableEq, Repr

def ListenerInterface.handler : ListenerInterface → JavaString
  | .onClick => units "onClick"
  | .onLongClick => units "onLongClick"
  | .onItemClick => units "onItemClick"
  | .onItemLongClick => units "onItemLongClick"
  | .onScroll => units "onScroll"
  | .onChildClick => units "onChildClick"

/-- A method with its `toString()`, in which its name occurs. -/
structure Method where
  name : JavaString
  text : JavaString
  named : name <:+: text

/-- A listener object: its class, the methods this declares, and the listener interfaces it implements. -/
structure Listener where
  className : JavaString
  declaredMethods : List Method
  interfaces : List ListenerInterface

abbrev Installed (field : ListenerInterface) := { listener : Listener // field ∈ listener.interfaces }

/-- The widget classes that the driver tells apart, each standing for its subclasses that are not below another one. -/
inductive Widget where
  | timePicker | datePicker | adapterView | absListView | listView | expandableListView | editText | textView
  | progressBar | seekBar | ratingBar | other
  deriving DecidableEq, Repr

def Widget.isAdapterView (widget : Widget) : Bool :=
  widget == .adapterView || widget == .absListView || widget == .listView || widget == .expandableListView

def Widget.isAbsListView (widget : Widget) : Bool :=
  widget == .absListView || widget == .listView || widget == .expandableListView

def Widget.isExpandableListView (widget : Widget) : Bool := widget == .expandableListView

def Widget.hasField (widget : Widget) : ListenerInterface → Bool
  | .onClick | .onLongClick => true
  | .onItemClick | .onItemLongClick => widget.isAdapterView
  | .onScroll => widget.isAbsListView
  | .onChildClick => widget.isExpandableListView

/-- The listeners of a widget. `mListenerInfo` holds the first two; its absence is the absence of both. -/
structure Listeners (widget : Widget) where
  installed : (field : ListenerInterface) → Option (Installed field)
  declared : ∀ field, (installed field).isSome = true → widget.hasField field = true

def LISTENER_SIG_P : JavaString := units "LSP"

def convertSignature (clazzName oldSignature methodName : JavaString) : JavaString :=
  units "<" ++ clazzName ++ units ": void " ++ fromFirst methodName oldSignature ++ units ">"

def Listener.handlerMethod (listener : Listener) (methodName : JavaString) : Option Method :=
  listener.declaredMethods.find? fun method => method.name == methodName

def getListenerInfo (myListener : Option Listener) (methodName : JavaString) : JavaString :=
  match myListener with
  | none => []
  | some listener =>
    match listener.handlerMethod methodName with
    | some method => convertSignature listener.className method.text methodName
    | none => []

def addListenerSignature (listenerSignature signature : JavaString) : JavaString :=
  if signature.length > 0 then
    if listenerSignature.length = 0 then signature else listenerSignature ++ LISTENER_SIG_P ++ signature
  else listenerSignature

/-- A cast; `none` is a `ClassCastException`. -/
def castTo (target : ListenerInterface) (object : Option Listener) : Option (Option Listener) :=
  match object with
  | none => some none
  | some listener => if target ∈ listener.interfaces then some (some listener) else none

variable {widget : Widget}

def Listeners.get (listeners : Listeners widget) (field : ListenerInterface) : Option Listener :=
  (listeners.installed field).map Subtype.val

/-- The reads of one `try` block, each with the interface that the source casts to. An exception ends the block. -/
def readListeners (listeners : Listeners widget) :
    List (ListenerInterface × ListenerInterface) → JavaString → JavaString
  | [],listenerSignature => listenerSignature
  | (field,target) :: rest,listenerSignature =>
    match castTo target (listeners.get field) with
    | none => listenerSignature
    | some listener =>
      readListeners listeners rest (addListenerSignature listenerSignature (getListenerInfo listener field.handler))

/-- `listenerSignature` after the four `try` blocks. The long click listeners are cast to the click interfaces. -/
def listenerSignature (listeners : Listeners widget) : JavaString :=
  let signature := readListeners listeners [(.onClick,.onClick),(.onLongClick,.onClick)] []
  let signature := if widget.isAdapterView then
    readListeners listeners [(.onItemClick,.onItemClick),(.onItemLongClick,.onItemClick)] signature else signature
  let signature := if widget.isAbsListView then readListeners listeners [(.onScroll,.onScroll)] signature else signature
  if widget.isExpandableListView then readListeners listeners [(.onChildClick,.onChildClick)] signature else signature

def listenerField (signature : JavaString) : JavaString := if signature.length = 0 then units "none" else signature

def ListenerInterface.all : List ListenerInterface :=
  [.onClick,.onLongClick,.onItemClick,.onItemLongClick,.onScroll,.onChildClick]

/-- The converted signature of the handler, if the class of the listener declares one. -/
def Listener.signature (field : ListenerInterface) (listener : Listener) : Option JavaString :=
  (listener.handlerMethod field.handler).map fun method => convertSignature listener.className method.text field.handler

def Listeners.signature (listeners : Listeners widget) (field : ListenerInterface) : Option JavaString :=
  (listeners.get field).bind (Listener.signature field)

/-- The installed listeners that declare their handler, in order. -/
def Listeners.reported (listeners : Listeners widget) : List JavaString :=
  ListenerInterface.all.filterMap listeners.signature

def signatureList (signatures : List JavaString) : JavaString :=
  if signatures = [] then units "none" else LISTENER_SIG_P.intercalate signatures

/-- A long click listener that declares its handler is also a click listener, on views and on items. -/
def CastsAllowed (listeners : Listeners widget) : Prop :=
  (∀ listener ∈ listeners.get .onLongClick,
    (listener.signature .onLongClick).isSome = true → .onClick ∈ listener.interfaces) ∧
  ∀ listener ∈ listeners.get .onItemLongClick,
    (listener.signature .onItemLongClick).isSome = true → .onItemClick ∈ listener.interfaces

theorem convertSignature_shape (clazzName oldSignature methodName : JavaString) :
    ∃ middle, convertSignature clazzName oldSignature methodName = 60 :: (middle ++ [62]) := ⟨_,rfl⟩

theorem convertSignature_head (clazzName oldSignature methodName : JavaString) :
    ∃ rest, convertSignature clazzName oldSignature methodName = 60 :: rest := ⟨_,rfl⟩

theorem signature_shape {listeners : Listeners widget} {field : ListenerInterface} {signature : JavaString}
    (shown : listeners.signature field = some signature) : ∃ middle, signature = 60 :: (middle ++ [62]) := by
  obtain ⟨listener,-,found⟩ := Option.bind_eq_some_iff.mp shown
  obtain ⟨method,-,rfl⟩ := Option.map_eq_some_iff.mp found
  exact convertSignature_shape _ _ _

theorem signature_head {listeners : Listeners widget} {field : ListenerInterface} {signature : JavaString}
    (shown : listeners.signature field = some signature) : ∃ rest, signature = 60 :: rest := by
  obtain ⟨middle,rfl⟩ := signature_shape shown
  exact ⟨_,rfl⟩

theorem getListenerInfo_eq (listener : Option Listener) (field : ListenerInterface) :
    getListenerInfo listener field.handler = (listener.bind (Listener.signature field)).getD [] := by
  cases listener with
  | none => rfl
  | some listener =>
    rw [getListenerInfo,Option.bind_some,Listener.signature]
    cases listener.handlerMethod field.handler <;> rfl

theorem addListenerSignature_nil (listenerSignature : JavaString) :
    addListenerSignature listenerSignature [] = listenerSignature := rfl

theorem addListenerSignature_join (signatures : List JavaString) (filled : ∀ signature ∈ signatures, signature ≠ [])
    (next : JavaString) (nonempty : next ≠ []) :
    addListenerSignature (LISTENER_SIG_P.intercalate signatures) next =
      LISTENER_SIG_P.intercalate (signatures ++ [next]) := by
  rw [addListenerSignature,if_pos (List.length_pos_of_ne_nil nonempty)]
  cases signatures with
  | nil => simp
  | cons first rest =>
    have filled : LISTENER_SIG_P.intercalate (first :: rest) ≠ [] := by
      have front := filled first List.mem_cons_self
      cases rest with
      | nil => simpa using front
      | cons second rest => simp [List.intercalate_cons_cons,front]
    rw [if_neg (by simpa using filled)]
    exact (intercalate_concat LISTENER_SIG_P _ next (List.cons_ne_nil _ _)).symm

/-- The interface that the source casts the content of a field to. -/
def castTarget : ListenerInterface → ListenerInterface
  | .onLongClick => .onClick
  | .onItemLongClick => .onItemClick
  | field => field

def Listeners.sent (listeners : Listeners widget) (field : ListenerInterface) : Option JavaString :=
  (castTo (castTarget field) (listeners.get field)).bind (Option.bind · (Listener.signature field))

theorem castTo_cases (target : ListenerInterface) (object : Option Listener) :
    castTo target object = some object ∨ castTo target object = none := by
  unfold castTo
  split
  · exact .inl rfl
  · split
    · exact .inl rfl
    · exact .inr rfl

theorem castTo_own (listeners : Listeners widget) (field : ListenerInterface) :
    castTo field (listeners.get field) = some (listeners.get field) := by
  unfold Listeners.get castTo
  cases listeners.installed field with
  | none => rfl
  | some listener => simp [listener.2]

theorem readListeners_last (listeners : Listeners widget) (field : ListenerInterface) (listenerSignature : JavaString) :
    readListeners listeners [(field,castTarget field)] listenerSignature =
      addListenerSignature listenerSignature ((listeners.sent field).getD []) := by
  simp only [readListeners,Listeners.sent]
  rcases castTo_cases (castTarget field) (listeners.get field) with cast | failed
  · simp only [cast,Option.bind_some,getListenerInfo_eq]
  · simp only [failed,Option.bind_none,Option.getD_none,addListenerSignature_nil]

theorem readListeners_cons (listeners : Listeners widget) (field : ListenerInterface) (own : castTarget field = field)
    (rest : List (ListenerInterface × ListenerInterface)) (listenerSignature : JavaString) :
    readListeners listeners ((field,field) :: rest) listenerSignature =
      readListeners listeners rest (addListenerSignature listenerSignature ((listeners.sent field).getD [])) := by
  have cast := castTo_own listeners field
  simp only [readListeners,Listeners.sent,own,cast,Option.bind_some,getListenerInfo_eq]

theorem sent_absent (listeners : Listeners widget) (field : ListenerInterface)
    (absent : widget.hasField field = false) :
    listeners.sent field = none := by
  have empty : listeners.installed field = none := by
    cases found : listeners.installed field with
    | none => rfl
    | some listener =>
      have present := listeners.declared field (by rw [found]; rfl)
      rw [absent] at present
      cases present
  simp [Listeners.sent,Listeners.get,empty,castTo]

theorem listenerSignature_foldl (listeners : Listeners widget) :
    listenerSignature listeners =
      ListenerInterface.all.foldl (fun signature field => addListenerSignature signature
        ((listeners.sent field).getD [])) [] := by
  have absent : ∀ field, widget.hasField field = false → ∀ signature,
      addListenerSignature signature ((listeners.sent field).getD []) = signature := by
    intro field unset signature
    rw [sent_absent listeners field unset]
    rfl
  have pair : ∀ field late, castTarget field = field → castTarget late = field → ∀ signature,
      readListeners listeners [(field,field),(late,field)] signature = addListenerSignature
        (addListenerSignature signature ((listeners.sent field).getD [])) ((listeners.sent late).getD []) := by
    intro field late own target signature
    have last := readListeners_last listeners late (addListenerSignature signature ((listeners.sent field).getD []))
    rw [target] at last
    rw [readListeners_cons listeners field own,last]
  have item : ∀ signature, (if widget.isAdapterView then
      readListeners listeners [(.onItemClick,.onItemClick),(.onItemLongClick,.onItemClick)] signature else signature) =
        addListenerSignature (addListenerSignature signature ((listeners.sent .onItemClick).getD []))
          ((listeners.sent .onItemLongClick).getD []) := by
    intro signature
    split
    · exact pair .onItemClick .onItemLongClick rfl rfl signature
    · rename_i unset
      rw [absent .onItemClick (Bool.eq_false_iff.mpr unset),absent .onItemLongClick (Bool.eq_false_iff.mpr unset)]
  have scroll : ∀ signature, (if widget.isAbsListView then
      readListeners listeners [(.onScroll,.onScroll)] signature else signature) =
        addListenerSignature signature ((listeners.sent .onScroll).getD []) := by
    intro signature
    split
    · exact readListeners_last listeners .onScroll signature
    · rename_i unset
      rw [absent .onScroll (Bool.eq_false_iff.mpr unset)]
  have child : ∀ signature, (if widget.isExpandableListView then
      readListeners listeners [(.onChildClick,.onChildClick)] signature else signature) =
        addListenerSignature signature ((listeners.sent .onChildClick).getD []) := by
    intro signature
    split
    · exact readListeners_last listeners .onChildClick signature
    · rename_i unset
      rw [absent .onChildClick (Bool.eq_false_iff.mpr unset)]
  simp only [listenerSignature,item,scroll,child,pair .onClick .onLongClick rfl rfl]
  rfl

theorem sent_part (listeners : Listeners widget) (field : ListenerInterface) :
    listeners.sent field = listeners.signature field ∨ listeners.sent field = none := by
  rw [Listeners.sent,Listeners.signature]
  rcases castTo_cases (castTarget field) (listeners.get field) with cast | failed
  · exact .inl (by rw [cast,Option.bind_some])
  · exact .inr (by rw [failed,Option.bind_none])

theorem sent_shape {listeners : Listeners widget} {field : ListenerInterface} {signature : JavaString}
    (shown : listeners.sent field = some signature) : ∃ middle, signature = 60 :: (middle ++ [62]) := by
  rcases sent_part listeners field with same | unset
  · exact signature_shape (same ▸ shown)
  · simp [unset] at shown

theorem sent_head {listeners : Listeners widget} {field : ListenerInterface} {signature : JavaString}
    (shown : listeners.sent field = some signature) : ∃ rest, signature = 60 :: rest := by
  obtain ⟨middle,rfl⟩ := sent_shape shown
  exact ⟨_,rfl⟩

theorem foldl_join (listeners : Listeners widget) (fields : List ListenerInterface) (signatures : List JavaString)
    (filled : ∀ signature ∈ signatures, signature ≠ []) :
    fields.foldl (fun signature field => addListenerSignature signature ((listeners.sent field).getD []))
        (LISTENER_SIG_P.intercalate signatures) =
      LISTENER_SIG_P.intercalate (signatures ++ fields.filterMap listeners.sent) := by
  induction fields generalizing signatures with
  | nil => simp
  | cons field fields ih =>
    rw [List.foldl_cons,List.filterMap_cons]
    cases shown : listeners.sent field with
    | none => exact ih signatures filled
    | some signature =>
      obtain ⟨rest,rfl⟩ := sent_head shown
      rw [Option.getD_some,addListenerSignature_join signatures filled _ (List.cons_ne_nil _ _),ih]
      · simp
      · simpa [or_imp,forall_and] using filled

theorem intercalate_head {signatures : List JavaString} (filled : signatures ≠ [])
    (heads : ∀ signature ∈ signatures, ∃ rest, signature = 60 :: rest) :
    ∃ rest, LISTENER_SIG_P.intercalate signatures = 60 :: rest := by
  obtain ⟨first,others,rfl⟩ := List.exists_cons_of_ne_nil filled
  obtain ⟨rest,rfl⟩ := heads first List.mem_cons_self
  cases others with
  | nil => exact ⟨rest,List.intercalate_singleton⟩
  | cons second others => exact ⟨_,List.intercalate_cons_cons⟩

theorem filterMap_heads {f : ListenerInterface → Option JavaString} (fields : List ListenerInterface)
    (heads : ∀ field signature, f field = some signature → ∃ rest, signature = 60 :: rest) :
    ∀ signature ∈ fields.filterMap f, ∃ rest, signature = 60 :: rest := by
  intro signature member
  obtain ⟨field,-,shown⟩ := List.mem_filterMap.mp member
  exact heads field signature shown

theorem infix_signatureList {word : JavaString} (filled : word ≠ []) (opening : 60 ∉ word) (closing : 62 ∉ word)
    (apart : ¬ word <:+: LISTENER_SIG_P) (apart' : ¬ word <:+: units "none") (signatures : List JavaString)
    (shapes : ∀ signature ∈ signatures, ∃ middle, signature = 60 :: (middle ++ [62])) :
    word <:+: signatureList signatures ↔ ∃ signature ∈ signatures, word <:+: signature := by
  unfold signatureList
  split
  · rename_i empty
    simp [empty,apart']
  · rename_i nonempty
    induction signatures with
    | nil => exact absurd rfl nonempty
    | cons first rest ih =>
      cases rest with
      | nil => simp
      | cons second rest =>
        obtain ⟨middle,rfl⟩ := shapes first List.mem_cons_self
        have inner := ih (fun signature member => shapes signature (List.mem_cons_of_mem _ member))
          (List.cons_ne_nil _ _)
        obtain ⟨back,head⟩ := intercalate_head (List.cons_ne_nil second rest) fun signature member => by
          obtain ⟨middle',rfl⟩ := shapes signature (List.mem_cons_of_mem _ member)
          exact ⟨_,rfl⟩
        have empty : ¬ word <:+: [] := fun found => filled (List.infix_nil.mp found)
        have joined : LISTENER_SIG_P.intercalate ((60 :: (middle ++ [62])) :: second :: rest) =
            (60 :: middle) ++ 62 :: (LISTENER_SIG_P ++ 60 :: back) := by
          rw [List.intercalate_cons_cons,head]
          simp
        have last : word <:+: 60 :: back ↔ word <:+: back := by
          have split : word <:+: [] ++ 60 :: back ↔ _ := infix_append_cons opening
          simpa [empty] using split
        have first : word <:+: 60 :: (middle ++ [62]) ↔ word <:+: 60 :: middle := by
          have split : word <:+: (60 :: middle) ++ 62 :: [] ↔ _ := infix_append_cons closing
          simpa [empty] using split
        rw [joined,infix_append_cons closing,infix_append_cons opening,← last,← head,inner]
        simp [apart,first]

theorem listenerField_eq (listeners : Listeners widget) :
    listenerField (listenerSignature listeners) = signatureList (ListenerInterface.all.filterMap listeners.sent) := by
  have joined := foldl_join listeners ListenerInterface.all [] nofun
  rw [List.intercalate_nil,List.nil_append,← listenerSignature_foldl] at joined
  rw [joined,listenerField,signatureList]
  by_cases none : ListenerInterface.all.filterMap listeners.sent = []
  · rw [none]
    rfl
  · obtain ⟨rest,shown⟩ := intercalate_head none (filterMap_heads _ fun field signature => sent_head)
    rw [if_neg none,shown]
    rfl

theorem signatureList_inj {f g : ListenerInterface → Option JavaString}
    (heads : ∀ field signature, g field = some signature → ∃ rest, signature = 60 :: rest)
    (part : ∀ field, f field = g field ∨ f field = none)
    (same : signatureList (ListenerInterface.all.filterMap f) = signatureList (ListenerInterface.all.filterMap g)) :
    ∀ field ∈ ListenerInterface.all, f field = g field := by
  have filled : LISTENER_SIG_P ≠ [] := by decide
  refine (weight_filterMap filled ListenerInterface.all fun field _ => part field).2 ?_
  by_cases none : ListenerInterface.all.filterMap g = []
  · rw [none]
    exact Nat.zero_le _
  · obtain ⟨rest,shown⟩ := intercalate_head none (filterMap_heads _ heads)
    rw [signatureList,signatureList,if_neg none] at same
    by_cases none' : ListenerInterface.all.filterMap f = []
    · rw [if_pos none',shown] at same
      exact absurd (List.cons.inj same).1 (by decide)
    · rw [if_neg none'] at same
      rw [← length_intercalate LISTENER_SIG_P _ none,← length_intercalate LISTENER_SIG_P _ none',same]

theorem sent_own (listeners : Listeners widget) (field : ListenerInterface) (own : castTarget field = field) :
    listeners.sent field = listeners.signature field := by
  rw [Listeners.sent,own,castTo_own,Option.bind_some,Listeners.signature]

theorem sent_iff (listeners : Listeners widget) (field : ListenerInterface) :
    listeners.sent field = listeners.signature field ↔ ∀ listener ∈ listeners.get field,
      (listener.signature field).isSome = true → castTarget field ∈ listener.interfaces := by
  rw [Listeners.sent,Listeners.signature]
  cases found : listeners.get field with
  | none => simp [castTo]
  | some listener =>
    simp only [castTo,Option.mem_def,Option.some.injEq,forall_eq',Option.bind_some]
    by_cases allowed : castTarget field ∈ listener.interfaces
    · simp [allowed]
    · rw [if_neg allowed]
      cases listener.signature field <;> simp [allowed]

theorem castsAllowed_iff (listeners : Listeners widget) :
    (∀ field ∈ ListenerInterface.all, listeners.sent field = listeners.signature field) ↔ CastsAllowed listeners := by
  have long := sent_iff listeners .onLongClick
  have itemLong := sent_iff listeners .onItemLongClick
  constructor
  · intro each
    exact ⟨long.mp (each _ (by decide)),itemLong.mp (each _ (by decide))⟩
  · rintro ⟨view,item⟩ field -
    cases field with
    | onLongClick => exact long.mpr view
    | onItemLongClick => exact itemLong.mpr item
    | onClick | onItemClick | onScroll | onChildClick => exact sent_own listeners _ rfl

theorem listenerField_reported_iff (listeners : Listeners widget) :
    listenerField (listenerSignature listeners) = signatureList listeners.reported ↔ CastsAllowed listeners := by
  rw [listenerField_eq,Listeners.reported,← castsAllowed_iff]
  constructor
  · exact signatureList_inj (fun field signature => signature_head) (sent_part listeners)
  · intro each
    rw [List.filterMap_congr each]

/-- The class of an activity with its public methods, in the order of `getMethods`. -/
structure Activity where
  className : JavaString
  methods : List Method

def addMethod (clazzName listenerSignature : JavaString) (method : Method) : JavaString :=
  if method.name = units "onKeyDown" then
    if method.text ≠ units "public boolean android.app.Activity.onKeyDown(int,android.view.KeyEvent)" then
      addListenerSignature listenerSignature (convertSignature clazzName method.text method.name)
    else listenerSignature
  else if method.name = units "onOptionsItemSelected" then
    if method.text ≠ units "public boolean android.app.Activity.onOptionsItemSelected(android.view.MenuItem)" then
      addListenerSignature listenerSignature (convertSignature clazzName method.text method.name)
    else listenerSignature
  else listenerSignature

def activitySignature (activity : Activity) : JavaString := activity.methods.foldl (addMethod activity.className) []

/-- The reply of `getActivities`. The signatures are collected, but not put into it. -/
def getActivities (noViews : Bool) (activity : Activity) : JavaString :=
  if noViews then units "empty"
  else
    let result := activity.className ++ units "___" ++ units "none"
    let _listenerSignature := activitySignature activity
    result

/-- An event method of the activity that is not the one of `android.app.Activity`. -/
def Method.isOwn (method : Method) : Bool :=
  (method.name == units "onKeyDown" &&
    method.text != units "public boolean android.app.Activity.onKeyDown(int,android.view.KeyEvent)") ||
  (method.name == units "onOptionsItemSelected" &&
    method.text != units "public boolean android.app.Activity.onOptionsItemSelected(android.view.MenuItem)")

def Activity.ownSignatures (activity : Activity) : List JavaString :=
  (activity.methods.filter Method.isOwn).map fun method => convertSignature activity.className method.text method.name

theorem ownSignatures_heads (activity : Activity) : ∀ signature ∈ activity.ownSignatures, ∃ rest,
    signature = 60 :: rest := by
  intro signature member
  obtain ⟨method,-,rfl⟩ := List.mem_map.mp member
  exact convertSignature_head _ _ _

theorem addMethod_eq (clazzName listenerSignature : JavaString) (method : Method) :
    addMethod clazzName listenerSignature method = if method.isOwn then
      addListenerSignature listenerSignature (convertSignature clazzName method.text method.name)
        else listenerSignature := by
  have apart : units "onKeyDown" ≠ units "onOptionsItemSelected" := by decide
  unfold addMethod Method.isOwn
  by_cases key : method.name = units "onKeyDown"
  · simp [key,apart]
  · by_cases menu : method.name = units "onOptionsItemSelected"
    · simp [menu,apart.symm]
    · simp [key,menu]

theorem foldl_addMethod (clazzName : JavaString) (methods : List Method) (signatures : List JavaString)
    (filled : ∀ signature ∈ signatures, signature ≠ []) :
    methods.foldl (addMethod clazzName) (LISTENER_SIG_P.intercalate signatures) =
      LISTENER_SIG_P.intercalate (signatures ++ (methods.filter Method.isOwn).map fun method =>
        convertSignature clazzName method.text method.name) := by
  induction methods generalizing signatures with
  | nil => simp
  | cons method methods ih =>
    rw [List.foldl_cons,addMethod_eq]
    cases own : method.isOwn with
    | false => simpa [own] using ih signatures filled
    | true =>
      obtain ⟨rest,head⟩ := convertSignature_head clazzName method.text method.name
      have nonempty : convertSignature clazzName method.text method.name ≠ [] := by simp [head]
      rw [if_pos rfl,addListenerSignature_join signatures filled _ nonempty,ih]
      · simp [own]
      · simpa [or_imp,forall_and,nonempty] using filled

theorem activitySignature_eq (activity : Activity) :
    activitySignature activity = LISTENER_SIG_P.intercalate activity.ownSignatures := by
  have joined := foldl_addMethod activity.className activity.methods [] nofun
  rwa [List.intercalate_nil,List.nil_append] at joined

theorem getActivities_iff (noViews : Bool) (activity : Activity) :
    getActivities noViews activity = activity.className ++ units "___" ++ signatureList activity.ownSignatures ↔
      noViews = false ∧ ∀ method ∈ activity.methods, method.isOwn = false := by
  have unlisted : (∀ method ∈ activity.methods, method.isOwn = false) ↔ activity.ownSignatures = [] := by
    simp [Activity.ownSignatures]
  rw [unlisted]
  cases noViews with
  | true =>
    have apart : ∀ front back : JavaString, units "empty" ≠ front ++ units "___" ++ back := by
      intro front back same
      have member : (95 : UInt16) ∈ units "empty" := by
        rw [same]
        exact List.mem_append_left _ (List.mem_append_right _ (by decide))
      exact absurd member (by decide)
    refine iff_of_false ?_ nofun
    rw [getActivities,if_pos rfl]
    exact apart _ _
  | false =>
    simp only [getActivities,Bool.false_eq_true,if_false,List.append_cancel_left_eq,true_and,signatureList]
    constructor
    · intro same
      by_contra filled
      obtain ⟨rest,shown⟩ := intercalate_head filled (ownSignatures_heads activity)
      rw [if_neg filled,shown] at same
      exact absurd (List.cons.inj same).1 (by decide)
    · intro empty
      rw [if_pos empty]

/-- The report lists the listeners of a view exactly if its long click listeners, as far as they declare their
handlers, are click listeners too. The reply on an activity is right exactly if there are views and the activity has no
event methods of its own. -/
theorem installed_listeners_reported_iff (listeners : Listeners widget) (noViews : Bool) (activity : Activity) :
    (listenerField (listenerSignature listeners) = signatureList listeners.reported ↔ CastsAllowed listeners) ∧
      (getActivities noViews activity = activity.className ++ units "___" ++ signatureList activity.ownSignatures ↔
        noViews = false ∧ ∀ method ∈ activity.methods, method.isOwn = false) :=
  ⟨listenerField_reported_iff listeners,getActivities_iff noViews activity⟩

def longClickListener : Listener where
  className := units "A"
  declaredMethods := [⟨units "onLongClick",units "public boolean A.onLongClick(android.view.View)",by decide⟩]
  interfaces := [.onLongClick]

def longClickable : Listeners .other where
  installed field := if same : field = .onLongClick then some ⟨longClickListener,by subst same; decide⟩ else none
  declared := by
    intro field
    cases field <;> decide

def keyActivity : Activity :=
  ⟨units "B",[⟨units "onKeyDown",units "public boolean B.onKeyDown(int,android.view.KeyEvent)",by decide⟩]⟩

/-- The long click listener is lost in the cast, the key handler is collected and not sent. -/
theorem listeners_lost :
    longClickable.reported = [units "<A: void onLongClick(android.view.View)>"] ∧
      listenerField (listenerSignature longClickable) = units "none" ∧
    keyActivity.ownSignatures = [units "<B: void onKeyDown(int,android.view.KeyEvent)>"] ∧
      getActivities false keyActivity = units "B___none" := by
  decide +kernel

end Aatt.Troy
