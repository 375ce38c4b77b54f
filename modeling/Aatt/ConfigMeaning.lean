import Aatt.Listeners
import Aatt.Sequential

/-! What a configuration file says, line by line, and when `Start` takes it that way: for the events, the
whitelist and the listener lists, and for the size of the buffer. -/
namespace Aatt

abbrev offLine : List Char := ['o','f','f']
abbrev doCoverageLine : List Char := ['D','o','C','o','v','e','r','a','g','e']
abbrev doFilterLine : List Char := ['D','o','F','i','l','t','e','r']
abbrev methodEventLine : List Char := ['M','e','t','h','o','d','E','v','e','n','t']
abbrev fieldEventLine : List Char := ['F','i','e','l','d','E','v','e','n','t']
abbrev monitorEventLine : List Char := ['M','o','n','i','t','o','r','E','v','e','n','t']
abbrev includeWord : List Char := ['I','n','c','l','u','d','e']
abbrev bufferWord : List Char := ['B','u','f','f','e','r']

def unterminated (content : List Char) : List Char := (content.splitOn '\n').getLastD []

/-- The lines of a file; the last one may lack its newline. -/
def fileLines (content : List Char) : List (List Char) :=
  if unterminated content = [] then (content.splitOn '\n').dropLast else content.splitOn '\n'

def lineEvents (line : List Char) : BitVec 32 :=
  if line = doCoverageLine then kDoCoverage
  else if line = doFilterLine then kDoFilter
  else if line = methodEventLine then kDoMethodEntered ||| kDoMethodExited ||| kDoMethodUnwind
  else if line = fieldEventLine then kDoFieldRead ||| kDoFieldWritten
  else if line = monitorEventLine then kDoMonitorEntered ||| kDoMonitorExited
  else 0

/-- The text after `Include` and one separator. -/
def includeEntry (line : List Char) : Option (List Char) :=
  if line.take 7 = includeWord then some (line.drop 8) else none

/-- The factor of a `Buffer` line, if it is positive. -/
def lineFactor (line : List Char) : Nat :=
  if line.take 6 = bufferWord then max 1 (atoi (line.drop 6)).toNat else 1

def unionEvents (lines : List (List Char)) : BitVec 32 := lines.foldr (fun line events => lineEvents line ||| events) 0

def productOfFactors (lines : List (List Char)) : Nat := (lines.map lineFactor).prod

theorem splitOn_newline (content : List Char) :
    content.splitOn '\n' = completeLines content ++ [unterminated content] := by
  have pieces : ∃ last, content.splitOn '\n' = completeLines content ++ [last] := by
    induction content with
    | nil => exact ⟨[],rfl⟩
    | cons c rest ih =>
      obtain ⟨last,ih⟩ := ih
      rw [List.splitOn_eq_splitOnP] at ih ⊢
      rw [List.splitOnP_cons_eq_if_modifyHead,ih,completeLines]
      by_cases newline : c = '\n'
      · exact ⟨last,by simp [newline]⟩
      · cases completeLines rest with
        | nil => exact ⟨c :: last,by simp [newline]⟩
        | cons line lines => exact ⟨last,by simp [newline]⟩
  obtain ⟨last,pieces⟩ := pieces
  rw [unterminated,pieces]
  simp

theorem fileLines_eq (content : List Char) : fileLines content =
    completeLines content ++ if unterminated content = [] then [] else [unterminated content] := by
  rw [fileLines,splitOn_newline]
  split <;> simp

/-- What a line does to the locals, unless it ends the loop. -/
def Config.apply (config : Config) (line : List Char) : Config :=
  ⟨config.events ||| lineEvents line,config.bufferSize * BitVec.ofNat 32 (lineFactor line),
    config.whitelist ++ (includeEntry line).toList⟩

theorem take_include (line : List Char) (named : line.take 7 = includeWord) (short : line.length < 8) :
    line = includeWord := by
  rw [← named]
  exact (List.take_of_length_le (Nat.le_of_lt_succ short)).symm

theorem buffer_not_include (line : List Char) (buffer : line.take 6 = bufferWord) : line.take 7 ≠ includeWord := by
  intro named
  have both : line.take 6 = includeWord.take 6 := by
    rw [← named,List.take_take]
    rfl
  rw [buffer] at both
  revert both
  decide

abbrev optionLines : List (List Char) :=
  [doCoverageLine,doFilterLine,methodEventLine,fieldEventLine,monitorEventLine]

theorem lineEvents_other (line : List Char) (other : line ∉ optionLines) : lineEvents line = 0 := by
  simp only [optionLines,List.mem_cons,List.not_mem_nil,or_false,not_or] at other
  obtain ⟨coverage,filter,method,field,monitor⟩ := other
  rw [lineEvents,if_neg coverage,if_neg filter,if_neg method,if_neg field,if_neg monitor]

theorem parseLine_option (config : Config) (line : List Char) (option : line ∈ optionLines) :
    parseLine config line = .config (config.apply line) := by
  have apply_eq : config.apply line = { config with events := config.events ||| lineEvents line } := by
    have plain : includeEntry line = none := by revert line; decide
    have one : lineFactor line = 1 := by revert line; decide
    simp [Config.apply,plain,one]
  rw [apply_eq]
  simp only [optionLines,List.mem_cons,List.not_mem_nil,or_false] at option
  rcases option with rfl | rfl | rfl | rfl | rfl <;> rfl

theorem multiply_factor (size : BitVec 32) (factor : Int) :
    (if factor > 0 then size * BitVec.ofInt 32 factor else size) = size * BitVec.ofNat 32 (max 1 factor.toNat) := by
  by_cases positive : factor > 0
  · have same : BitVec.ofInt 32 factor = BitVec.ofNat 32 (max 1 factor.toNat) := by
      rw [show max 1 factor.toNat = factor.toNat by omega]
      conv_lhs => rw [← Int.toNat_of_nonneg (Int.le_of_lt positive)]
      exact BitVec.ofInt_natCast ..
    rw [if_pos positive,same]
  · rw [if_neg positive,show max 1 factor.toNat = 1 by omega]
    exact (BitVec.mul_one size).symm

/-- Every line but `off` and a bare `Include` does what it says. -/
theorem parseLine_apply (config : Config) (line : List Char) (on : line ≠ offLine) (separated : line ≠ includeWord) :
    parseLine config line = .config (config.apply line) := by
  by_cases option : line ∈ optionLines
  · exact parseLine_option config line option
  have silent := lineEvents_other line option
  simp only [optionLines,List.mem_cons,List.not_mem_nil,or_false,not_or] at option
  obtain ⟨coverage,filter,method,field,monitor⟩ := option
  unfold parseLine
  rw [if_neg on,if_neg coverage,if_neg filter,if_neg method,if_neg field,if_neg monitor]
  by_cases buffer : line.take 6 = bufferWord
  · rw [if_pos buffer]
    have plain : includeEntry line = none := if_neg (buffer_not_include line buffer)
    simp only [Config.apply,silent,plain,lineFactor,if_pos buffer,← multiply_factor]
    split <;> simp
  rw [if_neg buffer]
  have one : lineFactor line = 1 := if_neg buffer
  by_cases named : line.take 7 = includeWord
  · have long : ¬ line.length < 8 := fun short => separated (take_include line named short)
    rw [if_pos named,if_neg long]
    simp [Config.apply,silent,one,includeEntry,named]
  · rw [if_neg named]
    simp [Config.apply,silent,one,includeEntry,named]

theorem foldl_apply (lines : List (List Char)) (config : Config) : lines.foldl Config.apply config =
    ⟨config.events ||| unionEvents lines,config.bufferSize * BitVec.ofNat 32 (productOfFactors lines),
      config.whitelist ++ lines.filterMap includeEntry⟩ := by
  induction lines generalizing config with
  | nil => simp [unionEvents,productOfFactors]
  | cons line rest ih =>
    rw [List.foldl_cons,ih]
    simp only [Config.apply,unionEvents,List.foldr_cons,productOfFactors,List.map_cons,List.prod_cons,
      BitVec.ofNat_mul,BitVec.or_assoc,BitVec.mul_assoc,List.append_assoc,Config.mk.injEq,true_and]
    cases entry : includeEntry line <;> simp [entry]

theorem parseLines_append (front back : List (List Char)) (config : Config) (on : offLine ∉ front)
    (separated : includeWord ∉ front) :
    parseLines (front ++ back) config = parseLines back (front.foldl Config.apply config) := by
  induction front generalizing config with
  | nil => rfl
  | cons line rest ih =>
    rw [List.cons_append,parseLines,
      parseLine_apply config line (fun eq => on (by simp [eq])) (fun eq => separated (by simp [eq]))]
    exact ih _ (fun member => on (List.mem_cons_of_mem _ member)) fun member =>
      separated (List.mem_cons_of_mem _ member)

theorem parseLines_apply (lines : List (List Char)) (config : Config) (on : offLine ∉ lines)
    (separated : includeWord ∉ lines) : parseLines lines config = .config (lines.foldl Config.apply config) := by
  simpa [parseLines] using parseLines_append lines [] config on separated

theorem parseLines_off (front back : List (List Char)) (config : Config) (on : offLine ∉ front)
    (separated : includeWord ∉ front) : parseLines (front ++ offLine :: back) config = .off := by
  rw [parseLines_append _ _ _ on separated]
  rfl

/-- A bare `Include` with no `off` before it throws. -/
theorem parseLines_include (lines back : List (List Char)) (config : Config) (on : offLine ∉ lines)
    (bare : includeWord ∈ lines) : parseLines (lines ++ back) config = .outOfRange := by
  obtain ⟨front,rest,split,first⟩ := List.eq_append_cons_of_mem bare
  subst split
  rw [List.append_assoc,parseLines_append _ _ _ (fun member => on (List.mem_append_left _ member)) first]
  rfl

theorem unionEvents_append (front back : List (List Char)) :
    unionEvents (front ++ back) = unionEvents front ||| unionEvents back := by
  induction front with
  | nil => simp [unionEvents]
  | cons line rest ih =>
    rw [List.cons_append,unionEvents,List.foldr_cons]
    change lineEvents line ||| unionEvents (rest ++ back) = lineEvents line ||| unionEvents rest ||| unionEvents back
    rw [ih,BitVec.or_assoc]

theorem union_masked (lines : List (List Char)) (mask : BitVec 32) :
    unionEvents lines &&& mask ≠ 0 ↔ ∃ line ∈ lines, lineEvents line &&& mask ≠ 0 := by
  induction lines with
  | nil => simp [unionEvents]
  | cons line rest ih =>
    have split : unionEvents (line :: rest) &&& mask = (lineEvents line &&& mask) ||| (unionEvents rest &&& mask) :=
      BitVec.and_or_distrib_right ..
    rw [split,ne_eq,BitVec.ofNat_eq_ofNat,BitVec.or_eq_zero_iff,not_and_or]
    rw [ne_eq,BitVec.ofNat_eq_ofNat] at ih
    rw [ih]
    simp

theorem lineEvents_shared (line other : List Char) (shared : lineEvents line &&& lineEvents other ≠ 0) :
    line = other := by
  have options : ∀ line ∈ optionLines, ∀ other ∈ optionLines, lineEvents line &&& lineEvents other ≠ 0 →
    line = other := by
    decide
  refine options line ?_ other ?_ shared
  · by_contra silent
    rw [lineEvents_other line silent] at shared
    exact shared BitVec.zero_and
  · by_contra silent
    rw [lineEvents_other other silent] at shared
    exact shared BitVec.and_zero

/-- The line that puts the tracer on the list of an event. -/
def listLine : InstrumentationEvent → Option (List Char)
  | .methodEntered | .methodExited | .methodUnwind => some methodEventLine
  | .fieldRead | .fieldWritten => some fieldEventLine
  | .backwardBranch => some monitorEventLine
  | .dexPcMoved | .exceptionCaught => none

theorem hasEvent_line (event : InstrumentationEvent) (line : List Char) :
    lineEvents line &&& event.value ≠ 0 ↔ listLine event = some line := by
  by_cases option : line ∈ optionLines
  · have options : ∀ line ∈ optionLines, lineEvents line &&& event.value ≠ 0 ↔ listLine event = some line := by
      cases event <;> decide
    exact options line option
  · rw [lineEvents_other line option]
    have unlisted : listLine event ≠ some line := by
      intro listed
      have lines : ∀ line ∈ listLine event, line ∈ optionLines := by
        cases event <;> decide
      exact option (lines line listed)
    simpa using unlisted

def Selected (lines : List (List Char)) : InstrumentationEvent → Prop
  | .methodEntered | .methodExited | .methodUnwind => methodEventLine ∈ lines
  | .fieldRead | .fieldWritten => fieldEventLine ∈ lines
  | .dexPcMoved | .exceptionCaught | .backwardBranch => False

instance (lines : List (List Char)) : (event : InstrumentationEvent) → Decidable (Selected lines event)
  | .methodEntered | .methodExited | .methodUnwind => inferInstanceAs (Decidable (methodEventLine ∈ lines))
  | .fieldRead | .fieldWritten => inferInstanceAs (Decidable (fieldEventLine ∈ lines))
  | .dexPcMoved | .exceptionCaught | .backwardBranch => inferInstanceAs (Decidable False)

theorem hasEvent_union (lines : List (List Char)) (event : InstrumentationEvent) :
    hasEvent event (unionEvents lines) = true ↔ ∃ line ∈ lines, listLine event = some line := by
  rw [hasEvent,bne_iff_ne,union_masked]
  simp only [hasEvent_line]

theorem hasEvent_selected_iff (lines : List (List Char)) :
    (∀ event, hasEvent event (unionEvents lines) = true ↔ Selected lines event) ↔ monitorEventLine ∉ lines := by
  constructor
  · intro all member
    exact (all .backwardBranch).mp ((hasEvent_union _ _).mpr ⟨_,member,rfl⟩)
  · intro absent event
    rw [hasEvent_union]
    cases event <;> simp [listLine,Selected,absent]

/-- `Start` takes the file as it is written: it starts nothing if a line is `off`, and otherwise has the events and
entries of all lines and is put on the lists that they are for. -/
def Means (content : List Char) : Prop :=
  (offLine ∈ fileLines content → parse content = .off) ∧
    (offLine ∉ fileLines content → ∃ config, parse content = .config config ∧
      config.events = unionEvents (fileLines content) ∧ config.whitelist = (fileLines content).filterMap includeEntry ∧
      ∀ (r : Registry) (address : Nat), ∃ lists,
        (ListenerLists.of r).addListener (.miniTrace address) config.events = some lists ∧
        ∀ event, lists.listeners event =
          if Selected (fileLines content) event then r event ++ [.miniTrace address] else r event)

/-- A line is `off` and no bare `Include` precedes it; or no line is `off`, a bare `Include` or `MonitorEvent`, and
the text after the last newline adds nothing. -/
def WellWritten (content : List Char) : Prop :=
  (∃ front back, completeLines content = front ++ offLine :: back ∧ offLine ∉ front ∧ includeWord ∉ front) ∨
    offLine ∉ fileLines content ∧ includeWord ∉ completeLines content ∧ monitorEventLine ∉ fileLines content ∧
      includeEntry (unterminated content) = none ∧
      (lineEvents (unterminated content) = 0 ∨ unterminated content ∈ completeLines content)

theorem listed_iff (events : BitVec 32) (lines : List (List Char)) :
    (∀ (r : Registry) (address : Nat), ∃ lists,
        (ListenerLists.of r).addListener (.miniTrace address) events = some lists ∧
        ∀ event, lists.listeners event = if Selected lines event then r event ++ [.miniTrace address] else r event) ↔
      ∀ event, hasEvent event events = true ↔ Selected lines event := by
  constructor
  · intro all event
    obtain ⟨lists,added,listed⟩ := all (fun _ => []) 0
    rw [ListenerLists.of_addListener] at added
    cases added
    have listed := listed event
    rw [ListenerLists.of_listeners,Registry.add] at listed
    split_ifs at listed with has selected selected
    · exact iff_of_true has selected
    · cases listed
    · cases listed
    · exact iff_of_false has selected
  · intro all r address
    refine ⟨_,ListenerLists.of_addListener _ _ _,fun event => ?_⟩
    rw [ListenerLists.of_listeners,Registry.add]
    simp only [all event]

theorem union_absorbs_iff (lines : List (List Char)) (line : List Char) :
    unionEvents lines = unionEvents lines ||| lineEvents line ↔ lineEvents line = 0 ∨ line ∈ lines := by
  constructor
  · intro absorbed
    by_cases silent : lineEvents line = 0
    · exact .inl silent
    · have masked : unionEvents lines &&& lineEvents line ≠ 0 := by
        rw [absorbed,BitVec.and_comm,BitVec.and_or_distrib_left,BitVec.and_self]
        intro zero
        exact silent (BitVec.or_eq_zero_iff.mp zero).2
      obtain ⟨other,member,shared⟩ := (union_masked lines _).mp masked
      exact .inr (lineEvents_shared other line shared ▸ member)
  · rintro (silent | member)
    · rw [silent]
      simp
    · obtain ⟨front,back,split⟩ := List.append_of_mem member
      have parts : unionEvents lines = unionEvents front ||| (lineEvents line ||| unionEvents back) := by
        rw [split,unionEvents_append]
        rfl
      rw [parts]
      ext i
      simp only [BitVec.getElem_or]
      grind

theorem unterminated_adds_nothing_iff (content : List Char) :
    unionEvents (completeLines content) = unionEvents (fileLines content) ∧
        (completeLines content).filterMap includeEntry = (fileLines content).filterMap includeEntry ↔
      includeEntry (unterminated content) = none ∧
        (lineEvents (unterminated content) = 0 ∨ unterminated content ∈ completeLines content) := by
  rw [fileLines_eq]
  split
  · rename_i empty
    rw [empty]
    simp [includeEntry,lineEvents]
  · rw [unionEvents_append,show unionEvents [unterminated content] =
      lineEvents (unterminated content) by simp [unionEvents],
      union_absorbs_iff,and_comm]
    refine and_congr_left fun _ => ?_
    rw [List.filterMap_append]
    cases entry : includeEntry (unterminated content) <;> simp [entry]

def seenConfig (content : List Char) : Config :=
  ⟨unionEvents (completeLines content),1024 * BitVec.ofNat 32 (productOfFactors (completeLines content)),
    (completeLines content).filterMap includeEntry⟩

/-- The loop comes to its end if no line it sees is `off` or a bare `Include`. -/
theorem parse_finishes (content : List Char) (on : offLine ∉ completeLines content)
    (separated : includeWord ∉ completeLines content) : parse content = .config (seenConfig content) := by
  rw [parse,parseLines_apply _ _ on separated,foldl_apply]
  simp [Config.initial,seenConfig]

theorem parse_throws (content : List Char) (on : offLine ∉ completeLines content)
    (bare : includeWord ∈ completeLines content) : parse content = .outOfRange := by
  rw [parse,← List.append_nil (completeLines content)]
  exact parseLines_include _ [] _ on bare

/-- An `off` that the loop sees stops it, unless a bare `Include` before it throws. -/
theorem parse_stops (content : List Char) (off : offLine ∈ completeLines content) :
    ∃ front back, completeLines content = front ++ offLine :: back ∧ offLine ∉ front ∧
      (includeWord ∉ front ∧ parse content = .off ∨ includeWord ∈ front ∧ parse content = .outOfRange) := by
  obtain ⟨front,back,split,first⟩ := List.eq_append_cons_of_mem off
  refine ⟨front,back,split,first,?_⟩
  rw [parse,split]
  by_cases bare : includeWord ∈ front
  · exact .inr ⟨bare,parseLines_include front _ _ first bare⟩
  · exact .inl ⟨bare,parseLines_off front back _ first bare⟩

theorem means_iff_of_off (content : List Char) (off : offLine ∈ completeLines content) :
    Means content ↔ WellWritten content := by
  have shown : offLine ∈ fileLines content := by
    rw [fileLines_eq]
    exact List.mem_append_left _ off
  obtain ⟨front,back,split,first,⟨separated,stops⟩ | ⟨bare,throws⟩⟩ := parse_stops content off
  · exact iff_of_true ⟨fun _ => stops,fun on => absurd shown on⟩ (.inl ⟨front,back,split,first,separated⟩)
  · refine iff_of_false ?_ ?_
    · rintro ⟨stops,-⟩
      rw [throws] at stops
      cases stops shown
    · rintro (⟨front',back',split',first',separated⟩ | ⟨on,-⟩)
      · have stops := parseLines_off front' back' Config.initial first' separated
        rw [← split',show parseLines _ Config.initial = _ from throws] at stops
        cases stops
      · exact absurd shown on

/-- Without an `off` that the loop sees, the second alternative decides. -/
theorem wellWritten_iff_of_on (content : List Char) (on : offLine ∉ completeLines content) : WellWritten content ↔
    offLine ∉ fileLines content ∧ includeWord ∉ completeLines content ∧ monitorEventLine ∉ fileLines content ∧
      includeEntry (unterminated content) = none ∧
      (lineEvents (unterminated content) = 0 ∨ unterminated content ∈ completeLines content) := by
  refine or_iff_right ?_
  rintro ⟨front,back,split,-⟩
  exact on (split ▸ by simp)

theorem means_iff_of_on (content : List Char) (on : offLine ∉ completeLines content) :
    Means content ↔ WellWritten content := by
  rw [wellWritten_iff_of_on content on]
  by_cases bare : includeWord ∈ completeLines content
  · refine iff_of_false ?_ fun ⟨_,separated,_⟩ => separated bare
    rintro ⟨stops,starts⟩
    rw [parse_throws content on bare] at stops starts
    by_cases shown : offLine ∈ fileLines content
    · cases stops shown
    · obtain ⟨config,parsed,-⟩ := starts shown
      cases parsed
  · have parsed := parse_finishes content on bare
    constructor
    · rintro ⟨stops,starts⟩
      have unshown : offLine ∉ fileLines content := by
        intro shown
        rw [parsed] at stops
        cases stops shown
      obtain ⟨config,parsed',events,whitelist,listed⟩ := starts unshown
      rw [parsed] at parsed'
      cases parsed'
      rw [listed_iff,events,hasEvent_selected_iff] at listed
      exact ⟨unshown,bare,listed,(unterminated_adds_nothing_iff content).mp ⟨events,whitelist⟩⟩
    · rintro ⟨unshown,-,unmonitored,adds⟩
      obtain ⟨events,whitelist⟩ := (unterminated_adds_nothing_iff content).mpr adds
      refine ⟨fun shown => absurd shown unshown,fun _ => ⟨_,parsed,events,whitelist,?_⟩⟩
      rw [listed_iff,show (seenConfig content).events = _ from events,hasEvent_selected_iff]
      exact unmonitored

/-- A file is taken as it is written exactly when it is well written. -/
theorem config_means_iff (content : List Char) : Means content ↔ WellWritten content := by
  by_cases off : offLine ∈ completeLines content
  · exact means_iff_of_off content off
  · exact means_iff_of_on content off

/-- `MonitorEvent` alone puts the tracer on the list for backward branches. -/
theorem monitor_event_listed_for_branches : ¬ Means (monitorEventLine ++ ['\n']) ∧
    ∃ config, parse (monitorEventLine ++ ['\n']) = .config config ∧
      (ListenerLists.empty.addListener (.miniTrace 8) config.events).map (·.listeners .backwardBranch) =
        some [.miniTrace 8] := by
  have parsed : parse (monitorEventLine ++ ['\n']) = .config ⟨0x180,1024,[]⟩ := by decide
  refine ⟨fun means => ?_,_,parsed,by decide⟩
  obtain ⟨config,parsed',-,-,listed⟩ := means.2 (by decide)
  rw [parsed] at parsed'
  cases parsed'
  obtain ⟨lists,added,listed⟩ := listed (fun _ => []) 8
  cases added
  have branches := listed .backwardBranch
  revert branches
  decide

theorem parse_config (content : List Char) (config : Config) (parsed : parse content = .config config) :
    config = seenConfig content := by
  by_cases off : offLine ∈ completeLines content
  · obtain ⟨front,back,-,-,⟨-,stops⟩ | ⟨-,throws⟩⟩ := parse_stops content off
    · rw [stops] at parsed
      cases parsed
    · rw [throws] at parsed
      cases parsed
  · by_cases bare : includeWord ∈ completeLines content
    · rw [parse_throws content off bare] at parsed
      cases parsed
    · rw [parse_finishes content off bare] at parsed
      cases parsed
      rfl

theorem lineFactor_pos (line : List Char) : 1 ≤ lineFactor line := by
  unfold lineFactor
  split
  · exact Nat.le_max_left ..
  · exact Nat.le_refl _

theorem productOfFactors_pos (lines : List (List Char)) : 1 ≤ productOfFactors lines := by
  induction lines with
  | nil => exact Nat.le_refl _
  | cons line rest ih =>
    rw [productOfFactors,List.map_cons,List.prod_cons]
    exact Nat.mul_pos (lineFactor_pos line) ih

theorem productOfFactors_file (content : List Char) : productOfFactors (fileLines content) =
    productOfFactors (completeLines content) * lineFactor (unterminated content) := by
  rw [fileLines_eq]
  split
  · rename_i empty
    rw [empty]
    simp [lineFactor]
  · simp [productOfFactors]

/-- The buffer has the size that the file asks for, and no slot outside it is handed out. -/
def Sized (content : List Char) (config : Config) : Prop :=
  config.bufferSize.toInt = 1024 * productOfFactors (fileLines content) ∧ 1024 ≤ config.bufferSize.toInt ∧
    ∀ (s s' : Session) (oldOffset : Nat), s.bufferSize = config.bufferSize.toNat →
      reserve (s.spurious.length + 2) s = .ok (s',some oldOffset) → oldOffset + kMiniTraceRecordSize ≤ s'.bufferSize

theorem reserve_inside (s s' : Session) (oldOffset : Nat) (size : kMiniTraceRecordSize ≤ s.bufferSize)
    (reserved : reserve (s.spurious.length + 2) s = .ok (s',some oldOffset)) :
    oldOffset + kMiniTraceRecordSize ≤ s'.bufferSize := by
  rcases reserve_cases s s' _ size reserved with ⟨none_,-⟩ | ⟨m,rest,-,fits,eq,offset⟩
  · cases none_
  · cases offset
    rw [eq]
    exact fits

theorem bufferSize_toInt (n : Nat) (fits : 1024 * n < 2 ^ 31) :
    (1024 * BitVec.ofNat 32 n : BitVec 32).toInt = 1024 * n ∧
      (1024 * BitVec.ofNat 32 n : BitVec 32).toNat = 1024 * n := by
  have value : (1024 * BitVec.ofNat 32 n : BitVec 32).toNat = 1024 * n := by
    rw [BitVec.toNat_mul,BitVec.toNat_ofNat]
    change 1024 * (n % 2 ^ 32) % 2 ^ 32 = 1024 * n
    rw [Nat.mod_eq_of_lt (show n < 2 ^ 32 by omega),Nat.mod_eq_of_lt (by omega)]
  refine ⟨?_,value⟩
  rw [BitVec.toInt_eq_toNat_of_lt (by rw [value]; omega),value]
  exact Int.natCast_mul 1024 n

/-- For every file that is parsed to its end: the buffer has its size exactly when the product over the lines that the
loop sees fits an `int`, and the text after the last newline has no factor. -/
theorem buffer_size_iff (content : List Char) (config : Config) (parsed : parse content = .config config) :
    Sized content config ↔
      1024 * productOfFactors (completeLines content) < 2 ^ 31 ∧ lineFactor (unterminated content) = 1 := by
  have positive := productOfFactors_pos (completeLines content)
  have factor := lineFactor_pos (unterminated content)
  rw [parse_config content config parsed,Sized,productOfFactors_file]
  constructor
  · rintro ⟨size,-,-⟩
    have bound : (seenConfig content).bufferSize.toInt < 2 ^ 31 := BitVec.toInt_lt
    have grows : productOfFactors (completeLines content) ≤
        productOfFactors (completeLines content) * lineFactor (unterminated content) := Nat.le_mul_of_pos_right _ factor
    have fits : 1024 * productOfFactors (completeLines content) < 2 ^ 31 := by omega
    refine ⟨fits,?_⟩
    rw [seenConfig,(bufferSize_toInt _ fits).1] at size
    have same : productOfFactors (completeLines content) * lineFactor (unterminated content) =
        productOfFactors (completeLines content) := by omega
    exact Nat.eq_of_mul_eq_mul_left positive (same.trans (Nat.mul_one _).symm)
  · rintro ⟨fits,one⟩
    obtain ⟨asInt,asNat⟩ := bufferSize_toInt _ fits
    refine ⟨?_,?_,fun s s' oldOffset sized reserved => reserve_inside s s' oldOffset ?_ reserved⟩
    · rw [seenConfig,asInt,one,Nat.mul_one]
    · rw [seenConfig,asInt]
      omega
    · rw [sized,seenConfig,asNat,kMiniTraceRecordSize]
      omega

/-- The factor 2²² makes the size wrap to 0, and the first record is accepted by an array without an element. -/
theorem wrapped_size_accepts_record : ∃ config s',
    parse (bufferWord ++ ['4','1','9','4','3','0','4','\n']) = .config config ∧ config.bufferSize = 0 ∧
      reserve 2 (.start config.bufferSize.toNat [] []) = .ok (s',some 0) ∧ s'.bufferSize = 0 ∧
      ¬ Sized (bufferWord ++ ['4','1','9','4','3','0','4','\n']) config := by
  refine ⟨⟨0,0,[]⟩,_,by decide,rfl,rfl,rfl,fun sized => ?_⟩
  have large := sized.2.1
  revert large
  decide

theorem buffer_size_two_lines :
    parse (bufferWord ++ ['3','\n'] ++ bufferWord ++ ['2','\n']) = .config ⟨0,6144,[]⟩ ∧
      Sized (bufferWord ++ ['3','\n'] ++ bufferWord ++ ['2','\n']) ⟨0,6144,[]⟩ :=
  ⟨by decide,(buffer_size_iff _ _ (by decide)).mpr (by decide)⟩

end Aatt
