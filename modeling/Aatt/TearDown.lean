import Mathlib.Logic.Function.Basic
import Mathlib.Data.List.Nodup

/-! `MiniTrace.tearDown` of the Android side: it moves the four files of a trace from `/data` to the output
directory, each with a `cp` and an `rm` whose results end up in one return code. -/
namespace Aatt.TearDown

abbrev Path := List String

variable {γ : Type}

abbrev Device (γ : Type) := Path → Option γ

/-- How a command ends: with the exit code 0, with another one, or with an exception of `exec` or `waitFor`. -/
inductive Outcome where
  | success
  | failure (code : { code : Int // code ≠ 0 })
  | exception
  deriving DecidableEq

/-- What the commands meet. A name has one `cp` and one `rm`. -/
structure Environment where
  setenforce : Outcome
  cp : String → Outcome
  rm : String → Outcome

/-- `su 0 cp src dest`: the exit code, unless there is an exception, and the device. A copy of a missing file fails. -/
def cp (outcome : Outcome) (src dest : Path) (device : Device γ) : Option Int × Device γ :=
  match outcome,device src with
  | .success,some content => (some 0,Function.update device dest (some content))
  | .success,none => (some 1,device)
  | .failure code,_ => (some code,device)
  | .exception,_ => (none,device)

/-- `su 0 rm src`. -/
def rm (outcome : Outcome) (src : Path) (device : Device γ) : Option Int × Device γ :=
  match outcome,device src with
  | .success,some _ => (some 0,Function.update device src none)
  | .success,none => (some 1,device)
  | .failure code,_ => (some code,device)
  | .exception,_ => (none,device)

/-- The code of `rm` overwrites that of `cp`; an exception leaves `ret` as it is. -/
def moveData (cpOutcome rmOutcome : Outcome) (src dest : Path) (device : Device γ) : Int × Device γ :=
  match cp cpOutcome src dest device with
  | (none,device) => (-1,device)
  | (some copied,device) =>
    match rm rmOutcome src device with
    | (none,device) => (copied,device)
    | (some removed,device) => (removed,device)

/-- The parts of the file names before and after the user id. -/
def configFiles : List (String × String) :=
  [("mini_trace_","_config.in"),("mini_trace_","_coverage.dat"),("mini_trace_","_data.bin"),("mini_trace_","_info.log")]

def fileNames (uid : Int) : List String := configFiles.map fun config => config.1 ++ toString uid ++ config.2

def dataPath (name : String) : Path := ["data",name]

def outputPath (outputDirectory : Path) (name : String) : Path := outputDirectory ++ [name]

def move (environment : Environment) (outputDirectory : Path) (device : Device γ) (name : String) : Int × Device γ :=
  moveData (environment.cp name) (environment.rm name) (dataPath name) (outputPath outputDirectory name) device

/-- The loop over the files, and whether it gets to its end. -/
def moveFiles (environment : Environment) (outputDirectory : Path) : List String → Device γ → Bool × Device γ
  | [],device => (true,device)
  | name :: rest,device =>
    let moved := move environment outputDirectory device name
    if moved.1 ≠ 0 then (false,moved.2) else moveFiles environment outputDirectory rest moved.2

/-- Whether `tearDown` returns normally, and the device after it. Without an exit code 0 of `setenforce` it throws,
whichever exception there is. Asking the processes to dump first is not modelled. -/
def tearDown (environment : Environment) (outputDirectory : Path) (uid : Int) (device : Device γ) : Bool × Device γ :=
  match environment.setenforce with
  | .success => moveFiles environment outputDirectory (fileNames uid) device
  | .failure _ | .exception => (false,device)

/-- The content of the file is still at one of its two places. -/
def Kept (outputDirectory : Path) (before after : Device γ) (name : String) : Prop :=
  ∀ content, before (dataPath name) = some content →
    after (dataPath name) = some content ∨ after (outputPath outputDirectory name) = some content

/-- The file is at its output path with its content. -/
def Saved (outputDirectory : Path) (before after : Device γ) (name : String) : Prop :=
  ∃ content, before (dataPath name) = some content ∧ after (outputPath outputDirectory name) = some content

/-- `rm` deletes the file although no copy was made: `cp` ended with another exit code and the content is not already
at the output path, or the output path is the path of the file itself. -/
def Loses (environment : Environment) (outputDirectory : Path) (device : Device γ) (name : String) : Prop :=
  (device (dataPath name)).isSome ∧ environment.cp name ≠ .exception ∧ environment.rm name = .success ∧
    (outputPath outputDirectory name = dataPath name ∨
      environment.cp name ≠ .success ∧ device (outputPath outputDirectory name) ≠ device (dataPath name))

/-- The loop goes on: `rm` has succeeded, or `cp` has and `rm` ended with an exception. -/
def PassesOn (environment : Environment) (device : Device γ) (name : String) : Prop :=
  (device (dataPath name)).isSome ∧
    (environment.cp name ≠ .exception ∧ environment.rm name = .success ∨
      environment.cp name = .success ∧ environment.rm name = .exception)

/-- None of the files that the loop gets to loses its content. -/
def Careful (environment : Environment) (outputDirectory : Path) (device : Device γ) : List String → Prop
  | [] => True
  | name :: rest => ¬ Loses environment outputDirectory device name ∧
    (PassesOn environment device name → Careful environment outputDirectory device rest)

/-- The exit code, if there is one, of a command on a file that exists. -/
def Outcome.code : Outcome → Option Int
  | .success => some 0
  | .failure code => some code
  | .exception => none

/-- The device after `cp` on a file with the given content. -/
def afterCp (outcome : Outcome) (dest : Path) (content : γ) (device : Device γ) : Device γ :=
  if outcome = .success then Function.update device dest (some content) else device

/-- The device after `rm` on a file that exists. -/
def afterRm (outcome : Outcome) (src : Path) (device : Device γ) : Device γ :=
  if outcome = .success then Function.update device src none else device

theorem cp_present (outcome : Outcome) (src dest : Path) (content : γ) (device : Device γ)
    (present : device src = some content) : cp outcome src dest device = (outcome.code,
      afterCp outcome dest content device) := by
  cases outcome <;> simp [cp,present,Outcome.code,afterCp]

theorem rm_present (outcome : Outcome) (src : Path) (content : γ) (device : Device γ)
    (present : device src = some content) : rm outcome src device = (outcome.code,afterRm outcome src device) := by
  cases outcome <;> simp [rm,present,Outcome.code,afterRm]

theorem afterCp_src (outcome : Outcome) (src dest : Path) (content : γ) (device : Device γ)
    (present : device src = some content) : afterCp outcome dest content device src = some content := by
  unfold afterCp
  split
  · by_cases same : src = dest
    · subst same
      exact Function.update_self ..
    · rw [Function.update_of_ne same,present]
  · exact present

theorem moveData_present (cpOutcome rmOutcome : Outcome) (src dest : Path) (content : γ) (device : Device γ)
    (present : device src = some content) :
    moveData cpOutcome rmOutcome src dest device =
      if cpOutcome = .exception then (-1,device)
      else (rmOutcome.code.getD (cpOutcome.code.getD 0),
        afterRm rmOutcome src (afterCp cpOutcome dest content device)) := by
  have copied := afterCp_src cpOutcome src dest content device present
  rw [moveData,cp_present cpOutcome src dest content device present]
  cases cpOutcome with
  | exception => simp [Outcome.code,afterCp]
  | success =>
    simp only [Outcome.code,rm_present rmOutcome src content _ copied]
    cases rmOutcome <;> simp
  | failure code =>
    simp only [Outcome.code,rm_present rmOutcome src content _ copied]
    cases rmOutcome <;> simp

theorem moveData_missing (cpOutcome rmOutcome : Outcome) (src dest : Path) (device : Device γ)
    (missing : device src = none) :
    (moveData cpOutcome rmOutcome src dest device).1 ≠ 0 ∧ (moveData cpOutcome rmOutcome src dest device).2 =
      device := by
  cases cpOutcome with
  | exception => simp [moveData,cp]
  | success => cases rmOutcome with
    | failure code => simpa [moveData,cp,rm,missing] using code.2
    | success | exception => simp [moveData,cp,rm,missing]
  | failure code => cases rmOutcome with
    | failure code' => simpa [moveData,cp,rm] using code'.2
    | success => simp [moveData,cp,rm,missing]
    | exception => simpa [moveData,cp,rm] using code.2

theorem moveData_frame (cpOutcome rmOutcome : Outcome) (src dest : Path) (device : Device γ) (path : Path)
    (apart : path ≠ src) (apart' : path ≠ dest) : (moveData cpOutcome rmOutcome src dest device).2 path =
      device path := by
  rcases present : device src with _ | content
  · rw [(moveData_missing cpOutcome rmOutcome src dest device present).2]
  · rw [moveData_present cpOutcome rmOutcome src dest content device present]
    split
    · rfl
    · simp only [afterRm,afterCp]
      split <;> split <;> simp [Function.update_of_ne,apart,apart']

theorem failure_ne_zero (code : { code : Int // code ≠ 0 }) : (code : Int) = 0 ↔ False := iff_false_intro code.2

variable (environment : Environment) (outputDirectory : Path) (device : Device γ) (name : String)

theorem move_ret : (move environment outputDirectory device name).1 = 0 ↔ PassesOn environment device name := by
  rcases present : device (dataPath name) with _ | content
  · simp [PassesOn,present,(moveData_missing _ _ _ _ device present).1,move]
  · rw [move,moveData_present _ _ _ _ content device present,PassesOn,present]
    cases copy : environment.cp name <;> cases removal : environment.rm name <;>
      simp [Outcome.code,failure_ne_zero]

theorem move_places (content : γ) (present : device (dataPath name) = some content) :
    ((move environment outputDirectory device name).2 (dataPath name) = some content ∨
      (move environment outputDirectory device name).2 (outputPath outputDirectory name) = some content) ↔
      ¬ Loses environment outputDirectory device name := by
  rw [move,moveData_present _ _ _ _ content device present,Loses,present]
  by_cases same : outputPath outputDirectory name = dataPath name
  · rw [same]
    cases copy : environment.cp name <;> cases removal : environment.rm name <;>
      simp [afterRm,afterCp,present]
  · cases copy : environment.cp name <;> cases removal : environment.rm name <;>
      simp [afterRm,afterCp,present,same,Function.update_of_ne,Ne.symm same]

theorem move_kept : Kept outputDirectory device (move environment outputDirectory device name).2 name ↔
    ¬ Loses environment outputDirectory device name := by
  rcases present : device (dataPath name) with _ | content
  · simp [Kept,Loses,present]
  · rw [← move_places environment outputDirectory device name content present]
    simp only [Kept,present,Option.some.injEq,forall_eq']

theorem move_saved (passes : PassesOn environment device name)
    (keeps : ¬ Loses environment outputDirectory device name) :
    Saved outputDirectory device (move environment outputDirectory device name).2 name := by
  obtain ⟨content,present⟩ := Option.isSome_iff_exists.mp passes.1
  refine ⟨content,present,?_⟩
  have places := (move_places environment outputDirectory device name content present).mpr keeps
  rw [move,moveData_present _ _ _ _ content device present] at places ⊢
  rcases passes.2 with ⟨copy,removal⟩ | ⟨copy,removal⟩
  · rw [if_neg copy,removal] at places ⊢
    exact places.resolve_left (by simp [afterRm])
  · rw [copy,removal]
    simp [afterRm,afterCp]

theorem paths_apart (outputDirectory : Path) {name other : String} (apart : other ≠ name) :
    dataPath other ≠ dataPath name ∧ dataPath other ≠ outputPath outputDirectory name ∧
      outputPath outputDirectory other ≠ dataPath name ∧
      outputPath outputDirectory other ≠ outputPath outputDirectory name := by
  have ends : ∀ front back : Path, front ++ [other] ≠ back ++ [name] := fun front back same =>
    apart (List.cons.inj (List.append_inj' same rfl).2).1
  exact ⟨ends ["data"] ["data"],ends ["data"] outputDirectory,ends outputDirectory ["data"],
    ends outputDirectory outputDirectory⟩

theorem move_frame {other : String} (apart : other ≠ name) :
    (move environment outputDirectory device name).2 (dataPath other) = device (dataPath other) ∧
      (move environment outputDirectory device name).2 (outputPath outputDirectory other) =
        device (outputPath outputDirectory other) := by
  obtain ⟨data,crossed,crossed',output⟩ := paths_apart outputDirectory apart
  exact ⟨moveData_frame _ _ _ _ _ _ data crossed,moveData_frame _ _ _ _ _ _ crossed' output⟩

theorem moveFiles_frame (names : List String) {other : String} (apart : other ∉ names) :
    (moveFiles environment outputDirectory names device).2 (dataPath other) = device (dataPath other) ∧
      (moveFiles environment outputDirectory names device).2 (outputPath outputDirectory other) =
        device (outputPath outputDirectory other) := by
  induction names generalizing device with
  | nil => exact ⟨rfl,rfl⟩
  | cons name rest ih =>
    rw [List.mem_cons,not_or] at apart
    have first := move_frame environment outputDirectory device name apart.1
    simp only [moveFiles]
    split
    · exact first
    · have later := ih (move environment outputDirectory device name).2 apart.2
      exact ⟨later.1.trans first.1,later.2.trans first.2⟩

theorem conditions_congr {device other : Device γ} {name : String}
    (data : other (dataPath name) = device (dataPath name))
    (output : other (outputPath outputDirectory name) = device (outputPath outputDirectory name)) :
    (Loses environment outputDirectory other name ↔ Loses environment outputDirectory device name) ∧
      (PassesOn environment other name ↔ PassesOn environment device name) := by
  simp only [Loses,PassesOn,data,output,and_self]

theorem careful_congr {device other : Device γ} {names : List String}
    (same : ∀ name ∈ names, other (dataPath name) = device (dataPath name) ∧
      other (outputPath outputDirectory name) = device (outputPath outputDirectory name)) :
    Careful environment outputDirectory other names ↔ Careful environment outputDirectory device names := by
  induction names with
  | nil => exact Iff.rfl
  | cons name rest ih =>
    rw [List.forall_mem_cons] at same
    obtain ⟨loses,passes⟩ := conditions_congr environment outputDirectory same.1.1 same.1.2
    rw [Careful,Careful,loses,passes,ih same.2]

def Survives (names : List String) (before : Device γ) (result : Bool × Device γ) : Prop :=
  (∀ name ∈ names, Kept outputDirectory before result.2 name) ∧
    (result.1 = true → ∀ name ∈ names, Saved outputDirectory before result.2 name)

theorem promises_congr {before before' after after' : Device γ} {name : String}
    (data : before' (dataPath name) = before (dataPath name)) (left : after' (dataPath name) = after (dataPath name))
    (output : after' (outputPath outputDirectory name) = after (outputPath outputDirectory name)) :
    (Kept outputDirectory before' after' name ↔ Kept outputDirectory before after name) ∧
      (Saved outputDirectory before' after' name ↔ Saved outputDirectory before after name) := by
  simp only [Kept,Saved,data,left,output,and_self]

theorem survives_stopped (rest : List String) (new : name ∉ rest) :
    Survives outputDirectory (name :: rest) device (false,(move environment outputDirectory device name).2) ↔
      ¬ Loses environment outputDirectory device name := by
  rw [Survives,List.forall_mem_cons,move_kept]
  refine ⟨fun survives => survives.1.1,fun keeps => ⟨⟨keeps,fun other member content present => .inl ?_⟩,nofun⟩⟩
  have apart : other ≠ name := fun same => new (same ▸ member)
  exact (move_frame environment outputDirectory device name apart).1.trans present

theorem survives_passed (rest : List String) (new : name ∉ rest) (passes : PassesOn environment device name) :
    Survives outputDirectory (name :: rest) device
        (moveFiles environment outputDirectory rest (move environment outputDirectory device name).2) ↔
      ¬ Loses environment outputDirectory device name ∧
        Survives outputDirectory rest (move environment outputDirectory device name).2
          (moveFiles environment outputDirectory rest (move environment outputDirectory device name).2) := by
  have places := moveFiles_frame environment outputDirectory (move environment outputDirectory device name).2 rest new
  have first := promises_congr outputDirectory (Eq.refl (device (dataPath name))) places.1 places.2
  have others : ∀ other ∈ rest, ∀ after : Device γ,
      (Kept outputDirectory device after other ↔
        Kept outputDirectory (move environment outputDirectory device name).2 after other) ∧
      (Saved outputDirectory device after other ↔
        Saved outputDirectory (move environment outputDirectory device name).2 after other) :=
          fun other member after => by
    have apart : other ≠ name := fun same => new (same ▸ member)
    exact promises_congr outputDirectory (move_frame environment outputDirectory device name apart).1.symm rfl rfl
  simp only [Survives,List.forall_mem_cons]
  rw [first.1,first.2,move_kept]
  constructor
  · rintro ⟨⟨keeps,kept⟩,saved⟩
    exact ⟨keeps,fun other member => (others other member _).1.mp (kept other member),
      fun done other member => (others other member _).2.mp ((saved done).2 other member)⟩
  · rintro ⟨keeps,kept,saved⟩
    exact ⟨⟨keeps,fun other member => (others other member _).1.mpr (kept other member)⟩,
      fun done => ⟨move_saved environment outputDirectory device name passes keeps,
        fun other member => (others other member _).2.mpr (saved done other member)⟩⟩

theorem moveFiles_survives_iff (names : List String) (distinct : names.Nodup) :
    Survives outputDirectory names device (moveFiles environment outputDirectory names device) ↔
      Careful environment outputDirectory device names := by
  induction names generalizing device with
  | nil => simp [Survives,Careful]
  | cons name rest ih =>
    obtain ⟨new,distinct⟩ := List.nodup_cons.mp distinct
    have untouched : ∀ other ∈ rest, _ := fun other member =>
      move_frame environment outputDirectory device name fun same => new (same ▸ member)
    simp only [moveFiles,Careful]
    by_cases passes : PassesOn environment device name
    · have zero := (move_ret environment outputDirectory device name).mpr passes
      rw [if_neg (not_not.mpr zero),survives_passed environment outputDirectory device name rest new passes,
        ih _ distinct,careful_congr environment outputDirectory untouched]
      simp [passes]
    · have nonzero := mt (move_ret environment outputDirectory device name).mp passes
      rw [if_pos nonzero,survives_stopped environment outputDirectory device name rest new]
      simp [passes]

theorem fileNames_distinct (uid : Int) : (fileNames uid).Nodup := by
  refine List.Nodup.map_on ?_ (by decide)
  intro config member other member' same
  have front : ∀ config ∈ configFiles, config.1 = "mini_trace_" := by decide
  have letters := congrArg String.toList same
  simp only [front config member,front other member',String.toList_append,List.append_assoc,
    List.append_cancel_left_eq] at letters
  exact Prod.ext ((front config member).trans (front other member').symm) (String.toList_inj.mp letters)

/-- No content is lost and a normal return means that all four files have been saved, exactly when `setenforce` does not
succeed or no file that the loop gets to is deleted without a copy. -/
theorem tearDown_survives_iff (uid : Int) :
    Survives outputDirectory (fileNames uid) device (tearDown environment outputDirectory uid device) ↔
      (environment.setenforce = .success → Careful environment outputDirectory device (fileNames uid)) := by
  unfold tearDown
  cases environment.setenforce with
  | success => simpa using moveFiles_survives_iff environment outputDirectory device _ (fileNames_distinct uid)
  | failure code | exception =>
    exact iff_of_true ⟨fun name member content present => .inl present,nofun⟩ nofun

/-- The four files with their names as contents, as they are before the call. -/
def harvested (uid : Int) : Device String := fun path =>
  match path with
  | ["data",name] => if name ∈ fileNames uid then some name else none
  | _ => none

/-- The output medium is full: every `cp` ends with the exit code 1, every `rm` succeeds. -/
def fullMedium : Environment := ⟨.success,fun _ => .failure ⟨1,by decide⟩,fun _ => .success⟩

/-- `tearDown` returns normally and the trace is gone. -/
theorem failed_copy_removed : (tearDown fullMedium ["sdcard"] 10000 (harvested 10000)).1 = true ∧
    harvested 10000 (dataPath "mini_trace_10000_data.bin") = some "mini_trace_10000_data.bin" ∧
    (tearDown fullMedium ["sdcard"] 10000 (harvested 10000)).2 (dataPath "mini_trace_10000_data.bin") = none ∧
    (tearDown fullMedium ["sdcard"] 10000 (harvested 10000)).2 (outputPath ["sdcard"] "mini_trace_10000_data.bin") =
      none := by
  decide

end Aatt.TearDown
