import Aatt.Lib.Behaviour

/-! `ExecuteSwitchImpl` and `ExecuteGotoImpl`. What the instructions other than returns do, and what the
functions do that both interpreters call, is a parameter. The two differ in `RETURN_OBJECT`: in the
switch the macro for a pending exception moves `inst` to the handler and falls through to the end of
the case. `HasReferenceArray` is taken to hold, and the dex pc and exception listeners are left out. -/
namespace Aatt

open Aatt.Lib

def kDexNoIndex : BitVec 32 := 0xFFFFFFFF

inductive Opcode where
  | returnVoidNoBarrier | returnVoid | return | returnWide | returnObject
  /-- Any other instruction. -/
  | other
  deriving DecidableEq, Repr

inductive Report where
  | visitPc (dexPc : BitVec 32)
  | methodEntered
  | methodExited (dexPc : BitVec 32) (result : BitVec 64)
  | methodUnwind (dexPc : BitVec 32)
  deriving DecidableEq, Repr

/-- `crashed` is the read of a null class pointer. -/
inductive Ending where
  | returned (result : BitVec 64)
  | uncaught
  | crashed
  deriving DecidableEq, Repr

/-- A method body and the functions that both interpreters use. `σ` holds the frame, the result register,
the heap and the pending exception; references are addresses, 0 is null. -/
structure Method (σ : Type) where
  opcode : BitVec 32 → Opcode
  /-- Executes the instruction at a dex pc: the offset to the next one, or an exception is pending. -/
  execute : σ → BitVec 32 → σ × Option (BitVec 32)
  /-- Register A of the instruction at a dex pc. -/
  getVReg : σ → BitVec 32 → BitVec 32
  getVRegLong : σ → BitVec 32 → BitVec 64
  getVRegReference : σ → BitVec 32 → BitVec 64
  /-- The class, or null with a pending exception. -/
  getReturnType : σ → σ × Option (BitVec 64)
  verifierInstanceOf : σ → BitVec 64 → BitVec 64 → Bool
  throwVirtualMachineError : σ → σ
  /-- The handler or `kDexNoIndex`, and whether the exception is to be cleared. -/
  findCatchBlock : σ → BitVec 32 → σ × BitVec 32 × Bool
  clearException : σ → σ
  hasMethodEntryListeners : σ → Bool
  hasMethodExitListeners : σ → Bool
  hasMethodUnwindListeners : σ → Bool

namespace Method

variable {σ : Type} (m : Method σ)

def findNextInstructionFollowingException (s : σ) (dexPc : BitVec 32) : σ × BitVec 32 × List Report :=
  let (s,foundDexPc,clear) := m.findCatchBlock s dexPc
  if foundDexPc = kDexNoIndex then
    (s,foundDexPc,if m.hasMethodUnwindListeners s then [.methodUnwind dexPc] else [])
  else (if clear then m.clearException s else s,foundDexPc,[])

def exit {τ : Type} (s : σ) (dexPc : BitVec 32) (result : BitVec 64) : Move τ Report Ending :=
  ⟨if m.hasMethodExitListeners s then [.methodExited dexPc result] else [],.inr (.returned result)⟩

def visit (miniTrace : Bool) (dexPc : BitVec 32) : List Report := if miniTrace then [.visitPc dexPc] else []

def enter (s : σ) (dexPc : BitVec 32) : List Report :=
  if dexPc = 0 then if m.hasMethodEntryListeners s then [.methodEntered] else [] else []

/-- `HANDLE_PENDING_EXCEPTION`: no state if it returns from the function. -/
def handlePendingException (s : σ) (inst dexPc : BitVec 32) : List Report × Option (σ × BitVec 32) :=
  let (s,foundDexPc,reports) := m.findNextInstructionFollowingException s inst
  if foundDexPc = kDexNoIndex then (reports,none)
  else (reports,some (s,inst + (foundDexPc - dexPc)))

def switchReturnObject (doAccessCheck : Bool) (s : σ) (inst dexPc : BitVec 32) : Move (σ × BitVec 32) Report Ending :=
  let objResult := m.getVRegReference s inst
  if doAccessCheck && objResult != 0 then
    let (s,returnType) := m.getReturnType s
    let objResult := m.getVRegReference s inst
    match returnType with
    | none =>
      match m.handlePendingException s inst dexPc with
      | (reports,none) => ⟨reports,.inr .uncaught⟩
      -- falls through to `VerifierInstanceOf` of a null class
      | (reports,some _) => ⟨reports,.inr .crashed⟩
    | some returnType =>
      if m.verifierInstanceOf s objResult returnType then m.exit s inst objResult
      else
        match m.handlePendingException (m.throwVirtualMachineError s) inst dexPc with
        | (reports,none) => ⟨reports,.inr .uncaught⟩
        -- falls through to the exit event
        | (reports,some (s,inst)) => (m.exit s inst objResult).after reports
  else m.exit s inst objResult

def switchInstruction (doAccessCheck : Bool) (s : σ) (inst dexPc : BitVec 32) : Move (σ × BitVec 32) Report Ending :=
  match m.opcode inst with
  | .returnVoidNoBarrier | .returnVoid => m.exit s inst 0
  | .return => m.exit s inst ((m.getVReg s inst).setWidth 64)
  | .returnWide => m.exit s inst (m.getVRegLong s inst)
  | .returnObject => m.switchReturnObject doAccessCheck s inst dexPc
  | .other =>
    match m.execute s inst with
    | (s,some offset) => ⟨[],.inl (s,inst + offset)⟩
    | (s,none) =>
      match m.handlePendingException s inst dexPc with
      | (reports,none) => ⟨reports,.inr .uncaught⟩
      | (reports,some next) => ⟨reports,.inl next⟩

/-- One round of the loop, with `PREAMBLE`. -/
def switchStep (doAccessCheck miniTrace : Bool) : σ × BitVec 32 → Move (σ × BitVec 32) Report Ending
  | (s,inst) =>
    let dexPc := inst
    (m.switchInstruction doAccessCheck s inst dexPc).after (visit miniTrace dexPc)

def executeSwitchImpl (doAccessCheck miniTrace : Bool) (s : σ) (dexPc : BitVec 32) (n : Nat) :
    Observation Report Ending :=
  prepend (m.enter s dexPc) (observe (m.switchStep doAccessCheck miniTrace) (s,dexPc) n)

def advance (s : σ) (inst dexPc offset : BitVec 32) : Move (σ × BitVec 32 × BitVec 32) Report Ending :=
  ⟨[],.inl (s,inst + offset,dexPc + offset)⟩

/-- The label `exception_pending_label`. -/
def exceptionPending (s : σ) (inst dexPc : BitVec 32) : Move (σ × BitVec 32 × BitVec 32) Report Ending :=
  let (s,foundDexPc,reports) := m.findNextInstructionFollowingException s dexPc
  if foundDexPc = kDexNoIndex then ⟨reports,.inr .uncaught⟩
  else (advance s inst dexPc (foundDexPc - dexPc)).after reports

def gotoReturnObject (doAccessCheck : Bool) (s : σ) (inst dexPc : BitVec 32) :
    Move (σ × BitVec 32 × BitVec 32) Report Ending :=
  let objResult := m.getVRegReference s inst
  if doAccessCheck && objResult != 0 then
    let (s,returnType) := m.getReturnType s
    let objResult := m.getVRegReference s inst
    match returnType with
    | none => m.exceptionPending s inst dexPc
    | some returnType =>
      if m.verifierInstanceOf s objResult returnType then m.exit s dexPc objResult
      else m.exceptionPending (m.throwVirtualMachineError s) inst dexPc
  else m.exit s dexPc objResult

def gotoInstruction (doAccessCheck : Bool) (s : σ) (inst dexPc : BitVec 32) :
    Move (σ × BitVec 32 × BitVec 32) Report Ending :=
  match m.opcode inst with
  | .returnVoidNoBarrier | .returnVoid => m.exit s dexPc 0
  | .return => m.exit s dexPc ((m.getVReg s inst).setWidth 64)
  | .returnWide => m.exit s dexPc (m.getVRegLong s inst)
  | .returnObject => m.gotoReturnObject doAccessCheck s inst dexPc
  | .other =>
    match m.execute s inst with
    | (s,some offset) => advance s inst dexPc offset
    | (s,none) => m.exceptionPending s inst dexPc

def gotoStep (doAccessCheck miniTrace : Bool) :
    σ × BitVec 32 × BitVec 32 → Move (σ × BitVec 32 × BitVec 32) Report Ending
  | (s,inst,dexPc) => (m.gotoInstruction doAccessCheck s inst dexPc).after (visit miniTrace dexPc)

def executeGotoImpl (doAccessCheck miniTrace : Bool) (s : σ) (dexPc : BitVec 32) (n : Nat) :
    Observation Report Ending :=
  prepend (m.enter s dexPc) (observe (m.gotoStep doAccessCheck miniTrace) (s,dexPc,dexPc) n)

/-- Where an instruction that does not return continues. -/
def follow (s : σ) (dexPc : BitVec 32) : Option (σ × BitVec 32) :=
  if m.opcode dexPc ≠ .other then none else
  match m.execute s dexPc with
  | (s,some offset) => some (s,dexPc + offset)
  | (s,none) =>
    let (s,foundDexPc,_) := m.findNextInstructionFollowingException s dexPc
    if foundDexPc = kDexNoIndex then none else some (s,foundDexPc)

/-- The states from which the method executes an instruction before it comes to a return. -/
inductive Reaches (s : σ) (dexPc : BitVec 32) : σ → BitVec 32 → Prop where
  | start : Reaches s dexPc s dexPc
  | next {s' s'' : σ} {pc' pc'' : BitVec 32} (reached : Reaches s dexPc s' pc')
      (followed : m.follow s' pc' = some (s'',pc'')) : Reaches s dexPc s'' pc''

/-- The state with the exception that `RETURN_OBJECT` raises at a dex pc, if it does. -/
def raised (doAccessCheck : Bool) (s : σ) (dexPc : BitVec 32) : Option σ :=
  if doAccessCheck && m.getVRegReference s dexPc != 0 then
    match m.getReturnType s with
    | (s,none) => some s
    | (s,some returnType) =>
      if m.verifierInstanceOf s (m.getVRegReference s dexPc) returnType then none
      else some (m.throwVirtualMachineError s)
  else none

/-- The instruction is a `RETURN_OBJECT` that raises an exception which the method catches. -/
def CatchesReturn (doAccessCheck : Bool) (s : σ) (dexPc : BitVec 32) : Prop :=
  m.opcode dexPc = .returnObject ∧
    ∃ s' ∈ m.raised doAccessCheck s dexPc, (m.findCatchBlock s' dexPc).2.1 ≠ kDexNoIndex

theorem find_found (s : σ) (dexPc : BitVec 32) :
    (m.findNextInstructionFollowingException s dexPc).2.1 = (m.findCatchBlock s dexPc).2.1 := by
  unfold findNextInstructionFollowingException
  dsimp only
  split <;> rfl

theorem uncaught_exception (s : σ) (dexPc : BitVec 32) (uncaught : (m.findCatchBlock s dexPc).2.1 = kDexNoIndex) :
    ∃ reports, m.handlePendingException s dexPc dexPc = (reports,none) ∧
      m.exceptionPending s dexPc dexPc = ⟨reports,.inr .uncaught⟩ := by
  rw [← find_found] at uncaught
  unfold handlePendingException exceptionPending
  rcases found : m.findNextInstructionFollowingException s dexPc with ⟨s',handler,reports⟩
  rw [found] at uncaught
  dsimp only at uncaught ⊢
  rw [if_pos uncaught,if_pos uncaught]
  exact ⟨reports,rfl,rfl⟩

theorem caught_exception (s : σ) (dexPc : BitVec 32) (caught : (m.findCatchBlock s dexPc).2.1 ≠ kDexNoIndex) :
    ∃ s' handler, m.findNextInstructionFollowingException s dexPc = (s',handler,[]) ∧ handler ≠ kDexNoIndex ∧
      m.handlePendingException s dexPc dexPc = ([],some (s',handler)) ∧
      m.exceptionPending s dexPc dexPc = ⟨[],.inl (s',handler,handler)⟩ := by
  have found : ∃ s', m.findNextInstructionFollowingException s dexPc = (s',(m.findCatchBlock s dexPc).2.1,[]) := by
    unfold findNextInstructionFollowingException
    rcases found : m.findCatchBlock s dexPc with ⟨middle,handler,clear⟩
    rw [found] at caught
    dsimp only at caught ⊢
    rw [if_neg caught]
    exact ⟨_,rfl⟩
  obtain ⟨s',found⟩ := found
  have target : dexPc + ((m.findCatchBlock s dexPc).2.1 - dexPc) = (m.findCatchBlock s dexPc).2.1 := by
    rw [BitVec.add_comm,BitVec.sub_add_cancel]
  refine ⟨s',_,found,caught,?_,?_⟩
  · rw [handlePendingException,found]
    simp only [if_neg caught,target]
  · rw [exceptionPending,found]
    simp only [if_neg caught,advance,target,Move.after,List.append_nil]

theorem follow_step (doAccessCheck : Bool) (s s' : σ) (pc pc' : BitVec 32) (followed : m.follow s pc = some (s',pc')) :
    m.switchInstruction doAccessCheck s pc pc = ⟨[],.inl (s',pc')⟩ ∧
      m.gotoInstruction doAccessCheck s pc pc = ⟨[],.inl (s',pc',pc')⟩ := by
  unfold follow at followed
  split at followed
  · cases followed
  rename_i other
  unfold switchInstruction gotoInstruction
  rw [not_not.mp other]
  dsimp only
  rcases executed : m.execute s pc with ⟨middle,_ | offset⟩
  · rw [executed] at followed
    by_cases caught : (m.findCatchBlock middle pc).2.1 = kDexNoIndex
    · rw [← find_found] at caught
      rcases found : m.findNextInstructionFollowingException middle pc with ⟨s'',handler,reports⟩
      rw [found] at caught
      simp only [found,if_pos caught] at followed
      cases followed
    · obtain ⟨s'',handler,found,kept,inSwitch,inGoto⟩ := m.caught_exception middle pc caught
      simp only [found,if_neg kept] at followed
      cases followed
      simp only [inSwitch,inGoto,and_self]
  · rw [executed] at followed
    cases followed
    exact ⟨rfl,rfl⟩

theorem unfollowed_step (doAccessCheck : Bool) (s : σ) (pc : BitVec 32) (other : m.opcode pc = .other)
    (unfollowed : m.follow s pc = none) : ∃ reports,
      m.switchInstruction doAccessCheck s pc pc = ⟨reports,.inr .uncaught⟩ ∧
      m.gotoInstruction doAccessCheck s pc pc = ⟨reports,.inr .uncaught⟩ := by
  unfold follow at unfollowed
  rw [if_neg (not_not.mpr other)] at unfollowed
  unfold switchInstruction gotoInstruction
  rw [other]
  dsimp only
  rcases executed : m.execute s pc with ⟨middle,_ | offset⟩
  · rw [executed] at unfollowed
    by_cases uncaught : (m.findCatchBlock middle pc).2.1 = kDexNoIndex
    · obtain ⟨reports,inSwitch,inGoto⟩ := m.uncaught_exception middle pc uncaught
      simp only [inSwitch,inGoto]
      exact ⟨reports,rfl,rfl⟩
    · obtain ⟨s'',handler,found,kept,-⟩ := m.caught_exception middle pc uncaught
      simp only [found,if_neg kept] at unfollowed
      cases unfollowed
  · rw [executed] at unfollowed
    cases unfollowed

/-- A `RETURN_OBJECT` whose exception is not caught ends both interpreters in the same way. -/
theorem returnObject_agree {related : σ × BitVec 32 → σ × BitVec 32 × BitVec 32 → Prop} (doAccessCheck : Bool) (s : σ)
    (pc : BitVec 32)
    (uncaught : ∀ s' ∈ m.raised doAccessCheck s pc, (m.findCatchBlock s' pc).2.1 = kDexNoIndex) :
    Agree related (m.switchReturnObject doAccessCheck s pc pc) (m.gotoReturnObject doAccessCheck s pc pc) := by
  unfold raised at uncaught
  unfold switchReturnObject gotoReturnObject
  by_cases checked : (doAccessCheck && m.getVRegReference s pc != 0) = true
  · rw [if_pos checked] at uncaught
    rw [if_pos checked,if_pos checked]
    rcases type : m.getReturnType s with ⟨middle,_ | returnType⟩
    · rw [type] at uncaught
      obtain ⟨reports,inSwitch,inGoto⟩ := m.uncaught_exception middle pc (uncaught middle rfl)
      simp only [inSwitch,inGoto]
      exact .ending
    · rw [type] at uncaught
      dsimp only at uncaught ⊢
      by_cases instanceOf : m.verifierInstanceOf middle (m.getVRegReference middle pc) returnType = true
      · rw [if_pos instanceOf,if_pos instanceOf]
        exact .ending
      · rw [if_neg instanceOf] at uncaught
        obtain ⟨reports,inSwitch,inGoto⟩ := m.uncaught_exception _ pc (uncaught _ rfl)
        rw [if_neg instanceOf,if_neg instanceOf]
        simp only [inSwitch,inGoto]
        exact .ending
  · rw [if_neg checked,if_neg checked]
    exact .ending

theorem returnObject_caught (doAccessCheck : Bool) (s s' : σ) (pc : BitVec 32)
    (raised : m.raised doAccessCheck s pc = some s') (caught : (m.findCatchBlock s' pc).2.1 ≠ kDexNoIndex) :
    ∃ reports ending s'' handler,
      m.switchReturnObject doAccessCheck s pc pc = ⟨reports,.inr ending⟩ ∧ (∀ dexPc, .visitPc dexPc ∉ reports) ∧
      m.gotoReturnObject doAccessCheck s pc pc = ⟨[],.inl (s'',handler,handler)⟩ := by
  obtain ⟨s'',handler,-,-,inSwitch,inGoto⟩ := m.caught_exception s' pc caught
  unfold Method.raised at raised
  unfold switchReturnObject gotoReturnObject
  by_cases checked : (doAccessCheck && m.getVRegReference s pc != 0) = true
  · rw [if_pos checked] at raised
    rw [if_pos checked,if_pos checked]
    rcases type : m.getReturnType s with ⟨middle,_ | returnType⟩
    · rw [type] at raised
      cases raised
      simp only [inSwitch,inGoto]
      exact ⟨[],.crashed,s'',handler,rfl,nofun,rfl⟩
    · rw [type] at raised
      dsimp only at raised ⊢
      by_cases instanceOf : m.verifierInstanceOf middle (m.getVRegReference middle pc) returnType = true
      · rw [if_pos instanceOf] at raised
        cases raised
      · rw [if_neg instanceOf] at raised
        cases raised
        rw [if_neg instanceOf,if_neg instanceOf]
        simp only [inSwitch,inGoto]
        refine ⟨_,_,s'',handler,rfl,fun dexPc visited => ?_,rfl⟩
        rw [exit] at visited
        split at visited <;> simp at visited
  · rw [if_neg checked] at raised
    cases raised

theorem step_agree (doAccessCheck miniTrace : Bool) (s : σ) (pc : BitVec 32)
    (fine : ¬ m.CatchesReturn doAccessCheck s pc) :
    Agree (fun a b => m.follow s pc = some a ∧ b = (a.1,a.2,a.2)) (m.switchStep doAccessCheck miniTrace (s,pc))
      (m.gotoStep doAccessCheck miniTrace (s,pc,pc)) := by
  refine Agree.after ?_ _
  cases opcode : m.opcode pc with
  | returnVoidNoBarrier | returnVoid | «return» | returnWide =>
    unfold switchInstruction gotoInstruction
    rw [opcode]
    exact .ending
  | returnObject =>
    unfold switchInstruction gotoInstruction
    rw [opcode]
    refine m.returnObject_agree doAccessCheck s pc fun s' raised => ?_
    by_contra caught
    exact fine ⟨opcode,s',raised,caught⟩
  | other =>
    cases followed : m.follow s pc with
    | none =>
      obtain ⟨reports,inSwitch,inGoto⟩ := m.unfollowed_step doAccessCheck s pc opcode followed
      rw [inSwitch,inGoto]
      exact .ending
    | some next =>
      obtain ⟨inSwitch,inGoto⟩ := m.follow_step doAccessCheck s next.1 pc next.2 followed
      rw [inSwitch,inGoto]
      exact .next ⟨rfl,rfl⟩

theorem observe_visits (doAccessCheck : Bool) (s : σ) (inst dexPc : BitVec 32) (n : Nat) :
    .visitPc dexPc ∈ (observe (m.gotoStep doAccessCheck true) (s,inst,dexPc) (n + 1)).1 := by
  have first : .visitPc dexPc ∈ (m.gotoStep doAccessCheck true (s,inst,dexPc)).reports :=
    List.mem_append_left _ (List.mem_singleton_self _)
  rcases taken : m.gotoStep doAccessCheck true (s,inst,dexPc) with ⟨reports,next | ending⟩
  · rw [taken] at first
    rw [observe_next taken]
    exact List.mem_append_left _ first
  · rw [taken] at first
    rw [observe_end taken]
    exact first

theorem caught_return_seen (doAccessCheck : Bool) (s : σ) (pc : BitVec 32)
    (catches : m.CatchesReturn doAccessCheck s pc) :
    ¬ SameBehaviour (observe (m.switchStep doAccessCheck true) (s,pc))
      (observe (m.gotoStep doAccessCheck true) (s,pc,pc)) := by
  intro same
  obtain ⟨opcode,s',raised,caught⟩ := catches
  obtain ⟨reports,ending,s'',handler,inSwitch,unvisited,inGoto⟩ :=
    m.returnObject_caught doAccessCheck s s' pc raised caught
  have ends : m.switchStep doAccessCheck true (s,pc) = ⟨.visitPc pc :: reports,.inr ending⟩ := by
    rw [switchStep,switchInstruction,opcode]
    dsimp only
    rw [inSwitch]
    rfl
  have continues : m.gotoStep doAccessCheck true (s,pc,pc) = ⟨[.visitPc pc],.inl (s'',handler,handler)⟩ := by
    rw [gotoStep,gotoInstruction,opcode]
    dsimp only
    rw [inGoto]
    rfl
  obtain ⟨k,shown⟩ := same.ends ends
  cases k with
  | zero => cases shown
  | succ k =>
    rw [observe_next continues] at shown
    cases k with
    | zero => cases shown
    | succ k =>
      have later : (observe (m.gotoStep doAccessCheck true) (s'',handler,handler) (k + 1)).1 = reports :=
        (List.cons.inj (congrArg Prod.fst shown)).2
      exact unvisited handler (later ▸ m.observe_visits doAccessCheck s'' handler handler k)

/-- For every method, frame and meaning of the other instructions: the interpreters report the same and end in the
same way, marked or not, exactly when the method comes to no return whose exception it catches. -/
theorem interpreters_agree_iff (doAccessCheck : Bool) (s : σ) (dexPc : BitVec 32) :
    (∀ miniTrace, SameBehaviour (m.executeSwitchImpl doAccessCheck miniTrace s dexPc)
        (m.executeGotoImpl doAccessCheck miniTrace s dexPc)) ↔
      ∀ s' pc', m.Reaches s dexPc s' pc' → ¬ m.CatchesReturn doAccessCheck s' pc' := by
  constructor
  · intro agree s' pc' reached catches
    have initial := (sameBehaviour_prepend _ _ _).mp (agree true)
    refine m.caught_return_seen doAccessCheck s' pc' catches ?_
    clear catches
    induction reached with
    | start => exact initial
    | @next s' s'' pc' pc'' reached followed ih =>
      obtain ⟨inSwitch,inGoto⟩ := m.follow_step doAccessCheck s' s'' pc' pc'' followed
      have first : m.switchStep doAccessCheck true (s',pc') = ⟨[.visitPc pc'],.inl (s'',pc'')⟩ := by
        rw [switchStep,inSwitch]
        rfl
      have second : m.gotoStep doAccessCheck true (s',pc',pc') = ⟨[.visitPc pc'],.inl (s'',pc'',pc'')⟩ := by
        rw [gotoStep,inGoto]
        rfl
      exact ih.after_step first second
  · intro fine miniTrace
    refine (sameBehaviour_prepend _ _ _).mpr (sameBehaviour_of_eq fun n => ?_)
    refine observe_eq_of_agree (fun a b => m.Reaches s dexPc a.1 a.2 ∧ b = (a.1,a.2,a.2)) ?_ n _ _ ⟨.start,rfl⟩
    rintro ⟨s',pc'⟩ _ ⟨reached,rfl⟩
    refine (m.step_agree doAccessCheck miniTrace s' pc' (fine s' pc' reached)).mono ?_
    rintro ⟨s'',pc''⟩ _ ⟨followed,rfl⟩
    exact ⟨.next reached followed,rfl⟩

end Method

/-- `return-object` at 0 with a handler at 1 for everything, which moves the exception and returns. -/
def returningWrongObject : Method Bool where
  opcode | 0 => .returnObject | 2 => .returnVoid | _ => .other
  execute _ _ := (false,some 1)
  getVReg _ _ := 0
  getVRegLong _ _ := 0
  getVRegReference _ _ := 16
  getReturnType pending := (pending,some 8)
  verifierInstanceOf _ _ _ := false
  throwVirtualMachineError _ := true
  findCatchBlock pending dexPc := (pending,if dexPc = 0 then 1 else kDexNoIndex,false)
  clearException _ := false
  hasMethodEntryListeners _ := true
  hasMethodExitListeners _ := true
  hasMethodUnwindListeners _ := true

/-- The switch returns the object with an exit event at the handler, which only the handler tables run. -/
theorem return_exception_seen :
    returningWrongObject.executeSwitchImpl true true false 0 3 =
      ([.methodEntered,.visitPc 0,.methodExited 1 16],some (.returned 16)) ∧
    returningWrongObject.executeGotoImpl true true false 0 3 =
      ([.methodEntered,.visitPc 0,.visitPc 1,.visitPc 2,.methodExited 2 0],some (.returned 0)) ∧
    ¬ SameBehaviour (returningWrongObject.executeSwitchImpl true true false 0)
      (returningWrongObject.executeGotoImpl true true false 0) := by
  refine ⟨by decide,by decide,fun same => ?_⟩
  obtain ⟨k,continues⟩ := same.1 3
  have shown : returningWrongObject.executeSwitchImpl true true false 0 3 =
      ([.methodEntered,.visitPc 0,.methodExited 1 16],some (.returned 16)) := by decide
  rw [shown] at continues
  rcases continues with shown | ⟨unfinished,-⟩
  · match k with
    | 0 | 1 | 2 => revert shown; decide
    | k + 3 =>
      have late : returningWrongObject.executeGotoImpl true true false 0 (k + 3) =
        ([.methodEntered,.visitPc 0,.visitPc 1,.visitPc 2,.methodExited 2 0],some (.returned 0)) := rfl
      rw [late] at shown
      revert shown
      decide
  · cases unfinished

end Aatt
